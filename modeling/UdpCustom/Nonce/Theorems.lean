import UdpCustom.Nonce
import Mathlib.Data.List.Nodup

namespace UdpCustom.Nonce

open UdpCustom.Frame UdpCustom.Receive Transition

-- Every number in use: drawn and not yet sealed, or sealed.
def numbers (s : State) : List ℕ :=
  s.drawn.map (·.packetNo) ++ s.sealedRecords.map (·.packetNo)

structure Inv (s : State) : Prop where
  counter : s.sendPacketNo = (s.start + s.draws) % packetNoSpace
  draws_le : s.draws ≤ packetNoSpace
  indexed : ∀ n ∈ numbers s, ∃ i, 0 < i ∧ i ≤ s.draws ∧ n = (s.start + i) % packetNoSpace
  nodup : (numbers s).Nodup
  sealed_ne : ∀ f ∈ s.sealedRecords, f.packetNo ≠ 0

-- Within one turn of the counter two draws give two numbers.
theorem draw_index_injective {start i j : ℕ} (hij : i < j) (hj : j < i + packetNoSpace) :
    (start + i) % packetNoSpace ≠ (start + j) % packetNoSpace := by
  unfold packetNoSpace at *
  omega

theorem inv_drawNo {s : State} (hinv : Inv s) (f : UDPCFrame) (inClose : Bool)
    (hroom : s.draws < packetNoSpace) : Inv (drawNo s f inClose) := by
  have hno : (s.sendPacketNo + 1) % packetNoSpace =
      (s.start + (s.draws + 1)) % packetNoSpace := by
    rw [hinv.counter, Nat.mod_add_mod, Nat.add_assoc]
  have hnumbers : numbers (drawNo s f inClose) =
      (s.sendPacketNo + 1) % packetNoSpace :: numbers s := rfl
  refine ⟨hno, hroom, ?_, ?_, hinv.sealed_ne⟩
  · rw [hnumbers]
    intro n hn
    rcases List.mem_cons.1 hn with rfl | hn
    · exact ⟨s.draws + 1, Nat.succ_pos _, Nat.le_refl _, hno⟩
    · obtain ⟨i, hpos, hle, heq⟩ := hinv.indexed n hn
      exact ⟨i, hpos, Nat.le_succ_of_le hle, heq⟩
  · rw [hnumbers, List.nodup_cons]
    refine ⟨?_, hinv.nodup⟩
    intro hmem
    obtain ⟨i, hpos, hle, heq⟩ := hinv.indexed _ hmem
    rw [hno] at heq
    exact draw_index_injective (by omega) (by omega) heq.symm

-- Closing moves no number.
theorem inv_enterClose (cfg : Config) {s : State} (hinv : Inv s) : Inv (enterClose cfg s) := by
  unfold enterClose
  split
  · split
    · split_ifs <;> exact ⟨hinv.counter, hinv.draws_le, hinv.indexed, hinv.nodup, hinv.sealed_ne⟩
    · exact ⟨hinv.counter, hinv.draws_le, hinv.indexed, hinv.nodup, hinv.sealed_ne⟩
  · exact hinv
  · exact hinv

theorem inv_finish (cfg : Config) {s : State} {d : Drawn} (hinv : Inv s) (hd : d ∈ s.drawn) :
    Inv (finish cfg s d) := by
  have hperm : (numbers s).Perm (d.packetNo :: ((s.drawn.erase d).map (·.packetNo) ++
      s.sealedRecords.map (·.packetNo))) :=
    ((List.perm_cons_erase hd).map _).append_right _
  have hnodup := hperm.nodup_iff.1 hinv.nodup
  have hdropped : Inv { s with drawn := s.drawn.erase d } := by
    refine ⟨hinv.counter, hinv.draws_le, ?_, hnodup.of_cons, hinv.sealed_ne⟩
    intro n hn
    exact hinv.indexed n (hperm.mem_iff.2 (List.mem_cons_of_mem _ hn))
  -- the number moves from the goroutine to the sealed record
  have hmoved : (d.packetNo :: ((s.drawn.erase d).map (·.packetNo) ++
      s.sealedRecords.map (·.packetNo))).Perm ((s.drawn.erase d).map (·.packetNo) ++
      d.packetNo :: s.sealedRecords.map (·.packetNo)) := List.perm_middle.symm
  have hsealed : d.packetNo ≠ 0 → ∀ once, Inv { s with
      drawn := s.drawn.erase d
      sealedRecords := { d.frame with packetNo := d.packetNo } :: s.sealedRecords
      closeOnce := once } := by
    intro hne once
    refine ⟨hinv.counter, hinv.draws_le, ?_, hmoved.nodup_iff.1 hnodup, ?_⟩
    · intro n hn
      exact hinv.indexed n (hperm.mem_iff.2 (hmoved.mem_iff.2 hn))
    · intro f hf
      rcases List.mem_cons.1 hf with rfl | hf
      · exact hne
      · exact hinv.sealed_ne f hf
  by_cases hzero : d.packetNo = 0
  · simp only [finish, hzero, if_true]
    split_ifs
    · exact hdropped
    · exact inv_enterClose cfg hdropped
  · simp only [finish, hzero, if_false]
    exact hsealed hzero _

theorem inv_step {cfg : Config} {s s' : State} {l : Label} (hinv : Inv s) (hok : WithinSpace s l)
    (hst : next cfg s l = some s') : Inv s' := by
  cases l with
  | draw f =>
      cases hst
      exact inv_drawNo hinv f false hok
  | drawFin =>
      simp only [next] at hst
      split_ifs at hst
      cases hst
      refine inv_drawNo ?_ _ _ hok
      exact ⟨hinv.counter, hinv.draws_le, hinv.indexed, hinv.nodup, hinv.sealed_ne⟩
  | finish d =>
      simp only [next] at hst
      split_ifs at hst with hd
      cases hst
      exact inv_finish cfg hinv hd
  | close =>
      cases hst
      exact inv_enterClose cfg hinv

theorem inv_initial {start : ℕ} (h : start < packetNoSpace) : Inv (initial start) := by
  refine ⟨?_, Nat.zero_le _, ?_, List.nodup_nil, ?_⟩
  · exact (Nat.mod_eq_of_lt h).symm
  · simp [numbers, initial]
  · simp [initial]

-- As long as no more numbers are drawn than there are, no two records are
-- sealed under one number and none under zero.
theorem packetNo_unique_within_space (cfg : Config) {s : State}
    (h : ReachableBy (system cfg) WithinSpace s) :
    (s.sealedRecords.map (·.packetNo)).Nodup ∧ ∀ f ∈ s.sealedRecords, f.packetNo ≠ 0 := by
  have hinv : Inv s := by
    refine h.invariant (I := Inv) ?_ fun _ _ _ hinv hok hst => inv_step hinv hok hst
    rintro _ ⟨start, hstart, rfl⟩
    exact inv_initial hstart
  exact ⟨(List.nodup_append.1 hinv.nodup).2.1, hinv.sealed_ne⟩

def sampleClient : Config where
  role := .client
  hasConn := true
  magic := 0x55445043
  sessionID := 7

def pingFrame (cfg : Config) : UDPCFrame :=
  { finFrame cfg with cmd := .ping }

-- The end after `n` keepalives from a counter that started at zero.
def afterPings (cfg : Config) (n : ℕ) : State where
  sendPacketNo := n
  drawn := []
  closeOnce := .idle
  finDue := false
  sealedRecords := (List.range n).reverse.map fun i => { pingFrame cfg with packetNo := i + 1 }
  start := 0
  draws := n

theorem reachable_afterPings (cfg : Config) (n : ℕ) (hn : n < packetNoSpace) :
    ReachableBy (system cfg) WithinSpace (afterPings cfg n) := by
  induction n with
  | zero => exact .init ⟨0, hn, rfl⟩
  | succ n ih =>
      have hno : (n + 1) % packetNoSpace = n + 1 := Nat.mod_eq_of_lt hn
      have hdraw : ReachableBy (system cfg) WithinSpace
          (drawNo (afterPings cfg n) (pingFrame cfg) false) :=
        .step (l := .draw (pingFrame cfg)) (ih (by omega))
          (by simp only [WithinSpace, afterPings]; omega) rfl
      refine .step (l := .finish ⟨n + 1, pingFrame cfg, false⟩) hdraw trivial ?_
      simp [system, next, drawNo, finish, afterPings, hno, List.range_succ]

theorem first_ping_sealed (cfg : Config) {n : ℕ} (hn : 0 < n) :
    { pingFrame cfg with packetNo := 1 } ∈ (afterPings cfg n).sealedRecords := by
  refine List.mem_map.2 ⟨0, ?_, rfl⟩
  rw [List.mem_reverse, List.mem_range]
  exact hn

-- Two keepalives.
theorem two_pings_unique :
    (((afterPings sampleClient 2).sealedRecords.map (·.packetNo)).Nodup ∧
      ∀ f ∈ (afterPings sampleClient 2).sealedRecords, f.packetNo ≠ 0) :=
  packetNo_unique_within_space sampleClient (reachable_afterPings sampleClient 2 (by decide))

-- At the end of the space one more record draws zero, and the teardown that
-- starts draws number 1 for its FIN.
theorem fin_after_exhaustion (cfg : Config) (hrole : cfg.role = .client)
    (hconn : cfg.hasConn = true) {s : State} (h : Reachable (system cfg) s)
    (hno : s.sendPacketNo = packetNoSpace - 1) (hdrawn : s.drawn = [])
    (hidle : s.closeOnce = .idle) :
    ∃ s', Reachable (system cfg) s' ∧ s'.start = s.start ∧
      s'.sealedRecords = { finFrame cfg with packetNo := 1 } :: s.sealedRecords := by
  have hwrap : (packetNoSpace - 1 + 1) % packetNoSpace = 0 := by decide
  have hone : 1 % packetNoSpace = 1 := by decide
  have hrun : (system cfg).run s [.draw (pingFrame cfg), .finish ⟨0, pingFrame cfg, false⟩, .drawFin,
      .finish ⟨1, finFrame cfg, true⟩] = some { s with
        sendPacketNo := 1
        drawn := []
        closeOnce := .done
        finDue := false
        sealedRecords := { finFrame cfg with packetNo := 1 } :: s.sealedRecords
        draws := s.draws + 1 + 1 } := by
    simp [System.runBy, system, next, drawNo, finish, enterClose, hno, hdrawn, hidle, hrole, hconn,
      hwrap, hone]
  exact ⟨_, h.run hrun, rfl, rfl⟩

-- From a counter that starts at zero, the FIN of the teardown and the first
-- keepalive are sealed under the same number.
theorem exhaustion_reuses_packetNo :
    ∃ s f g, Reachable (system sampleClient) s ∧ s.start = 0 ∧ f ∈ s.sealedRecords ∧
      g ∈ s.sealedRecords ∧ f ≠ g ∧ f.packetNo = g.packetNo := by
  have hpings := (reachable_afterPings sampleClient (packetNoSpace - 1) (by decide)).reachable
  obtain ⟨s, hs, hstart, hsealed⟩ := fin_after_exhaustion sampleClient rfl rfl hpings rfl rfl rfl
  have hping := first_ping_sealed sampleClient (show 0 < packetNoSpace - 1 by decide)
  refine ⟨s, { finFrame sampleClient with packetNo := 1 },
    { pingFrame sampleClient with packetNo := 1 }, hs, hstart, ?_, ?_, by decide, rfl⟩
  · rw [hsealed]
    exact List.mem_cons_self
  · rw [hsealed]
    exact List.mem_cons_of_mem _ hping

end UdpCustom.Nonce
