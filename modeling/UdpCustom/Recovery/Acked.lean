import UdpCustom.Fec.Loss
import UdpCustom.Lib.Transition
import UdpCustom.Receive
import UdpCustom.Recovery.Machine
import UdpCustom.Recovery.Repair
import UdpCustom.Rtt

-- `handleAck` of the client and of the server as the loops they are, next to the
-- one pump that numbers and files records.
namespace UdpCustom.Recovery.Acked

open UdpCustom.Frame UdpCustom.Flow UdpCustom.Fec UdpCustom.Rtt UdpCustom.Receive Transition

variable {seqs : List ℕ}

-- What `handleAck` reads and writes. `fecSend` is the loss estimate of a session
-- with FEC.
structure Books where
  outstanding : Outstanding
  rttEst : RttEstimator
  fecSend : Option AdaptiveLoss

-- The variables of the loop over the acknowledged sequences.
structure Loop where
  unacked : SeqMap UnackedPkt
  flow : Option SendFlow
  fecSend : Option AdaptiveLoss
  spurious : Bool
  acknowledged : ℕ

def Loop.observeAck (p : UnackedPkt) (l : Loop) : Loop :=
  { l with fecSend := l.fecSend.map (·.observeAck (0 < p.retries)) }

def Loop.undoIfSpurious (p : UnackedPkt) (now srtt : ℕ) (l : Loop) : Loop :=
  match l.flow with
  | none => l
  | some f =>
    if l.spurious then l
    else
      let undone := Recovery.undoIfSpurious f p now srtt
      { l with spurious := undone.1, flow := some undone.2 }

-- The client looks the sequence up for each use and deletes it in any case.
def clientTurn (now srtt : ℕ) (l : Loop) (seq : ℕ) : Loop :=
  let l := match l.unacked.lookup seq with
    | none => l
    | some p => l.observeAck p
  let l := match l.unacked.lookup seq with
    | none => l
    | some p => l.undoIfSpurious p now srtt
  let l := if (l.unacked.lookup seq).isSome then { l with acknowledged := l.acknowledged + 1 } else l
  { l with unacked := l.unacked.erase seq }

def serverTurn (now srtt : ℕ) (l : Loop) (seq : ℕ) : Loop :=
  match l.unacked.lookup seq with
  | none => l
  | some p =>
    let l := (l.observeAck p).undoIfSpurious p now srtt
    { l with acknowledged := l.acknowledged + 1, unacked := l.unacked.erase seq }

def turn : Role → ℕ → ℕ → Loop → ℕ → Loop
  | .client => clientTurn
  | .server => serverTurn

-- Karn's rule: only a record sent once gives a sample.
def Books.sample (b : Books) (ackSeq now : ℕ) : Option ℤ :=
  (b.outstanding.unacked.lookup ackSeq).bind fun p =>
    if p.retries = 0 ∧ p.queued = false then some ((now : ℤ) - p.firstSent) else none

def Books.sampledRTT (b : Books) (ackSeq now : ℕ) : RttEstimator :=
  (b.sample ackSeq now).elim b.rttEst b.rttEst.sample

def Books.sampledFlow (b : Books) (ackSeq now : ℕ) : Option SendFlow :=
  (b.sample ackSeq now).elim b.outstanding.flow fun sample =>
    b.outstanding.flow.map (·.observeRTT sample.toNat)

-- `next` is what was loaded from `sendSeq`.
def Books.handleAck (role : Role) (b : Books) (next ackSeq now : ℕ) : Books :=
  let o := b.outstanding
  if 0 < next ∧ next ≤ ackSeq then b
  else if SeqMap.size o.unacked = 0 ∨ ackSeq < o.lowestOutstanding then b
  else
    let rttEst := b.sampledRTT ackSeq now
    let covered := List.range' o.lowestOutstanding (ackSeq + 1 - o.lowestOutstanding)
    let l := covered.foldl (turn role now rttEst.smoothed.toNat)
      ⟨o.unacked, b.sampledFlow ackSeq now, b.fecSend, false, 0⟩
    { outstanding :=
        { unacked := l.unacked
          lowestOutstanding :=
            if SeqMap.size l.unacked = 0 then ackSeq + 1
            else if ackSeq + 1 ∈ l.unacked then ackSeq + 1
            else (SeqMap.ascending l.unacked).headD (2 ^ 64 - 1)
          flow := l.flow.map (·.acknowledged l.acknowledged) }
      rttEst := rttEst
      fecSend := l.fecSend }

theorem unacked_undoIfSpurious (p : UnackedPkt) (now srtt : ℕ) (l : Loop) :
    (l.undoIfSpurious p now srtt).unacked = l.unacked ∧
      (l.undoIfSpurious p now srtt).acknowledged = l.acknowledged := by
  unfold Loop.undoIfSpurious
  split
  · exact ⟨rfl, rfl⟩
  · split <;> exact ⟨rfl, rfl⟩

theorem clientTurn_eq (now srtt : ℕ) (l : Loop) (seq : ℕ) :
    clientTurn now srtt l seq = serverTurn now srtt l seq := by
  unfold clientTurn serverTurn
  cases hp : l.unacked.lookup seq with
  | none =>
      have hnone : seq ∉ l.unacked := Finmap.lookup_eq_none.1 hp
      simp [hp, SeqMap.erase_of_notMem hnone]
  | some p =>
      have hobserved : (l.observeAck p).unacked.lookup seq = some p := hp
      have hundone : ((l.observeAck p).undoIfSpurious p now srtt).unacked = l.unacked :=
        (unacked_undoIfSpurious p now srtt (l.observeAck p)).1
      simp [hobserved, hundone, hp]

theorem turn_eq (role : Role) : turn role = serverTurn := by
  cases role with
  | client =>
      funext now srtt l seq
      exact clientTurn_eq now srtt l seq
  | server => rfl

theorem retract_congr {m m' : SeqMap UnackedPkt}
    (h : ∀ seq ∈ seqs, m.lookup seq = m'.lookup seq) (now srtt : ℕ) (f : SendFlow) :
    retract m now srtt seqs f = retract m' now srtt seqs f := by
  induction seqs generalizing f with
  | nil => rfl
  | cons seq rest ih =>
      have hrest := ih fun k hk => h k (List.mem_cons_of_mem _ hk)
      unfold retract
      rw [h seq List.mem_cons_self]
      cases m'.lookup seq with
      | none => exact hrest f
      | some p =>
          dsimp only
          split
          · rfl
          · exact hrest _

-- What the loop comes to.
structure Loop.Ran (l : Loop) (now srtt : ℕ) (seqs : List ℕ) (l' : Loop) : Prop where
  unacked : l'.unacked = SeqMap.eraseAll l.unacked seqs
  acknowledged : l'.acknowledged = l.acknowledged + (seqs.filter (· ∈ l.unacked)).length
  flow : l'.flow = if l.spurious then l.flow else l.flow.map (retract l.unacked now srtt seqs)

theorem lookup_erase_of_notMem {m : SeqMap UnackedPkt} {seq : ℕ} (hseq : seq ∉ seqs) :
    ∀ k ∈ seqs, (m.erase seq).lookup k = m.lookup k := by
  intro k hk
  have hne : k ≠ seq := fun he => hseq (he ▸ hk)
  exact Finmap.lookup_erase_ne hne

theorem filter_mem_erase {m : SeqMap UnackedPkt} {seq : ℕ} (hseq : seq ∉ seqs) :
    seqs.filter (· ∈ m.erase seq) = seqs.filter (· ∈ m) := by
  refine List.filter_congr fun k hk => ?_
  have hne : k ≠ seq := fun he => hseq (he ▸ hk)
  simp [Finmap.mem_erase, hne]

theorem serverTurn_taken {l : Loop} {seq : ℕ} {p : UnackedPkt} (hp : l.unacked.lookup seq = some p)
    (now srtt : ℕ) :
    (serverTurn now srtt l seq).unacked = l.unacked.erase seq ∧
      (serverTurn now srtt l seq).acknowledged = l.acknowledged + 1 := by
  obtain ⟨hunacked, hcount⟩ := unacked_undoIfSpurious p now srtt (l.observeAck p)
  simp only [serverTurn, hp, hunacked, hcount]
  exact ⟨rfl, rfl⟩

-- The record of this turn is the first that may prove the cut spurious; the later
-- turns no longer find it, which changes nothing for them.
theorem serverTurn_flow {l : Loop} {seq : ℕ} {p : UnackedPkt} {rest : List ℕ}
    (hp : l.unacked.lookup seq = some p) (hseq : seq ∉ rest) (now srtt : ℕ) :
    (if (serverTurn now srtt l seq).spurious then (serverTurn now srtt l seq).flow
      else (serverTurn now srtt l seq).flow.map (retract (l.unacked.erase seq) now srtt rest)) =
      if l.spurious then l.flow else l.flow.map (retract l.unacked now srtt (seq :: rest)) := by
  cases hspurious : l.spurious with
  | true =>
      cases hf : l.flow <;>
        simp [serverTurn, hp, Loop.observeAck, Loop.undoIfSpurious, hf, hspurious]
  | false =>
      cases hf : l.flow with
      | none => simp [serverTurn, hp, Loop.observeAck, Loop.undoIfSpurious, hf]
      | some f =>
          simp only [serverTurn, hp, Loop.observeAck, Loop.undoIfSpurious, hf, hspurious,
            Bool.false_eq_true, if_false, Option.map_some, retract,
            retract_congr (lookup_erase_of_notMem hseq)]
          split <;> rfl

theorem foldl_turn (role : Role) (now srtt : ℕ) (hseqs : seqs.Nodup) (l : Loop) :
    l.Ran now srtt seqs (seqs.foldl (turn role now srtt) l) := by
  rw [turn_eq]
  induction seqs generalizing l with
  | nil =>
      refine ⟨rfl, rfl, ?_⟩
      cases l.spurious <;> simp [retract]
  | cons seq rest ih =>
      obtain ⟨hseq, hrest⟩ := List.nodup_cons.1 hseqs
      obtain ⟨hunacked, hcount, hflow⟩ := ih hrest (serverTurn now srtt l seq)
      rw [List.foldl_cons]
      generalize rest.foldl (serverTurn now srtt) (serverTurn now srtt l seq) = l' at *
      cases hp : l.unacked.lookup seq with
      | none =>
          have hnone : seq ∉ l.unacked := Finmap.lookup_eq_none.1 hp
          have hturn : serverTurn now srtt l seq = l := by simp [serverTurn, hp]
          rw [hturn] at hunacked hcount hflow
          refine ⟨?_, ?_, ?_⟩
          · rw [hunacked, SeqMap.eraseAll, SeqMap.eraseAll, List.foldl_cons,
              SeqMap.erase_of_notMem hnone]
          · rw [hcount, List.filter_cons_of_neg (by simpa using hnone)]
          · rw [hflow]
            simp only [retract, hp]
      | some p =>
          have hmem : seq ∈ l.unacked := Finmap.mem_iff.2 ⟨p, hp⟩
          obtain ⟨hturned, hcounted⟩ := serverTurn_taken hp now srtt
          rw [hturned] at hunacked hcount hflow
          refine ⟨hunacked, ?_, ?_⟩
          · rw [hcount, hcounted, filter_mem_erase hseq,
              List.filter_cons_of_pos (by simpa using hmem), List.length_cons]
            omega
          · rw [hflow]
            exact serverTurn_flow hp hseq now srtt

theorem sampledFlow_eq (b : Books) (ackSeq now : ℕ) :
    b.sampledFlow ackSeq now = b.outstanding.flow.map fun f =>
      match b.outstanding.unacked.lookup ackSeq with
      | none => f
      | some p =>
        if p.retries = 0 ∧ p.queued = false then f.observeRTT (now - p.firstSent) else f := by
  unfold Books.sampledFlow Books.sample
  cases b.outstanding.unacked.lookup ackSeq with
  | none => simp
  | some p =>
      dsimp only [Option.bind_some]
      split
      · have hsince : ((now : ℤ) - p.firstSent).toNat = now - p.firstSent := by omega
        simp only [Option.elim_some, hsince]
      · simp

-- Both loops do what the closed form of the model says.
theorem outstanding_handleAck (role : Role) (b : Books) (next ackSeq now : ℕ) :
    (b.handleAck role next ackSeq now).outstanding =
      b.outstanding.handleAck next ackSeq now (b.sampledRTT ackSeq now).smoothed.toNat := by
  unfold Books.handleAck Outstanding.handleAck
  dsimp only
  split
  · rfl
  · split
    · rfl
    · obtain ⟨hunacked, hcount, hflow⟩ := foldl_turn role now
        (b.sampledRTT ackSeq now).smoothed.toNat
        (List.nodup_range' (s := b.outstanding.lowestOutstanding)
          (n := ackSeq + 1 - b.outstanding.lowestOutstanding))
        ⟨b.outstanding.unacked, b.sampledFlow ackSeq now, b.fecSend, false, 0⟩
      dsimp only at hunacked hcount hflow ⊢
      rw [hunacked, hcount, hflow, sampledFlow_eq, Nat.zero_add]
      simp only [Bool.false_eq_true, if_false, Option.map_map]
      rfl

-- An Ack that gets past the early returns.
def Books.Covers (b : Books) (next ackSeq : ℕ) : Prop :=
  ackSeq < next ∧ SeqMap.size b.outstanding.unacked ≠ 0 ∧ b.outstanding.lowestOutstanding ≤ ackSeq

instance (b : Books) (next ackSeq : ℕ) : Decidable (b.Covers next ackSeq) := by
  unfold Books.Covers
  infer_instance

-- The flow that `acknowledged` is called on: sampled, and with a spurious cut undone.
def Books.undoneFlow (b : Books) (ackSeq now : ℕ) : Option SendFlow :=
  (b.sampledFlow ackSeq now).map (retract b.outstanding.unacked now
    (b.sampledRTT ackSeq now).smoothed.toNat
    (List.range' b.outstanding.lowestOutstanding (ackSeq + 1 - b.outstanding.lowestOutstanding)))

-- `acknowledged` gets the number of records that are taken off.
theorem flow_handleAck (role : Role) (b : Books) {next : ℕ} (hnext : 0 < next) (ackSeq now : ℕ) :
    (b.handleAck role next ackSeq now).outstanding.flow =
      if b.Covers next ackSeq then
        (b.undoneFlow ackSeq now).map (·.acknowledged (SeqMap.size b.outstanding.unacked -
          SeqMap.size (b.handleAck role next ackSeq now).outstanding.unacked))
      else b.outstanding.flow := by
  by_cases hcovers : b.Covers next ackSeq
  · rw [if_pos hcovers]
    obtain ⟨hsent, hsome, hlow⟩ := hcovers
    have hnodup := List.nodup_range' (s := b.outstanding.lowestOutstanding)
      (n := ackSeq + 1 - b.outstanding.lowestOutstanding)
    obtain ⟨hunacked, hcount, hflow⟩ := foldl_turn role now
      (b.sampledRTT ackSeq now).smoothed.toNat hnodup
      ⟨b.outstanding.unacked, b.sampledFlow ackSeq now, b.fecSend, false, 0⟩
    have hsize := SeqMap.size_eraseAll hnodup b.outstanding.unacked
    unfold Books.handleAck
    rw [if_neg (by omega), if_neg (by omega)]
    dsimp only at hunacked hcount hflow ⊢
    rw [hunacked, hcount, hflow, ← hsize, Nat.add_sub_cancel_left, Nat.zero_add]
    rfl
  · rw [if_neg hcovers]
    unfold Books.Covers at hcovers
    unfold Books.handleAck
    dsimp only
    split
    · rfl
    · rw [if_pos (by omega)]

-- An Ack below what was sent takes off all it covers, and any other Ack nothing.
theorem lookup_plain {o : Outstanding} (h : o.Lowest) {next : ℕ} (hnext : 0 < next)
    (ackSeq now srtt seq : ℕ) :
    (o.handleAck next ackSeq now srtt).unacked.lookup seq =
      if ackSeq < next ∧ seq ≤ ackSeq then none else o.unacked.lookup seq := by
  split
  · rename_i hcovered
    exact Finmap.lookup_eq_none.2 (notMem_handleAck h now srtt hcovered.1 hcovered.2)
  · rename_i hnot
    rcases lookup_handleAck o next ackSeq now srtt seq with hsame | ⟨hle, hnone⟩
    · exact hsame
    · have hbeyond : next ≤ ackSeq := by omega
      rw [Outstanding.handleAck, if_pos ⟨hnext, hbeyond⟩]

-- `unfiled` is the sequence the pump has taken and not filed yet.
structure State where
  sendSeq : ℕ
  unfiled : Option ℕ
  books : Books

-- An Ack is handled with any value that `sendSeq` has had: the load comes before
-- the lock.
inductive Label
  | number
  | unsealed
  | file (wire : UDPCFrame) (now rto : ℕ)
  | handleAck (next ackSeq now : ℕ)
  | markTransmitted (wires : List UDPCFrame) (now : ℕ)
  | updateSACK (frame : UDPCFrame) (highest now rtt : ℕ)
  | retryDue (now maximumRTO rtt bdp : ℕ)

def State.withOutstanding (s : State) (o : Outstanding) : State :=
  { s with books := { s.books with outstanding := o } }

def next (role : Role) (s : State) : Label → Option State
  | .number =>
    if s.unfiled = none then some { s with sendSeq := s.sendSeq + 1, unfiled := some s.sendSeq }
    else none
  | .unsealed => if s.unfiled = none then none else some { s with unfiled := none }
  | .file wire now rto =>
    if s.unfiled = some wire.seq then
      some { s.withOutstanding (s.books.outstanding.file wire now rto) with unfiled := none }
    else none
  | .handleAck next ackSeq now =>
    if 0 < next ∧ next ≤ s.sendSeq then
      some { s with books := s.books.handleAck role next ackSeq now }
    else none
  | .markTransmitted wires now =>
    some (s.withOutstanding (s.books.outstanding.markTransmitted wires now))
  | .updateSACK frame highest now rtt =>
    some (s.withOutstanding (s.books.outstanding.updateSACK frame highest now rtt).2)
  | .retryDue now maximumRTO rtt bdp =>
    some (s.withOutstanding (s.books.outstanding.retryDue now maximumRTO rtt bdp).2)

def system (role : Role) : System State Label where
  init s := s.sendSeq = 1 ∧ s.unfiled = none ∧ ∃ flow, s.books.outstanding = .new flow
  next := next role

structure State.Inv (s : State) : Prop where
  lowest : s.books.outstanding.Lowest
  below : ∀ seq ∈ s.books.outstanding.unacked, ∀ n ∈ s.unfiled, seq < n
  sent : ∀ seq ∈ s.books.outstanding.unacked, seq < s.sendSeq
  unfiled : ∀ n ∈ s.unfiled, n < s.sendSeq

-- Bookkeeping that files nothing and moves no watermark above a record.
theorem State.Inv.withOutstanding {s : State} {o : Outstanding} (hinv : s.Inv) (hlowest : o.Lowest)
    (hold : ∀ seq ∈ o.unacked, seq ∈ s.books.outstanding.unacked) :
    (s.withOutstanding o).Inv :=
  ⟨hlowest, fun seq hseq => hinv.below seq (hold seq hseq),
    fun seq hseq => hinv.sent seq (hold seq hseq), hinv.unfiled⟩

theorem lowest_file {o : Outstanding} (h : o.Lowest) {wire : UDPCFrame}
    (hnew : ∀ seq ∈ o.unacked, seq < wire.seq) (now rto : ℕ) : (o.file wire now rto).Lowest := by
  intro seq hseq
  unfold Outstanding.file at hseq ⊢
  dsimp only at hseq ⊢
  split
  · rename_i hempty
    rcases (Finmap.mem_insert ..).1 hseq with rfl | hold
    · exact Nat.le_refl _
    · exact absurd hempty (Finset.card_ne_zero_of_mem (Finmap.mem_keys.2 hold))
  · rename_i hsome
    rcases (Finmap.mem_insert ..).1 hseq with rfl | hold
    · obtain ⟨k, hk⟩ := Finset.card_ne_zero.1 hsome
      have hk := Finmap.mem_keys.1 hk
      exact (h k hk).trans (hnew k hk).le
    · exact h seq hold

theorem inv_next {role : Role} {s s' : State} {l : Label} (hinv : s.Inv)
    (hst : next role s l = some s') : s'.Inv := by
  cases l with
  | number =>
      obtain ⟨_, ⟨⟩⟩ := Option.ite_none_right_eq_some.1 hst
      refine ⟨hinv.lowest, ?_, fun seq hseq => Nat.lt_succ_of_lt (hinv.sent seq hseq), ?_⟩
      · intro seq hseq n hn
        exact Option.some.inj hn ▸ hinv.sent seq hseq
      · intro n hn
        exact Option.some.inj hn ▸ Nat.lt_succ_self s.sendSeq
  | unsealed =>
      obtain ⟨_, ⟨⟩⟩ := Option.ite_none_left_eq_some.1 hst
      exact ⟨hinv.lowest, (fun seq _ n hn => by cases hn), hinv.sent, (fun n hn => by cases hn)⟩
  | file wire now rto =>
      obtain ⟨htaken, ⟨⟩⟩ := Option.ite_none_right_eq_some.1 hst
      refine ⟨lowest_file hinv.lowest (fun seq hseq => hinv.below seq hseq _ htaken) now rto,
        (fun seq _ n hn => by cases hn), ?_, (fun n hn => by cases hn)⟩
      intro seq hseq
      rcases (Finmap.mem_insert ..).1 hseq with rfl | hold
      · exact hinv.unfiled _ htaken
      · exact hinv.sent seq hold
  | handleAck next ackSeq now =>
      obtain ⟨_, ⟨⟩⟩ := Option.ite_none_right_eq_some.1 hst
      have hbooks := outstanding_handleAck role s.books next ackSeq now
      have hold : ∀ seq ∈ (s.books.handleAck role next ackSeq now).outstanding.unacked,
          seq ∈ s.books.outstanding.unacked := by
        rw [hbooks]
        intro seq hseq
        obtain ⟨p, hp⟩ := Finmap.mem_iff.1 hseq
        exact Finmap.mem_iff.2 ⟨p, lookup_of_handleAck hp⟩
      refine ⟨?_, fun seq hseq => hinv.below seq (hold seq hseq),
        fun seq hseq => hinv.sent seq (hold seq hseq), hinv.unfiled⟩
      rw [hbooks]
      exact lowest_handleAck hinv.lowest _ _ _ _
  | markTransmitted wires now =>
      cases hst
      have hkept := markTransmitted_kept s.books.outstanding wires now
      exact hinv.withOutstanding (hinv.lowest.kept hkept rfl) fun seq => hkept.mem_iff.1
  | updateSACK frame highest now rtt =>
      cases hst
      have hkept := updateSACK_kept s.books.outstanding frame highest now rtt
      exact hinv.withOutstanding (lowest_updateSACK hinv.lowest frame highest now rtt)
        fun seq => hkept.mem_iff.1
  | retryDue now maximumRTO rtt bdp =>
      cases hst
      have hkept := retryDue_kept s.books.outstanding now maximumRTO rtt bdp
      exact hinv.withOutstanding (lowest_retryDue hinv.lowest now maximumRTO rtt bdp)
        fun seq => hkept.mem_iff.1

theorem inv_reachable {role : Role} {s : State} (h : Reachable (system role) s) : s.Inv := by
  refine h.invariant (I := State.Inv) ?_ fun s l s' hinv _ hst => inv_next hinv hst
  rintro s ⟨_, hunfiled, flow, hbooks⟩
  have hnone : ∀ seq, seq ∉ s.books.outstanding.unacked := by
    intro seq
    rw [hbooks]
    exact Finmap.notMem_empty
  refine ⟨fun seq hseq => absurd hseq (hnone seq), fun seq hseq => absurd hseq (hnone seq),
    fun seq hseq => absurd hseq (hnone seq), fun n hn => ?_⟩
  rw [hunfiled] at hn
  cases hn

theorem handleAck_role (b : Books) (next ackSeq now : ℕ) :
    b.handleAck .client next ackSeq now = b.handleAck .server next ackSeq now := by
  unfold Books.handleAck
  rw [turn_eq .client, turn_eq .server]

theorem next_role (s : State) (l : Label) : next .client s l = next .server s l := by
  cases l <;> simp only [next, handleAck_role]

theorem run_role (s : State) (labels : List Label) :
    (system .client).run s labels = (system .server).run s labels := by
  have hsystem : system .client = system .server := by
    unfold system
    rw [System.mk.injEq]
    exact ⟨rfl, funext fun s => funext (next_role s)⟩
  rw [hsystem]

theorem watermark_ack_plain (role : Role) {s : State} (h : Reachable (system role) s) :
    (∀ seq ∈ s.books.outstanding.unacked, s.books.outstanding.lowestOutstanding ≤ seq) ∧
    (∀ next ackSeq now, 0 < next → next ≤ s.sendSeq →
      (∀ seq, (s.books.handleAck role next ackSeq now).outstanding.unacked.lookup seq =
        if ackSeq < next ∧ seq ≤ ackSeq then none else s.books.outstanding.unacked.lookup seq) ∧
      (s.books.handleAck role next ackSeq now).outstanding.flow =
        if s.books.Covers next ackSeq then
          (s.books.undoneFlow ackSeq now).map (·.acknowledged
            (SeqMap.size s.books.outstanding.unacked -
              SeqMap.size (s.books.handleAck role next ackSeq now).outstanding.unacked))
        else s.books.outstanding.flow) ∧
    ∀ s₀ labels, (system .client).run s₀ labels = (system .server).run s₀ labels := by
  have hlowest := (inv_reachable h).lowest
  refine ⟨hlowest, fun next ackSeq now hnext _ => ⟨fun seq => ?_, ?_⟩, run_role⟩
  · rw [outstanding_handleAck]
    exact lookup_plain hlowest hnext ackSeq now _ seq
  · exact flow_handleAck role s.books hnext ackSeq now

def fresh : State where
  sendSeq := 1
  unfiled := none
  books := ⟨.new (some (newSendFlow 0 true true false)), newDefaultRTTEstimator, none⟩

theorem first_of_two_acknowledged :
    ∃ s, Reachable (system .client) s ∧ 1 ∈ s.books.outstanding.unacked ∧
      2 ∈ s.books.outstanding.unacked ∧
      (s.books.handleAck .client 3 1 0).outstanding.unacked.lookup 1 = none := by
  obtain ⟨s, hs, hfirst, hsecond, hsent⟩ := (system .client).exists_run
    (P := fun s => 1 ∈ s.books.outstanding.unacked ∧ 2 ∈ s.books.outstanding.unacked ∧
      s.sendSeq = 3) (s := fresh) ⟨rfl, rfl, _, rfl⟩
    [.number, .file (Machine.sampleRecord 1) 0 0, .number, .file (Machine.sampleRecord 2) 0 0]
    (by decide +kernel)
  have hplain := ((watermark_ack_plain .client hs).2.1 3 1 0 (by decide) hsent.ge).1 1
  exact ⟨s, hs, hfirst, hsecond, hplain.trans (if_pos (by decide))⟩

end UdpCustom.Recovery.Acked
