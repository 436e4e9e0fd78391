import UdpCustom.Link.Stream
import UdpCustom.Recovery.Repair
import UdpCustom.Sender.Theorems

-- A record marked as queued is neither repeated nor repaired. So it must not stay
-- marked when nothing is left that would send it.
namespace UdpCustom.Queued

open UdpCustom.Frame UdpCustom.Recovery UdpCustom.Sender Transition

-- The datagrams a step hands to the socket do not matter here: `run` goes on after
-- a failed send as after one that succeeded.
def system (cfg : Config) : System State Label where
  init := fun s => s = initial cfg
  next := fun s l => (next cfg s l).map Prod.fst

-- In the channel, in the batch being sent, or in the hands of `sendRecord`.
def OnItsWay (s : State) (wire : UDPCFrame) : Prop :=
  wire ∈ s.queue ∨ wire ∈ s.batch ∨ s.pump = .filed wire

instance (s : State) (wire : UDPCFrame) : Decidable (OnItsWay s wire) :=
  inferInstanceAs (Decidable (_ ∨ _ ∨ _))

structure Inv (cfg : Config) (s : State) : Prop where
  sender : Sender.Inv cfg s
  filed : ∀ seq p, s.outstanding.unacked.lookup seq = some p → p.wire.seq = seq ∧ p.wire.cmd = .data
  queued : s.closed = false → ∀ seq p, s.outstanding.unacked.lookup seq = some p →
    p.queued = true → OnItsWay s p.wire

variable {cfg : Config} {s s' : State} {l : Label} {out : List UDPCFrame}

-- A step that files nothing and clears no mark.
structure Moved (s s' : State) : Prop where
  repaired : ∃ wires, s.outstanding.Repaired s'.outstanding wires
  opened : s'.closed = false → s.closed = false
  onItsWay : s'.closed = false → ∀ wire, OnItsWay s wire → OnItsWay s' wire

theorem Moved.carried (houtstanding : s'.outstanding = s.outstanding) (hclosed : s'.closed = s.closed)
    (hway : ∀ wire, OnItsWay s wire → OnItsWay s' wire) : Moved s s' where
  repaired := ⟨[], houtstanding ▸ .refl _ _⟩
  opened := hclosed ▸ id
  onItsWay := fun _ => hway

theorem Moved.beside {wires : List UDPCFrame} (hrepaired : s.outstanding.Repaired s'.outstanding wires)
    (hclosed : s'.closed = s.closed) (hqueue : s'.queue = s.queue) (hbatch : s'.batch = s.batch)
    (hpump : s'.pump = s.pump) : Moved s s' where
  repaired := ⟨wires, hrepaired⟩
  opened := hclosed ▸ id
  onItsWay := fun _ wire hway => by rwa [OnItsWay, hqueue, hbatch, hpump]

-- A step of `sendRecord` that has nothing to submit.
theorem Moved.pumped (houtstanding : s'.outstanding = s.outstanding) (hclosed : s'.closed = s.closed)
    (hqueue : s'.queue = s.queue) (hbatch : s'.batch = s.batch)
    (hpump : ∀ wire, s.pump ≠ .filed wire) : Moved s s' := by
  refine .carried houtstanding hclosed fun wire hway => ?_
  rcases hway with hmem | hmem | hfiled
  · exact .inl (hqueue ▸ hmem)
  · exact .inr (.inl (hbatch ▸ hmem))
  · exact absurd hfiled (hpump wire)

-- A step that closes the session, or is only taken on a closed one.
theorem Moved.closed (houtstanding : s'.outstanding = s.outstanding) (hclosed : s'.closed = true) :
    Moved s s' where
  repaired := ⟨[], houtstanding ▸ .refl _ _⟩
  opened := fun hopen => absurd hopen (by rw [hclosed]; exact Bool.noConfusion)
  onItsWay := fun hopen => absurd hopen (by rw [hclosed]; exact Bool.noConfusion)

theorem Inv.moved (h : Inv cfg s) (hsender : Sender.Inv cfg s') (hmoved : Moved s s') : Inv cfg s' := by
  obtain ⟨wires, hrepaired⟩ := hmoved.repaired
  refine ⟨hsender, ?_, ?_⟩
  · intro seq p' hp'
    obtain ⟨p, hp, hwire, -⟩ := hrepaired seq p' hp'
    rw [hwire]
    exact h.filed seq p hp
  · intro hopen seq p' hp' hqueued
    obtain ⟨p, hp, hwire, hsame, -⟩ := hrepaired seq p' hp'
    rw [hwire]
    exact hmoved.onItsWay hopen _ (h.queued (hmoved.opened hopen) seq p hp (hsame ▸ hqueued))

-- The record just filed is the one `sendRecord` holds.
theorem Inv.file (h : Inv cfg s) {wire : UDPCFrame} (hpump : s.pump = .encoded wire) (now rto : ℕ)
    (hsender : Sender.Inv cfg { s with
      outstanding := s.outstanding.file wire now rto, pump := .filed wire, lastFiled := wire.seq }) :
    Inv cfg { s with
      outstanding := s.outstanding.file wire now rto, pump := .filed wire, lastFiled := wire.seq } := by
  have haligned := h.sender.aligned
  simp only [Aligned, hpump] at haligned
  obtain ⟨-, -, -, -, hcmd, -⟩ := haligned
  refine ⟨hsender, ?_, ?_⟩
  · intro seq p hp
    rcases SeqMap.of_lookup_insert hp with ⟨hseq, rfl⟩ | ⟨-, hold⟩
    · exact ⟨hseq.symm, hcmd⟩
    · exact h.filed seq p hold
  · intro hopen seq p hp hqueued
    rcases SeqMap.of_lookup_insert hp with ⟨-, rfl⟩ | ⟨-, hold⟩
    · exact .inr (.inr rfl)
    · rcases h.queued hopen seq p hold hqueued with hmem | hmem | hfiled
      · exact .inl hmem
      · exact .inr (.inl hmem)
      · rw [hpump] at hfiled
        cases hfiled

-- A record the batch carries, once or more often, is not queued afterwards; one
-- that is still queued was waiting somewhere else.
theorem Inv.markTransmitted (h : Inv cfg s) (now : ℕ)
    (hsender : Sender.Inv cfg { s with
      outstanding := s.outstanding.markTransmitted s.batch now, batch := [], batchSent := false }) :
    Inv cfg { s with
      outstanding := s.outstanding.markTransmitted s.batch now, batch := [], batchSent := false } := by
  refine ⟨hsender, ?_, ?_⟩
  · intro seq p' hp'
    obtain ⟨p, hp, hwire⟩ := (markTransmitted_kept s.outstanding s.batch now).lookup hp'
    rw [← hwire]
    exact h.filed seq p hp
  · intro hopen seq p hp hqueued
    have hbatch : seq ∉ (s.batch.filter (·.cmd = .data)).map (·.seq) := by
      intro hmem
      have hcleared := SeqMap.lookup_modifyAll_of_mem (P := fun p : UnackedPkt => p.queued = false)
        (f := UnackedPkt.transmitted now) (fun _ => rfl) hmem p hp
      rw [hcleared] at hqueued
      cases hqueued
    have hold : s.outstanding.unacked.lookup seq = some p :=
      (SeqMap.lookup_modifyAll_of_notMem hbatch).symm.trans hp
    rcases h.queued hopen seq p hold hqueued with hmem | hmem | hfiled
    · exact .inl hmem
    · obtain ⟨hseq, hcmd⟩ := h.filed seq p hold
      have hdata : p.wire ∈ s.batch.filter (·.cmd = .data) :=
        List.mem_filter.2 ⟨hmem, decide_eq_true hcmd⟩
      exact absurd (List.mem_map.2 ⟨p.wire, hdata, hseq⟩) hbatch
    · exact .inr (.inr hfiled)

theorem Inv.step (h : Inv cfg s) (hsender : Sender.Inv cfg s') (hst : Step cfg s l s' out) :
    Inv cfg s' := by
  cases hst with
  | call _ _ hpump | windowOpen _ hpump | checkClosed _ hpump | check _ hpump | number _ hpump
  | encode _ _ _ _ hpump | skipFec _ _ hpump | addFec _ _ hpump =>
      refine h.moved hsender (.pumped rfl rfl rfl rfl fun wire hfiled => ?_)
      rw [hpump] at hfiled
      cases hfiled
  | encodeFails | abandon | controlFails | parityFails | close =>
      exact h.moved hsender (.closed rfl rfl)
  | submitClosed wire hpump hclosed => exact h.moved hsender (.closed rfl hclosed)
  | file now rto wire hpump => exact h.file hpump now rto hsender
  | submit wire hpump =>
      refine h.moved hsender (.carried rfl rfl fun w hway => ?_)
      rcases hway with hmem | hmem | hfiled
      · exact .inl (List.mem_append_left _ hmem)
      · exact .inr (.inl hmem)
      · rw [hpump, Pump.filed.injEq] at hfiled
        exact .inl (List.mem_append_right _ (List.mem_singleton.2 hfiled.symm))
  | gather wire rest hqueue =>
      refine h.moved hsender (.carried rfl rfl fun w hway => ?_)
      rcases hway with hmem | hmem | hfiled
      · rw [hqueue] at hmem
        rcases List.mem_cons.1 hmem with rfl | hmem
        · exact .inr (.inl (List.mem_append_right _ List.mem_cons_self))
        · exact .inl hmem
      · exact .inr (.inl (List.mem_append_left _ hmem))
      · exact .inr (.inr hfiled)
  | markTransmitted now => exact h.markTransmitted now hsender
  | bestEffort | emitParity =>
      refine h.moved hsender (.carried rfl rfl fun w hway => ?_)
      exact hway.imp (List.mem_append_left _) id
  | retryDue now rtt bdp =>
      exact h.moved hsender (.beside (retryDue_repaired _ _ _ _ _) rfl rfl rfl rfl)
  | sack frame now rtt =>
      exact h.moved hsender (.beside (updateSACK_repaired _ _ _ _ _) rfl rfl rfl rfl)
  | handleAck ack now srtt =>
      exact h.moved hsender (.beside (handleAck_repaired _ _ _ _ _) rfl rfl rfl rfl)
  | turnedAway | transmit | dropRepair | receive | control | flushFec | emitBlock | skipParity
  | dropParity | closeFec =>
      exact h.moved hsender (.beside (.refl _ []) rfl rfl rfl rfl)

theorem inv_of_reachable (h : Reachable (system cfg) s) : Inv cfg s := by
  refine h.invariant (I := Inv cfg) ?_ fun s l s' hinv _ hst => ?_
  · rintro s rfl
    have hempty : ∀ seq p, (initial cfg).outstanding.unacked.lookup seq ≠ some p := by
      intro seq p hp
      simp [initial, Outstanding.new] at hp
    exact ⟨inv_initial cfg, fun seq p hp => absurd hp (hempty seq p),
      fun _ seq p hp => absurd hp (hempty seq p)⟩
  · obtain ⟨⟨t, out⟩, hnext, rfl⟩ := Option.map_eq_some_iff.1 hst
    exact hinv.step (stepped_next hinv.sender hnext).inv (step_of_next hnext)

-- On an open session a record marked as queued is on its way to the socket. Any
-- other one that the peer does not hold is taken by the first wake after its
-- timeout, unless that wake gives the session up or its burst is full.
theorem no_stranded_frame (h : Reachable (system cfg) s) (hopen : s.closed = false) {seq : ℕ}
    {p : UnackedPkt} (hp : s.outstanding.unacked.lookup seq = some p) :
    (p.queued = true → OnItsWay s p.wire) ∧
    (p.sacked = false → OnItsWay s p.wire ∨
      ∀ now, p.rto < now - p.sentTime → p.expired now = true ∧ ∀ maximumRTO rtt bdp,
        (s.outstanding.retryDue now maximumRTO rtt bdp).1.abandoned = true ∨
        p.wire ∈ (s.outstanding.retryDue now maximumRTO rtt bdp).1.wires ∨
        (s.outstanding.retryDue now maximumRTO rtt bdp).1.wires.length = retryBurstMax) := by
  have hway := (inv_of_reachable h).queued hopen seq p hp
  refine ⟨hway, fun hsacked => ?_⟩
  cases hqueued : p.queued with
  | true => exact .inl (hway hqueued)
  | false =>
      refine .inr fun now hlate => ?_
      have hexpired : p.expired now = true := decide_eq_true ⟨hqueued, hsacked, hlate⟩
      exact ⟨hexpired, retryDue_covers hp hexpired⟩

-- The first record has left, the second is in the batch.
theorem second_record_on_its_way : ∃ s p q, (Reachable (system Link.sampleConfig) s ∧
    s.closed = false ∧ s.outstanding.unacked.lookup 1 = some p ∧
    s.outstanding.unacked.lookup 2 = some q ∧ q.queued = true ∧ ¬OnItsWay s p.wire) ∧
    p.expired 2000000 = true ∧ OnItsWay s q.wire := by
  obtain ⟨s, hs, hopen, hfirst, hsecond⟩ := (system Link.sampleConfig).exists_run
    (P := fun s => s.closed = false ∧
      (s.outstanding.unacked.lookup 1).any (fun p =>
        p.sacked = false ∧ ¬OnItsWay s p.wire ∧ p.rto < 2000000 - p.sentTime) = true ∧
      (s.outstanding.unacked.lookup 2).any (·.queued) = true) rfl
    [.call [1], .windowOpen, .check, .number, .encode 0 0, .file 0 1000000, .submit, .addFec 0,
      .gather, .transmit, .markTransmitted 0,
      .call [2], .windowOpen, .check, .number, .encode 0 0, .file 1000 1000000, .submit, .gather]
    (by decide +kernel)
  obtain ⟨p, hp, hlate⟩ := (Option.any_eq_true _ _).1 hfirst
  obtain ⟨q, hq, hqueued⟩ := (Option.any_eq_true _ _).1 hsecond
  obtain ⟨hsacked, hgone, htimeout⟩ := of_decide_eq_true hlate
  refine ⟨s, p, q, ⟨hs, hopen, hp, hq, hqueued, hgone⟩, ?_, ?_⟩
  · have heligible := ((no_stranded_frame hs hopen hp).2 hsacked).resolve_left hgone
    exact (heligible 2000000 htimeout).1
  · exact (no_stranded_frame hs hopen hq).1 hqueued

end UdpCustom.Queued
