import UdpCustom.Fec.Theorems
import UdpCustom.Recovery.Theorems
import UdpCustom.Sender.Step

namespace UdpCustom.Sender

open UdpCustom.Frame UdpCustom.Flow UdpCustom.Recovery UdpCustom.Fec UdpCustom.Receive

variable {cfg : Config} {s s' : State} {records new : Records} {out : List UDPCFrame}
  {wire : UDPCFrame}

-- A record that carries what its sequence number stands for.
structure Genuine (cfg : Config) (records : Records) (f : UDPCFrame) : Prop where
  data : f.cmd = .data → records f.seq = some f.data
  fec : f.cmd = .fec → ∀ p, parseFECParityFrameExt f cfg.fecExt = .ok p → p.Genuine cfg.code records

theorem Genuine.mono (hext : records.Extends new) {f : UDPCFrame} (h : Genuine cfg records f) :
    Genuine cfg new f :=
  ⟨fun hcmd => hext _ _ (h.data hcmd), fun hcmd p hp => (h.fec hcmd p hp).mono hext⟩

-- Everything the sender still has to send.
structure Holds (cfg : Config) (records : Records) (s : State) : Prop where
  queue : ∀ f ∈ s.queue, Genuine cfg records f
  batch : ∀ f ∈ s.batch, Genuine cfg records f
  repairs : ∀ f ∈ s.repairs, Genuine cfg records f
  unacked : ∀ seq p, s.outstanding.unacked.lookup seq = some p → Genuine cfg records p.wire
  pending : ∀ f ∈ s.fecSend, ∀ src ∈ f.pending, records src.seq = some src.payload
  blocks : ∀ block ∈ s.blocks, ∀ src ∈ block, records src.seq = some src.payload
  parity : ∀ p ∈ s.parity, p.Genuine cfg.code records

theorem Holds.mono (hext : records.Extends new) (h : Holds cfg records s) : Holds cfg new s where
  queue := fun f hf => (h.queue f hf).mono hext
  batch := fun f hf => (h.batch f hf).mono hext
  repairs := fun f hf => (h.repairs f hf).mono hext
  unacked := fun seq p hp => (h.unacked seq p hp).mono hext
  pending := fun f hf src hsrc => hext _ _ (h.pending f hf src hsrc)
  blocks := fun block hb src hsrc => hext _ _ (h.blocks block hb src hsrc)
  parity := fun p hp => (h.parity p hp).mono hext

-- How the record `sendRecord` works on lines up with what was filed before it.
def Aligned (s : State) : Prop :=
  match s.pump with
  | .idle => s.closed = false → s.passed.length = s.lastFiled ∧ s.sendSeq = s.lastFiled + 1
  | .waiting payload | .admitted payload =>
    s.closed = false → s.passed[s.lastFiled]? = some payload ∧
      s.passed.length = s.lastFiled + 1 ∧ s.sendSeq = s.lastFiled + 1
  | .cleared payload =>
    s.passed[s.lastFiled]? = some payload ∧ s.passed.length = s.lastFiled + 1 ∧
      s.sendSeq = s.lastFiled + 1
  | .numbered seq payload =>
    s.passed[s.lastFiled]? = some payload ∧ s.passed.length = s.lastFiled + 1 ∧
      seq = s.lastFiled + 1 ∧ s.sendSeq = s.lastFiled + 2
  | .encoded wire =>
    s.passed[s.lastFiled]? = some wire.data ∧ s.passed.length = s.lastFiled + 1 ∧
      wire.seq = s.lastFiled + 1 ∧ s.sendSeq = s.lastFiled + 2 ∧ wire.cmd = .data ∧
      0 < wire.packetNo
  | .filed wire | .submitted wire =>
    s.passed.length = s.lastFiled ∧ wire.seq = s.lastFiled ∧ s.sendSeq = s.lastFiled + 1 ∧
      wire.cmd = .data ∧ s.records wire.seq = some wire.data

structure Inv (cfg : Config) (s : State) : Prop where
  filed_le : s.lastFiled ≤ s.passed.length
  filed_lt : s.lastFiled < s.sendSeq
  aligned : Aligned s
  holds : Holds cfg s.records s

theorem records_extends (hpassed : s.passed <+: s'.passed) (hfiled : s.lastFiled ≤ s'.lastFiled) :
    s.records.Extends s'.records := by
  intro seq payload h
  unfold State.records at *
  split_ifs at h with hseq
  rw [if_pos ⟨hseq.1, hseq.2.trans hfiled⟩]
  obtain ⟨rest, hrest⟩ := hpassed
  rw [← hrest, List.getElem?_append_left (List.getElem?_eq_some_iff.1 h).1]
  exact h

theorem records_eq (hpassed : s'.passed = s.passed) (hfiled : s'.lastFiled = s.lastFiled) :
    s'.records = s.records := by
  unfold State.records
  rw [hpassed, hfiled]

-- What a step owes: the invariant, the records known before, and genuine output.
structure Stepped (cfg : Config) (s s' : State) (out : List UDPCFrame) : Prop where
  inv : Inv cfg s'
  kept : s.records.Extends s'.records
  out : ∀ f ∈ out, Genuine cfg s'.records f

-- A step beside the pump: it may close the session and change what is held.
theorem Stepped.beside (h : Inv cfg s) (hpassed : s'.passed = s.passed)
    (hfiled : s'.lastFiled = s.lastFiled) (hseq : s'.sendSeq = s.sendSeq) (hpump : s'.pump = s.pump)
    (hclosed : s'.closed = false → s.closed = false) (hholds : Holds cfg s.records s')
    (hout : ∀ f ∈ out, Genuine cfg s.records f) : Stepped cfg s s' out := by
  have hrec := records_eq hpassed hfiled
  refine ⟨⟨?_, ?_, ?_, ?_⟩, ?_, ?_⟩
  · rw [hpassed, hfiled]
    exact h.filed_le
  · rw [hseq, hfiled]
    exact h.filed_lt
  · have hal := h.aligned
    unfold Aligned at *
    rw [hpump, hpassed, hfiled, hseq, hrec]
    -- At some places of the pump it is only said while the session is open.
    split
    all_goals
      rename_i heq
      rw [heq] at hal
      first
        | exact fun hc => hal (hclosed hc)
        | exact hal
  · rw [hrec]
    exact hholds
  · rw [hrec]
    exact fun _ _ h => h
  · rw [hrec]
    exact hout

theorem Stepped.silent (h : Inv cfg s) (hpassed : s'.passed = s.passed)
    (hfiled : s'.lastFiled = s.lastFiled) (hseq : s'.sendSeq = s.sendSeq) (hpump : s'.pump = s.pump)
    (hclosed : s'.closed = false → s.closed = false) (hholds : Holds cfg s.records s') :
    Stepped cfg s s' [] :=
  .beside h hpassed hfiled hseq hpump hclosed hholds fun _ hf => absurd hf List.not_mem_nil

-- A step of the pump that files nothing.
theorem Stepped.pumped (h : Inv cfg s) (hpassed : s'.passed = s.passed)
    (hfiled : s'.lastFiled = s.lastFiled) (hseq : s.sendSeq ≤ s'.sendSeq) (haligned : Aligned s')
    (hholds : Holds cfg s.records s') : Stepped cfg s s' [] := by
  have hrec := records_eq hpassed hfiled
  refine ⟨⟨?_, ?_, haligned, ?_⟩, ?_, fun _ hf => absurd hf List.not_mem_nil⟩
  · rw [hpassed, hfiled]
    exact h.filed_le
  · rw [hfiled]
    exact h.filed_lt.trans_le hseq
  · rw [hrec]
    exact hholds
  · rw [hrec]
    exact fun _ _ h => h

-- A record enters the call: what was passed grows, what was filed does not.
theorem stepped_call (h : Inv cfg s) {payload : Bytes} {pump : Pump}
    (haligned : Aligned { s with passed := s.passed ++ [payload], pump := pump }) :
    Stepped cfg s { s with passed := s.passed ++ [payload], pump := pump } [] := by
  have hle : s.lastFiled ≤ (s.passed ++ [payload]).length := by
    rw [List.length_append]
    exact h.filed_le.trans (Nat.le_add_right _ _)
  have hext : s.records.Extends
      ({ s with passed := s.passed ++ [payload], pump := pump } : State).records :=
    records_extends (List.prefix_append _ _) (Nat.le_refl _)
  have hholds := h.holds.mono hext
  exact ⟨⟨hle, h.filed_lt, haligned, { hholds with }⟩, hext, List.forall_mem_nil _⟩

-- Filing makes the record part of what was sent.
theorem stepped_file (h : Inv cfg s) (hpump : s.pump = .encoded wire)
    (now rto : ℕ) : Stepped cfg s { s with
      outstanding := s.outstanding.file wire now rto
      pump := .filed wire
      lastFiled := wire.seq } [] := by
  have hal := h.aligned
  simp only [Aligned, hpump] at hal
  obtain ⟨hat, hlen, hseq, hnext, hcmd, _⟩ := hal
  set s₁ : State := { s with
    outstanding := s.outstanding.file wire now rto, pump := .filed wire, lastFiled := wire.seq }
    with hs₁
  have hext : s.records.Extends s₁.records :=
    records_extends (List.prefix_refl _) (by simp only [hs₁]; omega)
  have hwire : s₁.records wire.seq = some wire.data := by
    simp only [State.records, hs₁]
    rw [if_pos ⟨by omega, Nat.le_refl _⟩, hseq, Nat.add_sub_cancel]
    exact hat
  have hholds := h.holds.mono hext
  refine ⟨⟨?_, ?_, ?_, { hholds with unacked := fun seq p hp => ?_ }⟩, hext, List.forall_mem_nil _⟩
  · simp only [hs₁]
    omega
  · simp only [hs₁]
    omega
  · exact ⟨by simp only [hs₁]; omega, rfl, by simp only [hs₁]; omega, hcmd, hwire⟩
  · rcases SeqMap.of_lookup_insert hp with ⟨-, rfl⟩ | ⟨-, hold⟩
    · refine ⟨fun _ => hwire, fun hfec => ?_⟩
      rw [hcmd] at hfec
      cases hfec
    · exact hholds.unacked seq p hold

-- The record `sendRecord` has filed is genuine.
theorem Inv.genuine_filed (h : Inv cfg s) (hpump : s.pump = .filed wire) :
    Genuine cfg s.records wire := by
  have hal := h.aligned
  simp only [Aligned, hpump] at hal
  refine ⟨fun _ => hal.2.2.2.2, fun hfec => ?_⟩
  rw [hal.2.2.2.1] at hfec
  cases hfec

-- `sendRecord` returns once its record is filed.
theorem Inv.aligned_idle (h : Inv cfg s)
    (hdone : s.pump = .filed wire ∨ s.pump = .submitted wire) (hpassed : s'.passed = s.passed)
    (hfiled : s'.lastFiled = s.lastFiled) (hseq : s'.sendSeq = s.sendSeq) (hpump : s'.pump = .idle) :
    Aligned s' := by
  have hal := h.aligned
  have hlined : s.passed.length = s.lastFiled ∧ s.sendSeq = s.lastFiled + 1 := by
    rcases hdone with hdone | hdone
    all_goals
      simp only [Aligned, hdone] at hal
      exact ⟨hal.1, hal.2.2.1⟩
  simp only [Aligned, hpump, hpassed, hfiled, hseq]
  exact fun _ => hlined

theorem stepped_addFec (h : Inv cfg s) (hpump : s.pump = .submitted wire)
    {f : FecSender} (hf : s.fecSend = some f) (loss : Float) : Stepped cfg s { s with
      pump := .idle
      fecSend := some (f.add { seq := wire.seq, payload := wire.data } loss).2
      blocks := (f.add { seq := wire.seq, payload := wire.data } loss).1 ++ s.blocks } [] := by
  have hal := h.aligned
  simp only [Aligned, hpump] at hal
  have hadd := add_sources f { seq := wire.seq, payload := wire.data } loss
  have hsrc : ∀ x, x ∈ f.pending ∨ x = { seq := wire.seq, payload := wire.data } →
      s.records x.seq = some x.payload := by
    intro x hx
    rcases hx with hx | rfl
    · exact h.holds.pending f hf x hx
    · exact hal.2.2.2.2
  refine .pumped h rfl rfl (Nat.le_refl _) (h.aligned_idle (.inr hpump) rfl rfl rfl rfl)
    { h.holds with pending := ?_, blocks := ?_ }
  · intro g hg x hx
    cases hg
    exact hsrc x (hadd.2 x hx)
  · intro block hblock x hx
    rcases List.mem_append.1 hblock with hb | hb
    · exact hsrc x (hadd.1 block hb x hx)
    · exact h.holds.blocks block hb x hx

theorem forall_mem_concat {good : UDPCFrame → Prop} {l : List UDPCFrame}
    (h : ∀ f ∈ l, good f) (hwire : good wire) : ∀ f ∈ l ++ [wire], good f :=
  List.forall_mem_append.2 ⟨h, List.forall_mem_singleton.2 hwire⟩

-- Bookkeeping on the outstanding records leaves genuine what was genuine.
theorem holds_kept {o : Outstanding} (h : Holds cfg records s) (hkept : s.outstanding.Kept o) :
    ∀ seq p, o.unacked.lookup seq = some p → Genuine cfg records p.wire := by
  intro seq p hp
  obtain ⟨q, hq, hw⟩ := hkept.lookup hp
  rw [← hw]
  exact h.unacked seq q hq

-- What is repeated is outstanding.
theorem holds_repeated {wires : List UDPCFrame} (h : Holds cfg records s)
    (hwires : ∀ f ∈ wires, ∃ seq p, s.outstanding.unacked.lookup seq = some p ∧ p.wire = f) :
    ∀ f ∈ wires ++ s.repairs, Genuine cfg records f := by
  intro f hf
  rcases List.mem_append.1 hf with hf | hf
  · obtain ⟨seq, p, hp, rfl⟩ := hwires f hf
    exact h.unacked seq p hp
  · exact h.repairs f hf

theorem stepped_flushFec (h : Inv cfg s) {f : FecSender} (hf : s.fecSend = some f) (gen : ℕ) :
    Stepped cfg s { s with
      fecSend := some (f.flushTimer gen).2, blocks := (f.flushTimer gen).1 :: s.blocks } [] := by
  have hsrc := flushTimer_sources f gen
  refine .silent h rfl rfl rfl rfl id { h.holds with pending := ?_, blocks := ?_ }
  · intro g hg x hx
    cases hg
    exact h.holds.pending f hf x (hsrc.2 x hx)
  · intro block hblock x hx
    rcases List.mem_cons.1 hblock with rfl | hblock
    · exact h.holds.pending f hf x (hsrc.1 x hx)
    · exact h.holds.blocks block hblock x hx

theorem stepped_emitBlock (h : Inv cfg s) {f : FecSender} (hf : s.fecSend = some f)
    {block : List SourceShard} (hmem : block ∈ s.blocks) (loss : Float) : Stepped cfg s { s with
      fecSend := some (f.emitBlock cfg.code block loss).2
      blocks := s.blocks.erase block
      parity := (f.emitBlock cfg.code block loss).1 ++ s.parity } [] := by
  refine .silent h rfl rfl rfl rfl id { h.holds with pending := ?_, blocks := ?_, parity := ?_ }
  · intro g hg x hx
    cases hg
    rw [emitBlock_pending] at hx
    exact h.holds.pending f hf x hx
  · exact fun b hb => h.holds.blocks b (List.mem_of_mem_erase hb)
  · intro p hp
    rcases List.mem_append.1 hp with hp | hp
    · exact emitBlock_genuine (h.holds.blocks block hmem) p hp
    · exact h.holds.parity p hp

theorem cmd_applyToFrame {p : ParityShard} {ack : ℕ} {frame : UDPCFrame}
    (happly : p.applyToFrame (fecFrame cfg ack) cfg.fecExt = some frame) : frame.cmd = .fec := by
  obtain ⟨-, ⟨⟩⟩ := Option.ite_none_left_eq_some.1 happly
  rfl

-- A parity record reads back as the shard it was built from.
theorem genuine_parityFrame {p : ParityShard} (hp : p.Genuine cfg.code records) {ack : ℕ}
    {frame : UDPCFrame} (happly : p.applyToFrame (fecFrame cfg ack) cfg.fecExt = some frame)
    (windowSize no : ℕ) : Genuine cfg records (parityWire cfg frame windowSize no) := by
  have hcmd := cmd_applyToFrame happly
  refine ⟨fun hdata => ?_, fun _ q hq => ?_⟩
  · exact absurd (hcmd.symm.trans hdata) (by decide)
  · have hflags : frame.flags ||| feedbackFlags cfg = frame.flags ∨
        frame.flags ||| feedbackFlags cfg = frame.flags ||| flagFecFeedback := by
      unfold feedbackFlags
      split
      · exact .inr rfl
      · exact .inl (Nat.or_zero _)
    have heq := parse_applyToFrame (g := parityWire cfg frame windowSize no) happly rfl hflags rfl rfl hq
    rw [heq]
    exact hp

theorem Inv.step (h : Inv cfg s) {l : Label} (hst : Step cfg s l s' out) :
    Stepped cfg s s' out := by
  have hal := h.aligned
  have hparity : ∀ p, ∀ q ∈ s.parity.erase p, q.Genuine cfg.code s.records :=
    fun p q hq => h.holds.parity q (List.mem_of_mem_erase hq)
  have hrepairs : ∀ wire, ∀ f ∈ s.repairs.erase wire, Genuine cfg s.records f :=
    fun wire f hf => h.holds.repairs f (List.mem_of_mem_erase hf)
  cases hst with
  | turnedAway payload _ hidle hclosed =>
      refine stepped_call h ?_
      simp only [Aligned, hidle]
      exact fun hopen => absurd (hclosed.symm.trans hopen) (by decide)
  | call payload _ hidle =>
      refine stepped_call h ?_
      simp only [Aligned, hidle] at hal ⊢
      intro hopen
      obtain ⟨hlen, hseq⟩ := hal hopen
      refine ⟨?_, ?_, hseq⟩
      · rw [← hlen, List.getElem?_concat_length]
      · rw [List.length_append, hlen]
        rfl
  | windowOpen payload hpump =>
      simp only [Aligned, hpump] at hal
      exact .pumped h rfl rfl (Nat.le_refl _) hal { h.holds with }
  | checkClosed payload _ hclosed =>
      refine .pumped h rfl rfl (Nat.le_refl _) ?_ { h.holds with }
      exact fun hopen => absurd (hclosed.symm.trans hopen) (by decide)
  | check payload hpump hopen =>
      simp only [Aligned, hpump] at hal
      exact .pumped h rfl rfl (Nat.le_refl _) (hal hopen) { h.holds with }
  | number payload hpump =>
      simp only [Aligned, hpump] at hal
      obtain ⟨hat, hlen, hseq⟩ := hal
      refine .pumped h rfl rfl (Nat.le_succ _) ?_ { h.holds with }
      exact ⟨hat, hlen, hseq, by rw [hseq]⟩
  | encodeFails =>
      refine .pumped h rfl rfl (Nat.le_refl _) ?_ { h.holds with }
      exact fun hopen => by cases hopen
  | encode ack windowSize seq payload hpump =>
      simp only [Aligned, hpump] at hal
      obtain ⟨hat, hlen, hseq, hnext⟩ := hal
      exact .pumped h rfl rfl (Nat.le_refl _) ⟨hat, hlen, hseq, hnext, rfl, Nat.succ_pos _⟩
        { h.holds with }
  | file now rto wire hpump => exact stepped_file h hpump now rto
  | submit wire hpump =>
      have hwire := h.genuine_filed hpump
      simp only [Aligned, hpump] at hal
      exact .pumped h rfl rfl (Nat.le_refl _) hal
        { h.holds with queue := forall_mem_concat h.holds.queue hwire }
  | submitClosed wire hpump =>
      exact .pumped h rfl rfl (Nat.le_refl _) (h.aligned_idle (.inl hpump) rfl rfl rfl rfl)
        { h.holds with }
  | skipFec loss wire hpump =>
      exact .pumped h rfl rfl (Nat.le_refl _) (h.aligned_idle (.inr hpump) rfl rfl rfl rfl)
        { h.holds with }
  | addFec loss wire hpump f hf => exact stepped_addFec h hpump hf loss
  | gather wire rest hqueue =>
      have hall := h.holds.queue
      rw [hqueue] at hall
      obtain ⟨hwire, hrest⟩ := List.forall_mem_cons.1 hall
      exact .silent h rfl rfl rfl rfl id
        { h.holds with queue := hrest, batch := forall_mem_concat h.holds.batch hwire }
  | transmit => exact .beside h rfl rfl rfl rfl id { h.holds with } h.holds.batch
  | markTransmitted now =>
      exact .silent h rfl rfl rfl rfl id { h.holds with
        batch := List.forall_mem_nil _
        unacked := holds_kept h.holds (markTransmitted_kept _ _ _) }
  | bestEffort wire hmem =>
      exact .silent h rfl rfl rfl rfl id { h.holds with
        repairs := hrepairs wire
        queue := forall_mem_concat h.holds.queue (h.holds.repairs wire hmem) }
  | dropRepair wire =>
      exact .silent h rfl rfl rfl rfl id { h.holds with repairs := hrepairs wire }
  | retryDue now rtt bdp =>
      exact .silent h rfl rfl rfl rfl id { h.holds with
        repairs := holds_repeated h.holds fun f hf => retryDue_wires hf
        unacked := holds_kept h.holds (retryDue_kept _ _ _ _ _) }
  | sack frame now rtt =>
      exact .silent h rfl rfl rfl rfl id { h.holds with
        repairs := holds_repeated h.holds fun f hf => updateSACK_wires hf
        unacked := holds_kept h.holds (updateSACK_kept _ _ _ _ _) }
  | handleAck ack now srtt =>
      exact .silent h rfl rfl rfl rfl id { h.holds with
        unacked := fun seq p hp => h.holds.unacked seq p (lookup_of_handleAck hp) }
  | control frame hdata hfec =>
      refine .beside h rfl rfl rfl rfl id { h.holds with } (List.forall_mem_singleton.2 ?_)
      exact ⟨fun hcmd => absurd hcmd hdata, fun hcmd => absurd hcmd hfec⟩
  | flushFec gen f hf => exact stepped_flushFec h hf gen
  | emitBlock block loss f hf hmem => exact stepped_emitBlock h hf hmem loss
  | skipParity p | dropParity p =>
      exact .silent h rfl rfl rfl rfl id { h.holds with parity := hparity p }
  | parityFails p =>
      exact .silent h rfl rfl rfl rfl (fun hopen => by cases hopen)
        { h.holds with parity := hparity p }
  | emitParity p ack windowSize hmem frame happly =>
      have hwire := genuine_parityFrame (h.holds.parity p hmem) happly windowSize (s.sendPacketNo + 1)
      exact .silent h rfl rfl rfl rfl id { h.holds with
        parity := hparity p
        queue := forall_mem_concat h.holds.queue hwire }
  | receive => exact .silent h rfl rfl rfl rfl id { h.holds with }
  | abandon | controlFails | close =>
      exact .silent h rfl rfl rfl rfl (fun hopen => by cases hopen) { h.holds with }
  | closeFec =>
      refine .silent h rfl rfl rfl rfl id { h.holds with pending := fun f hf src hsrc => ?_ }
      obtain ⟨g, _, rfl⟩ := Option.map_eq_some_iff.1 hf
      cases hsrc

theorem stepped_next (h : Inv cfg s) {l : Label}
    (hst : next cfg s l = some (s', out)) : Stepped cfg s s' out :=
  h.step (step_of_next hst)

theorem inv_initial (cfg : Config) : Inv cfg (initial cfg) := by
  refine ⟨Nat.le_refl _, Nat.lt_succ_self _, fun _ => ⟨rfl, rfl⟩, ?_⟩
  refine ⟨?_, ?_, ?_, ?_, ?_, ?_, ?_⟩
  · exact fun _ hf => absurd hf List.not_mem_nil
  · exact fun _ hf => absurd hf List.not_mem_nil
  · exact fun _ hf => absurd hf List.not_mem_nil
  · intro seq p hp
    simp [initial, Outstanding.new] at hp
  · intro f hf src hsrc
    obtain ⟨-, ⟨⟩⟩ := Option.ite_none_right_eq_some.1 hf
    cases hsrc
  · exact fun _ hf => absurd hf List.not_mem_nil
  · exact fun _ hf => absurd hf List.not_mem_nil

-- What `sendRecord` was called with, and that the session is closed, stay.
structure Lasting (s s' : State) : Prop where
  passed : s'.passed = s.passed
  closed : s.closed = true → s'.closed = true

theorem lasting_next {l : Label} (hcall : ∀ payload, l ≠ .call payload)
    (hst : next cfg s l = some (s', out)) : Lasting s s' := by
  cases step_of_next hst with
  | turnedAway payload | call payload => exact absurd rfl (hcall payload)
  | encodeFails | abandon | controlFails | parityFails | close => exact ⟨rfl, fun _ => rfl⟩
  | _ => exact ⟨rfl, id⟩

theorem call_cases {payload : Bytes} (hst : next cfg s (.call payload) = some (s', out)) :
    s'.passed = s.passed ++ [payload] ∧ s'.closed = s.closed ∧ payload ≠ [] := by
  cases step_of_next hst with
  | turnedAway _ hne | call _ hne => exact ⟨rfl, rfl, hne⟩

end UdpCustom.Sender
