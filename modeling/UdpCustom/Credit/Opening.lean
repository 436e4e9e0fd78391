import UdpCustom.Credit.Theorems

-- Whether a sender without credit gets some.
namespace UdpCustom.Credit

open UdpCustom.Frame UdpCustom.Replay UdpCustom.Delivery UdpCustom.Flow UdpCustom.Recovery
open UdpCustom.Coalesce UdpCustom.Sack
open UdpCustom.Sender (Config)
open Transition

variable {cfg : Config} {s s' : State} {K M v : ℕ} {f : UDPCFrame} {j : ℕ} {frame : UDPCFrame}

-- The next record in order is always admitted.
theorem mem_offer_next (h : Receiving s) (payload : Bytes) :
    s.delivery.delivered + 1 ∈
      (s.delivery.offerObserved (s.delivery.delivered + 1) payload).2.pending := by
  rcases offerObserved_cases s.delivery (s.delivery.delivered + 1) payload with
    ⟨he, hwhy⟩ | ⟨he, _, _, hold⟩ | ⟨he, _, _, hheld⟩ | ⟨ack, he, _⟩
  · exfalso
    rcases hwhy with hzero | hclosed | ⟨_, hmissing, hfull⟩
    · omega
    · rw [h.live.2] at hclosed
      cases hclosed
    · have hpos := s.delivery.limit_pos
      have hroom := SeqMap.size_lt_of_window h.window (Nat.lt_succ_self _) (by omega) hmissing
      omega
  · omega
  · rw [he]
    exact hheld
  · rw [he]
    exact Finmap.mem_insert.2 (.inl rfl)

theorem delivered_deliver (cfg : Config) (h : Receiving s)
    (hhead : s.delivery.head.isSome = true) (srtt : ℕ) :
    (s.deliver cfg srtt).delivery.delivered = s.delivery.delivered + 1 := by
  unfold State.deliver
  dsimp only
  split
  · exact congrArg OrderedDelivery.delivered
      (delivery_sendACK cfg (receiving_complete h hhead false).live.1 _ _)
  · rfl

theorem delayed_sendACK (cfg : Config) (hopen : s.receiver.closed = false) (srtt ack : ℕ) :
    (s.sendACK cfg srtt ack).delayed = s.delayed := by
  rcases sendACK_cases cfg hopen srtt ack with ⟨h, _⟩ | ⟨h, _⟩ | ⟨h, _⟩
  · rw [h]
  · rw [h]
  · rw [h]
    rfl

-- A wake that finds a record outstanding without credit sends a PING.
theorem ping_retransmit (cfg : Config) {f : SendFlow} (hflow : s.outstanding.flow = some f)
    (hcredit : f.credit = 0) {seq : ℕ} (hseq : seq ∈ s.outstanding.unacked) {rtt bdp : ℕ}
    (hgoes : (s.outstanding.retryDue s.now rttMaxRTO rtt bdp).1.abandoned = false) :
    ∃ ping ∈ (s.retransmit cfg rtt bdp).toReceiver, ping.cmd = .ping := by
  have hprobe := retryDue_probes hflow hcredit hseq hgoes
  simp only [State.retransmit, hgoes, hprobe, Bool.false_eq_true, if_false, if_true,
    State.sendControl]
  exact ⟨_, List.mem_append_right _ (List.mem_singleton_self _), rfl⟩

theorem wires_retransmit (cfg : Config) {rtt bdp : ℕ} {wire : UDPCFrame}
    (hgoes : (s.outstanding.retryDue s.now rttMaxRTO rtt bdp).1.abandoned = false)
    (hwire : wire ∈ (s.outstanding.retryDue s.now rttMaxRTO rtt bdp).1.wires) :
    wire ∈ (s.retransmit cfg rtt bdp).toReceiver := by
  simp only [State.retransmit, hgoes, Bool.false_eq_true, if_false]
  split
  · exact List.mem_append_left _ (List.mem_append_right _ hwire)
  · exact List.mem_append_right _ hwire

theorem pong_arrive (cfg : Config) (hping : frame.cmd = .ping)
    (hacc : (s.recvFilter.accept frame.packetNo).1 = true) (stalled : Bool) (srtt : ℕ) :
    ∃ pong ∈ (s.arrive cfg frame stalled srtt).toSender, pong.cmd = .pong ∧
      pong.ack = s.delivery.delivered := by
  simp only [State.arrive, hacc, if_true, hping, State.post]
  exact ⟨_, List.mem_append_right _ (List.mem_singleton_self _), rfl, rfl⟩

theorem pending_arrive (cfg : Config) (h : Receiving s) (hdata : frame.cmd = .data)
    (hseq : frame.seq = s.delivery.delivered + 1) (hfiled : frame.seq ≤ s.lastFiled)
    (hacc : (s.recvFilter.accept frame.packetNo).1 = true) (stalled : Bool) (srtt : ℕ) :
    frame.seq ∈ (s.arrive cfg frame stalled srtt).delivery.pending := by
  simp only [State.arrive, hacc, if_true, hdata]
  have hinv : Receiving { s with
    toReceiver := s.toReceiver.erase frame
    recvFilter := (s.recvFilter.accept frame.packetNo).2 } := { h with }
  rw [(handled_handleData hinv hfiled stalled srtt True).2, hseq]
  exact mem_offer_next h frame.data

theorem next_execution (ρ : Execution (system cfg)) (i : ℕ) :
    next cfg (ρ.state i) (ρ.label i) = some (ρ.state (i + 1)) :=
  ρ.step i

-- Without credit the window is shut.
theorem next_send_none (h : Inv s) (hcredit : s.credit = 0) (payload : Bytes) (rto : ℕ) :
    next cfg s (.send payload rto) = none := by
  obtain ⟨f, hf, _⟩ := h.sending.flow
  have hzero : f.credit = 0 := (credit_of_flow hf).symm.trans hcredit
  simp only [next, State.window, hf, SendFlow.window, hzero, Nat.min_zero, Nat.not_lt_zero,
    and_false, if_false]

-- The report of a receiver that holds nothing.
def Opens (cfg : Config) (ack : ℕ) (f : UDPCFrame) : Prop :=
  ∃ d : OrderedDelivery, d.pending = ∅ ∧ d.delivered = ack ∧
    ∃ no, f = { Receiver.sackFrame cfg d.snapshot with packetNo := no }

theorem Opens.cmd {ack : ℕ} (h : Opens cfg ack f) : f.cmd = .sack := by
  obtain ⟨d, _, _, no, rfl⟩ := h
  rfl

theorem Opens.ack_eq {ack : ℕ} (h : Opens cfg ack f) : f.ack = ack := by
  obtain ⟨d, _, hdelivered, no, rfl⟩ := h
  exact hdelivered

theorem Opens.bit_eq_false {ack : ℕ} (h : Opens cfg ack f) (j : ℕ) :
    BitWindow.bit (sackWords f.data) j = false := by
  obtain ⟨d, hempty, _, no, rfl⟩ := h
  rw [Bool.eq_false_iff]
  intro hbit
  have hheld := bit_sackWords_snapshot hbit
  rw [hempty] at hheld
  exact Finmap.notMem_empty hheld

theorem Opens.sackCredit_pos {ack : ℕ} (h : Opens cfg ack f) :
    0 < min (sackCredit f.data) deliveryWindowWide := by
  obtain ⟨d, hempty, _, no, rfl⟩ := h
  have hcredit : d.snapshot.credit = d.limit := by
    rw [OrderedDelivery.snapshot, hempty, SeqMap.size_empty, Nat.sub_zero]
  have hlt : d.snapshot.credit < 2 ^ 16 := by
    rw [hcredit]
    exact d.limit_le.trans_lt (by decide)
  simp only [Receiver.sackFrame]
  rw [sackCredit_encode hlt, hcredit]
  exact lt_min d.limit_pos (by decide)

theorem Opens.valid {ack highest : ℕ} (h : Opens cfg ack frame) {f : SendFlow}
    (hpos : 0 < highest) (hack : ack ≤ highest) (hno : f.feedbackNo < frame.packetNo) :
    validSACK f frame highest = true := by
  obtain ⟨d, hempty, hdelivered, no, rfl⟩ := h
  refine Receiver.validSACK_sackFrame cfg hpos (hdelivered.trans_le hack) (fun k hk => ?_) hno
  rw [hempty] at hk
  exact absurd hk Finmap.notMem_empty

-- A fair undisturbed run in which credit never comes.
structure Starved (ρ : Execution (system cfg)) : Prop where
  reachable : Reachable (system cfg) (ρ.state 0)
  fair : Fair ρ
  undisturbed : ∀ i, Undisturbed (ρ.state i) (ρ.label i)
  credit : ∀ i, (ρ.state i).credit = 0

namespace Starved

variable {ρ : Execution (system cfg)}

theorem inv (h : Starved ρ) (i : ℕ) : Inv (ρ.state i) :=
  inv_reachable (ρ.reachable h.reachable i)

theorem stepped (h : Starved ρ) (i : ℕ) :
    Stepped cfg (ρ.state i) (ρ.state (i + 1)) (ρ.label i) :=
  stepped_next (h.inv i) (ρ.step i)

theorem talk (h : Starved ρ) (i : ℕ) : Talk cfg (ρ.state i) (ρ.state (i + 1)) :=
  (h.stepped i).talk (h.undisturbed i).quietly

theorem no_send (h : Starved ρ) (i : ℕ) (payload : Bytes) (rto : ℕ) :
    ρ.label i ≠ .send payload rto := by
  intro hlabel
  have hst := next_execution ρ i
  rw [hlabel, next_send_none (h.inv i) (h.credit i)] at hst
  cases hst

theorem lastFiled_eq (h : Starved ρ) (i : ℕ) : (ρ.state i).lastFiled = (ρ.state 0).lastFiled := by
  induction i with
  | zero => rfl
  | succ i ih =>
      rcases (h.stepped i).filed with hsame | ⟨payload, rto, hsend⟩
      · exact hsame.trans ih
      · exact absurd hsend (h.no_send i payload rto)

theorem repaired (h : Starved ρ) (i : ℕ) :
    (ρ.state i).outstanding.Repaired (ρ.state (i + 1)).outstanding (ρ.state (i + 1)).toReceiver :=
  (h.stepped i).repaired (h.no_send i)

-- In the end nothing more is delivered and no new Ack is told.
theorem settles (h : Starved ρ) : ∃ K, ∀ j, K ≤ j →
    (ρ.state j).delivery.delivered = (ρ.state K).delivery.delivered ∧
      (ρ.state j).lastValue = (ρ.state K).lastValue := by
  have hbound : ∀ j, (ρ.state j).delivery.delivered ≤ (ρ.state 0).lastFiled := by
    intro j
    rw [← h.lastFiled_eq j]
    exact (h.inv j).receiving.delivered_le
  obtain ⟨K₁, h₁⟩ := ρ.settles (f := fun s => s.delivery.delivered)
    (fun j => (h.stepped j).advances.delivered) hbound
  obtain ⟨K₂, h₂⟩ := ρ.settles (f := fun s => s.lastValue) (fun j => (h.talk j).value_le)
    fun j => (h.inv j).receiving.below.1.trans (hbound j)
  refine ⟨max K₁ K₂, fun j hj => ⟨?_, ?_⟩⟩
  · have hle := (le_max_left K₁ K₂).trans hj
    exact (h₁ j hle).trans (h₁ _ (le_max_left _ _)).symm
  · have hle := (le_max_right K₁ K₂).trans hj
    exact (h₂ j hle).trans (h₂ _ (le_max_right _ _)).symm

-- From `K` on, the receiver stands at `M` and has told `v`.
structure Settled (ρ : Execution (system cfg)) (K M v : ℕ) : Prop where
  delivered : ∀ j, K ≤ j → (ρ.state j).delivery.delivered = M
  told : ∀ j, K ≤ j → (ρ.state j).lastValue = v

-- An Ack left untold would have reached the coalescer by now.
theorem deferred (h : Starved ρ) (hs : Settled ρ K M v) (hlt : v < M) :
    ∃ j, K ≤ j ∧ (ρ.state j).receiver.coalesce.pending = M := by
  have howed : ∀ j, K ≤ j → (ρ.state j).delayed = true ∨
      (ρ.state j).receiver.coalesce.pending = M := by
    intro j hj
    have howed := (h.inv j).owed
    unfold Owed at howed
    rw [hs.told j hj, hs.delivered j hj] at howed
    exact howed hlt
  obtain ⟨j, hj, hfires⟩ := h.fair.fires K
  rcases hfires with hidle | ⟨srtt, hfire⟩
  · refine ⟨j, hj, (howed j hj).resolve_left ?_⟩
    rw [hidle]
    decide
  · refine ⟨j + 1, hj.trans (Nat.le_succ _), (howed (j + 1) (hj.trans (Nat.le_succ _))).resolve_left ?_⟩
    have hst := next_execution ρ j
    rw [hfire] at hst
    obtain ⟨-, hst⟩ := Option.ite_none_right_eq_some.1 hst
    rw [← Option.some.inj hst, delayed_sendACK]
    · exact Bool.false_ne_true
    · exact (h.inv j).receiving.live.1

theorem told_all (h : Starved ρ) (hs : Settled ρ K M v) : v = M := by
  have hle : v ≤ M := by
    rw [← hs.told K (Nat.le_refl _), ← hs.delivered K (Nat.le_refl _)]
    exact (h.inv K).receiving.below.1
  by_contra hne
  have hlt : v < M := by omega
  obtain ⟨j, hj, hpending⟩ := h.deferred hs hlt
  -- the advance stays pending, and no SACK moves the last time
  have hkept := ρ.always (i := j)
    (I := fun s => s.receiver.coalesce.lastAt = (ρ.state j).receiver.coalesce.lastAt ∧
      v < s.receiver.coalesce.pending) ⟨rfl, by omega⟩ (by
        rintro i hi ⟨hat, hp⟩
        have hi' : K ≤ i := hj.trans hi
        have hi'' : K ≤ i + 1 := hi'.trans (Nat.le_succ _)
        have hquiet := (h.talk i).quiet
        rw [hs.told _ hi'', hs.told _ hi', hs.delivered _ hi''] at hquiet
        exact ⟨(hquiet hlt).1.trans hat, (hquiet hlt).2 hp⟩)
  obtain ⟨i, hi, hlate, srtt, hwake⟩ := h.fair.wakesReceiver j
    ((ρ.state j).receiver.coalesce.lastAt.getD 0 + ackMaxCoalesce)
  obtain ⟨hat, hp⟩ := hkept i hi
  have hi' : K ≤ i := hj.trans hi
  have hst := next_execution ρ i
  rw [hwake] at hst
  have hs' := Option.some.inj hst
  rcases flushACK_cases cfg (h.inv i).receiving.live.1 srtt with ⟨_, hnot⟩ | ⟨he, _⟩
  · apply hnot
    refine ⟨by omega, ?_, fun t ht => ?_⟩
    · have hvalue := hs.told i hi'
      rw [State.lastValue] at hvalue
      omega
    · rw [hat] at ht
      rw [Option.mem_def.1 ht, Option.getD_some] at hlate
      have hiv : ackCoalesceInterval srtt ≤ ackMaxCoalesce := Nat.min_le_right _ _
      omega
  · have hvalue := hs.told (i + 1) (hi'.trans (Nat.le_succ _))
    rw [← hs', he, lastValue_post] at hvalue
    have hdelivered : (Receiver.sackFrame cfg (ρ.state i).delivery.snapshot).ack = M :=
      hs.delivered i hi'
    rw [hdelivered] at hvalue
    have hmax := le_max_right ({ ρ.state i with receiver := { (ρ.state i).receiver with
      coalesce := (ρ.state i).receiver.coalesce.commitLocked
        (ρ.state i).receiver.coalesce.pending (ρ.state i).now } } : State).lastValue M
    omega

-- The next record in order is not held: the writer would have taken it.
theorem next_missing (h : Starved ρ) (hs : Settled ρ K M v) (hj : K ≤ j) :
    M + 1 ∉ (ρ.state j).delivery.pending := by
  intro hheld
  have hkept := ρ.always (i := j) (I := fun s => M + 1 ∈ s.delivery.pending) hheld (by
    intro i hi hmem
    have hi' : K ≤ i + 1 := (hj.trans hi).trans (Nat.le_succ _)
    rcases (h.stepped i).advances.held (M + 1) (.inr (.inl hmem)) with hclosed | hmem | hold
    · rw [(h.inv (i + 1)).receiving.live.2] at hclosed
      cases hclosed
    · exact hmem
    · rw [hs.delivered _ hi'] at hold
      omega)
  obtain ⟨i, hi, hwrites⟩ := h.fair.writes j
  have hi' : K ≤ i := hj.trans hi
  have hhead : (ρ.state i).delivery.head.isSome = true := by
    unfold OrderedDelivery.head
    rw [(h.inv i).receiving.live.2, hs.delivered i hi']
    exact SeqMap.mem_iff_isSome.1 (hkept i hi)
  rcases hwrites with hnone | ⟨srtt, hwrite⟩
  · rw [hnone] at hhead
    cases hhead
  · have hst := next_execution ρ i
    rw [hwrite] at hst
    simp only [next, hhead, if_true] at hst
    have hdelivered := delivered_deliver cfg (h.inv i).receiving hhead srtt
    rw [Option.some.inj hst, hs.delivered i hi', hs.delivered _ (hi'.trans (Nat.le_succ _))] at hdelivered
    omega

-- No copy of it is on its way: it would have been admitted.
theorem no_copy (h : Starved ρ) (hs : Settled ρ K M v) (hj : K ≤ j)
    (hf : f ∈ (ρ.state j).toReceiver) (hdata : f.cmd = .data) : f.seq ≠ M + 1 := by
  intro hseq
  obtain ⟨i, hi, stalled, srtt, hlabel⟩ := h.fair.arrives j f hf
  have hi' : K ≤ i := hj.trans hi
  have hst := next_execution ρ i
  have hu := h.undisturbed i
  rw [hlabel] at hst hu
  obtain ⟨hframe, hst⟩ := Option.ite_none_right_eq_some.1 hst
  have hnext : f.seq = (ρ.state i).delivery.delivered + 1 := by rw [hs.delivered i hi', hseq]
  have hmissing : f.seq ∉ (ρ.state i).delivery.pending := hseq ▸ h.next_missing hs hi'
  have hacc := hu.2 hdata (by omega) hmissing
  have hfiled := ((h.inv i).sending.data f hframe hdata).2
  have hmem := pending_arrive cfg (h.inv i).receiving hdata hnext hfiled hacc stalled srtt
  rw [Option.some.inj hst, hseq] at hmem
  exact h.next_missing hs (hi'.trans (Nat.le_succ _)) hmem

theorem next_outstanding (h : Starved ρ) (hs : Settled ρ K M v)
    (hlt : M < (ρ.state 0).lastFiled) (hj : K ≤ j) :
    M + 1 ∈ (ρ.state j).outstanding.unacked := by
  have hle : M + 1 ≤ (ρ.state j).lastFiled := by
    rw [h.lastFiled_eq j]
    exact hlt
  refine ((h.inv j).sending.retained (M + 1) (Nat.succ_pos _) hle).resolve_right ?_
  rw [hs.delivered j hj]
  omega

theorem goes (h : Starved ρ) {i rtt bdp : ℕ} (hlabel : ρ.label i = .wakeSender rtt bdp) :
    ((ρ.state i).outstanding.retryDue (ρ.state i).now rttMaxRTO rtt bdp).1.abandoned = false ∧
      ρ.state (i + 1) = (ρ.state i).retransmit cfg rtt bdp := by
  have hst := next_execution ρ i
  have hu := h.undisturbed i
  rw [hlabel] at hst hu
  obtain ⟨-, hst⟩ := Option.ite_none_right_eq_some.1 hst
  exact ⟨retryDue_goes hu _ _ _ _, (Option.some.inj hst).symm⟩

-- A probe brings back a PONG, and its Ack clears what has been delivered.
theorem cleared (h : Starved ρ) (hs : Settled ρ K M v) (hlt : M < (ρ.state 0).lastFiled) :
    ∃ j, K ≤ j ∧ ∀ i, j ≤ i → ∀ seq ∈ (ρ.state i).outstanding.unacked, M < seq := by
  obtain ⟨i₁, hi₁, _, rtt, bdp, hwake⟩ := h.fair.wakesSender K 0
  obtain ⟨hgoes, hstate⟩ := h.goes hwake
  obtain ⟨f, hf, _⟩ := (h.inv i₁).sending.flow
  have hzero : f.credit = 0 := (credit_of_flow hf).symm.trans (h.credit i₁)
  obtain ⟨ping, hping, hcmd⟩ := ping_retransmit cfg hf hzero
    (h.next_outstanding hs hlt hi₁) hgoes
  rw [← hstate] at hping
  obtain ⟨i₂, hi₂, stalled, srtt, harrive⟩ := h.fair.arrives (i₁ + 1) ping hping
  have hK₂ : K ≤ i₂ := by omega
  have hst := next_execution ρ i₂
  have hu := h.undisturbed i₂
  rw [harrive] at hst hu
  obtain ⟨-, hst⟩ := Option.ite_none_right_eq_some.1 hst
  obtain ⟨pong, hpong, hpongCmd, hack⟩ :=
    pong_arrive cfg hcmd (hu.1 hcmd).2 stalled srtt
  rw [Option.some.inj hst] at hpong
  rw [hs.delivered i₂ hK₂] at hack
  obtain ⟨i₃, hi₃, rtt', hfeedback⟩ := h.fair.returns (i₂ + 1) pong hpong
  have hcleared : ∀ seq ∈ (ρ.state (i₃ + 1)).outstanding.unacked, M < seq := by
    intro seq hseq
    have hst := next_execution ρ i₃
    have hu : ((ρ.state i₃).sendFilter.accept pong.packetNo).1 = true := by
      have hu := h.undisturbed i₃
      rwa [hfeedback] at hu
    rw [hfeedback] at hst
    obtain ⟨-, hst⟩ := Option.ite_none_right_eq_some.1 hst
    by_contra hle
    have hpos : 0 < seq := by
      obtain ⟨p, hp⟩ := Finmap.mem_iff.1 hseq
      exact ((h.inv (i₃ + 1)).sending.filed seq p hp).pos
    have hackpos : 0 < M := by omega
    simp only [State.feedback, hu, hpongCmd, hack, hackpos, State.handleAck] at hst
    rw [← Option.some.inj hst] at hseq
    refine notMem_handleAck (h.inv i₃).sending.lowest _ _ ?_ (Nat.not_lt.1 hle) hseq
    rw [h.lastFiled_eq]
    omega
  refine ⟨i₃ + 1, by omega, ρ.always (I := fun s => ∀ seq ∈ s.outstanding.unacked, M < seq)
    hcleared ?_⟩
  intro i _ hold seq hseq
  obtain ⟨p', hp'⟩ := Finmap.mem_iff.1 hseq
  obtain ⟨p, hp, _⟩ := h.repaired i seq p' hp'
  exact hold seq (Finmap.mem_iff.2 ⟨p, hp⟩)

-- Without a copy in flight nothing has moved the deadline of the next record.
theorem deadline_kept (h : Starved ρ) (hs : Settled ρ K M v)
    (hlt : M < (ρ.state 0).lastFiled) (hj : K ≤ j) {p : UnackedPkt}
    (hp : (ρ.state j).outstanding.unacked.lookup (M + 1) = some p) :
    ∀ i, j ≤ i → ∃ p', (ρ.state i).outstanding.unacked.lookup (M + 1) = some p' ∧
      p'.sentTime = p.sentTime ∧ p'.rto = p.rto := by
  refine ρ.always (I := fun s => ∃ p', s.outstanding.unacked.lookup (M + 1) = some p' ∧
    p'.sentTime = p.sentTime ∧ p'.rto = p.rto) ⟨p, hp, rfl, rfl⟩ ?_
  rintro i hi ⟨q, hq, hsent, hrto⟩
  have hi' : K ≤ i + 1 := (hj.trans hi).trans (Nat.le_succ _)
  obtain ⟨q', hq'⟩ := Finmap.mem_iff.1 (h.next_outstanding hs hlt hi')
  obtain ⟨r, hr, _, _, hdeadline⟩ := h.repaired i (M + 1) q' hq'
  have hsame : q = r := Option.some.inj (hq.symm.trans hr)
  subst hsame
  rcases hdeadline with ⟨hsent', hrto'⟩ | hwire
  · exact ⟨q', hq', hsent'.trans hsent, hrto'.trans hrto⟩
  · have hfiled := (h.inv i).sending.filed (M + 1) q hq
    exact absurd hfiled.number (h.no_copy hs hi' hwire hfiled.cmd)

-- The oldest record outstanding would have been repeated after its timeout.
theorem all_delivered (h : Starved ρ) (hs : Settled ρ K M v) :
    M = (ρ.state 0).lastFiled := by
  have hle : M ≤ (ρ.state 0).lastFiled := by
    rw [← hs.delivered K (Nat.le_refl _), ← h.lastFiled_eq K]
    exact (h.inv K).receiving.delivered_le
  by_contra hne
  have hlt : M < (ρ.state 0).lastFiled := by omega
  obtain ⟨j, hj, hcleared⟩ := h.cleared hs hlt
  obtain ⟨p, hp⟩ := Finmap.mem_iff.1 (h.next_outstanding hs hlt hj)
  have hkept := h.deadline_kept hs hlt hj hp
  obtain ⟨i, hi, hlate, rtt, bdp, hwake⟩ := h.fair.wakesSender j (p.sentTime + p.rto + 1)
  obtain ⟨q, hq, hsent, hrto⟩ := hkept i hi
  have hi' : K ≤ i := hj.trans hi
  obtain ⟨hgoes, hstate⟩ := h.goes hwake
  have hfiled := (h.inv i).sending.filed (M + 1) q hq
  have hunsacked : q.sacked = false := by
    by_contra hsacked
    have hmark : (ρ.state i).outstanding.Sacked (M + 1) := by
      rw [Outstanding.Sacked, hq]
      exact Bool.eq_true_of_not_eq_false hsacked
    rcases (h.inv i).sending.sacked (M + 1) hmark with hclosed | hheld | hold
    · rw [(h.inv i).receiving.live.2] at hclosed
      cases hclosed
    · exact h.next_missing hs hi' hheld
    · rw [hs.delivered i hi'] at hold
      omega
  have hexpired : q.expired (ρ.state i).now = true := by
    refine decide_eq_true ⟨hfiled.queued, hunsacked, ?_⟩
    omega
  have hrepeated := wires_retransmit cfg hgoes
    (retryDue_first hq hexpired (fun k hk => hcleared i hi k hk) hgoes)
  rw [← hstate] at hrepeated
  exact h.no_copy hs (hi'.trans (Nat.le_succ _)) hrepeated hfiled.cmd hfiled.number

-- Once everything has been told, the receiver holds nothing.
theorem emptied (h : Starved ρ) (hj : (ρ.state j).lastValue = (ρ.state 0).lastFiled) :
    (ρ.state j).delivery.delivered = (ρ.state 0).lastFiled ∧ (ρ.state j).delivery.pending = ∅ := by
  have hinv := (h.inv j).receiving
  have hlow : (ρ.state j).lastValue ≤ (ρ.state j).delivery.delivered := hinv.below.1
  have hfiled := h.lastFiled_eq j
  have hhigh := hinv.delivered_le
  exact ⟨by omega, hinv.pending_empty (by omega)⟩

-- From the step that tells the last Ack on, no SACK after it has been taken,
-- and each one in flight opens the window.
theorem opening_kept (h : Starved ρ)
    (htold : ∀ i, j ≤ i → (ρ.state (i + 1)).lastValue = (ρ.state 0).lastFiled) :
    ∀ i, j ≤ i →
      (∃ f, (ρ.state i).outstanding.flow = some f ∧ f.feedbackNo ≤ (ρ.state j).recvPacketNo) ∧
      ∀ f ∈ (ρ.state i).toSender, f.cmd = .sack → (ρ.state j).recvPacketNo < f.packetNo →
        Opens cfg (ρ.state 0).lastFiled f := by
  refine ρ.always (I := fun s =>
    (∃ f, s.outstanding.flow = some f ∧ f.feedbackNo ≤ (ρ.state j).recvPacketNo) ∧
    ∀ f ∈ s.toSender, f.cmd = .sack → (ρ.state j).recvPacketNo < f.packetNo →
      Opens cfg (ρ.state 0).lastFiled f) ⟨(h.inv j).sending.flow, fun f hf _ hno => ?_⟩ ?_
  · have hle := ((h.inv j).receiving.records f hf).2
    omega
  · rintro i hi ⟨⟨f, hf, hno⟩, hopens⟩
    refine ⟨?_, fun g hg hsack hlate => ?_⟩
    · obtain ⟨f', hf', hcredited⟩ := (h.stepped i).flow f hf
      refine ⟨f', hf', ?_⟩
      rcases hcredited with ⟨_, hsame⟩ | ⟨frame, rtt, hlabel, hsack, hfeedback, hcredit⟩
      · omega
      · -- taking an opening SACK would have given credit
        by_contra hlate
        have hst := next_execution ρ i
        rw [hlabel] at hst
        obtain ⟨hframe, hst⟩ := Option.ite_none_right_eq_some.1 hst
        have hpos := (hopens frame hframe hsack (by omega)).sackCredit_pos
        have hzero := h.credit (i + 1)
        rw [credit_of_flow hf'] at hzero
        omega
    · rcases (h.talk i).records g hg with hold | ⟨_, hnew⟩
      · exact hopens g hold hsack hlate
      · obtain ⟨hdelivered, hempty⟩ := h.emptied (htold i hi)
        obtain ⟨_, no, rfl⟩ := hnew hsack
        exact ⟨_, hempty, hdelivered, no, rfl⟩

-- What an untold record leads to: the SACK that tells the last one gives credit.
theorem impossible (h : Starved ρ) : (ρ.state 0).lastFiled ≤ (ρ.state 0).lastValue := by
  by_contra hlt
  obtain ⟨K, hK⟩ := h.settles
  have hs : Settled ρ K (ρ.state K).delivery.delivered (ρ.state K).lastValue :=
    ⟨fun j hj => (hK j hj).1, fun j hj => (hK j hj).2⟩
  have hend : (ρ.state K).lastValue = (ρ.state 0).lastFiled :=
    (h.told_all hs).trans (h.all_delivered hs)
  obtain ⟨j, hbefore, hafter⟩ := ρ.first (P := fun s => s.lastValue = (ρ.state 0).lastFiled)
    (by omega) hend
  have hmono := ρ.monotone (f := State.lastValue) fun i => (h.talk i).value_le
  have hbound : ∀ i, (ρ.state i).lastValue ≤ (ρ.state 0).lastFiled := by
    intro i
    rw [← h.lastFiled_eq i]
    exact (h.inv i).receiving.below.1.trans (h.inv i).receiving.delivered_le
  have htold : ∀ i, j ≤ i → (ρ.state (i + 1)).lastValue = (ρ.state 0).lastFiled := by
    intro i hi
    refine le_antisymm (hbound _) ?_
    rw [← hafter]
    exact hmono (Nat.succ_le_succ hi)
  have hkept := h.opening_kept htold
  have hnews : (ρ.state j).lastValue < (ρ.state (j + 1)).lastValue := by
    rw [hafter]
    exact lt_of_le_of_ne (hbound j) hbefore
  obtain ⟨f, hf, hsack, hno⟩ := (h.talk j).told hnews
  have hopens := (hkept (j + 1) (Nat.le_succ j)).2 f hf hsack hno
  obtain ⟨i, hi, rtt, hlabel⟩ := h.fair.returns (j + 1) f hf
  obtain ⟨⟨g, hg, hgno⟩, _⟩ := hkept i (by omega)
  have hst := next_execution ρ i
  have hacc : ((ρ.state i).sendFilter.accept f.packetNo).1 = true := by
    have hu := h.undisturbed i
    rwa [hlabel] at hu
  rw [hlabel] at hst
  obtain ⟨-, hst⟩ := Option.ite_none_right_eq_some.1 hst
  have hvalid : validSACK g f (ρ.state i).lastFiled = true := by
    rw [h.lastFiled_eq]
    exact hopens.valid (by omega) (Nat.le_refl _) (by omega)
  have hcredit := credit_feedback hg hsack hacc hvalid rtt
  rw [Option.some.inj hst, h.credit] at hcredit
  have hpos := hopens.sackCredit_pos
  omega

end Starved

end UdpCustom.Credit
