import UdpCustom.Credit.Theorems

-- How a run fills the receiver's window, and how it leaves the sender without
-- credit.
namespace UdpCustom.Credit

open UdpCustom.Frame UdpCustom.Replay UdpCustom.Delivery UdpCustom.Flow UdpCustom.Recovery
open UdpCustom.Coalesce UdpCustom.Sack
open UdpCustom.Sender (Config)
open Transition

variable {cfg : Config} {s s' : State} {f : SendFlow} {base n : ℕ}

theorem reachable_next {l : Label} (h : Reachable (system cfg) s) (hst : next cfg s l = some s') :
    Reachable (system cfg) s' :=
  .step h trivial hst

-- What a report changes: the coalescer, and the records on the way back.
structure SendsBack (s s' : State) : Prop where
  state : s' = { s with
    receiver := { s.receiver with coalesce := s'.receiver.coalesce }
    recvPacketNo := s'.recvPacketNo
    toSender := s'.toSender }
  number : s.recvPacketNo ≤ s'.recvPacketNo
  kept : ∀ f ∈ s.toSender, f ∈ s'.toSender
  lastAt : s'.receiver.coalesce.lastAt = s.receiver.coalesce.lastAt ∨
    s'.receiver.coalesce.lastAt = some s.now

theorem SendsBack.refl (s : State) : SendsBack s s :=
  ⟨rfl, Nat.le_refl _, fun _ hf => hf, .inl rfl⟩

theorem SendsBack.delivery (h : SendsBack s s') : s'.delivery = s.delivery := by
  rw [h.state]

theorem SendsBack.now (h : SendsBack s s') : s'.now = s.now := by
  rw [h.state]

theorem SendsBack.lastAt_now (h : SendsBack s s') (hat : s.receiver.coalesce.lastAt = some s.now) :
    s'.receiver.coalesce.lastAt = some s'.now := by
  rw [h.now]
  exact h.lastAt.elim (fun he => he.trans hat) id

theorem sendsBack_sendACK (cfg : Config) (hopen : s.receiver.closed = false) (srtt ack : ℕ) :
    SendsBack s (s.sendACK cfg srtt ack) := by
  rcases sendACK_cases cfg hopen srtt ack with ⟨he, _⟩ | ⟨he, _⟩ | ⟨he, _⟩
  · rw [he]
    exact .refl s
  · rw [he]
    exact ⟨rfl, Nat.le_refl _, fun _ hf => hf, .inl rfl⟩
  · rw [he]
    exact ⟨rfl, Nat.le_succ _, fun f hf => List.mem_append_left _ hf,
      .inr (lastAt_commitSent _ _)⟩

-- A coalescer that has just spoken defers what is not urgent.
theorem lastValue_sendACK (h : Receiving s) (hat : s.receiver.coalesce.lastAt = some s.now)
    (hempty : s.delivery.pending = ∅) (srtt ack : ℕ) :
    (s.sendACK cfg srtt ack).lastValue = s.lastValue := by
  rcases sendACK_cases cfg h.live.1 srtt ack with ⟨he, _⟩ | ⟨he, _⟩ | ⟨_, hworth⟩
  · rw [he]
  · rw [he]
  · exfalso
    rcases hworth with ⟨_, helapsed⟩ | hurgent
    · have hwait := helapsed s.now hat
      have hiv : 0 < ackCoalesceInterval srtt :=
        lt_min (lt_max_of_lt_right (by decide)) (by decide)
      omega
    · rw [sackGaps_bitmap h.window, hempty, SeqMap.size_empty] at hurgent
      exact absurd hurgent (by decide)

-- Nothing is on its way to the receiver, and the next packet numbers of both
-- ends are new to the other.
structure Calm (s : State) : Prop where
  abandoned : s.abandoned = false
  forward : s.toReceiver = []
  returning : s.sendFilter.maxSeq ≤ s.recvPacketNo
  arriving : s.recvFilter.maxSeq ≤ s.sendPacketNo

theorem Calm.sendsBack (h : Calm s) (hsent : SendsBack s s') : Calm s' := by
  have hnumber := hsent.number
  rw [hsent.state]
  exact { h with returning := h.returning.trans hnumber }

-- The next record has been sent and admitted.
def State.admitted (cfg : Config) (s : State) : State :=
  { s.sendRecord cfg [] 0 with
    toReceiver := []
    recvFilter := (s.recvFilter.accept (s.sendPacketNo + 1)).2
    receiver := { s.receiver with delivery := { s.delivery with
      pending := s.delivery.pending.insert (s.lastFiled + 1) []
      wake := true } } }

theorem Calm.admitted (cfg : Config) (h : Calm s) : Calm (s.admitted cfg) :=
  ⟨h.abandoned, rfl, h.returning,
    maxSeq_accept (h.arriving.trans (Nat.le_succ _)) (Nat.le_refl _)⟩

theorem offer_next_filed (h : Receiving s)
    (hfree : s.lastFiled < s.delivery.delivered + s.delivery.limit) :
    ∃ ack, s.delivery.offerObserved (s.lastFiled + 1) [] =
      ({ fresh := true, ok := true, ack := ack }, { s.delivery with
        pending := s.delivery.pending.insert (s.lastFiled + 1) []
        wake := true }) := by
  have hnew : s.lastFiled + 1 ∉ s.delivery.pending := by
    intro hmem
    have hle := h.held_le _ hmem
    omega
  have hlow := h.delivered_le
  have hroom := SeqMap.size_lt_of_window h.window (j := s.lastFiled + 1) (by omega) (by omega) hnew
  rcases offerObserved_cases s.delivery (s.lastFiled + 1) [] with
    ⟨_, hwhy⟩ | ⟨_, _, _, hold⟩ | ⟨_, _, _, hheld⟩ | ⟨ack, he, _⟩
  · exfalso
    rcases hwhy with hzero | hclosed | ⟨_, _, hfull⟩
    · omega
    · rw [h.live.2] at hclosed
      cases hclosed
    · omega
  · omega
  · exact absurd hheld hnew
  · exact ⟨ack, he⟩

-- Its arrival reports at once if the writer has stalled.
theorem arrive_next_filed (cfg : Config) (h : Receiving s) (hcalm : Calm s)
    (hfree : s.lastFiled < s.delivery.delivered + s.delivery.limit) (stalled : Bool) :
    SendsBack (if stalled then (s.admitted cfg).sendACK cfg 0 s.delivery.delivered
        else s.admitted cfg)
      ((s.sendRecord cfg [] 0).arrive cfg (s.recordWire cfg []) stalled 0) := by
  obtain ⟨ack, hoffer⟩ := offer_next_filed h hfree
  have hacc : (s.recvFilter.accept (s.sendPacketNo + 1)).1 = true :=
    accept_newer (Nat.lt_succ_of_le hcalm.arriving)
  have hflight : (s.sendRecord cfg [] 0).toReceiver.erase (s.recordWire cfg []) = [] := by
    simp [State.sendRecord, hcalm.forward]
  have harrive : (s.sendRecord cfg [] 0).arrive cfg (s.recordWire cfg []) stalled 0 =
      { s.sendRecord cfg [] 0 with
        toReceiver := []
        recvFilter := (s.recvFilter.accept (s.sendPacketNo + 1)).2 }.handleData cfg
          (s.recordWire cfg []) stalled 0 := by
    simp only [State.arrive, hflight]
    exact if_pos hacc
  rw [harrive, State.handleData]
  have hoffer' : ({ s.sendRecord cfg [] 0 with
      toReceiver := []
      recvFilter := (s.recvFilter.accept (s.sendPacketNo + 1)).2 } : State).delivery.offerObserved
        (s.recordWire cfg []).seq (s.recordWire cfg []).data = _ := hoffer
  rw [hoffer']
  have hlive : (s.admitted cfg).receiver.closed = false := h.live.1
  simp only [if_true, true_and]
  cases stalled with
  | false =>
      cases ack with
      | none => exact .refl _
      | some a => exact sendsBack_sendACK cfg hlive 0 a
  | true =>
      cases ack with
      | none => exact .refl _
      | some a =>
          refine sendsBack_sendACK cfg ?_ 0 a
          rw [(sendsBack_sendACK cfg hlive 0 s.delivery.delivered).state]
          exact hlive

-- The receiver stands at `base` and holds the `n` records after it; the sender
-- keeps just these.
structure Filled (s : State) (f : SendFlow) (base n : ℕ) : Prop where
  calm : Calm s
  filed : s.lastFiled = base + n
  delivered : s.delivery.delivered = base
  limit : s.delivery.limit = deliveryWindow
  flow : s.outstanding.flow = some f
  outstanding : ∀ k, k ∈ s.outstanding.unacked ↔ base < k ∧ k ≤ base + n
  held : ∀ k, base < k → k ≤ base + n → k ∈ s.delivery.pending

theorem Filled.sendsBack (h : Filled s f base n) (hsent : SendsBack s s') : Filled s' f base n := by
  have hcalm := h.calm.sendsBack hsent
  rw [hsent.state] at hcalm ⊢
  exact { h with calm := hcalm }

theorem Filled.admitted (cfg : Config) (h : Filled s f base n) :
    Filled (s.admitted cfg) f base (n + 1) := by
  refine ⟨h.calm.admitted cfg, ?_, h.delivered, h.limit, h.flow, fun k => ?_, fun k hlow hhigh => ?_⟩
  · rw [State.admitted, State.sendRecord, h.filed]
    rfl
  · refine mem_sendRecord.trans ?_
    rw [h.outstanding, h.filed]
    omega
  · refine Finmap.mem_insert.2 ?_
    by_cases hnew : k = s.lastFiled + 1
    · exact .inl hnew
    · refine .inr (h.held k hlow ?_)
      rw [h.filed] at hnew
      omega

theorem send_next (h : Filled s f base n) (hroom : n < f.window) :
    next cfg s (.send [] 0) = some (s.sendRecord cfg [] 0) := by
  have hsize : SeqMap.size s.outstanding.unacked ≤ n :=
    SeqMap.size_le_of_window fun k hk => (h.outstanding k).1 hk
  have hwindow : s.window = f.window := by rw [State.window, h.flow]
  have hguard : s.abandoned = false ∧ SeqMap.size s.outstanding.unacked < s.window :=
    ⟨h.calm.abandoned, by omega⟩
  simp only [next, if_pos hguard]

-- One more record leaves and is admitted.
theorem pass_record (hreach : Reachable (system cfg) s)
    (h : Filled s f base n) (hroom : n < f.window) (hfree : n < deliveryWindow) (stalled : Bool) :
    ∃ s', Reachable (system cfg) s' ∧ SendsBack (if stalled then
      (s.admitted cfg).sendACK cfg 0 s.delivery.delivered else s.admitted cfg) s' := by
  have hsent := reachable_next hreach (send_next h hroom)
  have hwire : s.recordWire cfg [] ∈ (s.sendRecord cfg [] 0).toReceiver :=
    List.mem_append_right _ (List.mem_singleton_self _)
  have harrive : next cfg (s.sendRecord cfg [] 0) (.arrive (s.recordWire cfg []) stalled 0) =
      some ((s.sendRecord cfg [] 0).arrive cfg (s.recordWire cfg []) stalled 0) := by
    simp only [next, if_pos hwire]
  refine ⟨_, reachable_next hsent harrive, arrive_next_filed cfg (inv_reachable hreach).receiving
    h.calm ?_ stalled⟩
  rw [h.filed, h.delivered, h.limit]
  omega

theorem fill (hreach : Reachable (system cfg) s) {base : ℕ} (h : Filled s f base 0)
    (n : ℕ) (hroom : n ≤ f.window) (hfree : n ≤ deliveryWindow) :
    ∃ s', Reachable (system cfg) s' ∧ Filled s' f base n := by
  induction n with
  | zero => exact ⟨s, hreach, h⟩
  | succ n ih =>
      obtain ⟨s₁, hreach₁, h₁⟩ := ih (by omega) (by omega)
      obtain ⟨s', hreach', hsent⟩ := pass_record hreach₁ h₁ hroom hfree false
      exact ⟨s', hreach', (h₁.admitted cfg).sendsBack hsent⟩

-- The writer hands on the next record.
def State.written (s : State) : State :=
  { s with
    delayed := !s.delayed
    receiver := { s.receiver with delivery := s.delivery.complete (s.delivery.delivered + 1) } }

theorem deliver_eq (cfg : Config) (s : State) (srtt : ℕ) :
    s.deliver cfg srtt =
      if s.delayed then s.written.sendACK cfg srtt (s.delivery.delivered + 1) else s.written := by
  unfold State.deliver State.written
  cases hdelayed : s.delayed with
  | false => rfl
  | true => rfl

theorem sendsBack_deliver (cfg : Config) (h : Receiving s) (srtt : ℕ) :
    SendsBack s.written (s.deliver cfg srtt) := by
  have hlive : s.written.receiver.closed = false := h.live.1
  rw [deliver_eq]
  split
  · exact sendsBack_sendACK cfg hlive srtt _
  · exact .refl _

-- What the writer leaves untold after the last record it found.
theorem untold_deliver (cfg : Config) (h : Receiving s) (hhead : s.delivery.head.isSome = true)
    (hat : s.receiver.coalesce.lastAt = some s.now)
    (hempty : (s.deliver cfg 0).delivery.pending = ∅) :
    (s.deliver cfg 0).lastValue < (s.deliver cfg 0).delivery.delivered := by
  have hwritten : Receiving s.written := receiving_complete h hhead _
  have hlow : s.lastValue ≤ s.delivery.delivered := h.below.1
  have hsame : (s.deliver cfg 0).lastValue = s.lastValue := by
    rw [(sendsBack_deliver cfg h 0).delivery] at hempty
    rw [deliver_eq]
    split
    · exact lastValue_sendACK hwritten hat hempty 0 _
    · rfl
  rw [(sendsBack_deliver cfg h 0).delivery, hsame]
  exact Nat.lt_succ_of_le hlow

-- The writer hands on `n` records the receiver holds in order.
theorem drain (hreach : Reachable (system cfg) s) (hcalm : Calm s) (n : ℕ)
    (hheld : ∀ k, s.delivery.delivered < k → k ≤ s.delivery.delivered + n → k ∈ s.delivery.pending) :
    ∃ s', Reachable (system cfg) s' ∧ Calm s' ∧ s'.outstanding = s.outstanding ∧
      s'.lastFiled = s.lastFiled ∧ s'.delivery.delivered = s.delivery.delivered + n ∧
      s'.delivery.limit = s.delivery.limit ∧
      (∀ k ∈ s.delivery.pending, s.delivery.delivered + n < k → k ∈ s'.delivery.pending) ∧
      (s.receiver.coalesce.lastAt = some s.now → s'.receiver.coalesce.lastAt = some s'.now ∧
        (0 < n → s'.delivery.pending = ∅ → s'.lastValue < s'.delivery.delivered)) := by
  induction n with
  | zero =>
      exact ⟨s, hreach, hcalm, rfl, rfl, rfl, rfl, fun k hk _ => hk, fun hat => ⟨hat, fun hn =>
        absurd hn (Nat.lt_irrefl 0)⟩⟩
  | succ n ih =>
      obtain ⟨s₁, hreach₁, hcalm₁, hout, hfiled, hdelivered, hlimit, hrest, hat₁⟩ :=
        ih fun k hlow hhigh => hheld k hlow (by omega)
      have hinv := (inv_reachable hreach₁).receiving
      have hhead : s₁.delivery.head.isSome = true := by
        unfold OrderedDelivery.head
        rw [hinv.live.2, hdelivered]
        exact SeqMap.mem_iff_isSome.1 (hrest _ (hheld _ (by omega) (by omega)) (by omega))
      have hwrite : next cfg s₁ (.write 0) = some (s₁.deliver cfg 0) := by
        simp only [next, if_pos hhead]
      have hsent := sendsBack_deliver cfg hinv 0
      have hwritten : Calm s₁.written := { hcalm₁ with }
      have huntold := untold_deliver cfg hinv hhead
      refine ⟨_, reachable_next hreach₁ hwrite, hwritten.sendsBack hsent, ?_, ?_, ?_, ?_, ?_, ?_⟩
      · rw [hsent.state]
        exact hout
      · rw [hsent.state]
        exact hfiled
      · rw [hsent.delivery]
        exact congrArg (· + 1) hdelivered
      · rw [hsent.delivery]
        exact hlimit
      · intro k hk hlate
        rw [hsent.delivery]
        refine Finmap.mem_erase.2 ⟨?_, hrest k hk (by omega)⟩
        omega
      · intro hat
        have hat := (hat₁ hat).1
        exact ⟨hsent.lastAt_now hat, fun _ hempty => huntold hat hempty⟩

-- A record of the receiving end carries everything delivered to the sender.
theorem acknowledge (hreach : Reachable (system cfg) s) (hcalm : Calm s)
    (hpos : 0 < s.delivery.delivered) :
    ∃ s', Reachable (system cfg) s' ∧ Calm s' ∧
      s'.outstanding = s.outstanding.handleAck (s.lastFiled + 1) s.delivery.delivered s.now 0 ∧
      s'.lastFiled = s.lastFiled ∧ s'.delivery = s.delivery ∧ s'.delayed = s.delayed ∧
      s.delivery.delivered ≤ s'.lastValue ∧ (s.toSender = [] → s'.toSender = []) := by
  set frame := controlFrame cfg .data s.delivery.delivered with hframe
  set wire : UDPCFrame := { frame with packetNo := s.recvPacketNo + 1 } with hwire
  have hrecord : next cfg s (.record .data s.delivery.delivered) = some (s.post frame) :=
    if_pos ⟨by decide, Nat.le_refl _⟩
  have hmem : wire ∈ (s.post frame).toSender :=
    List.mem_append_right _ (List.mem_singleton_self _)
  have hfeedback : next cfg (s.post frame) (.feedback wire 0) =
      some ((s.post frame).feedback wire 0) := if_pos hmem
  have hacc : ((s.post frame).sendFilter.accept wire.packetNo).1 = true :=
    accept_newer (Nat.lt_succ_of_le hcalm.returning)
  have hcmd : wire.cmd ≠ .sack := show Command.data ≠ .sack by decide
  have htaken : (s.post frame).feedback wire 0 = ({ s.post frame with
      toSender := (s.post frame).toSender.erase wire
      sendFilter := ((s.post frame).sendFilter.accept wire.packetNo).2 } : State).handleAck
        s.delivery.delivered 0 := by
    simp only [State.feedback, hacc, Bool.true_eq_false, if_false]
    rw [if_neg hcmd, if_pos (show 0 < wire.ack from hpos)]
    rfl
  refine ⟨_, reachable_next (reachable_next hreach hrecord) hfeedback, ?_⟩
  rw [htaken]
  refine ⟨{ hcalm with returning := ?_ }, rfl, rfl, rfl, rfl, ?_, fun hnone => ?_⟩
  · exact maxSeq_accept (hcalm.returning.trans (Nat.le_succ _)) (Nat.le_refl _)
  · have hvalue := lastValue_post s frame
    have hmax := le_max_right s.lastValue frame.ack
    rw [← hvalue] at hmax
    exact hmax
  · simp [State.handleAck, State.post, hnone, hwire]

theorem retract_zero (unacked : SeqMap UnackedPkt) (now : ℕ) (seqs : List ℕ) (f : SendFlow) :
    retract unacked now 0 seqs f = f := by
  induction seqs with
  | nil => rfl
  | cons seq rest ih =>
      unfold retract
      split
      · exact ih
      · simp only [undoIfSpurious, or_true, if_true, Bool.false_eq_true, if_false]
        exact ih

-- Slow start opens the congestion window by every record acknowledged.
theorem cwnd_acknowledged (hrestart : f.restartTo = 0) (hslow : f.cwnd < f.ssthresh)
    (n : ℕ) : (f.acknowledged n).cwnd = min f.max (f.cwnd + n) := by
  have hsame : f.restart = f := by
    unfold SendFlow.restart
    rw [hrestart]
    rfl
  simp only [SendFlow.acknowledged, hsame, if_pos hslow]

theorem cwnd_handleAck {o : Outstanding} (hlow : o.Lowest) (hflow : o.flow = some f)
    (hrestart : f.restartTo = 0) (hslow : f.cwnd < f.ssthresh) (hpos : 0 < n)
    (hmem : ∀ k, base < k → k ≤ base + n → k ∈ o.unacked) (now : ℕ) :
    ∃ f', (o.handleAck (base + n + 1) (base + n) now 0).flow = some f' ∧
      min f.max (f.cwnd + n) ≤ f'.cwnd := by
  have hfirst : base + 1 ∈ o.unacked := hmem _ (Nat.lt_succ_self _) (by omega)
  have hlowest := hlow _ hfirst
  have hsize : SeqMap.size o.unacked ≠ 0 := Finset.card_ne_zero_of_mem (Finmap.mem_keys.2 hfirst)
  unfold Outstanding.handleAck
  rw [if_neg (by omega), if_neg (by omega)]
  dsimp only
  rw [hflow, Option.map_some, retract_zero]
  set covered := List.range' o.lowestOutstanding (base + n + 1 - o.lowestOutstanding) with hcovered
  have hcount : n ≤ (covered.filter (· ∈ o.unacked)).length := by
    have hsub : List.range' (base + 1) n ⊆ covered.filter (· ∈ o.unacked) := by
      intro k hk
      rw [List.mem_range'_1] at hk
      refine List.mem_filter.2 ⟨?_, decide_eq_true (hmem k (by omega) (by omega))⟩
      rw [hcovered, List.mem_range'_1]
      omega
    have hle := (List.subperm_of_subset List.nodup_range' hsub).length_le
    rwa [List.length_range'] at hle
  refine ⟨_, rfl, ?_⟩
  -- a sample of the round trip touches neither window nor threshold
  split
  · rw [cwnd_acknowledged hrestart hslow]
    omega
  · split
    · have hsample : ∀ sample, (f.observeRTT sample).restartTo = f.restartTo ∧
          (f.observeRTT sample).cwnd = f.cwnd ∧ (f.observeRTT sample).ssthresh = f.ssthresh ∧
          (f.observeRTT sample).max = f.max := by
        intro sample
        unfold SendFlow.observeRTT
        split_ifs <;> exact ⟨rfl, rfl, rfl, rfl⟩
      obtain ⟨hr, hc, ht, hm⟩ := hsample (now - _)
      rw [cwnd_acknowledged (hr.trans hrestart) (by omega), hm, hc]
      omega
    · rw [cwnd_acknowledged hrestart hslow]
      omega

-- Everything held is written and acknowledged.
theorem settle (hreach : Reachable (system cfg) s)
    (h : Filled s f base n) (hpos : 0 < n) (hrestart : f.restartTo = 0) (hslow : f.cwnd < f.ssthresh) :
    ∃ s' f', Reachable (system cfg) s' ∧ Filled s' f' (base + n) 0 ∧ f'.credit = f.credit ∧
      min f.max (f.cwnd + n) ≤ f'.cwnd := by
  obtain ⟨s₁, hreach₁, hcalm₁, hout, hfiled, hdelivered, hlimit, _⟩ := drain hreach h.calm n
    fun k hlow hhigh => h.held k (by rwa [h.delivered] at hlow) (by rwa [h.delivered] at hhigh)
  rw [h.filed] at hfiled
  rw [h.delivered] at hdelivered
  have hinv₁ := (inv_reachable hreach₁).sending
  obtain ⟨s', hreach', hcalm', hout', hfiled', hdelivery', _⟩ :=
    acknowledge hreach₁ hcalm₁ (by omega)
  rw [hfiled, hdelivered] at hout'
  have hflow₁ : s₁.outstanding.flow = some f := hout ▸ h.flow
  obtain ⟨f', hf', hcwnd⟩ := cwnd_handleAck hinv₁.lowest hflow₁ hrestart hslow hpos
    (fun k hlow hhigh => hout ▸ (h.outstanding k).2 ⟨hlow, hhigh⟩) s₁.now
  have hcredit : f'.credit = f.credit := by
    obtain ⟨g, hg, hsteady⟩ := credited_steady (steadyFlow_handleAck _ _ _ _ _) hflow₁
    rw [hf'] at hg
    cases hg
    exact hsteady.credit
  refine ⟨s', f', hreach', ⟨hcalm', hfiled'.trans hfiled, ?_, ?_, hout' ▸ hf', fun k => ?_, ?_⟩,
    hcredit, hcwnd⟩
  · rw [hdelivery']
    exact hdelivered
  · rw [hdelivery', hlimit]
    exact h.limit
  · refine ⟨fun hk => ?_, fun hk => by omega⟩
    exfalso
    obtain ⟨p, hp⟩ := Finmap.mem_iff.1 hk
    have hle := ((inv_reachable hreach').sending.filed k p hp).le
    rw [hout'] at hk
    exact notMem_handleAck hinv₁.lowest _ _ (Nat.lt_succ_self _) (by omega) hk
  · intro k hlow hhigh
    omega

theorem feedback_eq (s : State) (frame : UDPCFrame) (rtt : ℕ) :
    ∃ o wires, s.feedback frame rtt = { s with
      outstanding := o
      toReceiver := s.toReceiver ++ wires
      toSender := s.toSender.erase frame
      sendFilter := (s.sendFilter.accept frame.packetNo).2 } := by
  have hsilent : s.toReceiver = s.toReceiver ++ [] := (List.append_nil _).symm
  unfold State.feedback
  dsimp only
  split
  · exact ⟨s.outstanding, [], by rw [← hsilent]⟩
  · split
    · unfold State.handleSACK
      dsimp only
      split
      · exact ⟨_, _, rfl⟩
      · exact ⟨_, _, rfl⟩
    · split
      · exact ⟨_, [], by rw [← hsilent]; rfl⟩
      · exact ⟨s.outstanding, [], by rw [← hsilent]⟩

-- The channel loses everything.
theorem lose_all (h : Reachable (system cfg) s) :
    Reachable (system cfg) { s with toReceiver := [], toSender := [] } := by
  have hforward : ∀ frames, Reachable (system cfg) { s with toReceiver := frames } →
      Reachable (system cfg) { s with toReceiver := [] } := by
    intro frames
    induction frames with
    | nil => exact id
    | cons f rest ih =>
        intro hs
        refine ih (reachable_next hs (l := .lose .forward f) ?_)
        simp [next]
  have hbackward : ∀ frames, Reachable (system cfg) { s with toReceiver := [], toSender := frames } →
      Reachable (system cfg) { s with toReceiver := [], toSender := [] } := by
    intro frames
    induction frames with
    | nil => exact id
    | cons f rest ih =>
        intro hs
        refine ih (reachable_next hs (l := .lose .backward f) ?_)
        simp [next]
  exact hbackward _ (hforward _ h)

-- The record that fills the window is reported at once, without credit.
theorem report_full (hreach : Reachable (system cfg) s)
    (h : Filled s f base n) (hroom : n < f.window) (hfull : n + 1 = deliveryWindow) :
    ∃ s', Reachable (system cfg) s' ∧ Filled s' f base (n + 1) ∧
      s'.receiver.coalesce.lastAt = some s'.now ∧ SeqMap.size s'.delivery.pending = deliveryWindow ∧
      { Receiver.sackFrame cfg s'.delivery.snapshot with packetNo := s.recvPacketNo + 1 } ∈
        s'.toSender ∧ s'.sendFilter.maxSeq ≤ s.recvPacketNo ∧ s.recvPacketNo < s'.recvPacketNo := by
  have hinv := (inv_reachable hreach).receiving
  obtain ⟨s', hreach', hsent⟩ := pass_record hreach h hroom (by omega) true
  rw [if_pos rfl] at hsent
  have hlive : (s.admitted cfg).receiver.closed = false := hinv.live.1
  have hfilled := ((h.admitted cfg).sendsBack (sendsBack_sendACK cfg hlive 0 _)).sendsBack hsent
  have hdelivery : s'.delivery = (s.admitted cfg).delivery :=
    hsent.delivery.trans (delivery_sendACK cfg hlive 0 _)
  have hwindow := (inv_reachable hreach').receiving.window
  have hsize : SeqMap.size s'.delivery.pending = deliveryWindow := by
    refine le_antisymm ?_ ?_
    · exact (size_pending_le hwindow).trans_eq hfilled.limit
    · rw [← hfull]
      exact SeqMap.le_size_of_window hfilled.held
  -- a full window is an urgent report
  have hurgent : ackGapUrgent ≤ sackGaps (s.admitted cfg).delivery.bitmap := by
    rw [← hdelivery, sackGaps_bitmap hwindow, hsize]
    decide
  rcases sendACK_cases cfg hlive 0 s.delivery.delivered with ⟨_, _, hfew⟩ | ⟨_, _, hfew⟩ | ⟨he, _⟩
  · omega
  · omega
  · rw [he] at hsent
    refine ⟨s', hreach', hfilled, hsent.lastAt_now (lastAt_commitSent _ _), hsize, ?_, ?_, ?_⟩
    · rw [hdelivery]
      exact hsent.kept _ (List.mem_append_right _ (List.mem_singleton_self _))
    · rw [hsent.state]
      exact h.calm.returning
    · exact hsent.number

-- The sender has no credit, the receiver has delivered everything, and the Ack
-- of the last record is still to be told.
structure Shut (s : State) : Prop where
  calm : Calm s
  quiescent : Quiescent s
  credit : s.credit = 0
  delayed : s.delayed = false
  delivered : s.delivery.delivered = s.lastFiled
  untold : s.lastValue < s.lastFiled

-- The report reaches the sender and everything else in flight is lost.
theorem close_window (hreach : Reachable (system cfg) s)
    (h : Filled s f base n) (hroom : n < f.window) (hfull : n + 1 = deliveryWindow) :
    ∃ s', Reachable (system cfg) s' ∧ Calm s' ∧ s'.credit = 0 ∧ s'.lastFiled = base + (n + 1) ∧
      s'.delivery.delivered = base ∧ s'.receiver.coalesce.lastAt = some s'.now ∧
      ∀ k, base < k → k ≤ base + (n + 1) → k ∈ s'.delivery.pending := by
  obtain ⟨s₁, hreach₁, hfilled, hat, hsize, hmem, hfilter, hlate⟩ := report_full hreach h hroom hfull
  set frame : UDPCFrame :=
    { Receiver.sackFrame cfg s₁.delivery.snapshot with packetNo := s.recvPacketNo + 1 } with hframe
  have hinv₁ := (inv_reachable hreach₁).receiving
  have hno : f.feedbackNo < frame.packetNo := by
    obtain ⟨g, hg, hle⟩ := (inv_reachable hreach).sending.flow
    rw [h.flow] at hg
    cases hg
    exact Nat.lt_succ_of_le hle
  have hvalid : validSACK f frame s₁.lastFiled = true := by
    refine Receiver.validSACK_sackFrame cfg ?_ hinv₁.delivered_le hinv₁.held_le hno
    rw [hfilled.filed]
    omega
  have hacc : (s₁.sendFilter.accept frame.packetNo).1 = true :=
    accept_newer (Nat.lt_succ_of_le hfilter)
  have hcredit := credit_feedback hfilled.flow rfl hacc hvalid 0
  have hzero : sackCredit frame.data = 0 := by
    have hnone : s₁.delivery.snapshot.credit = 0 := by
      rw [OrderedDelivery.snapshot, hsize, hfilled.limit, Nat.sub_self]
    rw [hframe, Receiver.sackFrame, sackCredit_encode (by rw [hnone]; decide), hnone]
  rw [hzero, Nat.zero_min] at hcredit
  have hfeedback : next cfg s₁ (.feedback frame 0) = some (s₁.feedback frame 0) := if_pos hmem
  have hreach₂ := lose_all (reachable_next hreach₁ hfeedback)
  obtain ⟨o, wires, he⟩ := feedback_eq s₁ frame 0
  rw [he] at hcredit hreach₂
  refine ⟨_, hreach₂, ⟨hfilled.calm.abandoned, rfl, ?_, hfilled.calm.arriving⟩, hcredit,
    hfilled.filed, hfilled.delivered, hat, hfilled.held⟩
  exact maxSeq_accept hfilled.calm.returning hlate

-- The timer of a delivery that waits for company runs out.
theorem settle_delayed (hreach : Reachable (system cfg) s)
    (hat : s.receiver.coalesce.lastAt = some s.now) (hempty : s.delivery.pending = ∅) :
    ∃ s', Reachable (system cfg) s' ∧ SendsBack { s with delayed := false } s' ∧
      s'.lastValue = s.lastValue := by
  have hinv := (inv_reachable hreach).receiving
  cases hdelayed : s.delayed with
  | false =>
      have hsame : ({ s with delayed := false } : State) = s := by rw [← hdelayed]
      exact ⟨s, hreach, by rw [hsame]; exact .refl s, rfl⟩
  | true =>
      have hfire : next cfg s (.fire 0) =
          some (({ s with delayed := false } : State).sendACK cfg 0 s.delivery.delivered) :=
        if_pos hdelayed
      have hinv' : Receiving { s with delayed := false } := { hinv with }
      exact ⟨_, reachable_next hreach hfire, sendsBack_sendACK cfg hinv'.live.1 0 _,
        lastValue_sendACK hinv' hat hempty 0 _⟩

theorem shut_of_held (hreach : Reachable (system cfg) s) (hcalm : Calm s) (hcredit : s.credit = 0)
    (hat : s.receiver.coalesce.lastAt = some s.now) (hlt : s.delivery.delivered < s.lastFiled)
    (hheld : ∀ k, s.delivery.delivered < k → k ≤ s.lastFiled → k ∈ s.delivery.pending) :
    ∃ s', Reachable (system cfg) s' ∧ Shut s' := by
  obtain ⟨s₁, hreach₁, hcalm₁, hout₁, hfiled₁, hdelivered₁, _, _, hlast⟩ := drain hreach hcalm
    (s.lastFiled - s.delivery.delivered) fun k hlow hhigh => hheld k hlow (by omega)
  have hall : s₁.delivery.delivered = s₁.lastFiled := by omega
  have hempty := (inv_reachable hreach₁).receiving.pending_empty hall.ge
  obtain ⟨hat₁, huntold⟩ := hlast hat
  have huntold := huntold (by omega) hempty
  obtain ⟨s₂, hreach₂, hsent, hvalue⟩ := settle_delayed hreach₁ hat₁ hempty
  have hidle : Calm { s₁ with delayed := false } := { hcalm₁ with }
  have hcalm₂ := hidle.sendsBack hsent
  have hdelivery : s₂.delivery = s₁.delivery := hsent.delivery
  have hfiled₂ : s₂.lastFiled = s₁.lastFiled := by rw [hsent.state]
  refine ⟨_, lose_all hreach₂, { hcalm₂ with forward := rfl }, ⟨rfl, rfl, hdelivery ▸ hempty⟩, ?_, ?_,
    ?_, ?_⟩
  · rw [hsent.state]
    simp only [State.credit, hout₁]
    exact hcredit
  · rw [hsent.state]
  · exact hdelivery ▸ hall.trans hfiled₂.symm
  · have hvalue' : s₂.lastValue < s₂.lastFiled := by omega
    exact hvalue'

theorem filled_initial (hnarrow : cfg.wideWindow = false) :
    Filled (initial cfg)
      (newSendFlow cfg.sendWindow cfg.autoWindow cfg.westwood cfg.wideWindow) 0 0 := by
  refine ⟨⟨rfl, rfl, Nat.le_refl _, Nat.le_refl _⟩, rfl, rfl, ?_, rfl, fun k => ?_, fun k _ _ => ?_⟩
  · simp only [initial, Feedback.initial, hnarrow]
    rfl
  · simp only [initial, Outstanding.new, Finmap.notMem_empty, false_iff]
    omega
  · omega

-- A session that grows its window by itself can run out of credit: slow start
-- takes it to the receiver's whole window, and the receiver's writer blocks.
theorem exists_shut (hnarrow : cfg.wideWindow = false) (hauto : cfg.autoWindow = true) :
    ∃ s, Reachable (system cfg) s ∧ Shut s := by
  have hinit : Reachable (system cfg) (initial cfg) := .init rfl
  have hfilled := filled_initial hnarrow
  set f := newSendFlow cfg.sendWindow cfg.autoWindow cfg.westwood cfg.wideWindow with hf
  have hstart : f.max = deliveryWindow ∧ f.cwnd = initialCwnd ∧ f.credit = deliveryWindow ∧
      f.ssthresh = deliveryWindow ∧ f.restartTo = 0 := by
    rw [hf, hauto, hnarrow]
    exact ⟨rfl, rfl, rfl, rfl, rfl⟩
  obtain ⟨hmax, hcwnd, hcredit, hthresh, hrestart⟩ := hstart
  have hwindow : f.window = initialCwnd := by
    rw [SendFlow.window, hcwnd, hcredit]
    rfl
  obtain ⟨s₁, hreach₁, hfilled₁⟩ := fill hinit hfilled initialCwnd hwindow.ge (by decide)
  obtain ⟨s₂, g, hreach₂, hfilled₂, hcredit₂, hcwnd₂⟩ := settle hreach₁ hfilled₁ (by decide)
    hrestart (by rw [hcwnd, hthresh]; decide)
  have hopen : deliveryWindow ≤ g.window := by
    rw [hmax, hcwnd] at hcwnd₂
    refine le_min hcwnd₂ ?_
    rw [hcredit₂, hcredit]
  obtain ⟨s₃, hreach₃, hfilled₃⟩ := fill hreach₂ hfilled₂ (deliveryWindow - 1)
    (Nat.le_trans (Nat.sub_le _ _) hopen) (Nat.sub_le _ _)
  obtain ⟨s₄, hreach₄, hcalm, hzero, hfiled, hdelivered, hat, hheld⟩ := close_window hreach₃ hfilled₃
    (Nat.lt_of_lt_of_le (by decide) hopen) rfl
  refine shut_of_held hreach₄ hcalm hzero hat (by omega) fun k hlow hhigh => hheld k ?_ ?_
  · omega
  · omega

end UdpCustom.Credit
