import UdpCustom.Credit.Filling
import UdpCustom.Credit.Opening
import UdpCustom.Link.Stream

-- Where a sender without credit gets none any more.
namespace UdpCustom.Credit

open UdpCustom.Frame UdpCustom.Replay UdpCustom.Delivery UdpCustom.Flow UdpCustom.Recovery
open UdpCustom.Coalesce UdpCustom.Sack
open UdpCustom.Sender (Config)
open UdpCustom.Link (sampleConfig)
open Transition

variable {cfg : Config} {s s' : State} {l : Label} {ρ : Execution (system cfg)} {frame : UDPCFrame}

-- Everything filed has been told, and no report of it is on its way.
structure Stranded (s : State) : Prop where
  credit : s.credit = 0
  told : s.lastFiled ≤ s.lastValue
  silent : ∀ f ∈ s.toSender, f.cmd ≠ .sack

theorem Stranded.quietly (h : Stranded s) (hinv : Inv s) (hst : next cfg s l = some s') :
    Quietly s l := by
  have hdelivered : s.delivery.delivered ≤ s.lastValue :=
    hinv.receiving.delivered_le.trans h.told
  cases l with
  | record cmd ack =>
      obtain ⟨hguard, hst⟩ := Option.ite_none_right_eq_some.1 hst
      exact hguard.2.trans hdelivered
  | arrive frame stalled srtt => exact fun _ => hdelivered
  | _ => trivial

-- Whatever happens then, lossy or not, gives no credit: nothing is filed, and an
-- Ack that has been told is never told again by a SACK.
theorem stranded_next (hinv : Inv s) (h : Stranded s) (hst : next cfg s l = some s') :
    Stranded s' := by
  have hstep := stepped_next hinv hst
  have htalk := hstep.talk (h.quietly hinv hst)
  have hfiled : s'.lastFiled = s.lastFiled := by
    rcases hstep.filed with hsame | ⟨payload, rto, rfl⟩
    · exact hsame
    · rw [next_send_none hinv h.credit] at hst
      cases hst
  have htold : s'.lastFiled ≤ s'.lastValue := by
    rw [hfiled]
    exact h.told.trans htalk.value_le
  refine ⟨?_, htold, fun f hf hsack => ?_⟩
  · obtain ⟨f, hf, _⟩ := hinv.sending.flow
    obtain ⟨f', hf', hcredited⟩ := hstep.flow f hf
    rcases hcredited with ⟨hsame, _⟩ | ⟨frame, rtt, rfl, hsack, _⟩
    · rw [credit_of_flow hf', hsame, ← credit_of_flow hf]
      exact h.credit
    · simp only [next] at hst
      split at hst
      · rename_i hframe
        exact absurd hsack (h.silent frame hframe)
      · cases hst
  · rcases htalk.records f hf with hold | ⟨_, hnew⟩
    · exact h.silent f hold hsack
    · have hrecv := hstep.inv.receiving
      have hlow : s'.lastValue ≤ s'.delivery.delivered := hrecv.below.1
      have hhigh := hrecv.delivered_le
      rcases (hnew hsack).1 with hnews | hgaps
      · have := h.told
        omega
      · rw [sackGaps_bitmap hrecv.window, hrecv.pending_empty (htold.trans hlow),
          SeqMap.size_empty] at hgaps
        exact absurd hgaps (by decide)

theorem stranded_forever (hreach : Reachable (system cfg) (ρ.state 0))
    (h : Stranded (ρ.state 0)) (i : ℕ) : Stranded (ρ.state i) := by
  induction i with
  | zero => exact h
  | succ i ih =>
      exact stranded_next (inv_reachable (ρ.reachable hreach i)) ih (next_execution ρ i)

-- Nothing is left to do: the two loops only keep waking.
structure Rest (s : State) : Prop where
  abandoned : s.abandoned = false
  quiescent : Quiescent s
  outstanding : s.outstanding.unacked = ∅
  live : s.receiver.closed = false
  delayed : s.delayed = false
  told : s.receiver.coalesce.pending ≤ s.lastValue

theorem Rest.head_none (h : Rest s) : s.delivery.head = none := by
  unfold OrderedDelivery.head
  rw [h.quiescent.2.2]
  split
  · rfl
  · exact Finmap.lookup_empty _

theorem Rest.retransmit (h : Rest s) (rtt bdp : ℕ) : Rest (s.retransmit cfg rtt bdp) := by
  have hnone : SeqMap.ascending s.outstanding.unacked = [] := by
    rw [List.eq_nil_iff_forall_not_mem]
    intro k hk
    rw [SeqMap.mem_ascending, h.outstanding] at hk
    exact Finmap.notMem_empty hk
  have hsize : SeqMap.size s.outstanding.unacked = 0 := by rw [h.outstanding, SeqMap.size_empty]
  have hidle : ∀ due, due = s.outstanding.retryDue s.now rttMaxRTO rtt bdp →
      due.1.abandoned = false ∧ due.1.wires = [] ∧ due.1.probe = false ∧ due.2.unacked = ∅ := by
    rintro due rfl
    simp only [Outstanding.retryDue, hnone, hsize, List.filter_nil, List.any_nil, List.take_nil,
      Bool.false_eq_true, if_false]
    exact ⟨trivial, rfl, decide_eq_false fun hprobe => hprobe.2 rfl, h.outstanding⟩
  obtain ⟨hgoes, hwires, hprobe, hempty⟩ := hidle _ rfl
  simp only [State.retransmit, hgoes, hwires, hprobe, Bool.false_eq_true, if_false, List.append_nil]
  exact { h with outstanding := hempty }

theorem Rest.flushACK (h : Rest s) (srtt : ℕ) : s.flushACK cfg srtt = s := by
  rcases flushACK_cases cfg h.live srtt with ⟨he, _⟩ | ⟨_, hdue⟩
  · exact he
  · exact absurd hdue.2.1 (Nat.not_lt.2 h.told)

def restLabel (i : ℕ) : Label :=
  if i % 3 = 0 then .tick 1 else if i % 3 = 1 then .wakeSender 0 0 else .wakeReceiver 0

theorem rest_next (h : Rest s) (i : ℕ) : ∃ s', next cfg s (restLabel i) = some s' ∧ Rest s' := by
  unfold restLabel
  split
  · exact ⟨_, rfl, { h with }⟩
  · split
    · exact ⟨_, if_pos h.abandoned, h.retransmit 0 0⟩
    · refine ⟨s, ?_, h⟩
      simp only [next, h.flushACK]

theorem rest_undisturbed (h : Rest s) (i : ℕ) : Undisturbed s (restLabel i) := by
  unfold restLabel
  split
  · trivial
  · split
    · intro seq p hp
      rw [h.outstanding, Finmap.lookup_empty] at hp
      cases hp
    · trivial

theorem now_retransmit (cfg : Config) (s : State) (rtt bdp : ℕ) :
    (s.retransmit cfg rtt bdp).now = s.now := by
  unfold State.retransmit
  dsimp only
  split
  · rfl
  · split <;> rfl

-- Three steps of the schedule take one unit of time.
theorem le_now_rest (hlabel : ρ.label = restLabel)
    (hrest : ∀ i, Rest (ρ.state i)) (i : ℕ) : i ≤ 3 * (ρ.state i).now := by
  induction i with
  | zero => exact Nat.zero_le _
  | succ i ih =>
      have hst := next_execution ρ i
      rw [hlabel, restLabel] at hst
      split at hst
      · have hnow : (ρ.state (i + 1)).now = (ρ.state i).now + 1 := by
          rw [← Option.some.inj hst]
        omega
      · have hsame : (ρ.state (i + 1)).now = (ρ.state i).now := by
          split at hst
          · simp only [next, if_pos (hrest i).abandoned] at hst
            rw [← Option.some.inj hst, now_retransmit]
          · simp only [next, (hrest i).flushACK] at hst
            rw [← Option.some.inj hst]
        omega

theorem exists_resting (h : Rest s) : ∃ ρ : Execution (system cfg), ρ.state 0 = s ∧ Fair ρ ∧
    ∀ i, Undisturbed (ρ.state i) (ρ.label i) := by
  obtain ⟨ρ, hstart, hlabel, hrest⟩ :=
    Execution.exists_labelled (S := system cfg) restLabel h fun i s hs => rest_next hs i
  refine ⟨ρ, hstart, ⟨fun i f hf => ?_, fun i f hf => ?_, fun i => ?_, fun i => ?_, fun i t => ?_,
    fun i t => ?_⟩, fun i => ?_⟩
  · rw [(hrest i).quiescent.1] at hf
    exact absurd hf List.not_mem_nil
  · rw [(hrest i).quiescent.2.1] at hf
    exact absurd hf List.not_mem_nil
  · exact ⟨i, Nat.le_refl i, .inl (hrest i).head_none⟩
  · exact ⟨i, Nat.le_refl i, .inl (hrest i).delayed⟩
  · have hnow := le_now_rest hlabel hrest (3 * (i + t) + 1)
    refine ⟨3 * (i + t) + 1, by omega, by omega, 0, 0, ?_⟩
    rw [hlabel, restLabel, if_neg (by omega), if_pos (by omega)]
  · have hnow := le_now_rest hlabel hrest (3 * (i + t) + 2)
    refine ⟨3 * (i + t) + 2, by omega, by omega, 0, ?_⟩
    rw [hlabel, restLabel, if_neg (by omega), if_neg (by omega)]
  · rw [hlabel]
    exact rest_undisturbed (hrest i) i

-- A step in front of a fair run, if what is in flight before it still is after
-- it or has just been handed over.
theorem Fair.cons (hfair : Fair ρ)
    (h : next cfg s l = some (ρ.state 0)) (hforward : s.toReceiver = [])
    (hback : ∀ f ∈ s.toSender, ∃ rtt, l = .feedback f rtt) : Fair (ρ.cons s l h) := by
  have hlater : ∀ (P : ℕ → Prop), (∀ i, ∃ j, i ≤ j ∧ P j) →
      ∀ i, ∃ j, i ≤ j ∧ ∃ k, j = k + 1 ∧ P k := by
    intro P hP i
    obtain ⟨j, hj, hp⟩ := hP i
    exact ⟨j + 1, by omega, j, rfl, hp⟩
  refine ⟨fun i f hf => ?_, fun i f hf => ?_, fun i => ?_, fun i => ?_, fun i t => ?_, fun i t => ?_⟩
  · cases i with
    | zero =>
        have hf : f ∈ s.toReceiver := hf
        rw [hforward] at hf
        exact absurd hf List.not_mem_nil
    | succ i =>
        obtain ⟨j, hj, hlabel⟩ := hfair.arrives i f hf
        exact ⟨j + 1, Nat.succ_le_succ hj, hlabel⟩
  · cases i with
    | zero => exact ⟨0, Nat.le_refl 0, hback f hf⟩
    | succ i =>
        obtain ⟨j, hj, hlabel⟩ := hfair.returns i f hf
        exact ⟨j + 1, Nat.succ_le_succ hj, hlabel⟩
  · obtain ⟨_, hj, j, rfl, hp⟩ := hlater _ hfair.writes i
    exact ⟨j + 1, hj, hp⟩
  · obtain ⟨_, hj, j, rfl, hp⟩ := hlater _ hfair.fires i
    exact ⟨j + 1, hj, hp⟩
  · obtain ⟨_, hj, j, rfl, hp⟩ := hlater _ (hfair.wakesSender · t) i
    exact ⟨j + 1, hj, hp⟩
  · obtain ⟨_, hj, j, rfl, hp⟩ := hlater _ (hfair.wakesReceiver · t) i
    exact ⟨j + 1, hj, hp⟩

theorem undisturbed_cons (hok : ∀ i, Undisturbed (ρ.state i) (ρ.label i))
    (h : next cfg s l = some (ρ.state 0)) (hl : Undisturbed s l) (i : ℕ) :
    Undisturbed ((ρ.cons s l h).state i) ((ρ.cons s l h).label i) := by
  cases i with
  | zero => exact hl
  | succ i => exact hok i

-- The opening SACK clears everything filed.
theorem feedback_opens (hinv : Inv s) (hopens : Opens cfg s.lastFiled frame)
    (hpos : 0 < s.lastFiled) (hacc : (s.sendFilter.accept frame.packetNo).1 = true)
    (hno : ∀ f, s.outstanding.flow = some f → f.feedbackNo < frame.packetNo) (rtt : ℕ) :
    ∃ o, s.feedback frame rtt = { s with
        outstanding := o
        toSender := s.toSender.erase frame
        sendFilter := (s.sendFilter.accept frame.packetNo).2 } ∧
      ∀ seq, seq ≤ s.lastFiled → seq ∉ o.unacked := by
  obtain ⟨f, hf, _⟩ := hinv.sending.flow
  have hvalid : validSACK f frame s.lastFiled = true :=
    hopens.valid hpos (Nat.le_refl _) (hno f hf)
  obtain ⟨htaken, _⟩ := updateSACK_taken hf hvalid s.now rtt
  have hnone := updateSACK_unrepaired s.outstanding hopens.bit_eq_false s.lastFiled s.now rtt
  set updated := s.outstanding.updateSACK frame s.lastFiled s.now rtt with hupdated
  have hlowest : updated.2.Lowest := lowest_updateSACK hinv.sending.lowest _ _ _ _
  refine ⟨updated.2.handleAck (s.lastFiled + 1) s.lastFiled s.now rtt, ?_, fun seq hseq =>
    notMem_handleAck hlowest s.now rtt (Nat.lt_succ_self _) hseq⟩
  simp only [State.feedback, hacc, Bool.true_eq_false, if_false, hopens.cmd, if_true,
    State.handleSACK, hopens.ack_eq, ← hupdated, htaken, hnone, hpos, and_self, List.append_nil,
    State.handleAck]

theorem Rest.of_cleared (hreach : Reachable (system cfg) s) (habandoned : s.abandoned = false)
    (hquiet : Quiescent s) (hdelayed : s.delayed = false) (htold : s.delivery.delivered ≤ s.lastValue)
    (hcleared : ∀ seq, seq ≤ s.lastFiled → seq ∉ s.outstanding.unacked) : Rest s := by
  have hinv := inv_reachable hreach
  refine ⟨habandoned, hquiet, Finmap.ext_lookup fun k => ?_, hinv.receiving.live.1, hdelayed,
    hinv.receiving.below.2.trans htold⟩
  rw [Finmap.lookup_empty, Finmap.lookup_eq_none]
  intro hk
  obtain ⟨p, hp⟩ := Finmap.mem_iff.1 hk
  exact hcleared k (hinv.sending.filed k p hp).le hk

-- All that is in flight is the SACK that opens the window.
structure Reporting (cfg : Config) (s : State) (frame : UDPCFrame) : Prop where
  abandoned : s.abandoned = false
  forward : s.toReceiver = []
  backward : s.toSender = [frame]
  empty : s.delivery.pending = ∅
  delayed : s.delayed = false
  told : s.delivery.delivered ≤ s.lastValue
  filed : 0 < s.lastFiled
  opens : Opens cfg s.lastFiled frame
  accepted : (s.sendFilter.accept frame.packetNo).1 = true
  newer : ∀ f, s.outstanding.flow = some f → f.feedbackNo < frame.packetNo

theorem Reporting.next_feedback (h : Reporting cfg s frame) :
    next cfg s (.feedback frame 0) = some (s.feedback frame 0) :=
  if_pos (h.backward ▸ List.mem_singleton_self _)

theorem Reporting.rest (hreach : Reachable (system cfg) s)
    (h : Reporting cfg s frame) : Rest (s.feedback frame 0) := by
  obtain ⟨o, hfeedback, hcleared⟩ :=
    feedback_opens (inv_reachable hreach) h.opens h.filed h.accepted h.newer 0
  have hreach' := reachable_next hreach h.next_feedback
  rw [hfeedback] at hreach' ⊢
  have hnone : s.toSender.erase frame = [] := by rw [h.backward, List.erase_cons_head]
  exact .of_cleared hreach' h.abandoned ⟨h.forward, hnone, h.empty⟩ h.delayed h.told hcleared

theorem Reporting.exists_resting (hreach : Reachable (system cfg) s)
    (h : Reporting cfg s frame) : ∃ ρ : Execution (system cfg), ρ.state 0 = s.feedback frame 0 ∧
      Fair ρ ∧ ∀ i, Undisturbed (ρ.state i) (ρ.label i) :=
  Credit.exists_resting (h.rest hreach)

-- The Ack deferred goes out with the first flush after the interval.
theorem Shut.flush (hreach : Reachable (system cfg) s) (h : Shut s) :
    ∃ d frame, Reporting cfg
      (({ s with receiver := { s.receiver with now := s.now + d } } : State).flushACK cfg 0) frame := by
  have hinv := inv_reachable hreach
  have hvalue : s.lastValue < s.delivery.delivered := h.delivered.symm ▸ h.untold
  have hpending : s.receiver.coalesce.pending = s.delivery.delivered := by
    refine (hinv.owed hvalue).resolve_left ?_
    rw [h.delayed]
    exact Bool.false_ne_true
  obtain ⟨d, hd⟩ : ∃ d, s.receiver.coalesce.lastAt.getD 0 + ackMaxCoalesce ≤ d := ⟨_, Nat.le_refl _⟩
  set s₁ : State := { s with receiver := { s.receiver with now := s.now + d } } with hs₁
  have hlive : s₁.receiver.closed = false := hinv.receiving.live.1
  have hdue : s₁.receiver.coalesce.Due (ackCoalesceInterval 0) s₁.now := by
    refine ⟨by rw [hpending]; omega, by rw [hpending]; exact hvalue, fun t ht => ?_⟩
    have hiv : ackCoalesceInterval 0 ≤ ackMaxCoalesce := Nat.min_le_right _ _
    have hlast : s.receiver.coalesce.lastAt.getD 0 = t := by
      rw [Option.mem_def.1 ht, Option.getD_some]
    show ackCoalesceInterval 0 ≤ s.now + d - t
    omega
  refine ⟨d, { Receiver.sackFrame cfg s.delivery.snapshot with packetNo := s.recvPacketNo + 1 }, ?_⟩
  rcases flushACK_cases cfg hlive 0 with ⟨_, hnot⟩ | ⟨he, _⟩
  · exact absurd hdue hnot
  · rw [he]
    refine ⟨h.calm.abandoned, h.quiescent.1, ?_, h.quiescent.2.2, h.delayed, ?_, ?_, ?_, ?_, ?_⟩
    · exact congrArg (· ++ [_]) h.quiescent.2.1
    · rw [lastValue_post]
      exact le_max_right _ _
    · exact Nat.lt_of_le_of_lt (Nat.zero_le _) h.untold
    · exact ⟨s.delivery, h.quiescent.2.2, h.delivered, _, rfl⟩
    · exact accept_newer (Nat.lt_succ_of_le h.calm.returning)
    · intro f hf
      obtain ⟨g, hg, hle⟩ := hinv.sending.flow
      have hsame : g = f := Option.some.inj (hg.symm.trans hf)
      exact Nat.lt_succ_of_le (hsame ▸ hle)

theorem Shut.exists_opening (hreach : Reachable (system cfg) s) (h : Shut s) :
    ∃ ρ : Execution (system cfg), ρ.state 0 = s ∧ Fair ρ ∧
      ∀ i, Undisturbed (ρ.state i) (ρ.label i) := by
  obtain ⟨d, frame, hreporting⟩ := h.flush hreach
  set s₁ : State := { s with receiver := { s.receiver with now := s.now + d } } with hs₁
  have hstep₁ : next cfg s (.tick d) = some s₁ := rfl
  have hstep₂ : next cfg s₁ (.wakeReceiver 0) = some (s₁.flushACK cfg 0) := rfl
  have hreach₂ := reachable_next (reachable_next hreach hstep₁) hstep₂
  obtain ⟨ρ, hρ, hfair, hok⟩ := hreporting.exists_resting hreach₂
  have hnone : ∀ f ∈ s.toSender, ∀ l : Label, ∃ rtt, l = .feedback f rtt := by
    intro f hf
    rw [h.quiescent.2.1] at hf
    exact absurd hf List.not_mem_nil
  have hstep₃ := hρ ▸ hreporting.next_feedback
  have hfair₂ := hfair.cons hstep₃ hreporting.forward fun f hf => by
    rw [hreporting.backward] at hf
    exact ⟨0, by rw [List.mem_singleton.1 hf]⟩
  have hok₂ := undisturbed_cons hok hstep₃ hreporting.accepted
  have hfair₁ := hfair₂.cons hstep₂ h.quiescent.1 fun f hf => hnone f hf _
  have hok₁ := undisturbed_cons hok₂ hstep₂ trivial
  have hfair₀ := hfair₁.cons hstep₁ h.quiescent.1 fun f hf => hnone f hf _
  exact ⟨_, rfl, hfair₀, undisturbed_cons hok₁ hstep₁ trivial⟩

-- Credit comes back exactly if some record filed has not been told yet: the
-- SACK that tells it is the only one that will ever be sent.
theorem credit_opens_iff (ρ : Execution (system cfg)) (hreach : Reachable (system cfg) (ρ.state 0))
    (hquiet : Quiescent (ρ.state 0)) (hcredit : (ρ.state 0).credit = 0) (hfair : Fair ρ)
    (hok : ∀ i, Undisturbed (ρ.state i) (ρ.label i)) :
    (∃ i, 0 < (ρ.state i).credit) ↔ (ρ.state 0).lastValue < (ρ.state 0).lastFiled := by
  constructor
  · rintro ⟨i, hpos⟩
    by_contra htold
    have hstranded : Stranded (ρ.state 0) := by
      refine ⟨hcredit, Nat.not_lt.1 htold, fun f hf => ?_⟩
      rw [hquiet.2.1] at hf
      exact absurd hf List.not_mem_nil
    have hzero := (stranded_forever hreach hstranded i).credit
    omega
  · intro huntold
    by_contra hnever
    have hstarved : Starved ρ := by
      refine ⟨hreach, hfair, hok, fun i => ?_⟩
      by_contra hpos
      exact hnever ⟨i, Nat.pos_of_ne_zero hpos⟩
    have htold := hstarved.impossible
    omega

theorem shut_session_opens : ∃ ρ : Execution (system sampleConfig),
    (Reachable (system sampleConfig) (ρ.state 0) ∧ Quiescent (ρ.state 0) ∧ (ρ.state 0).credit = 0 ∧
      Fair ρ ∧ ∀ i, Undisturbed (ρ.state i) (ρ.label i)) ∧ ∃ i, 0 < (ρ.state i).credit := by
  obtain ⟨s, hreach, hshut⟩ : ∃ s, Reachable (system sampleConfig) s ∧ Shut s := exists_shut rfl rfl
  obtain ⟨ρ, rfl, hfair, hok⟩ := hshut.exists_opening hreach
  exact ⟨ρ, ⟨hreach, hshut.quiescent, hshut.credit, hfair, hok⟩,
    (credit_opens_iff ρ hreach hshut.quiescent hshut.credit hfair hok).2 hshut.untold⟩

-- The SACK that opened the window is lost and a DATA record carries the last
-- Ack: the sender has nothing outstanding to probe for, the receiver nothing
-- new to tell.
theorem lost_opening_strands : ∃ s, Reachable (system sampleConfig) s ∧ Quiescent s ∧
    s.credit = 0 ∧ s.outstanding.unacked = ∅ ∧
    (∃ ρ : Execution (system sampleConfig), ρ.state 0 = s ∧ Fair ρ ∧
      ∀ i, Undisturbed (ρ.state i) (ρ.label i)) ∧
    ∀ ρ : Execution (system sampleConfig), ρ.state 0 = s → ∀ i, (ρ.state i).credit = 0 := by
  obtain ⟨s, hreach, hshut⟩ : ∃ s, Reachable (system sampleConfig) s ∧ Shut s := exists_shut rfl rfl
  have hpos : 0 < s.delivery.delivered := by
    rw [hshut.delivered]
    exact Nat.lt_of_le_of_lt (Nat.zero_le _) hshut.untold
  obtain ⟨s', hreach', hcalm, hout, hfiled, hdelivery, hdelayed, htold, hnone⟩ :=
    acknowledge hreach hshut.calm hpos
  have hquiet : Quiescent s' :=
    ⟨hcalm.forward, hnone hshut.quiescent.2.1, hdelivery ▸ hshut.quiescent.2.2⟩
  have hcredit : s'.credit = 0 := by
    obtain ⟨f, hf, _⟩ := (inv_reachable hreach).sending.flow
    obtain ⟨f', hf', hsteady⟩ := credited_steady (steadyFlow_handleAck _ _ _ _ _) hf
    rw [← hout] at hf'
    rw [credit_of_flow hf', hsteady.credit, ← credit_of_flow hf]
    exact hshut.credit
  have hrest : Rest s' := by
    refine .of_cleared hreach' hcalm.abandoned hquiet (hdelayed.trans hshut.delayed)
      (by rwa [hdelivery]) fun seq hseq => ?_
    rw [hfiled, ← hshut.delivered] at hseq
    rw [hout]
    refine notMem_handleAck (inv_reachable hreach).sending.lowest _ _ ?_ hseq
    rw [hshut.delivered]
    exact Nat.lt_succ_self _
  refine ⟨s', hreach', hquiet, hcredit, hrest.outstanding, exists_resting hrest, ?_⟩
  rintro ρ rfl i
  refine (stranded_forever hreach' ⟨hcredit, ?_, fun f hf => ?_⟩ i).credit
  · rw [hfiled, ← hshut.delivered]
    exact htold
  · rw [hquiet.2.1] at hf
    exact absurd hf List.not_mem_nil

end UdpCustom.Credit
