import UdpCustom.Credit.Sending

namespace UdpCustom.Credit

open UdpCustom.Frame UdpCustom.Replay UdpCustom.Delivery UdpCustom.Flow UdpCustom.Recovery
open UdpCustom.Sack
open UdpCustom.Sender (Config)
open Transition

variable {cfg : Config} {s s' : State} {l : Label} {frame : UDPCFrame}

structure Inv (s : State) : Prop where
  receiving : Receiving s
  sending : Sending s
  owed : Owed s

-- No record other than a SACK is the first to carry an Ack.
def Quietly (s : State) : Label → Prop
  | .record _ ack => ack ≤ s.lastValue
  | .arrive frame _ _ => frame.cmd = .ping → s.delivery.delivered ≤ s.lastValue
  | _ => True

theorem Undisturbed.quietly (h : Undisturbed s l) : Quietly s l := by
  cases l with
  | record cmd ack => exact h
  | arrive frame stalled srtt => exact fun hping => (h.1 hping).1
  | _ => trivial

-- How the flow of the sender changes: only a SACK gives credit or takes it.
def Credited (l : Label) (f f' : SendFlow) : Prop :=
  (f'.credit = f.credit ∧ f'.feedbackNo = f.feedbackNo) ∨
    ∃ frame rtt, l = .feedback frame rtt ∧ frame.cmd = .sack ∧ f'.feedbackNo = frame.packetNo ∧
      f'.credit = min (sackCredit frame.data) deliveryWindowWide

-- Everything a step can do, as far as the results below depend on it.
structure Stepped (cfg : Config) (s s' : State) (l : Label) : Prop where
  inv : Inv s'
  advances : s.delivery.Advances s'.delivery
  number : s.recvPacketNo ≤ s'.recvPacketNo
  filed : s'.lastFiled = s.lastFiled ∨ ∃ payload rto, l = .send payload rto
  repaired : (∀ payload rto, l ≠ .send payload rto) →
    s.outstanding.Repaired s'.outstanding s'.toReceiver
  flow : ∀ f, s.outstanding.flow = some f →
    ∃ f', s'.outstanding.flow = some f' ∧ Credited l f f'
  talk : Quietly s l → Talk cfg s s'

theorem Stepped.handled {quietly : Prop} (hinv : Inv s) (h : Handled cfg quietly s s')
    (hquiet : Quietly s l → quietly) : Stepped cfg s s' l where
  inv := ⟨h.receiving, hinv.sending.received h.receives, h.owed hinv.owed⟩
  advances := h.receives.advances
  number := h.receives.number
  filed := .inl h.receives.lastFiled
  repaired := fun _ => h.receives.outstanding ▸ .refl _ _
  flow := fun f hf => ⟨f, h.receives.outstanding ▸ hf, .inl ⟨rfl, rfl⟩⟩
  talk := fun hu => (h.spoke (hquiet hu)).toTalk

-- A step beside the receiving end.
structure Beside (s s' : State) : Prop where
  receiver : s'.receiver = s.receiver
  delayed : s'.delayed = s.delayed
  number : s'.recvPacketNo = s.recvPacketNo
  toSender : ∀ f ∈ s'.toSender, f ∈ s.toSender
  filed_le : s.lastFiled ≤ s'.lastFiled

theorem Beside.talk (h : Beside s s') : Talk cfg s s' := by
  have hvalue : s'.lastValue = s.lastValue := by rw [State.lastValue, h.receiver]
  refine ⟨hvalue.ge, fun f hf => .inl (h.toSender f hf), fun hlt => ?_, fun _ => ⟨?_, fun hp => ?_⟩⟩
  · rw [hvalue] at hlt
    exact absurd hlt (Nat.lt_irrefl _)
  · rw [h.receiver]
  · rw [hvalue, h.receiver]
    exact hp

theorem Stepped.beside (hinv : Inv s) (h : Beside s s') (hsending : Sending s')
    (hfiled : s'.lastFiled = s.lastFiled ∨ ∃ payload rto, l = .send payload rto)
    (hrepaired : (∀ payload rto, l ≠ .send payload rto) →
      s.outstanding.Repaired s'.outstanding s'.toReceiver)
    (hflow : ∀ f, s.outstanding.flow = some f →
      ∃ f', s'.outstanding.flow = some f' ∧ Credited l f f') : Stepped cfg s s' l := by
  refine ⟨⟨hinv.receiving.mono h.receiver h.number h.filed_le h.toSender, hsending, ?_⟩, ?_,
    h.number.ge, hfiled, hrepaired, hflow, fun _ => h.talk⟩
  · have howed := hinv.owed
    unfold Owed at *
    rw [State.lastValue, State.delivery, h.receiver, h.delayed]
    exact howed
  · rw [State.delivery, State.delivery, h.receiver]
    exact .refl _

theorem stepped_handleAck (hinv : Inv s) {ack : ℕ} (hack : ack ≤ s.delivery.delivered) (rtt : ℕ) :
    Stepped cfg s (s.handleAck ack rtt) l := by
  refine .beside hinv ⟨rfl, rfl, rfl, fun _ hf => hf, Nat.le_refl _⟩
    (sending_handleAck hinv.sending hack rtt) (.inl rfl) (fun _ => ?_) fun f hf => ?_
  · exact (handleAck_repaired _ _ _ _ _).mono fun w hw => absurd hw List.not_mem_nil
  · obtain ⟨f', hf', hsteady⟩ := credited_steady (steadyFlow_handleAck _ _ _ _ _) hf
    exact ⟨f', hf', .inl ⟨hsteady.credit, hsteady.feedbackNo⟩⟩

theorem stepped_handleSACK (hinv : Inv s) (hcmd : frame.cmd = .sack)
    (hbacked : Receiver.Backed s.delivery frame) (hno : frame.packetNo ≤ s.recvPacketNo) (rtt : ℕ) :
    Stepped cfg s (s.handleSACK frame rtt) (.feedback frame rtt) := by
  have hrepaired : s.outstanding.Repaired
      (s.outstanding.updateSACK frame s.lastFiled s.now rtt).2
      (s.toReceiver ++ (s.outstanding.updateSACK frame s.lastFiled s.now rtt).1.1) :=
    (updateSACK_repaired _ _ _ _ _).mono fun w hw => List.mem_append_right _ hw
  have hflow : ∀ f, s.outstanding.flow = some f → ∃ f',
      (s.outstanding.updateSACK frame s.lastFiled s.now rtt).2.flow = some f' ∧
        Credited (.feedback frame rtt) f f' := by
    intro f hf
    cases hvalid : validSACK f frame s.lastFiled with
    | true =>
        obtain ⟨_, f', hf', hfeedback, hcredit⟩ := updateSACK_taken hf hvalid s.now rtt
        exact ⟨f', hf', .inr ⟨frame, rtt, rfl, hcmd, hfeedback, hcredit⟩⟩
    | false =>
        rw [updateSACK_ignored hf hvalid]
        exact ⟨f, hf, .inl ⟨rfl, rfl⟩⟩
  have hsending := sending_handleSACK hinv.sending hcmd hbacked hno rtt
  unfold State.handleSACK at hsending ⊢
  dsimp only at hsending ⊢
  split at hsending
  · rename_i htaken
    rw [if_pos htaken]
    refine .beside hinv ⟨rfl, rfl, rfl, fun _ hf => hf, Nat.le_refl _⟩ hsending (.inl rfl)
      (fun _ => ?_) fun f hf => ?_
    · refine hrepaired.trans ((handleAck_repaired _ _ _ _ _).mono ?_)
      exact fun w hw => absurd hw List.not_mem_nil
    · obtain ⟨f₁, hf₁, hcredited⟩ := hflow f hf
      obtain ⟨f', hf', hsteady⟩ := credited_steady (steadyFlow_handleAck _ _ _ _ _) hf₁
      refine ⟨f', hf', ?_⟩
      unfold Credited
      rw [hsteady.credit, hsteady.feedbackNo]
      exact hcredited
  · rename_i hignored
    rw [if_neg hignored]
    exact .beside hinv ⟨rfl, rfl, rfl, fun _ hf => hf, Nat.le_refl _⟩ hsending (.inl rfl)
      (fun _ => hrepaired) hflow

-- A step that leaves the sender's books alone.
theorem Stepped.unsent (hinv : Inv s) (h : Beside s s') (hsending : Sending s')
    (hfiled : s'.lastFiled = s.lastFiled) (hbooks : s'.outstanding = s.outstanding) :
    Stepped cfg s s' l :=
  .beside hinv h hsending (.inl hfiled) (fun _ => hbooks ▸ .refl _ _) fun f hf =>
    ⟨f, hbooks ▸ hf, .inl ⟨rfl, rfl⟩⟩

theorem Stepped.refl (hinv : Inv s) : Stepped cfg s s l :=
  .unsent hinv ⟨rfl, rfl, rfl, fun _ hf => hf, Nat.le_refl _⟩ hinv.sending rfl rfl

theorem stepped_feedback (hinv : Inv s) (hframe : frame ∈ s.toSender) (rtt : ℕ) :
    Stepped cfg s (s.feedback frame rtt) (.feedback frame rtt) := by
  obtain ⟨hbacked, hno⟩ := hinv.receiving.records frame hframe
  set s₀ : State := { s with
    toSender := s.toSender.erase frame
    sendFilter := (s.sendFilter.accept frame.packetNo).2 } with hs₀
  have hinv₀ : Inv s₀ := ⟨hinv.receiving.mono rfl rfl (Nat.le_refl _)
      fun f hf => List.mem_of_mem_erase hf,
    { hinv.sending with filed := fun seq p hp => { hinv.sending.filed seq p hp with } }, hinv.owed⟩
  have hstep : Stepped cfg s₀ (s.feedback frame rtt) (.feedback frame rtt) := by
    unfold State.feedback
    dsimp only
    split
    · exact .refl hinv₀
    · split
      · rename_i hcmd
        exact stepped_handleSACK hinv₀ hcmd hbacked hno rtt
      · split
        · exact stepped_handleAck hinv₀ hbacked.ack rtt
        · exact .refl hinv₀
  have hbeside : Beside s (s.feedback frame rtt) := by
    have hback : ∀ f ∈ s.toSender.erase frame, f ∈ s.toSender := fun f hf => List.mem_of_mem_erase hf
    unfold State.feedback State.handleSACK
    dsimp only
    repeat' split
    all_goals exact ⟨rfl, rfl, rfl, hback, Nat.le_refl _⟩
  exact .beside hinv hbeside hstep.inv.sending hstep.filed hstep.repaired hstep.flow

theorem stepped_retransmit (hinv : Inv s) (rtt bdp : ℕ) :
    Stepped cfg s (s.retransmit cfg rtt bdp) l := by
  have hsending := sending_retransmit cfg hinv.sending rtt bdp
  have hflow : ∀ f, s.outstanding.flow = some f → ∃ f',
      (s.outstanding.retryDue s.now rttMaxRTO rtt bdp).2.flow = some f' ∧ Credited l f f' := by
    intro f hf
    obtain ⟨f', hf', hsteady⟩ := credited_steady (steadyFlow_retryDue _ _ _ _ _) hf
    exact ⟨f', hf', .inl ⟨hsteady.credit, hsteady.feedbackNo⟩⟩
  have hrepaired := retryDue_repaired s.outstanding s.now rttMaxRTO rtt bdp
  unfold State.retransmit at hsending ⊢
  dsimp only at hsending ⊢
  split at hsending
  · rename_i hgone
    rw [if_pos hgone]
    exact .unsent hinv ⟨rfl, rfl, rfl, fun _ hf => hf, Nat.le_refl _⟩ hsending rfl rfl
  · rename_i hgoes
    rw [if_neg hgoes]
    split at hsending
    · rename_i hprobe
      rw [if_pos hprobe]
      refine .beside hinv ⟨rfl, rfl, rfl, fun _ hf => hf, Nat.le_refl _⟩ hsending (.inl rfl)
        (fun _ => hrepaired.mono fun w hw => ?_) hflow
      exact List.mem_append_left _ (List.mem_append_right _ hw)
    · rename_i hprobe
      rw [if_neg hprobe]
      exact .beside hinv ⟨rfl, rfl, rfl, fun _ hf => hf, Nat.le_refl _⟩ hsending (.inl rfl)
        (fun _ => hrepaired.mono fun w hw => List.mem_append_right _ hw) hflow

theorem stepped_next (hinv : Inv s) (hst : next cfg s l = some s') : Stepped cfg s s' l := by
  cases l with
  | tick d =>
      cases hst
      exact .handled hinv (.silent ⟨rfl, rfl, fun _ hf => hf, .refl _, Nat.le_refl _⟩
        { hinv.receiving with } id rfl rfl) fun _ => trivial
  | send payload rto =>
      obtain ⟨-, ⟨⟩⟩ := Option.ite_none_right_eq_some.1 hst
      refine .beside hinv ⟨rfl, rfl, rfl, fun _ hf => hf, Nat.le_succ _⟩
        (sending_sendRecord cfg hinv.sending payload rto) (.inr ⟨payload, rto, rfl⟩)
        (fun hno => absurd rfl (hno payload rto)) fun f hf => ⟨f, hf, .inl ⟨rfl, rfl⟩⟩
  | wakeSender rtt bdp =>
      obtain ⟨-, ⟨⟩⟩ := Option.ite_none_right_eq_some.1 hst
      exact stepped_retransmit hinv rtt bdp
  | control cmd =>
      obtain ⟨hcmd, ⟨⟩⟩ := Option.ite_none_right_eq_some.1 hst
      exact .unsent hinv ⟨rfl, rfl, rfl, fun _ hf => hf, Nat.le_refl _⟩
        (sending_sendControl hinv.sending hcmd.1) rfl rfl
  | arrive frame stalled srtt =>
      obtain ⟨hframe, ⟨⟩⟩ := Option.ite_none_right_eq_some.1 hst
      refine .handled hinv (handled_arrive hinv.receiving (fun hdata => ?_) stalled srtt) ?_
      · exact (hinv.sending.data frame hframe hdata).2
      · exact id
  | write srtt =>
      obtain ⟨hhead, ⟨⟩⟩ := Option.ite_none_right_eq_some.1 hst
      exact .handled hinv (handled_deliver hinv.receiving hhead srtt) fun _ => trivial
  | fire srtt =>
      obtain ⟨-, ⟨⟩⟩ := Option.ite_none_right_eq_some.1 hst
      exact .handled hinv (handled_fire hinv.receiving srtt _) fun _ => trivial
  | wakeReceiver srtt =>
      cases hst
      exact .handled hinv (handled_flushACK hinv.receiving srtt) fun _ => trivial
  | record cmd ack =>
      obtain ⟨hguard, ⟨⟩⟩ := Option.ite_none_right_eq_some.1 hst
      exact .handled hinv (handled_record hinv.receiving hguard.1 hguard.2) id
  | feedback frame rtt =>
      obtain ⟨hframe, ⟨⟩⟩ := Option.ite_none_right_eq_some.1 hst
      exact stepped_feedback hinv hframe rtt
  | lose d frame =>
      cases d with
      | forward =>
          cases hst
          exact .handled hinv (.silent ⟨rfl, rfl, fun f hf => List.mem_of_mem_erase hf, .refl _,
            Nat.le_refl _⟩ { hinv.receiving with } id rfl rfl) fun _ => trivial
      | backward =>
          cases hst
          exact .unsent hinv ⟨rfl, rfl, rfl, fun f hf => List.mem_of_mem_erase hf, Nat.le_refl _⟩
            { hinv.sending with filed := fun seq p hp => { hinv.sending.filed seq p hp with } } rfl rfl
  | duplicate d frame =>
      cases d with
      | forward =>
          obtain ⟨hframe, ⟨⟩⟩ := Option.ite_none_right_eq_some.1 hst
          refine .handled hinv (.silent ⟨rfl, rfl, fun f hf => ?_, .refl _, Nat.le_refl _⟩
            { hinv.receiving with } id rfl rfl) fun _ => trivial
          rcases List.mem_cons.1 hf with rfl | hf
          · exact hframe
          · exact hf
      | backward =>
          obtain ⟨hframe, ⟨⟩⟩ := Option.ite_none_right_eq_some.1 hst
          refine .unsent hinv ⟨rfl, rfl, rfl, fun f hf => ?_, Nat.le_refl _⟩
            { hinv.sending with filed := fun seq p hp => { hinv.sending.filed seq p hp with } } rfl rfl
          rcases List.mem_cons.1 hf with rfl | hf
          · exact hframe
          · exact hf

theorem inv_initial (cfg : Config) : Inv (initial cfg) := by
  refine ⟨⟨?_, ?_, Nat.le_refl _, ⟨rfl, rfl⟩, ⟨Nat.le_refl _, Nat.le_refl _⟩, ?_⟩,
    ⟨?_, ⟨_, rfl, Nat.le_refl _⟩, ?_, ?_, ?_, ?_⟩, ?_⟩
  · exact inWindow_new _
  · exact fun k hk => absurd hk Finmap.notMem_empty
  · exact fun f hf => absurd hf List.not_mem_nil
  · exact fun f hf => absurd hf List.not_mem_nil
  · intro seq hpos hle
    simp only [initial] at hle
    omega
  · intro seq p hp
    simp [initial, Outstanding.new] at hp
  · exact fun seq hseq => absurd hseq Finmap.notMem_empty
  · intro seq hseq
    simp [initial, Outstanding.new, Outstanding.Sacked] at hseq
  · exact fun hlt => absurd hlt (Nat.lt_irrefl _)

theorem inv_reachable (h : Reachable (system cfg) s) : Inv s := by
  refine h.invariant (I := Inv) ?_ ?_
  · rintro s rfl
    exact inv_initial cfg
  · exact fun s l s' hinv _ hst => (stepped_next hinv hst).inv

theorem credit_of_flow {f : SendFlow} (h : s.outstanding.flow = some f) : s.credit = f.credit := by
  rw [State.credit, h]

-- The credit of a SACK that is taken.
theorem credit_feedback {f : SendFlow} (hflow : s.outstanding.flow = some f)
    (hcmd : frame.cmd = .sack) (hacc : (s.sendFilter.accept frame.packetNo).1 = true)
    (hvalid : validSACK f frame s.lastFiled = true) (rtt : ℕ) :
    (s.feedback frame rtt).credit = min (sackCredit frame.data) deliveryWindowWide := by
  obtain ⟨_, g, hg, _, hcredit⟩ := updateSACK_taken hflow hvalid s.now rtt
  simp only [State.feedback, hacc, Bool.true_eq_false, if_false, hcmd, if_true, State.handleSACK]
  split
  · obtain ⟨g', hg', hsteady⟩ := credited_steady (steadyFlow_handleAck _ _ _ _ _) hg
    exact (credit_of_flow hg').trans (hsteady.credit.trans hcredit)
  · exact (credit_of_flow hg).trans hcredit

end UdpCustom.Credit
