import UdpCustom.Credit
import UdpCustom.Feedback.Theorems
import UdpCustom.Receiver.Reports

namespace UdpCustom.Credit

open UdpCustom.Frame UdpCustom.Replay UdpCustom.Delivery UdpCustom.Flow UdpCustom.Recovery
open UdpCustom.Coalesce
open UdpCustom.Sender (Config)
open UdpCustom.Receiver (Backed)
open Transition

variable {cfg : Config} {s s' : State} {frame : UDPCFrame}

-- The three outcomes of `sendACK`: nothing new, deferred, or a SACK.
theorem sendACK_cases (cfg : Config) (hopen : s.receiver.closed = false) (srtt ack : ℕ) :
    (s.sendACK cfg srtt ack = s ∧ s.delivery.delivered ≤ s.lastValue ∧
      sackGaps s.delivery.bitmap < ackGapUrgent) ∨
    (s.sendACK cfg srtt ack = { s with receiver := { s.receiver with
        coalesce := { s.receiver.coalesce with
          pending := max s.receiver.coalesce.pending s.delivery.delivered } } } ∧
      s.lastValue < s.delivery.delivered ∧ sackGaps s.delivery.bitmap < ackGapUrgent) ∨
    (s.sendACK cfg srtt ack = ({ s with receiver := { s.receiver with
        coalesce := s.receiver.coalesce.commitLocked s.delivery.delivered s.now } } : State).post
          (Receiver.sackFrame cfg s.delivery.snapshot) ∧
      ((s.lastValue < s.delivery.delivered ∧
          s.receiver.coalesce.Elapsed s.now (ackCoalesceInterval srtt)) ∨
        ackGapUrgent ≤ sackGaps s.delivery.bitmap)) := by
  have hopen' : ¬s.receiver.closed = true := Bool.eq_false_iff.1 hopen
  rw [State.sendACK, Feedback.sendACK, if_neg hopen']
  dsimp only
  by_cases hurgent : ackGapUrgent ≤ sackGaps s.delivery.bitmap
  · right
    right
    have hclaim : s.receiver.coalesce.claim s.delivery.delivered (ackCoalesceInterval srtt) true
        s.now = (true, s.receiver.coalesce.commitLocked s.delivery.delivered s.now) := rfl
    refine ⟨?_, .inr hurgent⟩
    simp only [OrderedDelivery.snapshot, hurgent, decide_true, Bool.true_and, if_true, hclaim]
    rfl
  · simp only [OrderedDelivery.snapshot, hurgent, decide_false, Bool.and_false, if_true]
    unfold AckCoalescer.claim
    simp only [Bool.false_eq_true, if_false]
    by_cases hold : s.delivery.delivered = 0 ∨ s.delivery.delivered ≤ s.receiver.coalesce.lastValue
    · left
      simp only [hold, if_true, Bool.false_eq_true, if_false]
      refine ⟨rfl, ?_, Nat.not_le.1 hurgent⟩
      rcases hold with h | h
      · omega
      · exact h
    · right
      have hnews : s.lastValue < s.delivery.delivered := Nat.not_le.1 fun h => hold (.inr h)
      simp only [hold, if_false]
      split
      · rename_i helapsed
        right
        exact ⟨rfl, .inl ⟨hnews, helapsed⟩⟩
      · left
        exact ⟨rfl, hnews, Nat.not_le.1 hurgent⟩

theorem flushACK_cases (cfg : Config) (hopen : s.receiver.closed = false) (srtt : ℕ) :
    (s.flushACK cfg srtt = s ∧ ¬s.receiver.coalesce.Due (ackCoalesceInterval srtt) s.now) ∨
    (s.flushACK cfg srtt = ({ s with receiver := { s.receiver with
        coalesce := s.receiver.coalesce.commitLocked s.receiver.coalesce.pending s.now } } :
          State).post (Receiver.sackFrame cfg s.delivery.snapshot) ∧
      s.receiver.coalesce.Due (ackCoalesceInterval srtt) s.now) := by
  have hopen' : ¬s.receiver.closed = true := Bool.eq_false_iff.1 hopen
  rw [State.flushACK, Feedback.flushACK, if_neg hopen']
  dsimp only
  unfold AckCoalescer.flushDue
  by_cases hdue : s.receiver.coalesce.Due (ackCoalesceInterval srtt) s.now
  · right
    refine ⟨?_, hdue⟩
    simp only [if_pos hdue, if_neg hdue.1]
    rfl
  · left
    refine ⟨?_, hdue⟩
    simp only [if_neg hdue]
    split <;> rfl

-- What the steps of the receiving end leave alone.
structure Receives (s s' : State) : Prop where
  outstanding : s'.outstanding = s.outstanding
  lastFiled : s'.lastFiled = s.lastFiled
  toReceiver : ∀ f ∈ s'.toReceiver, f ∈ s.toReceiver
  advances : s.delivery.Advances s'.delivery
  number : s.recvPacketNo ≤ s'.recvPacketNo

theorem Receives.trans {s₁ : State} (h : Receives s s₁) (h' : Receives s₁ s') : Receives s s' where
  outstanding := h'.outstanding.trans h.outstanding
  lastFiled := h'.lastFiled.trans h.lastFiled
  toReceiver := fun f hf => h.toReceiver f (h'.toReceiver f hf)
  advances := h.advances.trans h'.advances
  number := h.number.trans h'.number

theorem receives_post (s : State) (frame : UDPCFrame) : Receives s (s.post frame) :=
  ⟨rfl, rfl, fun _ hf => hf, .refl _, Nat.le_succ _⟩

theorem receives_sendACK (cfg : Config) (hopen : s.receiver.closed = false) (srtt ack : ℕ) :
    Receives s (s.sendACK cfg srtt ack) := by
  rcases sendACK_cases cfg hopen srtt ack with ⟨h, _⟩ | ⟨h, _⟩ | ⟨h, _⟩
  · rw [h]
    exact ⟨rfl, rfl, fun _ hf => hf, .refl _, Nat.le_refl _⟩
  · rw [h]
    exact ⟨rfl, rfl, fun _ hf => hf, .refl _, Nat.le_refl _⟩
  · rw [h]
    exact ⟨rfl, rfl, fun _ hf => hf, .refl _, Nat.le_succ _⟩

theorem receives_flushACK (cfg : Config) (hopen : s.receiver.closed = false) (srtt : ℕ) :
    Receives s (s.flushACK cfg srtt) := by
  rcases flushACK_cases cfg hopen srtt with ⟨h, _⟩ | ⟨h, _⟩
  · rw [h]
    exact ⟨rfl, rfl, fun _ hf => hf, .refl _, Nat.le_refl _⟩
  · rw [h]
    exact ⟨rfl, rfl, fun _ hf => hf, .refl _, Nat.le_succ _⟩

-- What the receiving end keeps about itself and the records it sent.
structure Receiving (s : State) : Prop where
  window : s.delivery.InWindow
  held_le : ∀ k ∈ s.delivery.pending, k ≤ s.lastFiled
  delivered_le : s.delivery.delivered ≤ s.lastFiled
  live : s.receiver.closed = false ∧ s.delivery.closed = false
  below : s.receiver.coalesce.Below s.delivery.delivered
  records : ∀ f ∈ s.toSender, Backed s.delivery f ∧ f.packetNo ≤ s.recvPacketNo

theorem Receiving.pending_empty (h : Receiving s) (hall : s.lastFiled ≤ s.delivery.delivered) :
    s.delivery.pending = ∅ := by
  refine Finmap.ext_lookup fun k => ?_
  rw [Finmap.lookup_empty, Finmap.lookup_eq_none]
  intro hk
  have hfiled := h.held_le k hk
  have habove := (h.window k hk).1
  omega

theorem Receiving.mono (h : Receiving s) (hreceiver : s'.receiver = s.receiver)
    (hnumber : s'.recvPacketNo = s.recvPacketNo) (hfiled : s.lastFiled ≤ s'.lastFiled)
    (hrecords : ∀ f ∈ s'.toSender, f ∈ s.toSender) : Receiving s' := by
  refine ⟨?_, fun k hk => ?_, ?_, ?_, ?_, fun f hf => ?_⟩
  · rw [State.delivery, hreceiver]
    exact h.window
  · rw [State.delivery, hreceiver] at hk
    exact (h.held_le k hk).trans hfiled
  · rw [State.delivery, hreceiver]
    exact h.delivered_le.trans hfiled
  · rw [State.delivery, hreceiver]
    exact h.live
  · rw [State.delivery, hreceiver]
    exact h.below
  · rw [State.delivery, hreceiver, hnumber]
    exact h.records f (hrecords f hf)

theorem receiving_post (h : Receiving s)
    (hbacked : ∀ no, Backed s.delivery { frame with packetNo := no }) :
    Receiving (s.post frame) := by
  have hack : frame.ack ≤ s.delivery.delivered := (hbacked 0).ack
  refine { h with below := below_commitSent h.below hack, records := fun f hf => ?_ }
  rcases List.mem_append.1 hf with hf | hf
  · have hold := h.records f hf
    exact ⟨hold.1, hold.2.trans (Nat.le_succ _)⟩
  · rw [List.mem_singleton.1 hf]
    exact ⟨hbacked _, Nat.le_refl _⟩

theorem backed_sack (cfg : Config) (s : State) (no : ℕ) :
    Backed s.delivery { Receiver.sackFrame cfg s.delivery.snapshot with packetNo := no } :=
  Receiver.backed_sackFrame (Receiver.reported_snapshot cfg s.delivery) no

theorem backed_control (cfg : Config) {d : OrderedDelivery} {cmd : Command} {ack : ℕ}
    (hcmd : cmd ≠ .sack) (hack : ack ≤ d.delivered) (no : ℕ) :
    Backed d { controlFrame cfg cmd ack with packetNo := no } :=
  ⟨hack, fun hsack => absurd hsack hcmd⟩

theorem receiving_sendACK (cfg : Config) (h : Receiving s) (srtt ack : ℕ) :
    Receiving (s.sendACK cfg srtt ack) := by
  rcases sendACK_cases cfg h.live.1 srtt ack with ⟨he, _⟩ | ⟨he, _⟩ | ⟨he, _⟩
  · rw [he]
    exact h
  · rw [he]
    exact { h with below := ⟨h.below.1, max_le h.below.2 (Nat.le_refl _)⟩ }
  · rw [he]
    apply receiving_post
    · exact { h with below := below_commitLocked h.below (Nat.le_refl _) _ }
    · exact backed_sack cfg s

theorem receiving_flushACK (cfg : Config) (h : Receiving s) (srtt : ℕ) :
    Receiving (s.flushACK cfg srtt) := by
  rcases flushACK_cases cfg h.live.1 srtt with ⟨he, _⟩ | ⟨he, _⟩
  · rw [he]
    exact h
  · rw [he]
    apply receiving_post
    · exact { h with below := below_commitLocked h.below h.below.2 _ }
    · exact backed_sack cfg s

-- What a SACK goes out for: news, or gaps to report.
def Warranted (s s' : State) : Prop :=
  s.lastValue < s'.delivery.delivered ∨ ackGapUrgent ≤ sackGaps s'.delivery.bitmap

-- What a step adds to the records on the way back, and to the Ack told.
structure Talk (cfg : Config) (s s' : State) : Prop where
  value_le : s.lastValue ≤ s'.lastValue
  records : ∀ f ∈ s'.toSender, f ∈ s.toSender ∨ (s.recvPacketNo < f.packetNo ∧
    (f.cmd = .sack → Warranted s s' ∧
      ∃ no, f = { Receiver.sackFrame cfg s'.delivery.snapshot with packetNo := no }))
  told : s.lastValue < s'.lastValue →
    ∃ f ∈ s'.toSender, f.cmd = .sack ∧ s.recvPacketNo < f.packetNo
  quiet : s'.lastValue < s'.delivery.delivered →
    s'.receiver.coalesce.lastAt = s.receiver.coalesce.lastAt ∧
      (s.lastValue < s.receiver.coalesce.pending → s'.lastValue < s'.receiver.coalesce.pending)

-- What the receiving end says in a step: the records it adds, and that it
-- raises the Ack it has told only with a SACK.
structure Spoke (cfg : Config) (s s' : State) : Prop extends Talk cfg s s' where
  kept : ∀ f ∈ s.toSender, f ∈ s'.toSender

theorem Spoke.silent (hcoalesce : s'.receiver.coalesce = s.receiver.coalesce)
    (hrecords : s'.toSender = s.toSender) : Spoke cfg s s' := by
  refine ⟨⟨?_, fun f hf => .inl (hrecords ▸ hf), fun hlt => ?_, fun _ => ?_⟩, fun f hf => hrecords ▸ hf⟩
  · rw [State.lastValue, State.lastValue, hcoalesce]
  · rw [State.lastValue, State.lastValue, hcoalesce] at hlt
    exact absurd hlt (Nat.lt_irrefl _)
  · rw [State.lastValue, State.lastValue, hcoalesce]
    exact ⟨rfl, id⟩

theorem Spoke.trans {s₁ : State} (h : Spoke cfg s s₁) (h' : Spoke cfg s₁ s')
    (hdelivery : s₁.delivery = s'.delivery) (hnumber : s.recvPacketNo ≤ s₁.recvPacketNo) :
    Spoke cfg s s' := by
  refine ⟨⟨h.value_le.trans h'.value_le, fun f hf => ?_, fun hlt => ?_, fun hlt => ?_⟩,
    fun f hf => h'.kept f (h.kept f hf)⟩
  · rcases h'.records f hf with hf | ⟨hno, hsack⟩
    · unfold Warranted
      rw [← hdelivery]
      exact h.records f hf
    · refine .inr ⟨hnumber.trans_lt hno, fun hcmd => ⟨?_, (hsack hcmd).2⟩⟩
      exact (hsack hcmd).1.imp h.value_le.trans_lt id
  · by_cases hfirst : s.lastValue < s₁.lastValue
    · obtain ⟨f, hf, hf'⟩ := h.told hfirst
      exact ⟨f, h'.kept f hf, hf'⟩
    · have := h.value_le
      obtain ⟨f, hf, hcmd, hno⟩ := h'.told (by omega)
      exact ⟨f, hf, hcmd, hnumber.trans_lt hno⟩
  · have hmid : s₁.lastValue < s₁.delivery.delivered := by
      rw [hdelivery]
      exact h'.value_le.trans_lt hlt
    obtain ⟨hat, hpending⟩ := h.quiet hmid
    obtain ⟨hat', hpending'⟩ := h'.quiet hlt
    exact ⟨hat'.trans hat, fun hp => hpending' (hpending hp)⟩

theorem lastValue_post (s : State) (frame : UDPCFrame) :
    (s.post frame).lastValue = max s.lastValue frame.ack :=
  lastValue_commitSent _ _

theorem spoke_sack {c : AckCoalescer} (hvalue : s.lastValue ≤ c.lastValue) (hworth : Warranted s s) :
    Spoke cfg s (({ s with receiver := { s.receiver with coalesce := c } } : State).post
      (Receiver.sackFrame cfg s.delivery.snapshot)) := by
  refine ⟨⟨?_, fun f hf => ?_, fun _ => ?_, fun hlt => ?_⟩, fun f hf => List.mem_append_left _ hf⟩
  · rw [lastValue_post]
    exact hvalue.trans (le_max_left _ _)
  · rcases List.mem_append.1 hf with hf | hf
    · exact .inl hf
    · rw [List.mem_singleton.1 hf]
      exact .inr ⟨Nat.lt_succ_self _, fun _ => ⟨hworth, _, rfl⟩⟩
  · exact ⟨_, List.mem_append_right _ (List.mem_singleton_self _), rfl, Nat.lt_succ_self _⟩
  · exfalso
    rw [lastValue_post] at hlt
    exact absurd (hlt.trans_le' (le_max_right _ _)) (Nat.lt_irrefl _)

theorem spoke_sendACK (cfg : Config) (h : Receiving s) (srtt ack : ℕ) :
    Spoke cfg s (s.sendACK cfg srtt ack) := by
  rcases sendACK_cases cfg h.live.1 srtt ack with ⟨he, _⟩ | ⟨he, hnews, _⟩ | ⟨he, hworth⟩
  · rw [he]
    exact .silent rfl rfl
  · rw [he]
    refine ⟨⟨Nat.le_refl _, fun f hf => .inl hf, fun hlt => absurd hlt (Nat.lt_irrefl _),
      fun _ => ⟨rfl, fun _ => ?_⟩⟩, fun _ hf => hf⟩
    exact hnews.trans_le (le_max_right _ _)
  · rw [he]
    exact spoke_sack (le_max_left _ _) (hworth.imp And.left id)

theorem spoke_flushACK (cfg : Config) (h : Receiving s) (srtt : ℕ) :
    Spoke cfg s (s.flushACK cfg srtt) := by
  rcases flushACK_cases cfg h.live.1 srtt with ⟨he, _⟩ | ⟨he, hdue⟩
  · rw [he]
    exact .silent rfl rfl
  · rw [he]
    exact spoke_sack (le_max_left _ _) (.inl (hdue.2.1.trans_le h.below.2))

-- A record other than a SACK that only repeats an Ack told before.
theorem spoke_post (hcmd : frame.cmd ≠ .sack) (hack : frame.ack ≤ s.lastValue) :
    Spoke cfg s (s.post frame) := by
  have hvalue : (s.post frame).lastValue = s.lastValue := by
    rw [lastValue_post]
    exact max_eq_left hack
  refine ⟨⟨hvalue.ge, fun f hf => ?_, fun hlt => ?_,
    fun _ => ⟨by simp [State.post], fun hpending => ?_⟩⟩, fun f hf => List.mem_append_left _ hf⟩
  · rcases List.mem_append.1 hf with hf | hf
    · exact .inl hf
    · rw [List.mem_singleton.1 hf]
      exact .inr ⟨Nat.lt_succ_self _, fun hsack => absurd hsack hcmd⟩
  · rw [hvalue] at hlt
    exact absurd hlt (Nat.lt_irrefl _)
  · rw [hvalue]
    simp only [State.post]
    rw [pending_commitSent (hack.trans_lt hpending)]
    exact hpending

-- An Ack not told yet is waiting for the timer or for the next flush.
def Owed (s : State) : Prop :=
  s.lastValue < s.delivery.delivered →
    s.delayed = true ∨ s.receiver.coalesce.pending = s.delivery.delivered

theorem owed_post (h : Owed s) : Owed (s.post frame) := by
  intro hlt
  rw [lastValue_post] at hlt
  obtain ⟨hvalue, hack⟩ := max_lt_iff.1 hlt
  refine (h hvalue).imp id fun hpending => ?_
  exact (pending_commitSent (hpending ▸ hack)).trans hpending

theorem owed_sendACK (cfg : Config) (h : Receiving s) (srtt ack : ℕ) :
    Owed (s.sendACK cfg srtt ack) := by
  rcases sendACK_cases cfg h.live.1 srtt ack with ⟨he, hold, _⟩ | ⟨he, _⟩ | ⟨he, _⟩
  · rw [he]
    exact fun hlt => absurd hlt (Nat.not_lt.2 hold)
  · rw [he]
    exact fun _ => .inr (max_eq_right h.below.2)
  · rw [he]
    intro hlt
    rw [lastValue_post] at hlt
    exact absurd (max_lt_iff.1 hlt).2 (Nat.lt_irrefl _)

theorem owed_flushACK (cfg : Config) (hinv : Receiving s) (h : Owed s) (srtt : ℕ) :
    Owed (s.flushACK cfg srtt) := by
  rcases flushACK_cases cfg hinv.live.1 srtt with ⟨he, _⟩ | ⟨he, _⟩
  · rw [he]
    exact h
  · rw [he]
    intro hlt
    rw [lastValue_post] at hlt
    exact absurd (max_lt_iff.1 hlt).2 (Nat.lt_irrefl _)

theorem delivery_sendACK (cfg : Config) (hopen : s.receiver.closed = false) (srtt ack : ℕ) :
    (s.sendACK cfg srtt ack).delivery = s.delivery := by
  rcases sendACK_cases cfg hopen srtt ack with ⟨h, _⟩ | ⟨h, _⟩ | ⟨h, _⟩
  · rw [h]
  · rw [h]
  · rw [h]
    rfl

-- One event at the receiving end. It tells an Ack first by a SACK if `quietly`.
structure Handled (cfg : Config) (quietly : Prop) (s s' : State) : Prop where
  receives : Receives s s'
  receiving : Receiving s'
  owed : Owed s → Owed s'
  spoke : quietly → Spoke cfg s s'

theorem handled_sendACK (cfg : Config) (h : Receiving s) (srtt ack : ℕ) (quietly : Prop) :
    Handled cfg quietly s (s.sendACK cfg srtt ack) :=
  ⟨receives_sendACK cfg h.live.1 srtt ack, receiving_sendACK cfg h srtt ack,
    fun _ => owed_sendACK cfg h srtt ack, fun _ => spoke_sendACK cfg h srtt ack⟩

theorem Handled.refl (h : Receiving s) (quietly : Prop) : Handled cfg quietly s s :=
  ⟨⟨rfl, rfl, fun _ hf => hf, .refl _, Nat.le_refl _⟩, h, id, fun _ => .silent rfl rfl⟩

theorem Handled.silent (hr : Receives s s') (hi : Receiving s') (ho : Owed s → Owed s')
    (hcoalesce : s'.receiver.coalesce = s.receiver.coalesce) (hrecords : s'.toSender = s.toSender) :
    Handled cfg True s s' :=
  ⟨hr, hi, ho, fun _ => .silent hcoalesce hrecords⟩

theorem Handled.trans {s₁ : State} {quietly : Prop} (h : Handled cfg quietly s s₁)
    (h' : Handled cfg quietly s₁ s') (hdelivery : s'.delivery = s₁.delivery) :
    Handled cfg quietly s s' :=
  ⟨h.receives.trans h'.receives, h'.receiving, fun ho => h'.owed (h.owed ho),
    fun hq => (h.spoke hq).trans (h'.spoke hq) hdelivery.symm h.receives.number⟩

theorem receiving_offer (h : Receiving s) {seq : ℕ} (hseq : seq ≤ s.lastFiled) (payload : Bytes) :
    Receiving { s with receiver := { s.receiver with
      delivery := (s.delivery.offerObserved seq payload).2 } } := by
  have hdelivered := delivered_offerObserved s.delivery seq payload
  have hadv := advances_offerObserved s.delivery seq payload
  refine ⟨inWindow_offerObserved h.window seq payload, fun k hk => ?_, ?_, ⟨h.live.1, ?_⟩, ?_,
    fun f hf => ?_⟩
  · rcases offerObserved_queue s.delivery seq payload with he | ⟨he, _⟩
    · exact h.held_le k (by rwa [State.delivery, he] at hk)
    · rw [State.delivery, he] at hk
      rcases Finmap.mem_insert.1 hk with rfl | hk
      · exact hseq
      · exact h.held_le k hk
  · rw [State.delivery, hdelivered]
    exact h.delivered_le
  · rcases offerObserved_queue s.delivery seq payload with he | ⟨he, _⟩ <;>
      rw [State.delivery, he] <;> exact h.live.2
  · rw [State.delivery, hdelivered]
    exact h.below
  · exact ⟨(h.records f hf).1.advance hadv, (h.records f hf).2⟩

theorem handled_offer (h : Receiving s) {seq : ℕ} (hseq : seq ≤ s.lastFiled) (payload : Bytes)
    (quietly : Prop) : Handled cfg quietly s { s with receiver := { s.receiver with
      delivery := (s.delivery.offerObserved seq payload).2 } } := by
  refine ⟨⟨rfl, rfl, fun _ hf => hf, advances_offerObserved _ _ _, Nat.le_refl _⟩,
    receiving_offer h hseq payload, fun ho => ?_, fun _ => .silent rfl rfl⟩
  unfold Owed at *
  rw [State.delivery, delivered_offerObserved]
  exact ho

theorem handled_handleData (h : Receiving s) (hseq : frame.seq ≤ s.lastFiled)
    (stalled : Bool) (srtt : ℕ) (quietly : Prop) :
    Handled cfg quietly s (s.handleData cfg frame stalled srtt) ∧
      (s.handleData cfg frame stalled srtt).delivery =
        (s.delivery.offerObserved frame.seq frame.data).2 := by
  unfold State.handleData
  dsimp only
  set s₀ : State := { s with receiver := { s.receiver with
    delivery := (s.delivery.offerObserved frame.seq frame.data).2 } } with hs₀
  have h₀ : Handled cfg quietly s s₀ := handled_offer h hseq frame.data quietly
  generalize hs₁ : (if (s.delivery.offerObserved frame.seq frame.data).1.fresh = true ∧
      stalled = true then s₀.sendACK cfg srtt s₀.delivery.delivered else s₀) = s₁
  have h₁ : Handled cfg quietly s₀ s₁ ∧ s₁.delivery = s₀.delivery := by
    rw [← hs₁]
    split
    · exact ⟨handled_sendACK cfg h₀.receiving _ _ _, delivery_sendACK cfg h₀.receiving.live.1 _ _⟩
    · exact ⟨.refl h₀.receiving _, rfl⟩
  have h₂ : ∀ ack, Handled cfg quietly s₁ (s₁.sendACK cfg srtt ack) ∧
      (s₁.sendACK cfg srtt ack).delivery = s₁.delivery := fun ack =>
    ⟨handled_sendACK cfg h₁.1.receiving _ _ _, delivery_sendACK cfg h₁.1.receiving.live.1 _ _⟩
  have h₀₁ := h₀.trans h₁.1 h₁.2
  split
  · split
    · exact ⟨h₀₁, h₁.2⟩
    · rename_i ack _
      exact ⟨h₀₁.trans (h₂ ack).1 (h₂ ack).2, (h₂ ack).2.trans h₁.2⟩
  · split
    · obtain ⟨hr, hi, ho, hs⟩ := h₀₁
      exact ⟨⟨{ hr with }, { hi with }, ho, fun hq => { hs hq with }⟩, h₁.2⟩
    · rename_i ack _
      obtain ⟨hr, hi, ho, hs⟩ := h₀₁.trans (h₂ ack).1 (h₂ ack).2
      exact ⟨⟨{ hr with }, { hi with }, ho, fun hq => { hs hq with }⟩, (h₂ ack).2.trans h₁.2⟩

theorem handled_arrive (h : Receiving s)
    (hdata : frame.cmd = .data → frame.seq ≤ s.lastFiled) (stalled : Bool) (srtt : ℕ) :
    Handled cfg (frame.cmd = .ping → s.delivery.delivered ≤ s.lastValue) s
      (s.arrive cfg frame stalled srtt) := by
  set quietly := frame.cmd = .ping → s.delivery.delivered ≤ s.lastValue with hquietly
  set s₀ : State := { s with
    toReceiver := s.toReceiver.erase frame
    recvFilter := (s.recvFilter.accept frame.packetNo).2 } with hs₀
  have hinv : Receiving s₀ := { h with }
  have hlift : ∀ s', Handled cfg quietly s₀ s' → Handled cfg quietly s s' := by
    rintro s' ⟨hr, hi, ho, hs⟩
    exact ⟨{ hr with toReceiver := fun f hf => List.mem_of_mem_erase (hr.toReceiver f hf) }, hi, ho,
      fun hq => { hs hq with }⟩
  apply hlift
  unfold State.arrive
  dsimp only
  split
  · split
    · rename_i hcmd
      exact (handled_handleData hinv (hdata hcmd) stalled srtt quietly).1
    · split
      · rename_i hping
        refine ⟨receives_post _ _, receiving_post hinv (backed_control cfg (by decide) (Nat.le_refl _)),
          fun ho => owed_post ho, fun hq => spoke_post ?_ (hq hping)⟩
        intro hsack
        cases hsack
      · exact .refl hinv quietly
  · split
    · exact handled_sendACK cfg hinv srtt _ quietly
    · exact .refl hinv quietly

theorem receiving_complete (h : Receiving s) (hhead : s.delivery.head.isSome = true) (delayed : Bool) :
    Receiving { s with
      receiver := { s.receiver with delivery := s.delivery.complete (s.delivery.delivered + 1) }
      delayed := delayed } := by
  have hmem : s.delivery.delivered + 1 ∈ s.delivery.pending := by
    unfold OrderedDelivery.head at hhead
    rw [h.live.2] at hhead
    exact SeqMap.mem_iff_isSome.2 hhead
  refine ⟨inWindow_complete h.window, fun k hk => ?_, h.held_le _ hmem, h.live, ?_, fun f hf => ?_⟩
  · exact h.held_le k (Finmap.mem_erase.1 hk).2
  · exact h.below.mono (Nat.le_succ _)
  · exact ⟨(h.records f hf).1.advance (advances_complete _), (h.records f hf).2⟩

theorem handled_deliver (h : Receiving s) (hhead : s.delivery.head.isSome = true) (srtt : ℕ) :
    Handled cfg True s (s.deliver cfg srtt) := by
  unfold State.deliver
  dsimp only
  split
  · obtain ⟨hr, hi, ho, hs⟩ := handled_sendACK cfg (receiving_complete h hhead false) srtt
      (s.delivery.delivered + 1) True
    refine ⟨{ hr with advances := (advances_complete _).trans hr.advances }, hi,
      fun _ => owed_sendACK cfg (receiving_complete h hhead false) srtt _, fun hq => { hs hq with }⟩
  · refine ⟨⟨rfl, rfl, fun _ hf => hf, advances_complete _, Nat.le_refl _⟩,
      receiving_complete h hhead true, fun _ _ => .inl rfl, fun _ => .silent rfl rfl⟩

theorem handled_fire (h : Receiving s) (srtt ack : ℕ) :
    Handled cfg True s (({ s with delayed := false } : State).sendACK cfg srtt ack) := by
  have hinv : Receiving { s with delayed := false } := { h with }
  obtain ⟨hr, hi, _, hs⟩ := handled_sendACK cfg hinv srtt ack True
  exact ⟨{ hr with }, hi, fun _ => owed_sendACK cfg hinv srtt ack, fun hq => { hs hq with }⟩

theorem handled_flushACK (h : Receiving s) (srtt : ℕ) :
    Handled cfg True s (s.flushACK cfg srtt) :=
  ⟨receives_flushACK cfg h.live.1 srtt, receiving_flushACK cfg h srtt,
    fun ho => owed_flushACK cfg h ho srtt, fun _ => spoke_flushACK cfg h srtt⟩

theorem handled_record (h : Receiving s) {cmd : Command} {ack : ℕ} (hcmd : cmd ≠ .sack)
    (hack : ack ≤ s.delivery.delivered) :
    Handled cfg (ack ≤ s.lastValue) s (s.post (controlFrame cfg cmd ack)) :=
  ⟨receives_post _ _, receiving_post h (backed_control cfg hcmd hack),
    fun ho => owed_post ho, fun hq => spoke_post hcmd hq⟩

end UdpCustom.Credit
