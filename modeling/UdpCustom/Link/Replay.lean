import UdpCustom.Link.Retention
import UdpCustom.Replay.Theorems

-- The replay window against the retransmissions of the other end.
namespace UdpCustom.Link

open UdpCustom.Frame UdpCustom.Replay UdpCustom.Recovery Transition
open UdpCustom.Sender (Config)

variable {cfg : Config} {s s' : State} {r : Receiver.State}

-- The window knows what it accepted and nothing else.
structure Screened (r : Receiver.State) : Prop where
  recorded : ∀ n, r.replayFilter.Recorded n → n ∈ r.accepted
  behind : ∀ n, r.replayFilter.Behind n ↔ ∃ m ∈ r.accepted, n + replayWindowPackets ≤ m

theorem Screened.congr {r r' : Receiver.State} (h : Screened r)
    (hfilter : r'.replayFilter = r.replayFilter) (haccepted : r'.accepted = r.accepted) :
    Screened r' := by
  refine ⟨?_, ?_⟩
  · rw [hfilter, haccepted]
    exact h.recorded
  · rw [hfilter, haccepted]
    exact h.behind

theorem screened_accept (h : Screened r) {n : ℕ} (hacc : (r.replayFilter.accept n).1 = true) :
    Screened { r with replayFilter := (r.replayFilter.accept n).2, accepted := n :: r.accepted } := by
  refine ⟨fun m hm => ?_, fun m => ?_⟩
  · rcases ((recorded_accept hacc m).1 hm).1 with rfl | hm
    · exact List.mem_cons_self
    · exact List.mem_cons_of_mem _ (h.recorded m hm)
  · dsimp only
    rw [behind_accept hacc, h.behind]
    constructor
    · rintro (⟨k, hk, hle⟩ | hle)
      · exact ⟨k, List.mem_cons_of_mem _ hk, hle⟩
      · exact ⟨n, List.mem_cons_self, hle⟩
    · rintro ⟨k, hk, hle⟩
      rcases List.mem_cons.1 hk with rfl | hk
      · exact .inr hle
      · exact .inl ⟨k, hk, hle⟩

theorem screened_receive (h : Screened r) (frame : UDPCFrame) :
    Screened (r.receive frame) := by
  unfold Receiver.State.receive
  dsimp only
  split
  · exact h
  · split
    · rename_i hacc
      split
      · exact (screened_accept h hacc).congr rfl rfl
      · exact screened_accept h hacc
    · rename_i hrej
      rw [accept_false (Bool.not_eq_true _ ▸ hrej)]
      exact h

theorem screened_remove (h : Screened r) (n : ℕ) :
    Screened { r with replayFilter := r.replayFilter.remove n } := by
  refine ⟨fun m hm => h.recorded m ?_, fun m => ?_⟩
  · by_cases hn : n = 0
    · simpa [ReplayFilter.remove, hn] using hm
    · exact ((recorded_remove _ hn m).1 hm).1
  · exact (behind_remove _ n m).trans (h.behind m)

theorem screened_next {r r' : Receiver.State} {l : Receiver.Label} {out : List UDPCFrame}
    (h : Screened r) (hst : Receiver.next cfg r l = some (r', out)) : Screened r' := by
  cases Receiver.step_of_next hst with
  | receive frame => exact screened_receive h frame
  | offer t found =>
      obtain ⟨tasks, delivery, he, -⟩ := Receiver.offer_state r t found
      rw [he]
      exact h.congr rfl rfl
  | remove t => exact (screened_remove h _).congr rfl rfl
  | sendSack snap =>
      obtain ⟨no, hno⟩ := Receiver.send_state r (Receiver.sackFrame cfg snap)
      rw [hno]
      exact h.congr rfl rfl
  | sendAck snap cmd =>
      obtain ⟨no, hno⟩ := Receiver.send_state r (Receiver.ackFrame cfg snap cmd)
      rw [hno]
      exact h.congr rfl rfl
  | _ => exact h.congr rfl rfl

-- Packet number zero is never given to a record.
def Numbered (s : Sender.State) : Prop :=
  ∀ seq p, s.outstanding.unacked.lookup seq = some p → 0 < p.wire.packetNo

theorem numbered_next {r r' : Sender.State} {l : Sender.Label} {out : List UDPCFrame}
    (hinv : Sender.Inv cfg r) (h : Numbered r) (hst : Sender.next cfg r l = some (r', out)) :
    Numbered r' := by
  intro seq p hp
  cases (Sender.change_next hst).recorded with
  | bookkept hb =>
      obtain ⟨q, hq, hw⟩ := hb.kept.lookup hp
      rw [← hw]
      exact h seq q hq
  | @filed wire now rto hpump _ houtstanding _ =>
      have hal := hinv.aligned
      simp only [Sender.Aligned, hpump] at hal
      rw [houtstanding] at hp
      rcases SeqMap.of_lookup_insert hp with ⟨-, rfl⟩ | ⟨-, hold⟩
      · exact hal.2.2.2.2.2
      · exact h seq p hold
  | acked _ houtstanding _ =>
      rw [houtstanding] at hp
      exact h seq p (lookup_of_handleAck hp)

theorem screened_reachable (h : Reachable (system cfg) s) :
    Agree cfg s ∧ Numbered s.sender ∧ Screened s.receiver := by
  refine h.invariant (I := fun s => Agree cfg s ∧ Numbered s.sender ∧ Screened s.receiver) ?_ ?_
  · rintro s rfl
    refine ⟨agree_initial cfg, ?_, ?_, ?_⟩
    · intro seq p hp
      simp [initial, Sender.initial, Outstanding.new] at hp
    · exact fun n hn => absurd hn (not_recorded_new n)
    · intro n
      simp [initial, Receiver.initial]
  · rintro s l s' ⟨hagree, hnumbered, hscreened⟩ _ hst
    refine ⟨agree_step hagree hst, ?_⟩
    cases l with
    | send l =>
        obtain ⟨_, sender, out, hsender, rfl⟩ := next_send hst
        exact ⟨numbered_next hagree.sender hnumbered hsender, hscreened⟩
    | recv l =>
        obtain ⟨_, receiver, out, hreceiver, rfl⟩ := next_recv hst
        exact ⟨hnumbered, screened_next hscreened hreceiver⟩

theorem retransmission_accepted_iff {cfg : Config} {s : State} (h : Reachable (system cfg) s)
    {seq : ℕ} {p : UnackedPkt} (hp : s.sender.outstanding.unacked.lookup seq = some p)
    (hnever : p.wire.packetNo ∉ s.receiver.accepted) :
    (s.receiver.replayFilter.accept p.wire.packetNo).1 = true ↔
      ∀ n ∈ s.receiver.accepted, n < p.wire.packetNo + replayWindowPackets := by
  obtain ⟨_, hnumbered, hscreened⟩ := screened_reachable h
  have hpos : p.wire.packetNo ≠ 0 := (hnumbered seq p hp).ne'
  have hnew : ¬s.receiver.replayFilter.Recorded p.wire.packetNo := mt (hscreened.recorded _) hnever
  rw [accept_iff, hscreened.behind]
  constructor
  · rintro ⟨_, hbehind, _⟩ n hn
    by_contra hfar
    exact hbehind ⟨n, hn, Nat.not_lt.1 hfar⟩
  · intro hnear
    refine ⟨hpos, ?_, hnew⟩
    rintro ⟨n, hn, hfar⟩
    exact absurd (hnear n hn) (Nat.not_lt.2 hfar)

theorem lone_record_retransmittable : ∃ s p, (Reachable (system sampleConfig) s ∧
      s.sender.outstanding.unacked.lookup 1 = some p ∧ p.wire.packetNo ∉ s.receiver.accepted ∧
      ∀ n ∈ s.receiver.accepted, n < p.wire.packetNo + replayWindowPackets) ∧
    (s.receiver.replayFilter.accept p.wire.packetNo).1 = true := by
  obtain ⟨s, hs, hlookup, haccepted⟩ := (system sampleConfig).exists_run
    (P := fun s => (s.sender.outstanding.unacked.lookup 1).any (·.wire.packetNo = 1) = true ∧
      s.receiver.accepted = [2]) rfl
    (sackedRun.take 22) (by decide +kernel)
  obtain ⟨p, hp, hno⟩ := (Option.any_eq_true _ _).1 hlookup
  have hno : p.wire.packetNo = 1 := of_decide_eq_true hno
  have hnever : p.wire.packetNo ∉ s.receiver.accepted := by
    rw [hno, haccepted]
    decide
  have hnear : ∀ n ∈ s.receiver.accepted, n < p.wire.packetNo + replayWindowPackets := by
    rw [hno, haccepted]
    decide
  exact ⟨s, p, ⟨hs, hp, hnever, hnear⟩, (retransmission_accepted_iff hs hp hnever).2 hnear⟩

def pingFrame (cfg : Config) : UDPCFrame :=
  { Sender.fecFrame cfg 0 with cmd := .ping }

theorem next_ping (hroom : s.sender.sendPacketNo + 1 < Nonce.packetNoSpace) :
    next cfg s (.send (.control (pingFrame cfg))) = some { s with
      sender := { s.sender with sendPacketNo := s.sender.sendPacketNo + 1 }
      wire := numbered (pingFrame cfg) (s.sender.sendPacketNo + 1) :: s.wire } := by
  simp [next, Sender.Label.input, Sender.next, pingFrame, Sender.State.encodeFrame, hroom, numbered]

-- Keepalives use the packet numbers up one by one.
theorem ping_run (h : Reachable (system cfg) s) (n : ℕ)
    (hroom : s.sender.sendPacketNo + (n + 1) < Nonce.packetNoSpace) :
    ∃ s', Reachable (system cfg) s' ∧ s'.receiver = s.receiver ∧
      s'.sender = { s.sender with sendPacketNo := s.sender.sendPacketNo + (n + 1) } ∧
      numbered (pingFrame cfg) (s.sender.sendPacketNo + (n + 1)) ∈ s'.wire := by
  induction n with
  | zero => exact ⟨_, reachable_next h (next_ping hroom), rfl, rfl, List.mem_cons_self⟩
  | succ n ih =>
      obtain ⟨s₁, hs₁, hreceiver, hsender, _⟩ := ih (by omega)
      have hroom₁ : s₁.sender.sendPacketNo + 1 < Nonce.packetNoSpace := by
        rw [hsender]
        exact hroom
      refine ⟨_, reachable_next hs₁ (next_ping hroom₁), hreceiver, ?_, ?_⟩
      · rw [hsender]
        rfl
      · rw [hsender]
        exact List.mem_cons_self

theorem receive_control {frame : UDPCFrame}
    (hfilter : r.replayFilter = .new) (hshape : validSessionFrameShape frame = true)
    (hno : frame.packetNo ≠ 0) (hdata : frame.cmd ≠ .data) (hfec : frame.cmd ≠ .fec) :
    r.receive frame = { r with
      replayFilter := (r.replayFilter.accept frame.packetNo).2
      accepted := frame.packetNo :: r.accepted } := by
  have hacc : (r.replayFilter.accept frame.packetNo).1 = true := by
    rw [accept_iff, hfilter]
    exact ⟨hno, not_behind_new _, not_recorded_new _⟩
  simp [Receiver.State.receive, hshape, hacc, hdata, hfec]

-- A record is lost, the keepalives after it fill the window, and the last of
-- them arrives.
theorem lost_record_behind_window : ∃ s p, Reachable (system sampleConfig) s ∧
    s.sender.closed = false ∧ s.receiver.delivery.closed = false ∧
    s.sender.outstanding.unacked.lookup 1 = some p ∧ p.wire.cmd = .data ∧
    p.wire.packetNo ∉ s.receiver.accepted ∧
    (s.receiver.replayFilter.accept p.wire.packetNo).1 = false := by
  obtain ⟨s, hs, hno, hclosed, hlookup, hopen, hfilter, haccepted⟩ :=
    (system sampleConfig).exists_run
      (P := fun s => s.sender.sendPacketNo = 1 ∧ s.sender.closed = false ∧
        (s.sender.outstanding.unacked.lookup 1).any
          (fun p => p.wire.packetNo = 1 ∧ p.wire.cmd = .data) = true ∧
        s.receiver.delivery.closed = false ∧ s.receiver.replayFilter = .new ∧
        s.receiver.accepted = []) rfl
      (sendRecord [1] ++ [.gather, .transmit, .markTransmitted 5].map .send) (by decide +kernel)
  obtain ⟨p, hp, hwire⟩ := (Option.any_eq_true _ _).1 hlookup
  obtain ⟨hpno, hcmd⟩ := of_decide_eq_true hwire
  obtain ⟨s₁, hs₁, hreceiver, hsender, hping⟩ := ping_run hs 4095 (by rw [hno]; decide)
  rw [hno] at hping
  set ping := numbered (pingFrame sampleConfig) (1 + (4095 + 1))
  have hreceive := receive_control (r := s₁.receiver) (by rw [hreceiver, hfilter])
    (show validSessionFrameShape ping = true by decide) (by decide) (by decide) (by decide)
  have hstep : next sampleConfig s₁ (.recv (.receive ping)) =
      some { s₁ with receiver := s₁.receiver.receive ping } := by
    simp [next, Receiver.Label.input, Receiver.next, hping]
  rw [hreceive, hreceiver, haccepted] at hstep
  have hs₂ := reachable_next hs₁ hstep
  refine ⟨_, p, hs₂, ?_, hopen, ?_, hcmd, ?_, ?_⟩
  · rw [hsender]
    exact hclosed
  · rw [hsender]
    exact hp
  · rw [hpno]
    exact show 1 ∉ [4097] by decide
  · rw [Bool.eq_false_iff, ne_eq, accept_iff]
    rintro ⟨_, hbehind, _⟩
    apply hbehind
    rw [(screened_reachable hs₂).2.2.behind, hpno]
    exact ⟨4097, List.mem_singleton_self _, by decide⟩

end UdpCustom.Link
