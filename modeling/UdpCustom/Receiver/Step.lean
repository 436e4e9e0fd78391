import UdpCustom.Receiver

-- The steps of a receiver, one constructor for each way a step can go.
namespace UdpCustom.Receiver

open UdpCustom.Frame UdpCustom.Delivery UdpCustom.Fec
open UdpCustom.Sender (Config)

inductive Step (cfg : Config) (s : State) : Label → State → List UDPCFrame → Prop
  | receive (frame : UDPCFrame) : Step cfg s (.receive frame) (s.receive frame) []
  | fec (t : Task) (now : ℕ) (scan evict : List ℕ) (mem : t ∈ s.tasks) :
      Step cfg s (.fec t now scan evict)
        ({ s with fecRecv := (s.recover cfg t now scan evict).2 }.setStage t
          (.offering (s.recover cfg t now scan evict).1)) []
  | offer (t : Task) (found : List SourceShard) (mem : t ∈ s.tasks)
      (stage : t.stage = .offering found) : Step cfg s (.offer t) (s.offer t found) []
  | remove (t : Task) :
      Step cfg s (.remove t)
        { s with
          replayFilter := s.replayFilter.remove t.frame.packetNo
          tasks := s.tasks.erase t } []
  | stop (writer : s.writer = .sleeping) (done : s.done = true) :
      Step cfg s .wakeUp { s with writer := .stopped } []
  | wakeUp (writer : s.writer = .sleeping) :
      Step cfg s .wakeUp
        { s with writer := .draining, delivery := { s.delivery with wake := false } } []
  | drain (writer : s.writer = .draining) :
      Step cfg s .drain { s with writer := Writer.drain s.delivery s.done } []
  | write (ok : Bool) (seq : ℕ) (payload : Bytes) (writer : s.writer = .writing seq payload) :
      Step cfg s (.write ok)
        { s with
          written := s.written ++ [payload]
          writer := if ok then .written seq payload else .stopped } []
  | complete (seq : ℕ) (payload : Bytes) (writer : s.writer = .written seq payload) :
      Step cfg s .complete { s with delivery := s.delivery.complete seq, writer := .draining } []
  | idle (writer : s.writer = .idling) : Step cfg s .idle { s with writer := .sleeping } []
  | closeDelivery : Step cfg s .closeDelivery { s with delivery := s.delivery.close } []
  | closeDone : Step cfg s .closeDone { s with done := true } []
  | snapshot :
      Step cfg s .snapshot { s with snapshots := s.delivery.snapshot :: s.snapshots } []
  | sendSack (snap : Snapshot) (mem : snap ∈ s.snapshots) :
      Step cfg s (.sendSack snap) (s.send (sackFrame cfg snap)).1 (s.send (sackFrame cfg snap)).2
  | sendAck (snap : Snapshot) (cmd : Command) (notSack : cmd ≠ .sack) (mem : snap ∈ s.snapshots) :
      Step cfg s (.sendAck snap cmd) (s.send (ackFrame cfg snap cmd)).1
        (s.send (ackFrame cfg snap cmd)).2

variable {cfg : Config} {s s' : State} {l : Label} {out : List UDPCFrame}

theorem step_of_next (hst : next cfg s l = some (s', out)) : Step cfg s l s' out := by
  cases l with
  | receive frame =>
      cases hst
      exact .receive frame
  | fec t now scan evict =>
      obtain ⟨hguard, ⟨⟩⟩ := Option.ite_none_right_eq_some.1 hst
      exact .fec t now scan evict hguard.1
  | offer t =>
      obtain ⟨hmem, hst⟩ := Option.ite_none_right_eq_some.1 hst
      split at hst
      · rename_i found hstage
        cases hst
        exact .offer t found hmem hstage
      · cases hst
  | remove t =>
      obtain ⟨-, ⟨⟩⟩ := Option.ite_none_right_eq_some.1 hst
      exact .remove t
  | wakeUp =>
      simp only [next] at hst
      split at hst
      · rename_i hwriter
        split at hst
        · rename_i hdone
          cases hst
          exact .stop hwriter hdone
        · obtain ⟨-, ⟨⟩⟩ := Option.ite_none_right_eq_some.1 hst
          exact .wakeUp hwriter
      · cases hst
  | drain =>
      simp only [next] at hst
      split at hst
      · rename_i hwriter
        cases hst
        exact .drain hwriter
      · cases hst
  | write ok =>
      simp only [next] at hst
      split at hst
      · rename_i seq payload hwriter
        cases hst
        exact .write ok seq payload hwriter
      · cases hst
  | complete =>
      simp only [next] at hst
      split at hst
      · rename_i seq payload hwriter
        cases hst
        exact .complete seq payload hwriter
      · cases hst
  | idle =>
      simp only [next] at hst
      split at hst
      · rename_i hwriter
        cases hst
        exact .idle hwriter
      · cases hst
  | closeDelivery =>
      cases hst
      exact .closeDelivery
  | closeDone =>
      cases hst
      exact .closeDone
  | snapshot =>
      cases hst
      exact .snapshot
  | sendSack snap =>
      obtain ⟨⟨-, hmem⟩, hsend⟩ := Option.ite_none_right_eq_some.1 hst
      have hstep : Step cfg s (.sendSack snap) _ _ := .sendSack snap hmem
      rwa [Option.some.inj hsend] at hstep
  | sendAck snap cmd =>
      obtain ⟨⟨hcmd, hmem⟩, hsend⟩ := Option.ite_none_right_eq_some.1 hst
      have hstep : Step cfg s (.sendAck snap cmd) _ _ := .sendAck snap cmd hcmd hmem
      rwa [Option.some.inj hsend] at hstep

-- A receive goroutine touches the replay window and its own list, and an offer
-- that list and the delivery queue.
theorem receive_state (s : State) (frame : UDPCFrame) :
    ∃ replayFilter accepted tasks, s.receive frame =
      { s with replayFilter := replayFilter, accepted := accepted, tasks := tasks } := by
  unfold State.receive
  split
  · exact ⟨_, _, _, rfl⟩
  · dsimp only
    split
    · split
      · exact ⟨_, _, _, rfl⟩
      · exact ⟨_, _, _, rfl⟩
    · exact ⟨_, _, _, rfl⟩

theorem offer_state (s : State) (t : Task) (found : List SourceShard) :
    ∃ tasks delivery, s.offer t found = { s with tasks := tasks, delivery := delivery } ∧
      (delivery = s.delivery ∨
        ∃ seq payload, delivery = (s.delivery.offerObserved seq payload).2) := by
  cases found with
  | cons src rest => exact ⟨_, _, rfl, .inr ⟨src.seq, src.payload, rfl⟩⟩
  | nil =>
      unfold State.offer
      dsimp only
      split
      · split
        · exact ⟨_, _, rfl, .inr ⟨t.frame.seq, t.frame.data, rfl⟩⟩
        · exact ⟨_, _, rfl, .inr ⟨t.frame.seq, t.frame.data, rfl⟩⟩
      · exact ⟨_, _, rfl, .inl rfl⟩

theorem send_state (s : State) (frame : UDPCFrame) :
    ∃ no, (s.send frame).1 = { s with sendPacketNo := no } := by
  unfold State.send
  split
  · exact ⟨_, rfl⟩
  · exact ⟨s.sendPacketNo, rfl⟩

end UdpCustom.Receiver
