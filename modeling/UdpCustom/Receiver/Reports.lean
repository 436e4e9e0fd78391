import UdpCustom.Receiver.Theorems
import UdpCustom.Recovery.Agreement

-- What the receiver tells the sender, and that it stays true.
namespace UdpCustom.Receiver

open UdpCustom.Frame UdpCustom.Delivery UdpCustom.Sack UdpCustom.Fec UdpCustom.Recovery
open UdpCustom.Sender (Config)

variable {cfg : Config} {s s' : State} {records : Records} {l : Label} {out : List UDPCFrame}
  {d d' : OrderedDelivery}

structure Reported (cfg : Config) (d : OrderedDelivery) (snap : Snapshot) : Prop where
  ack : snap.ack ≤ d.delivered
  held : ∀ j, BitWindow.bit (sackWords
      (encodeSACKWords snap.credit snap.bitmap (sackMaxWords cfg.wideWindow))) j = true →
    d.Held (snap.ack + 1 + j)

theorem reported_snapshot (cfg : Config) (d : OrderedDelivery) : Reported cfg d d.snapshot :=
  ⟨Nat.le_refl _, fun _ hbit => .inr (.inl (bit_sackWords_snapshot hbit))⟩

theorem Reported.advance (hadv : d.Advances d') {snap : Snapshot} (h : Reported cfg d snap) :
    Reported cfg d' snap :=
  ⟨h.ack.trans hadv.delivered, fun j hbit => hadv.held _ (h.held j hbit)⟩

-- A record whose Ack and admission bits the delivery queue answers for.
structure Backed (d : OrderedDelivery) (f : UDPCFrame) : Prop where
  ack : f.ack ≤ d.delivered
  held : f.cmd = .sack → ∀ seq ∈ sackedSeqs f, d.Held seq

theorem Backed.advance (hadv : d.Advances d') {f : UDPCFrame} (h : Backed d f) : Backed d' f :=
  ⟨h.ack.trans hadv.delivered, fun hcmd seq hseq => hadv.held seq (h.held hcmd seq hseq)⟩

theorem backed_sackFrame {snap : Snapshot} (h : Reported cfg d snap) (no : ℕ) :
    Backed d { sackFrame cfg snap with packetNo := no } := by
  refine ⟨h.ack, fun _ seq hseq => ?_⟩
  obtain ⟨j, hj, rfl⟩ := List.mem_map.1 hseq
  exact h.held j (List.mem_filter.1 hj).2

-- The sender takes every report: no bit of it lies above what was filed.
theorem validSACK_sackFrame (cfg : Config) {f : Flow.SendFlow} {highest no : ℕ} (hpos : 0 < highest)
    (hdelivered : d.delivered ≤ highest) (hheld : ∀ k ∈ d.pending, k ≤ highest)
    (hno : f.feedbackNo < no) :
    validSACK f { sackFrame cfg d.snapshot with packetNo := no } highest = true := by
  have htrim := trimWords_le d.snapshot.bitmap (sackMaxWords cfg.wideWindow)
  exact validSACK_snapshot ⟨rfl, rfl⟩ (htrim.trans (sackMaxWords_le _)) hpos hdelivered hheld hno

theorem backed_ackFrame {snap : Snapshot} (h : Reported cfg d snap) {cmd : Command}
    (hcmd : cmd ≠ .sack) (no : ℕ) : Backed d { ackFrame cfg snap cmd with packetNo := no } :=
  ⟨h.ack, fun hsack => absurd hsack hcmd⟩

theorem backed_send {frame : UDPCFrame} (h : ∀ no, Backed d { frame with packetNo := no }) :
    ∀ f ∈ (s.send frame).2, Backed d f := by
  intro f hf
  unfold State.send at hf
  split at hf
  · rw [List.mem_singleton.1 hf]
    exact h _
  · cases hf

theorem advances_offer (s : State) (t : Task) (found : List SourceShard) :
    s.delivery.Advances (s.offer t found).delivery ∧ (s.offer t found).snapshots = s.snapshots := by
  obtain ⟨tasks, delivery, he, rfl | ⟨seq, payload, rfl⟩⟩ := offer_state s t found
  · rw [he]
    exact ⟨.refl _, rfl⟩
  · rw [he]
    exact ⟨advances_offerObserved _ _ _, rfl⟩

-- One step: the queue takes nothing back, and every view and record is backed.
structure Reports (cfg : Config) (s s' : State) (out : List UDPCFrame) : Prop where
  advances : s.delivery.Advances s'.delivery
  snapshots : ∀ snap ∈ s'.snapshots, Reported cfg s'.delivery snap
  out : ∀ f ∈ out, Backed s'.delivery f

theorem Reports.silent (hsnaps : ∀ snap ∈ s.snapshots, Reported cfg s.delivery snap)
    (hadv : s.delivery.Advances s'.delivery) (hsame : s'.snapshots = s.snapshots) :
    Reports cfg s s' [] := by
  refine ⟨hadv, fun snap hsnap => ?_, fun _ hf => absurd hf List.not_mem_nil⟩
  rw [hsame] at hsnap
  exact (hsnaps snap hsnap).advance hadv

theorem Reports.send (hsnaps : ∀ snap ∈ s.snapshots, Reported cfg s.delivery snap)
    {frame : UDPCFrame} (h : ∀ no, Backed s.delivery { frame with packetNo := no }) :
    Reports cfg s (s.send frame).1 (s.send frame).2 := by
  obtain ⟨no, hno⟩ := send_state s frame
  have hout := backed_send (s := s) h
  rw [hno]
  exact ⟨.refl _, hsnaps, hout⟩

theorem reports_next (hw : WriterAt records s)
    (hsnaps : ∀ snap ∈ s.snapshots, Reported cfg s.delivery snap)
    (hst : next cfg s l = some (s', out)) : Reports cfg s s' out := by
  cases step_of_next hst with
  | receive frame =>
      obtain ⟨replayFilter, accepted, tasks, he⟩ := receive_state s frame
      rw [he]
      exact .silent hsnaps (.refl _) rfl
  | offer t found =>
      obtain ⟨hadv, hsame⟩ := advances_offer s t found
      exact .silent hsnaps hadv hsame
  | wakeUp => exact .silent hsnaps ⟨Nat.le_refl _, rfl, id, fun _ => id⟩ rfl
  | complete seq payload hwriter =>
      simp only [WriterAt, hwriter] at hw
      refine .silent hsnaps ?_ rfl
      rw [hw.2]
      exact advances_complete _
  | closeDelivery => exact .silent hsnaps (advances_close _) rfl
  | snapshot =>
      refine ⟨.refl _, fun snap hsnap => ?_, fun _ hf => absurd hf List.not_mem_nil⟩
      rcases List.mem_cons.1 hsnap with rfl | hsnap
      · exact reported_snapshot cfg s.delivery
      · exact hsnaps snap hsnap
  | sendSack snap hmem => exact .send hsnaps (backed_sackFrame (hsnaps snap hmem))
  | sendAck snap cmd hcmd hmem => exact .send hsnaps (backed_ackFrame (hsnaps snap hmem) hcmd)
  | fec | remove | stop | drain | write | idle | closeDone => exact .silent hsnaps (.refl _) rfl

end UdpCustom.Receiver
