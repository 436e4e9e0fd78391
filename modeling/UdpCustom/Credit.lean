import UdpCustom.Feedback
import UdpCustom.Lib.Execution
import UdpCustom.Receiver

-- Both ends of one direction of a session that negotiated recovery, one event
-- at a time, with the datagrams in flight: what the sender's credit depends on.
namespace UdpCustom.Credit

open UdpCustom.Frame UdpCustom.Replay UdpCustom.Delivery UdpCustom.Flow UdpCustom.Recovery
open UdpCustom.Sender (Config)
open Transition

structure State where
  -- the sending end
  outstanding : Outstanding
  lastFiled : ℕ
  sendPacketNo : ℕ
  sendFilter : ReplayFilter
  abandoned : Bool
  -- the receiving end, whose clock is the clock of both
  receiver : Feedback.State
  -- a single delivery waits for the timer of `delayedACK`
  delayed : Bool
  recvPacketNo : ℕ
  recvFilter : ReplayFilter
  -- the datagrams in flight
  toReceiver : List UDPCFrame
  toSender : List UDPCFrame

abbrev State.delivery (s : State) : OrderedDelivery := s.receiver.delivery
abbrev State.now (s : State) : ℕ := s.receiver.now

-- The highest cumulative Ack the receiver has put on the wire.
abbrev State.lastValue (s : State) : ℕ := s.receiver.coalesce.lastValue

def State.credit (s : State) : ℕ :=
  match s.outstanding.flow with
  | none => 0
  | some f => f.credit

def State.window (s : State) : ℕ :=
  match s.outstanding.flow with
  | none => 0
  | some f => f.window

-- A record without payload. What it says about the other direction is zero.
def controlFrame (cfg : Config) (cmd : Command) (ack : ℕ) : UDPCFrame where
  magic := cfg.magic
  version := udpcVersion
  cmd := cmd
  flags := 0
  sessionID := cfg.sessionID
  packetNo := 0
  seq := 0
  ack := ack
  windowSize := 0
  data := []

-- `sendControl` of the receiving end: once sent, the Ack counts as told.
def State.post (s : State) (frame : UDPCFrame) : State :=
  { s with
    recvPacketNo := s.recvPacketNo + 1
    toSender := s.toSender ++ [{ frame with packetNo := s.recvPacketNo + 1 }]
    receiver := { s.receiver with coalesce := s.receiver.coalesce.commitSent frame.ack } }

-- `emitFeedback`: the SACK takes a snapshot of its own.
def State.emitFeedback (cfg : Config) (s : State) (ack : Option ℕ) : State :=
  match ack with
  | none => s
  | some _ => s.post (Receiver.sackFrame cfg s.delivery.snapshot)

def State.sendACK (cfg : Config) (s : State) (srtt ack : ℕ) : State :=
  let claimed := Feedback.sendACK true srtt s.receiver ack
  { s with receiver := claimed.2 }.emitFeedback cfg claimed.1

def State.flushACK (cfg : Config) (s : State) (srtt : ℕ) : State :=
  let flushed := Feedback.flushACK true srtt s.receiver
  { s with receiver := flushed.2 }.emitFeedback cfg flushed.1

-- `handleData`. A writer that has been blocked for long (`stalled`) makes an
-- admission worth a report of its own.
def State.handleData (cfg : Config) (s : State) (frame : UDPCFrame) (stalled : Bool) (srtt : ℕ) :
    State :=
  let offered := s.delivery.offerObserved frame.seq frame.data
  let s := { s with receiver := { s.receiver with delivery := offered.2 } }
  let s := if offered.1.fresh ∧ stalled then s.sendACK cfg srtt s.delivery.delivered else s
  let s := match offered.1.ack with
    | none => s
    | some ack => s.sendACK cfg srtt ack
  if offered.1.ok then s else { s with recvFilter := s.recvFilter.remove frame.packetNo }

-- A datagram reaches the receiving end. A PONG carries an Ack but no credit.
def State.arrive (cfg : Config) (s : State) (frame : UDPCFrame) (stalled : Bool) (srtt : ℕ) : State :=
  let seen := s.recvFilter.accept frame.packetNo
  let s := { s with toReceiver := s.toReceiver.erase frame, recvFilter := seen.2 }
  if seen.1 then
    if frame.cmd = .data then s.handleData cfg frame stalled srtt
    else if frame.cmd = .ping then s.post (controlFrame cfg .pong s.delivery.delivered)
    else s
  else if frame.cmd = .data ∧ 0 < s.delivery.delivered then s.sendACK cfg srtt s.delivery.delivered
  else s

-- The writer hands a record on; every second one acknowledges at once.
def State.deliver (cfg : Config) (s : State) (srtt : ℕ) : State :=
  let s := { s with
    receiver := { s.receiver with delivery := s.delivery.complete (s.delivery.delivered + 1) } }
  if s.delayed then { s with delayed := false }.sendACK cfg srtt s.delivery.delivered
  else { s with delayed := true }

-- `sendControl` of the sending end.
def State.sendControl (s : State) (frame : UDPCFrame) : State :=
  { s with
    sendPacketNo := s.sendPacketNo + 1
    toReceiver := s.toReceiver ++ [{ frame with packetNo := s.sendPacketNo + 1 }] }

def State.recordWire (cfg : Config) (s : State) (payload : Bytes) : UDPCFrame :=
  { Sender.dataFrame cfg (s.lastFiled + 1) 0 0 payload with packetNo := s.sendPacketNo + 1 }

-- `sendRecord`, once the window lets it pass.
def State.sendRecord (cfg : Config) (s : State) (payload : Bytes) (rto : ℕ) : State :=
  let wire := s.recordWire cfg payload
  { s with
    lastFiled := s.lastFiled + 1
    sendPacketNo := s.sendPacketNo + 1
    outstanding := (s.outstanding.file wire s.now rto).markTransmitted [wire] s.now
    toReceiver := s.toReceiver ++ [wire] }

-- One wake of the sender's `retransmitLoop`.
def State.retransmit (cfg : Config) (s : State) (rtt bdp : ℕ) : State :=
  let due := s.outstanding.retryDue s.now rttMaxRTO rtt bdp
  if due.1.abandoned then { s with abandoned := true }
  else
    let s := { s with outstanding := due.2, toReceiver := s.toReceiver ++ due.1.wires }
    if due.1.probe then s.sendControl (controlFrame cfg .ping 0) else s

def State.handleAck (s : State) (ack rtt : ℕ) : State :=
  { s with outstanding := s.outstanding.handleAck (s.lastFiled + 1) ack s.now rtt }

def State.handleSACK (s : State) (frame : UDPCFrame) (rtt : ℕ) : State :=
  let updated := s.outstanding.updateSACK frame s.lastFiled s.now rtt
  let s := { s with outstanding := updated.2, toReceiver := s.toReceiver ++ updated.1.1 }
  if updated.1.2 ∧ 0 < frame.ack then s.handleAck frame.ack rtt else s

-- A datagram reaches the sending end.
def State.feedback (s : State) (frame : UDPCFrame) (rtt : ℕ) : State :=
  let seen := s.sendFilter.accept frame.packetNo
  let s := { s with toSender := s.toSender.erase frame, sendFilter := seen.2 }
  if seen.1 = false then s
  else if frame.cmd = .sack then s.handleSACK frame rtt
  else if 0 < frame.ack then s.handleAck frame.ack rtt
  else s

inductive Direction
  | forward
  | backward

inductive Label
  | tick (d : ℕ)
  | send (payload : Bytes) (rto : ℕ)
  | wakeSender (rtt bdp : ℕ)
  | control (cmd : Command)
  | arrive (frame : UDPCFrame) (stalled : Bool) (srtt : ℕ)
  | write (srtt : ℕ)
  | fire (srtt : ℕ)
  | wakeReceiver (srtt : ℕ)
  | record (cmd : Command) (ack : ℕ)
  | feedback (frame : UDPCFrame) (rtt : ℕ)
  | lose (d : Direction) (frame : UDPCFrame)
  | duplicate (d : Direction) (frame : UDPCFrame)

def next (cfg : Config) (s : State) : Label → Option State
  | .tick d => some { s with receiver := { s.receiver with now := s.now + d } }
  | .send payload rto =>
    if s.abandoned = false ∧ SeqMap.size s.outstanding.unacked < s.window then
      some (s.sendRecord cfg payload rto)
    else none
  | .wakeSender rtt bdp => if s.abandoned = false then some (s.retransmit cfg rtt bdp) else none
  | .control cmd =>
    if cmd ≠ .data ∧ cmd ≠ .fec then some (s.sendControl (controlFrame cfg cmd 0)) else none
  | .arrive frame stalled srtt =>
    if frame ∈ s.toReceiver then some (s.arrive cfg frame stalled srtt) else none
  | .write srtt => if s.delivery.head.isSome then some (s.deliver cfg srtt) else none
  | .fire srtt =>
    if s.delayed then some ({ s with delayed := false }.sendACK cfg srtt s.delivery.delivered)
    else none
  | .wakeReceiver srtt => some (s.flushACK cfg srtt)
  | .record cmd ack =>
    -- a record of the receiving end carries a value of `delivered` read before
    if cmd ≠ .sack ∧ ack ≤ s.delivery.delivered then some (s.post (controlFrame cfg cmd ack))
    else none
  | .feedback frame rtt => if frame ∈ s.toSender then some (s.feedback frame rtt) else none
  | .lose .forward frame => some { s with toReceiver := s.toReceiver.erase frame }
  | .lose .backward frame => some { s with toSender := s.toSender.erase frame }
  | .duplicate .forward frame =>
    if frame ∈ s.toReceiver then some { s with toReceiver := frame :: s.toReceiver } else none
  | .duplicate .backward frame =>
    if frame ∈ s.toSender then some { s with toSender := frame :: s.toSender } else none

def initial (cfg : Config) : State where
  outstanding := .new
    (some (newSendFlow cfg.sendWindow cfg.autoWindow cfg.westwood cfg.wideWindow))
  lastFiled := 0
  sendPacketNo := 0
  sendFilter := .new
  abandoned := false
  receiver := Feedback.initial (deliveryLimitFor cfg.wideWindow)
  delayed := false
  recvPacketNo := 0
  recvFilter := .new
  toReceiver := []
  toSender := []

def system (cfg : Config) : System State Label where
  init := fun s => s = initial cfg
  next := next cfg

-- Nothing is in flight and the receiver holds nothing.
def Quiescent (s : State) : Prop :=
  s.toReceiver = [] ∧ s.toSender = [] ∧ s.delivery.pending = ∅

-- The channel delivers, an Ack is told by a SACK before any other record
-- carries it, no record has used up its retries, and neither replay window
-- turns away a record that is new to its end.
def Undisturbed (s : State) : Label → Prop
  | .lose _ _ => False
  | .duplicate _ _ => False
  | .record _ ack => ack ≤ s.lastValue
  | .wakeSender _ _ =>
    ∀ seq p, s.outstanding.unacked.lookup seq = some p → p.retries < clientMaxRetries
  | .arrive frame _ _ =>
    (frame.cmd = .ping → s.delivery.delivered ≤ s.lastValue ∧
      (s.recvFilter.accept frame.packetNo).1 = true) ∧
    (frame.cmd = .data → s.delivery.delivered < frame.seq → frame.seq ∉ s.delivery.pending →
      (s.recvFilter.accept frame.packetNo).1 = true)
  | .feedback frame _ => (s.sendFilter.accept frame.packetNo).1 = true
  | _ => True

-- Every datagram in flight is handed over, the writer and the timer of the
-- delayed ACK get their turn, and both loops keep waking as time goes on.
structure Fair {cfg : Config} (ρ : Execution (system cfg)) : Prop where
  arrives : ∀ i, ∀ f ∈ (ρ.state i).toReceiver, ∃ j, i ≤ j ∧
    ∃ stalled srtt, ρ.label j = .arrive f stalled srtt
  returns : ∀ i, ∀ f ∈ (ρ.state i).toSender, ∃ j, i ≤ j ∧ ∃ rtt, ρ.label j = .feedback f rtt
  writes : ∀ i, ∃ j, i ≤ j ∧ ((ρ.state j).delivery.head = none ∨ ∃ srtt, ρ.label j = .write srtt)
  fires : ∀ i, ∃ j, i ≤ j ∧ ((ρ.state j).delayed = false ∨ ∃ srtt, ρ.label j = .fire srtt)
  wakesSender : ∀ i t, ∃ j, i ≤ j ∧ t ≤ (ρ.state j).now ∧ ∃ rtt bdp, ρ.label j = .wakeSender rtt bdp
  wakesReceiver : ∀ i t, ∃ j, i ≤ j ∧ t ≤ (ρ.state j).now ∧ ∃ srtt, ρ.label j = .wakeReceiver srtt

end UdpCustom.Credit
