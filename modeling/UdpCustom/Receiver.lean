import UdpCustom.Replay
import UdpCustom.Sender

-- The receiving half of one direction: the receive goroutines behind the
-- replay window, the FEC receiver, the delivery queue with its sole writer, and
-- the records that carry acknowledgements back.
namespace UdpCustom.Receiver

open UdpCustom.Frame UdpCustom.Replay UdpCustom.Delivery UdpCustom.Sack UdpCustom.Fec

-- How far a goroutine is with the record it accepted.
inductive Stage
  | accepted
  | offering (recovered : List SourceShard)
  | refused
  deriving DecidableEq

structure Task where
  frame : UDPCFrame
  stage : Stage
  deriving DecidableEq

structure State where
  replayFilter : ReplayFilter
  tasks : List Task
  fecRecv : Option FecReceiver
  delivery : OrderedDelivery
  writer : Writer
  -- the session's close channel
  done : Bool
  sendPacketNo : ℕ
  -- views of the delivery queue some goroutine took for a record it is building
  snapshots : List Snapshot
  -- history: the packet numbers the replay window accepted, and the payloads
  -- handed to the write function
  accepted : List ℕ
  written : List Bytes

inductive Label
  | receive (frame : UDPCFrame)
  | fec (t : Task) (now : ℕ) (scan evict : List ℕ)
  | offer (t : Task)
  | remove (t : Task)
  | wakeUp
  | drain
  | write (ok : Bool)
  | complete
  | idle
  | closeDelivery
  | closeDone
  | snapshot
  | sendSack (snap : Snapshot)
  | sendAck (snap : Snapshot) (cmd : Command)

-- The frame a step takes from the network.
def Label.input : Label → Option UDPCFrame
  | .receive frame => some frame
  | _ => none

-- The session stays open and the write function takes what it is given.
def Label.keepsOpen : Label → Bool
  | .closeDelivery | .closeDone | .write false => false
  | _ => true

-- The steps of the sole writer.
def Label.ofWriter : Label → Bool
  | .wakeUp | .drain | .write _ | .complete | .idle => true
  | _ => false

-- The replay window, and the commands this direction is about. A duplicate is
-- acknowledged again but not handled.
def State.receive (s : State) (frame : UDPCFrame) : State :=
  if validSessionFrameShape frame = false then s
  else
    let seen := s.replayFilter.accept frame.packetNo
    let s := { s with replayFilter := seen.2 }
    if seen.1 then
      let s := { s with accepted := frame.packetNo :: s.accepted }
      if frame.cmd = .data ∨ frame.cmd = .fec then
        { s with tasks := { frame := frame, stage := .accepted } :: s.tasks }
      else s
    else s

-- `fecRecv.onData` and `fecRecv.onParityFrame`.
def State.recover (cfg : Sender.Config) (s : State) (t : Task) (now : ℕ) (scan evict : List ℕ) :
    List SourceShard × Option FecReceiver :=
  match s.fecRecv with
  | none => ([], none)
  | some r =>
    let found := if t.frame.cmd = .data then
        r.onData cfg.code t.frame.seq t.frame.data now scan evict
      else r.onParityFrame cfg.code t.frame now evict
    (found.1, some found.2)

def State.setStage (s : State) (t : Task) (stage : Stage) : State :=
  { s with tasks := { t with stage := stage } :: s.tasks.erase t }

-- One admission: a recovered record, or at the end the record itself. Only the
-- record itself is rolled back when it is refused.
def State.offer (s : State) (t : Task) : List SourceShard → State
  | src :: rest =>
    { s with delivery := (s.delivery.offerObserved src.seq src.payload).2 }.setStage t
      (.offering rest)
  | [] =>
    if t.frame.cmd = .data then
      let offered := s.delivery.offerObserved t.frame.seq t.frame.data
      let s := { s with delivery := offered.2 }
      if offered.1.ok then { s with tasks := s.tasks.erase t } else s.setStage t .refused
    else { s with tasks := s.tasks.erase t }

def sackFrame (cfg : Sender.Config) (snap : Snapshot) : UDPCFrame where
  magic := cfg.magic
  version := udpcVersion
  cmd := .sack
  flags := 0
  sessionID := cfg.sessionID
  packetNo := 0
  seq := 0
  ack := snap.ack
  windowSize := 0
  data := encodeSACKWords snap.credit snap.bitmap (sackMaxWords cfg.wideWindow)

-- Any other record of this end, as far as the peer's sender reads it.
def ackFrame (cfg : Sender.Config) (snap : Snapshot) (cmd : Command) : UDPCFrame where
  magic := cfg.magic
  version := udpcVersion
  cmd := cmd
  flags := 0
  sessionID := cfg.sessionID
  packetNo := 0
  seq := 0
  ack := snap.ack
  windowSize := 0
  data := []

-- Numbered like every record; an exhausted counter sends nothing.
def State.send (s : State) (frame : UDPCFrame) : State × List UDPCFrame :=
  if s.sendPacketNo + 1 < Nonce.packetNoSpace then
    ({ s with sendPacketNo := s.sendPacketNo + 1 },
      [{ frame with packetNo := s.sendPacketNo + 1 }])
  else (s, [])

def next (cfg : Sender.Config) (s : State) : Label → Option (State × List UDPCFrame)
  | .receive frame => some (s.receive frame, [])
  | .fec t now scan evict =>
    if t ∈ s.tasks ∧ t.stage = .accepted ∧
        ∀ r ∈ s.fecRecv, scan.Nodup ∧ scan.toFinset = r.blocks.keys then
      let found := s.recover cfg t now scan evict
      some ({ s with fecRecv := found.2 }.setStage t (.offering found.1), [])
    else none
  | .offer t =>
    if t ∈ s.tasks then
      match t.stage with
      | .offering recovered => some (s.offer t recovered, [])
      | _ => none
    else none
  | .remove t =>
    if t ∈ s.tasks ∧ t.stage = .refused then
      some ({ s with
        replayFilter := s.replayFilter.remove t.frame.packetNo
        tasks := s.tasks.erase t }, [])
    else none
  | .wakeUp =>
    match s.writer with
    | .sleeping =>
      if s.done then some ({ s with writer := .stopped }, [])
      else if s.delivery.wake then
        some ({ s with writer := .draining, delivery := { s.delivery with wake := false } }, [])
      else none
    | _ => none
  | .drain =>
    match s.writer with
    | .draining => some ({ s with writer := Writer.drain s.delivery s.done }, [])
    | _ => none
  | .write ok =>
    match s.writer with
    | .writing seq payload =>
      some ({ s with
        written := s.written ++ [payload]
        writer := if ok then .written seq payload else .stopped }, [])
    | _ => none
  | .complete =>
    match s.writer with
    | .written seq _ =>
      some ({ s with delivery := s.delivery.complete seq, writer := .draining }, [])
    | _ => none
  | .idle =>
    match s.writer with
    | .idling => some ({ s with writer := .sleeping }, [])
    | _ => none
  | .closeDelivery => some ({ s with delivery := s.delivery.close }, [])
  | .closeDone => some ({ s with done := true }, [])
  | .snapshot => some ({ s with snapshots := s.delivery.snapshot :: s.snapshots }, [])
  | .sendSack snap =>
    if cfg.recovery ∧ snap ∈ s.snapshots then some (s.send (sackFrame cfg snap)) else none
  | .sendAck snap cmd =>
    if cmd ≠ .sack ∧ snap ∈ s.snapshots then some (s.send (ackFrame cfg snap cmd)) else none

-- Both ends use the same limit when they agreed on the wide window.
def initial (cfg : Sender.Config) : State where
  replayFilter := .new
  tasks := []
  fecRecv := if cfg.fec then some (newFECReceiverExt cfg.fecExt) else none
  delivery := newOrderedDelivery (deliveryLimitFor cfg.wideWindow)
  writer := .sleeping
  done := false
  sendPacketNo := 0
  snapshots := []
  accepted := []
  written := []

end UdpCustom.Receiver
