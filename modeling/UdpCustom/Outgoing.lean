import UdpCustom.Budget
import UdpCustom.Coalesce
import UdpCustom.Lib.Transition
import UdpCustom.Receiver
import UdpCustom.Seal

-- One end of an established session and every record it puts on the wire. What
-- the peer sends is not restricted.
namespace UdpCustom.Outgoing

open UdpCustom.Frame UdpCustom.Mtu UdpCustom.Budget UdpCustom.Delivery UdpCustom.Coalesce Transition

def mtuProbeFloor : ℤ := 548
def mtuProbeLadder : List ℤ := [1450, 1392, 1200, 1000, 800, mtuProbeFloor]
def windowSizeFull : ℕ := 65535

structure Config extends Sender.Config where
  maxPkt : SendCap
  mtuProbe : Bool

def mtuLadderFor (ceiling : ℤ) : List ℤ :=
  ceiling :: mtuProbeLadder.filter (· < ceiling)

def mtuInitialCap (maxPkt : SendCap) : SendCap where
  size := if maxPkt.size ≤ mtuProbeFloor then maxPkt.size else mtuProbeFloor
  floor_le := by
    split
    · exact maxPkt.floor_le
    · decide
  le_ceiling := by
    split
    · exact maxPkt.le_ceiling
    · decide

def mtuStartCap (maxPkt : SendCap) (probe : Bool) : SendCap :=
  if probe then mtuInitialCap maxPkt else maxPkt

def clampMtuCap (n : ℤ) (maxPkt : SendCap) : SendCap where
  size := if n < (mtuInitialCap maxPkt).size then (mtuInitialCap maxPkt).size
    else if maxPkt.size < n then maxPkt.size
    else n
  floor_le := by
    have hlow := (mtuInitialCap maxPkt).floor_le
    have hhigh := maxPkt.floor_le
    split_ifs <;> omega
  le_ceiling := by
    have hlow := (mtuInitialCap maxPkt).le_ceiling
    have hhigh := maxPkt.le_ceiling
    split_ifs <;> omega

structure State where
  sender : Sender.State
  receiver : Receiver.State
  -- the record size a client sends at, and the frame budget of a server
  sendCap : SendCap
  budget : FrameBudget
  -- the payload cap `sendData` read for the record it cuts
  cut : ℕ
  ackCoalesce : AckCoalescer
  -- the Acks that `claim` and `flushDue` authorised, and the feedback built for them that
  -- is not sent yet
  granted : List ℕ
  built : List UDPCFrame
  -- history: the records handed to the socket, the latest first
  wire : List UDPCFrame

-- The records `sendControl` seals.
inductive Control
  | ping (ackSeq : ℕ)
  | pong (ackSeq : ℕ)
  | fin
  | feedback (frame : UDPCFrame)
  | pathChallenge (token : Bytes)
  | pathResponse (challenge : UDPCFrame)
  | mtuProbe (size : ℕ) (id : Bytes)
  | mtuProbeReply (probe : UDPCFrame) (ackSeq : ℕ)
  | mtuCommit (size : ℕ)

def controlFrame (cfg : Config) (cmd : Command) (ack windowSize : ℕ) (data : Bytes) : UDPCFrame where
  magic := cfg.magic
  version := udpcVersion
  cmd := cmd
  flags := Sender.feedbackFlags cfg.toConfig
  sessionID := cfg.sessionID
  packetNo := 0
  seq := 0
  ack := ack
  windowSize := windowSize
  data := data

def Control.frame (cfg : Config) : Control → UDPCFrame
  | .ping ackSeq => controlFrame cfg .ping ackSeq 0 []
  | .pong ackSeq => controlFrame cfg .pong ackSeq 0 []
  | .fin => controlFrame cfg .fin 0 0 []
  | .feedback frame => frame
  | .pathChallenge token => controlFrame cfg .pathChallenge 0 0 token
  | .pathResponse challenge => controlFrame cfg .pathResponse 0 0 challenge.data
  | .mtuProbe size id => controlFrame cfg .mtuProbe 0 0
    (id ++ List.replicate (size - udpcHdrSize - udpcTrailerSize - mtuProbeIDSize) 0)
  | .mtuProbeReply probe ackSeq => controlFrame cfg .mtuProbeReply ackSeq 0 probe.data
  | .mtuCommit size => controlFrame cfg .mtuCommit 0 0 (BigEndian.put mtuCommitSize size)

-- Which end builds a record, and from what.
def Control.allowed (cfg : Config) (s : State) : Control → Bool
  | .ping _ | .pong _ => true
  | .fin | .mtuCommit _ => cfg.role = .client
  | .feedback frame => frame ∈ s.built
  | .pathChallenge token => cfg.role = .server ∧ token.length = pathChallengeSize
  | .pathResponse challenge =>
    cfg.role = .client ∧ challenge.cmd = .pathChallenge ∧ validSessionFrameShape challenge
  | .mtuProbe size id =>
    cfg.role = .client ∧ cfg.mtuProbe ∧
      ((size : ℤ) ∈ mtuLadderFor cfg.maxPkt.size ∨ (size : ℤ) = s.sendCap.size) ∧
      mtuProbeIDSize ≤ size - udpcHdrSize - udpcTrailerSize ∧
      size - udpcHdrSize - udpcTrailerSize ≤ mtuProbeMaxPayload ∧ id.length = mtuProbeIDSize
  | .mtuProbeReply probe _ =>
    cfg.role = .server ∧ cfg.mtuProbe ∧ probe.cmd = .mtuProbe ∧ validSessionFrameShape probe

-- What is left to send once a record is handed to `sendControl`.
def Control.unsent (built : List UDPCFrame) : Control → List UDPCFrame
  | .feedback frame => built.erase frame
  | _ => built

inductive Label
  | cut
  | send (l : Sender.Label)
  | recv (l : Receiver.Label)
  | control (c : Control)
  | claim (snap : Snapshot) (srtt now : ℕ)
  | flush (srtt now : ℕ)
  | feedback (ackSeq : ℕ)
  | commitSent (ackSeq : ℕ)
  | setCap (n : ℤ)
  | noteObservedPayload (n : ℕ)
  | applyMtuCommit (n : ℕ)

def State.maxPayload (cfg : Config) (s : State) : ℕ :=
  match cfg.role with
  | .client => s.sendCap.maxPayload cfg.fec
  | .server => (s.budget.maxPayload cfg.maxPkt cfg.fec).toNat

-- `sendData` passes on at most what it cut; control records have their own label.
def State.permits (s : State) : Sender.Label → Bool
  | .call payload => payload.length ≤ s.cut
  | .control _ => false
  | _ => true

def feedbackLabel : Receiver.Label → Bool
  | .sendSack _ | .sendAck _ _ => true
  | _ => false

-- The record a claim authorises: with recovery a SACK of what is held by now.
def State.feedbackFrame (cfg : Config) (s : State) (ackSeq : ℕ) : UDPCFrame :=
  if cfg.recovery then Receiver.sackFrame cfg.toConfig s.receiver.delivery.snapshot
  else controlFrame cfg .ack ackSeq windowSizeFull []

def next (cfg : Config) (s : State) : Label → Option State
  | .cut => some { s with cut := s.maxPayload cfg }
  | .send l =>
    if s.permits l then
      (Sender.next cfg.toConfig s.sender l).map fun (sender, out) =>
        { s with sender := sender, wire := out ++ s.wire }
    else none
  | .recv l =>
    if feedbackLabel l then none
    else (Receiver.next cfg.toConfig s.receiver l).map fun (receiver, _) =>
      { s with receiver := receiver }
  | .control c =>
    if c.allowed cfg s then
      (Sender.next cfg.toConfig s.sender (.control (c.frame cfg))).map fun (sender, out) =>
        { s with sender := sender, wire := out ++ s.wire, built := c.unsent s.built }
    else none
  | .claim snap srtt now =>
    if snap ∈ s.receiver.snapshots then
      let urgent := cfg.recovery && decide (ackGapUrgent ≤ sackGaps snap.bitmap)
      let claimed := s.ackCoalesce.claim snap.ack (ackCoalesceInterval srtt) urgent now
      some { s with
        ackCoalesce := claimed.2
        granted := if claimed.1 then snap.ack :: s.granted else s.granted }
    else none
  | .flush srtt now =>
    let due := s.ackCoalesce.flushDue (ackCoalesceInterval srtt) now
    some { s with
      ackCoalesce := due.2
      granted := if due.1.1 = 0 then s.granted else due.1.1 :: s.granted }
  | .feedback ackSeq =>
    if ackSeq ∈ s.granted then
      some { s with
        granted := s.granted.erase ackSeq
        built := s.feedbackFrame cfg ackSeq :: s.built }
    else none
  | .commitSent ackSeq =>
    if ∃ f ∈ s.wire, f.ack = ackSeq then
      some { s with ackCoalesce := s.ackCoalesce.commitSent ackSeq }
    else none
  | .setCap n =>
    if cfg.role = .client then some { s with sendCap := clampMtuCap n cfg.maxPkt } else none
  | .noteObservedPayload n =>
    if cfg.role = .server then some { s with budget := s.budget.noteObservedPayload n } else none
  | .applyMtuCommit n =>
    if cfg.role = .server then some { s with budget := s.budget.applyMtuCommit cfg.maxPkt n }
    else none

def initial (cfg : Config) : State where
  sender := Sender.initial cfg.toConfig
  receiver := Receiver.initial cfg.toConfig
  sendCap := mtuStartCap cfg.maxPkt cfg.mtuProbe
  budget := .initial
  cut := 0
  ackCoalesce := .zero
  granted := []
  built := []
  wire := []

def system (cfg : Config) : System State Label where
  init := fun s => s = initial cfg
  next := next cfg

-- Header, payload and tag.
def recordSize (f : UDPCFrame) : ℕ :=
  udpcHdrSize + f.data.length + udpcTrailerSize

-- The words a SACK of this size has room for.
def sackRoom (maxPkt : SendCap) : ℕ :=
  ((payloadCap maxPkt.size).toNat - 2) / 8

-- A SACK is built while no record is held beyond the words it has room for, a
-- probe is echoed when it fits, and the client has not been seen to send a
-- payload that leaves no room for the FEC length prefix.
def Within (cfg : Config) (s : State) : Label → Prop
  | .feedback _ => cfg.recovery = true → ∀ seq ∈ s.receiver.delivery.pending,
    seq ≤ s.receiver.delivery.delivered + 64 * sackRoom cfg.maxPkt
  | .control (.mtuProbeReply probe _) => (probe.data.length : ℤ) ≤ payloadCap cfg.maxPkt.size
  | .cut => cfg.role = .server → cfg.fec = true →
    (s.budget.observedPayload : ℤ) ≤ payloadCap cfg.maxPkt.size - fecLengthPrefixSize ∨
      payloadCap cfg.maxPkt.size < s.budget.observedPayload
  | _ => True

end UdpCustom.Outgoing
