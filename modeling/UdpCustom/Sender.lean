import UdpCustom.Fec
import UdpCustom.Nonce
import UdpCustom.Recovery

-- The sending half of one direction: the pump that calls `sendRecord`, the
-- transmit queue, the retransmit loop, the FEC sender, and every other
-- goroutine of the session that draws from its packet numbers.
namespace UdpCustom.Sender

open UdpCustom.Frame UdpCustom.Flow UdpCustom.Recovery UdpCustom.Fec UdpCustom.Receive

-- What the handshake and the configuration fixed for this direction.
structure Config where
  role : Role
  magic : ℕ
  sessionID : ℕ
  code : ErasureCode UInt8
  recovery : Bool
  wideWindow : Bool
  westwood : Bool
  sendWindow : ℕ
  autoWindow : Bool
  fec : Bool
  fecExt : Bool

def defaultSendWindow : ℕ := 256
def transmitBurst : ℕ := 64

-- Where `sendRecord` stands with the payload it was called with.
inductive Pump
  | idle
  | waiting (payload : Bytes)
  | admitted (payload : Bytes)
  | cleared (payload : Bytes)
  | numbered (seq : ℕ) (payload : Bytes)
  | encoded (wire : UDPCFrame)
  | filed (wire : UDPCFrame)
  | submitted (wire : UDPCFrame)
  deriving DecidableEq

structure State where
  sendSeq : ℕ
  sendPacketNo : ℕ
  outstanding : Outstanding
  pump : Pump
  queue : List UDPCFrame
  -- the frames `run` has taken from the queue, and whether they have left
  batch : List UDPCFrame
  batchSent : Bool
  -- wires to repeat and Acks to handle that a goroutine still holds
  repairs : List UDPCFrame
  dueAcks : List ℕ
  fecSend : Option FecSender
  blocks : List (List SourceShard)
  parity : List ParityShard
  closed : Bool
  -- history: the payloads `sendRecord` was called with, and the last sequence
  -- number filed as outstanding
  passed : List Bytes
  lastFiled : ℕ

inductive Label
  | call (payload : Bytes)
  | windowOpen
  | check
  | number
  | encode (ack windowSize : ℕ)
  | file (now rto : ℕ)
  | submit
  | submitClosed
  | addFec (loss : Float)
  | gather
  | transmit
  | markTransmitted (now : ℕ)
  | bestEffort (wire : UDPCFrame)
  | retryDue (now rtt bdp : ℕ)
  | receive (frame : UDPCFrame) (now rtt : ℕ)
  | handleAck (ack now srtt : ℕ)
  | control (frame : UDPCFrame)
  | flushFec (gen : ℕ)
  | emitBlock (block : List SourceShard) (loss : Float)
  | emitParity (p : ParityShard) (ack windowSize : ℕ)
  | close
  | closeFec

-- The frame a step takes from the network.
def Label.input : Label → Option UDPCFrame
  | .receive frame _ _ => some frame
  | _ => none

def State.window (cfg : Config) (s : State) : ℕ :=
  match s.outstanding.flow with
  | some f => f.window
  | none => if 0 < cfg.sendWindow then cfg.sendWindow else defaultSendWindow

def State.burstWindow (s : State) : ℕ :=
  match s.outstanding.flow with
  | some f => f.window
  | none => 16

-- The flags `applyFECFeedback` adds.
def feedbackFlags (cfg : Config) : ℕ :=
  if cfg.fec then flagFecFeedback else 0

def dataFrame (cfg : Config) (seq ack windowSize : ℕ) (payload : Bytes) : UDPCFrame where
  magic := cfg.magic
  version := udpcVersion
  cmd := .data
  flags := feedbackFlags cfg
  sessionID := cfg.sessionID
  packetNo := 0
  seq := seq
  ack := ack
  windowSize := windowSize
  data := payload

def fecFrame (cfg : Config) (ack : ℕ) : UDPCFrame where
  magic := cfg.magic
  version := udpcVersion
  cmd := .fec
  flags := 0
  sessionID := cfg.sessionID
  packetNo := 0
  seq := 0
  ack := ack
  windowSize := 0
  data := []

-- `encodeFrame`. An exhausted counter closes the session; what the counter
-- does after that is not followed here.
def State.encodeFrame (s : State) (frame : UDPCFrame) : Option UDPCFrame × State :=
  if s.sendPacketNo + 1 < Nonce.packetNoSpace then
    (some { frame with packetNo := s.sendPacketNo + 1 },
      { s with sendPacketNo := s.sendPacketNo + 1 })
  else (none, { s with closed := true })

def State.enqueue (s : State) (wire : UDPCFrame) : State :=
  if s.queue.length < transmitBurst then { s with queue := s.queue ++ [wire] } else s

-- `handleAck` of a record's Ack and `handleSACK`, up to the calls they make
-- after they have released the lock.
def State.receive (s : State) (frame : UDPCFrame) (now rtt : ℕ) : State :=
  if frame.cmd = .sack then
    let updated := s.outstanding.updateSACK frame (s.sendSeq - 1) now rtt
    { s with
      outstanding := updated.2
      repairs := updated.1.1 ++ s.repairs
      dueAcks := if updated.1.2 ∧ 0 < frame.ack then frame.ack :: s.dueAcks else s.dueAcks }
  else if 0 < frame.ack then { s with dueAcks := frame.ack :: s.dueAcks }
  else s

def State.emitParity (cfg : Config) (s : State) (p : ParityShard) (ack windowSize : ℕ) : State :=
  let s := { s with parity := s.parity.erase p }
  if s.closed then s
  else
    match p.applyToFrame (fecFrame cfg ack) cfg.fecExt with
    | none => s
    | some frame =>
      let frame := { frame with flags := frame.flags ||| feedbackFlags cfg, windowSize := windowSize }
      match s.encodeFrame frame with
      | (none, s) => s
      | (some wire, s) => s.enqueue wire

-- The next state and the datagrams handed to the socket.
def next (cfg : Config) (s : State) : Label → Option (State × List UDPCFrame)
  | .call payload =>
    if s.pump = .idle ∧ payload ≠ [] ∧ payload.length ≤ udpcMaxData then
      let s := { s with passed := s.passed ++ [payload] }
      if cfg.role = .client ∧ s.closed then some (s, [])
      else some ({ s with pump := .waiting payload }, [])
    else none
  | .windowOpen =>
    match s.pump with
    | .waiting payload =>
      if s.closed ∨ SeqMap.size s.outstanding.unacked < s.window cfg then
        some ({ s with pump := .admitted payload }, [])
      else none
    | _ => none
  | .check =>
    match s.pump with
    | .admitted payload => some ({ s with pump := if s.closed then .idle else .cleared payload }, [])
    | _ => none
  | .number =>
    match s.pump with
    | .cleared payload =>
      some ({ s with sendSeq := s.sendSeq + 1, pump := .numbered s.sendSeq payload }, [])
    | _ => none
  | .encode ack windowSize =>
    match s.pump with
    | .numbered seq payload =>
      match s.encodeFrame (dataFrame cfg seq ack windowSize payload) with
      | (none, s) => some ({ s with pump := .idle }, [])
      | (some wire, s) => some ({ s with pump := .encoded wire }, [])
    | _ => none
  | .file now rto =>
    match s.pump with
    | .encoded wire =>
      some ({ s with
        outstanding := s.outstanding.file wire now rto
        pump := .filed wire
        lastFiled := wire.seq }, [])
    | _ => none
  | .submit =>
    match s.pump with
    | .filed wire =>
      if s.queue.length < transmitBurst then
        some ({ s with queue := s.queue ++ [wire], pump := .submitted wire }, [])
      else none
    | _ => none
  | .submitClosed =>
    match s.pump with
    | .filed _ => if s.closed then some ({ s with pump := .idle }, []) else none
    | _ => none
  | .addFec loss =>
    match s.pump with
    | .submitted wire =>
      match s.fecSend with
      | none => some ({ s with pump := .idle }, [])
      | some f =>
        let added := f.add { seq := wire.seq, payload := wire.data } loss
        some ({ s with
          pump := .idle, fecSend := some added.2, blocks := added.1 ++ s.blocks }, [])
    | _ => none
  | .gather =>
    match s.queue with
    | [] => none
    | wire :: rest =>
      if s.batchSent = false ∧
          (s.batch = [] ∨ s.batch.length < min transmitBurst (max 1 s.burstWindow)) then
        some ({ s with queue := rest, batch := s.batch ++ [wire] }, [])
      else none
  | .transmit =>
    if s.batch ≠ [] ∧ s.batchSent = false then some ({ s with batchSent := true }, s.batch) else none
  | .markTransmitted now =>
    if s.batchSent then
      some ({ s with
        outstanding := s.outstanding.markTransmitted s.batch now, batch := [], batchSent := false }, [])
    else none
  | .bestEffort wire =>
    if wire ∈ s.repairs then
      some (({ s with repairs := s.repairs.erase wire } : State).enqueue wire, [])
    else none
  | .retryDue now rtt bdp =>
    let due := s.outstanding.retryDue now rttMaxRTO rtt bdp
    if due.1.abandoned then some ({ s with closed := true }, [])
    else some ({ s with outstanding := due.2, repairs := due.1.wires ++ s.repairs }, [])
  | .receive frame now rtt => some (s.receive frame now rtt, [])
  | .handleAck ack now srtt =>
    if ack ∈ s.dueAcks then
      some ({ s with
        outstanding := s.outstanding.handleAck s.sendSeq ack now srtt
        dueAcks := s.dueAcks.erase ack }, [])
    else none
  | .control frame =>
    if frame.cmd ≠ .data ∧ frame.cmd ≠ .fec then
      match s.encodeFrame frame with
      | (none, s) => some (s, [])
      | (some wire, s) => some (s, [wire])
    else none
  | .flushFec gen =>
    match s.fecSend with
    | none => none
    | some f =>
      let flushed := f.flushTimer gen
      some ({ s with fecSend := some flushed.2, blocks := flushed.1 :: s.blocks }, [])
  | .emitBlock block loss =>
    match s.fecSend with
    | none => none
    | some f =>
      if block ∈ s.blocks then
        let emitted := f.emitBlock cfg.code block loss
        some ({ s with
          fecSend := some emitted.2
          blocks := s.blocks.erase block
          parity := emitted.1 ++ s.parity }, [])
      else none
  | .emitParity p ack windowSize =>
    if p ∈ s.parity then some (s.emitParity cfg p ack windowSize, []) else none
  | .close => some ({ s with closed := true }, [])
  | .closeFec =>
    if s.closed then some ({ s with fecSend := s.fecSend.map (·.close) }, []) else none

def initial (cfg : Config) : State where
  sendSeq := 1
  sendPacketNo := 0
  outstanding := .new
    (if cfg.recovery then
      some (newSendFlow cfg.sendWindow cfg.autoWindow cfg.westwood cfg.wideWindow)
    else none)
  pump := .idle
  queue := []
  batch := []
  batchSent := false
  repairs := []
  dueAcks := []
  fecSend := if cfg.fec then some (newFECSenderExt cfg.fecExt) else none
  blocks := []
  parity := []
  closed := false
  passed := []
  lastFiled := 0

-- The payload of each record filed so far.
def State.records (s : State) : Records := fun seq =>
  if 0 < seq ∧ seq ≤ s.lastFiled then s.passed[seq - 1]? else none

end UdpCustom.Sender
