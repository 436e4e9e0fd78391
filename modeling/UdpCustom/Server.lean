import UdpCustom.Budget
import UdpCustom.Coalesce
import UdpCustom.Fec.Loss
import UdpCustom.Lib.Transition
import UdpCustom.Path
import UdpCustom.Receiver
import UdpCustom.Rtt

-- One session of the server: its whole state, and what one received record
-- does to it. Records are handled one at a time here.
namespace UdpCustom.Server

open UdpCustom.Frame UdpCustom.Replay UdpCustom.Delivery UdpCustom.Recovery UdpCustom.Coalesce
open UdpCustom.Fec UdpCustom.Mtu UdpCustom.Budget UdpCustom.Path UdpCustom.Rtt Transition

def advertisedWindowFull : ℕ := 65535

-- What the server is configured with and what the handshake settled.
structure Config extends Sender.Config where
  maxPkt : SendCap
  mtuProbe : Bool
  sendSockMax : ℕ
  maxRecvQueue : ℕ

-- A datagram handed to a socket: the port it leaves from, zero for the main
-- socket, and where it goes.
structure Datagram (Addr : Type) where
  via : ℕ
  dest : AddrPort Addr
  frame : UDPCFrame
  deriving DecidableEq

structure Session (Addr : Type) where
  paths : Paths Addr
  budget : FrameBudget
  replayFilter : ReplayFilter
  sendPacketNo : ℕ
  lastActive : ℕ
  delivery : OrderedDelivery
  ackCoalesce : AckCoalescer
  fecRecv : Option FecReceiver
  recvLoss : LossEstimator
  fecSend : Option FecSender
  adaptive : AdaptiveLoss
  sendSeq : ℕ
  outstanding : Outstanding
  rttEst : RttEstimator
  queue : List UDPCFrame
  closed : Bool
  -- history: what was handed to a socket, the latest first
  sent : List (Datagram Addr)

-- What the code reads from outside while it handles one record: the clock, the
-- random source, and the orders in which it walks its maps.
structure Env where
  now : ℕ
  stalled : Bool
  random : Option Bytes
  evict : ℕ
  pathScan : List ℕ
  blockScan : List ℕ
  blockEvict : List ℕ

variable {Addr : Type} [DecidableEq Addr]

abbrev Session.flow (s : Session Addr) : Option Flow.SendFlow := s.outstanding.flow

def Session.srtt (s : Session Addr) : ℕ := s.rttEst.smoothed.toNat

def Session.currentAck (s : Session Addr) : ℕ := s.delivery.delivered

def Session.touch (s : Session Addr) (now : ℕ) : Session Addr :=
  { s with lastActive := now }

-- `Close`, whose body runs once.
def Session.close (s : Session Addr) : Session Addr :=
  if s.closed then s
  else { s with
    closed := true
    delivery := s.delivery.close
    fecSend := s.fecSend.map (·.close) }

def Session.applyFECFeedback (s : Session Addr) (f : UDPCFrame) : UDPCFrame :=
  if s.fecRecv.isSome then
    { f with flags := f.flags ||| flagFecFeedback, windowSize := s.recvLoss.basisPoints }
  else f

-- `sendControl` and `nextPacketNo`: a counter that wraps retires the session.
-- `routed` is what the send function decides once there is something to send.
def Session.sendControl (s : Session Addr) (f : UDPCFrame)
    (routed : (ℕ × AddrPort Addr) × Paths Addr) : Session Addr :=
  let no := (s.sendPacketNo + 1) % Nonce.packetNoSpace
  let wire := { s.applyFECFeedback f with packetNo := no }
  let s := { s with sendPacketNo := no }
  if no = 0 then s.close
  else if udpcMaxPkt < udpcHdrSize + f.data.length + udpcTrailerSize then s
  else { s with
    paths := routed.2
    sent := { via := routed.1.1, dest := routed.1.2, frame := wire } :: s.sent
    ackCoalesce := s.ackCoalesce.commitSent f.ack }

-- A control record that goes where `sendToSession` sends.
def Session.reply (s : Session Addr) (f : UDPCFrame) (scan : List ℕ) : Session Addr :=
  s.sendControl f (s.paths.route scan)

def controlFrame (cfg : Config) (cmd : Command) (ack : ℕ) (data : Bytes) : UDPCFrame where
  magic := cfg.magic
  version := udpcVersion
  cmd := cmd
  flags := 0
  sessionID := cfg.sessionID
  packetNo := 0
  seq := 0
  ack := ack
  windowSize := 0
  data := data

def Session.feedbackFrame (cfg : Config) (s : Session Addr) (ackSeq : ℕ) : UDPCFrame :=
  if s.flow.isSome then Receiver.sackFrame cfg.toConfig s.delivery.snapshot
  else { controlFrame cfg .ack ackSeq [] with windowSize := advertisedWindowFull }

def Session.sendCumulativeACK (cfg : Config) (s : Session Addr) (ackSeq : ℕ) (env : Env) :
    Session Addr :=
  if s.closed then s
  else
    let snap := s.delivery.snapshot
    let ack := if s.flow.isSome then snap.ack else ackSeq
    let urgent := s.flow.isSome && decide (ackGapUrgent ≤ sackGaps snap.bitmap)
    let claimed := s.ackCoalesce.claim ack (ackCoalesceInterval s.srtt) urgent env.now
    let s := { s with ackCoalesce := claimed.2 }
    if claimed.1 then s.reply (s.feedbackFrame cfg ack) env.pathScan else s

def Session.reackDuplicateData (cfg : Config) (s : Session Addr) (env : Env) : Session Addr :=
  if 0 < s.currentAck then s.sendCumulativeACK cfg s.currentAck env else s

-- The records a cumulative Ack takes off, the oldest first.
def Session.acked (s : Session Addr) (ackSeq : ℕ) : List UnackedPkt :=
  (List.range' s.outstanding.lowestOutstanding
    (ackSeq + 1 - s.outstanding.lowestOutstanding)).filterMap s.outstanding.unacked.lookup

def Session.handleAck (s : Session Addr) (ackSeq now : ℕ) : Session Addr :=
  if (0 < s.sendSeq ∧ s.sendSeq ≤ ackSeq) ∨ SeqMap.size s.outstanding.unacked = 0 ∨
      ackSeq < s.outstanding.lowestOutstanding then s
  else
    let sampled : Session Addr := match s.outstanding.unacked.lookup ackSeq with
      | none => s
      | some p =>
        if p.retries = 0 ∧ p.queued = false then
          { s with rttEst := s.rttEst.sample ((now : ℤ) - p.firstSent) }
        else s
    { sampled with
      adaptive := if s.fecSend.isSome then
          (s.acked ackSeq).foldl (fun a p => a.observeAck (0 < p.retries)) s.adaptive
        else s.adaptive
      outstanding := s.outstanding.handleAck s.sendSeq ackSeq now sampled.srtt }

def Session.dispatchWire (s : Session Addr) (wire : UDPCFrame) : Session Addr :=
  if s.queue.length < Sender.transmitBurst then { s with queue := s.queue ++ [wire] } else s

def Session.handleSACK (s : Session Addr) (frame : UDPCFrame) (now : ℕ) : Session Addr :=
  let updated := s.outstanding.updateSACK frame (s.sendSeq - 1) now s.srtt
  let s := { s with outstanding := updated.2 }
  let s := if updated.1.2 ∧ 0 < frame.ack then s.handleAck frame.ack now else s
  updated.1.1.foldl Session.dispatchWire s

-- `delivery.offer` with the feedback it asks for on its way out.
def Session.offer (cfg : Config) (s : Session Addr) (seq : ℕ) (payload : Bytes) (env : Env) :
    Bool × Session Addr :=
  let offered := s.delivery.offerObserved seq payload
  let s := { s with delivery := offered.2 }
  let s := if offered.1.fresh ∧ env.stalled then s.sendCumulativeACK cfg s.currentAck env else s
  let s := match offered.1.ack with
    | none => s
    | some ack => s.sendCumulativeACK cfg ack env
  (offered.1.ok, s)

def Session.moveTo (cfg : Config) (s : Session Addr) (remoteAddr : AddrPort Addr) (origPort : ℕ)
    (allowIPChange : Bool) (env : Env) : Session Addr :=
  { s with
    paths := (s.paths.updateRemoteAddr remoteAddr allowIPChange).setPath cfg.sendSockMax origPort
      remoteAddr env.now env.pathScan }.touch env.now

def Session.handleDataFromPath (cfg : Config) (s : Session Addr) (frame : UDPCFrame)
    (remoteAddr : AddrPort Addr) (origPort : ℕ) (env : Env) : Bool × Session Addr :=
  let s := { s with budget := s.budget.noteObservedPayload frame.data.length }
  let s := if 0 < frame.ack then s.handleAck frame.ack env.now else s
  let offered := s.offer cfg frame.seq frame.data env
  if offered.1 then (true, offered.2.moveTo cfg remoteAddr origPort true env) else (false, offered.2)

def recoveredFrame (cfg : Config) (src : SourceShard) : UDPCFrame :=
  { controlFrame cfg .data 0 src.payload with seq := src.seq }

def Session.deliverRecoveredFEC (cfg : Config) (s : Session Addr) (recovered : List SourceShard)
    (remoteAddr : AddrPort Addr) (origPort : ℕ) (env : Env) : Session Addr :=
  recovered.foldl
    (fun s src =>
      if src.seq = 0 then s
      else (s.handleDataFromPath cfg (recoveredFrame cfg src) remoteAddr origPort env).2)
    s

def Session.fecOnData (cfg : Config) (s : Session Addr) (frame : UDPCFrame) (env : Env) :
    List SourceShard × Session Addr :=
  match s.fecRecv with
  | none => ([], s)
  | some r =>
    let found := r.onData cfg.code frame.seq frame.data env.now env.blockScan env.blockEvict
    (found.1, { s with
      fecRecv := some found.2
      recvLoss := r.observeData cfg.code s.recvLoss frame.seq frame.data env.blockScan })

def Session.fecOnParity (cfg : Config) (s : Session Addr) (frame : UDPCFrame) (env : Env) :
    List SourceShard × Session Addr :=
  match s.fecRecv with
  | none => ([], s)
  | some r =>
    let found := r.onParityFrame cfg.code frame env.now env.blockEvict
    (found.1, { s with
      fecRecv := some found.2
      recvLoss := if found.1 = [] then s.recvLoss else s.recvLoss.observeOutcome true })

def Session.challenge (cfg : Config) (s : Session Addr) (remoteAddr : AddrPort Addr) (origPort : ℕ)
    (env : Env) : Session Addr :=
  let challenged := s.paths.sendPathChallenge remoteAddr env.now env.random env.evict
  let s := { s with paths := challenged.2 }
  match challenged.1 with
  | none => s
  | some token =>
    s.sendControl (controlFrame cfg .pathChallenge 0 token) ((origPort, remoteAddr), s.paths)

-- The commands of a client on a path that is already known.
def Session.dispatch (cfg : Config) (s : Session Addr) (frame : UDPCFrame)
    (remoteAddr : AddrPort Addr) (origPort : ℕ) (env : Env) : Session Addr :=
  match frame.cmd with
  | .sack => if s.flow.isSome then s.handleSACK frame env.now else s
  | .ping => s.reply (controlFrame cfg .pong s.currentAck []) env.pathScan
  | .fec =>
    let found := s.fecOnParity cfg frame env
    found.2.deliverRecoveredFEC cfg found.1 remoteAddr origPort env
  | .fin => s.close
  | .mtuProbe =>
    if cfg.mtuProbe then
      s.reply (controlFrame cfg .mtuProbeReply s.currentAck frame.data) env.pathScan
    else s
  | .mtuCommit =>
    { s with budget := s.budget.applyMtuCommit cfg.maxPkt (fieldAt frame.data 0 mtuCommitSize) }
  | _ => s

def Session.handleIncomingFrame (cfg : Config) (s : Session Addr) (frame : UDPCFrame)
    (remoteAddr : AddrPort Addr) (origPort : ℕ) (env : Env) : Bool × Session Addr :=
  if s.paths.sameRemoteIP remoteAddr = false then
    let accepted := s.paths.acceptPathResponse remoteAddr frame.data env.now
    if frame.cmd = .pathResponse ∧ accepted.1 then
      (true, { s with paths := accepted.2 }.moveTo cfg remoteAddr origPort true env)
    else (false, s.challenge cfg remoteAddr origPort env)
  else if frame.cmd = .data then
    let s := { s with budget := s.budget.openMtuGate }
    let found := s.fecOnData cfg frame env
    (found.2.deliverRecoveredFEC cfg found.1 remoteAddr origPort env).handleDataFromPath cfg frame
      remoteAddr origPort env
  else
    let s := s.moveTo cfg remoteAddr origPort false env
    let s := if 0 < frame.ack ∧ frame.cmd ≠ .sack then s.handleAck frame.ack env.now else s
    (true, s.dispatch cfg frame remoteAddr origPort env)

-- `processIncomingFrame` of a record that opens under the session's key.
def Session.processIncomingFrame (cfg : Config) (s : Session Addr) (frame : UDPCFrame)
    (remoteAddr : AddrPort Addr) (origPort : ℕ) (env : Env) : Bool × Session Addr :=
  if frame.cmd = .sack ∧ s.flow.isNone then (false, s)
  else if validSessionFrameShape frame = false then (false, s)
  else
    let seen := s.replayFilter.accept frame.packetNo
    let s := { s with replayFilter := seen.2 }
    if seen.1 = false then
      (false, if frame.cmd = .data then s.reackDuplicateData cfg env else s)
    else
      let s := if s.fecSend.isSome ∧ frame.flags &&& flagFecFeedback ≠ 0 then
          { s with adaptive := s.adaptive.observeRemoteBasisPoints frame.windowSize }
        else s
      let handled := s.handleIncomingFrame cfg frame remoteAddr origPort env
      if handled.1 then handled
      else if frame.cmd = .data then
        (false, { handled.2 with
          replayFilter := handled.2.replayFilter.remove frame.packetNo })
      else (false, handled.2)

-- The session `handleHandshake` registers for a SYN from `remoteAddr`.
def newSession (cfg : Config) (remoteAddr : AddrPort Addr) (origPort now : ℕ) : Session Addr where
  paths := (newPaths remoteAddr origPort).setPath cfg.sendSockMax origPort remoteAddr now []
  budget := .initial
  replayFilter := .new
  sendPacketNo := 0
  lastActive := now
  delivery := newOrderedDelivery (min cfg.maxRecvQueue (deliveryLimitFor cfg.wideWindow))
  ackCoalesce := .zero
  fecRecv := if cfg.fec then some (newFECReceiverExt cfg.fecExt) else none
  recvLoss := .zero
  fecSend := if cfg.fec then some (newFECSenderExt cfg.fecExt) else none
  adaptive := .zero
  sendSeq := 1
  outstanding := .new
    (if cfg.recovery then
      some (Flow.newSendFlow cfg.sendWindow cfg.autoWindow cfg.westwood cfg.wideWindow)
    else none)
  rttEst := newDefaultRTTEstimator
  queue := []
  closed := false
  sent := []

inductive Label (Addr : Type)
  | receive (frame : UDPCFrame) (remoteAddr : AddrPort Addr) (origPort : ℕ) (env : Env)
  | elsewhere (t : Session Addr)

-- Whatever the session's other goroutines do between two records. Addresses,
-- budget and replay filter belong to the receive path; a datagram sent may pick
-- another of the known ports.
def Session.elsewhere (s t : Session Addr) : Session Addr :=
  { t with
    paths := { s.paths with lastOrigPort := t.paths.lastOrigPort }
    budget := s.budget
    replayFilter := s.replayFilter }

def next (cfg : Config) (s : Session Addr) : Label Addr → Option (Session Addr)
  | .receive frame remoteAddr origPort env =>
    some (s.processIncomingFrame cfg frame remoteAddr origPort env).2
  | .elsewhere t => some (s.elsewhere t)

-- The runs of a session whose handshake came from `home`.
def system (cfg : Config) (home : AddrPort Addr) : System (Session Addr) (Label Addr) where
  init := fun s => ∃ origPort now, s = newSession cfg home origPort now
  next := next cfg

end UdpCustom.Server
