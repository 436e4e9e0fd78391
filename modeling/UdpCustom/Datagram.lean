import UdpCustom.Budget
import UdpCustom.ChunkPipe
import UdpCustom.Link
import UdpCustom.Uplink

-- A session with a UDP target, from the application's connection to the target's
-- socket and back.
namespace UdpCustom.Datagram

open UdpCustom.Frame UdpCustom.Mtu UdpCustom.Budget UdpCustom.ChunkPipe Transition
open UdpCustom.Sender (Config)

-- The steps of a session beside the pump that calls `sendRecord`.
def besidePump : Link.Label → Bool
  | .send (.call _) => false
  | _ => true

namespace Up

structure State where
  -- the part of the application's `Write` that is not queued yet
  writing : Bytes
  pipe : ChunkDir
  pipeClosed : Bool
  -- the accumulator of `localToRemote`, and what is left of the payload its
  -- `sendData` is cutting
  acc : Bytes
  flushing : Bytes
  pumpDone : Bool
  sendCap : SendCap
  link : Link.State
  -- history: the application's `Write`s
  writes : List Bytes

inductive Label
  | write (b : Bytes)
  | push
  | closePipe
  | read
  | timeout
  | sendRecord
  | pumpEnds
  | setCap (c : SendCap)
  | link (l : Link.Label)

-- The pump is in neither of its calls to `sendRecord`.
def State.pumping (s : State) : Bool :=
  s.pumpDone = false ∧ s.link.sender.pump = .idle

def State.gather (cfg : Config) (s : State) (got : Bytes) : State :=
  let acc := s.acc ++ got
  if s.sendCap.maxPayload cfg.fec ≤ acc.length then { s with acc := [], flushing := acc }
  else { s with acc := acc }

def next (cfg : Config) (s : State) : Label → Option State
  | .write b =>
    if s.writing = [] ∧ s.pipeClosed = false ∧ b ≠ [] ∧ b.length ≤ s.sendCap.maxPayload cfg.fec then
      some { s with writing := b, writes := s.writes ++ [b] }
    else none
  | .push =>
    if s.writing ≠ [] ∧ s.pipeClosed = false ∧ s.pipe.bytes < chunkPipeBuffer then
      some { s with pipe := s.pipe.push s.writing, writing := s.writing.drop chunkPipeChunk }
    else none
  | .closePipe => some { s with pipeClosed := true }
  | .read =>
    let taken := s.pipe.take (Uplink.bufSize - s.acc.length)
    if s.pumping ∧ s.flushing = [] ∧ taken.1 ≠ [] then
      some ({ s with pipe := taken.2 }.gather cfg taken.1)
    else none
  | .timeout =>
    -- also with a chunk queued: `Read` does not look again after its sleep
    if s.pumping ∧ s.flushing = [] then some { s with acc := [], flushing := s.acc } else none
  | .sendRecord =>
    if s.pumping ∧ s.flushing ≠ [] then
      let n := s.sendCap.maxPayload cfg.fec
      (Link.next cfg s.link (.send (.call (s.flushing.take n)))).map fun link =>
        { s with link := link, flushing := s.flushing.drop n }
    else none
  | .pumpEnds =>
    if s.pumping ∧ (s.link.sender.closed ∨ s.pipeClosed ∧ s.pipe.chunks = [] ∧ s.flushing = []) then
      some { s with pumpDone := true }
    else none
  | .setCap c => some { s with sendCap := c }
  | .link l =>
    if besidePump l then (Link.next cfg s.link l).map fun link => { s with link := link } else none

def initial (cfg : Config) (cap : SendCap) : State where
  writing := []
  pipe := .empty
  pipeClosed := false
  acc := []
  flushing := []
  pumpDone := false
  sendCap := cap
  link := Link.initial cfg
  writes := []

-- `writeToTarget` of a UDP target: one `Write` on its socket for each record that
-- is not empty.
def State.datagrams (s : State) : List Bytes :=
  s.link.receiver.written.filter (· ≠ [])

-- Nothing of a `Write` is on its way.
structure State.Quiet (s : State) : Prop where
  writing : s.writing = []
  pipe : s.pipe.chunks = []
  acc : s.acc = []
  flushing : s.flushing = []
  link : s.link.receiver.written.length = s.link.sender.passed.length

-- The pump reads one `Write` at a time, and the cap does not fall below it before
-- it is sent.
def Apart (cfg : Config) (s : State) : Label → Prop
  | .read => s.acc = [] ∧ (s.pipe.chunks.tail = [] ∨
      ∃ chunk ∈ s.pipe.chunks.head?, chunk.length = Uplink.bufSize)
  | .sendRecord => s.flushing.length ≤ s.sendCap.maxPayload cfg.fec
  | _ => True

end Up

namespace Down

structure State where
  -- what is left of the datagram `sendData` is sending
  flushing : Bytes
  pumpDone : Bool
  budget : FrameBudget
  link : Link.State
  pipe : ChunkDir
  pipeClosed : Bool
  -- history: the target's datagrams within the budget, and what the application's
  -- `Read`s returned
  arrived : List Bytes
  reads : List Bytes

inductive Label
  | datagram (d : Bytes)
  | sendRecord
  | pumpEnds
  | applyMtuCommit (n : ℤ)
  | noteObservedPayload (n : ℕ)
  | closePipe
  | link (l : Link.Label)
  | read (n : ℕ)

def State.pumping (s : State) : Bool :=
  s.pumpDone = false ∧ s.link.sender.pump = .idle

def State.maxPayload (cfg : Config) (limit : SendCap) (s : State) : ℕ :=
  (s.budget.maxPayload limit cfg.fec).toNat

-- One turn of `upstreamToUdpLoop`, up to the records of `sendData`: a read that
-- fills the buffer is truncated, `forwardUpstream` drops what is over the budget,
-- and an empty datagram is not forwarded.
def State.upstreamRead (cfg : Config) (limit : SendCap) (s : State) (d : Bytes) : State :=
  if (effectivePayloadCap limit.size).toNat + 1 ≤ d.length then s
  else if s.maxPayload cfg limit < d.length then s
  else { s with flushing := d, arrived := s.arrived ++ [d] }

-- The client's `writeAll` on its end of the pipe: it waits for space, and fails
-- once the pipe is closed.
def State.writable (s : State) : Link.Label → Bool
  | .recv (.write true) => s.pipeClosed = false ∧ s.pipe.bytes < chunkPipeBuffer
  | .recv (.write false) => s.pipeClosed
  | _ => true

def State.queued (s : State) : Link.Label → ChunkDir
  | .recv (.write true) =>
    match s.link.receiver.writer with
    | .writing _ payload => s.pipe.push payload
    | _ => s.pipe
  | _ => s.pipe

def next (cfg : Config) (limit : SendCap) (s : State) : Label → Option State
  | .datagram d =>
    if s.pumping ∧ s.flushing = [] then some (s.upstreamRead cfg limit d) else none
  | .sendRecord =>
    if s.pumping ∧ s.flushing ≠ [] then
      let n := s.maxPayload cfg limit
      (Link.next cfg s.link (.send (.call (s.flushing.take n)))).map fun link =>
        { s with link := link, flushing := s.flushing.drop n }
    else none
  | .pumpEnds =>
    if s.pumping ∧ s.link.sender.closed then some { s with pumpDone := true } else none
  | .applyMtuCommit n => some { s with budget := s.budget.applyMtuCommit limit n }
  | .noteObservedPayload n => some { s with budget := s.budget.noteObservedPayload n }
  | .closePipe => some { s with pipeClosed := true }
  | .link l =>
    if besidePump l ∧ s.writable l then
      (Link.next cfg s.link l).map fun link => { s with link := link, pipe := s.queued l }
    else none
  | .read n =>
    let taken := s.pipe.take n
    if taken.1 ≠ [] then some { s with pipe := taken.2, reads := s.reads ++ [taken.1] } else none

def initial (cfg : Config) : State where
  flushing := []
  pumpDone := false
  budget := .initial
  link := Link.initial cfg
  pipe := .empty
  pipeClosed := false
  arrived := []
  reads := []

-- Nothing of a datagram is on its way, and the client's writer has not failed.
structure State.Quiet (s : State) : Prop where
  flushing : s.flushing = []
  link : s.link.receiver.written.length = s.link.sender.passed.length
  writer : s.link.receiver.writer ≠ .stopped
  pipe : s.pipe.chunks = []

-- The target's datagrams are not empty, the budget does not fall below one before
-- it is sent, and the application reads one at a time with room for it.
def Apart (cfg : Config) (limit : SendCap) (s : State) : Label → Prop
  | .datagram d => d ≠ []
  | .sendRecord => s.flushing.length ≤ s.maxPayload cfg limit
  | .read n => ∀ chunk ∈ s.pipe.chunks.head?,
      chunk.length ≤ n ∧ (s.pipe.chunks.tail = [] ∨ chunk.length = n)
  | _ => True

end Down

-- Both directions of one session, each with its own counters and window.
structure Session where
  up : Sender.Config
  down : Sender.Config
  -- where the client's cap starts, and what the server is configured for
  startCap : SendCap
  limit : SendCap

structure State where
  up : Up.State
  down : Down.State

inductive Label
  | up (l : Up.Label)
  | down (l : Down.Label)

def next (ses : Session) (s : State) : Label → Option State
  | .up l => (Up.next ses.up s.up l).map fun up => { s with up := up }
  | .down l => (Down.next ses.down ses.limit s.down l).map fun down => { s with down := down }

def system (ses : Session) : System State Label where
  init := fun s => s = { up := Up.initial ses.up ses.startCap, down := Down.initial ses.down }
  next := next ses

def Apart (ses : Session) (s : State) : Label → Prop
  | .up l => Up.Apart ses.up s.up l
  | .down l => Down.Apart ses.down ses.limit s.down l

end UdpCustom.Datagram
