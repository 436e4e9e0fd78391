import UdpCustom.Lib.Execution
import UdpCustom.Link

-- The server's side of a TCP target: the pump that reads the target's stream and
-- ships it to the client, until the target ends it. The client keeps its session
-- open, and its application takes what it is given.
namespace UdpCustom.Downstream

open UdpCustom.Frame Transition
open UdpCustom.Sender (Config)

def upstreamReadBuf : ℕ := 64 * 1024

structure State where
  link : Link.State
  -- what the target has still to send, and what is left of the last read
  unread : Bytes
  chunk : Bytes
  -- whether `upstreamToUdpLoop`, `transmitQueue.run` and `retransmitLoop` have
  -- returned
  pumpDone : Bool
  runDone : Bool
  retransmitDone : Bool

inductive Label
  | read (n : ℕ)
  | sendRecord (maxPayload : ℕ)
  | sendFailed
  | eof
  | pumpClosed
  | runClosed
  | retransmitClosed
  | link (l : Link.Label)

-- The steps of both ends that go on beside the pump.
def State.allows (s : State) : Link.Label → Bool
  | .send (.call _) | .send .close => false
  | .send .gather | .send .transmit | .send (.markTransmitted _) => !s.runDone
  | .send (.retryDue ..) => !s.retransmitDone
  | .send _ => true
  | .recv l => l.keepsOpen

-- The pump is at the top of its loop or of the one in `sendData`.
def State.pumping (s : State) : Bool :=
  s.pumpDone = false ∧ s.link.sender.pump = .idle

-- `Close` marks the session closed and closes its channel; the goroutines that
-- wait on it return at their own time, and it sends nothing.
def next (cfg : Config) (s : State) : Label → Option State
  | .read n =>
    if s.pumping ∧ s.link.sender.closed = false ∧ s.chunk = [] ∧ 0 < n ∧ n ≤ upstreamReadBuf ∧
        n ≤ s.unread.length then
      some { s with chunk := s.unread.take n, unread := s.unread.drop n }
    else none
  | .sendRecord maxPayload =>
    if s.pumping ∧ s.chunk ≠ [] ∧ 0 < maxPayload then
      (Link.next cfg s.link (.send (.call (s.chunk.take maxPayload)))).map fun link =>
        { s with link := link, chunk := s.chunk.drop maxPayload }
    else none
  | .sendFailed =>
    -- every error of `sendRecord` means that the session is closed
    if s.pumping ∧ s.link.sender.closed then some { s with chunk := [] } else none
  | .eof =>
    if s.pumping ∧ s.link.sender.closed = false ∧ s.chunk = [] ∧ s.unread = [] then
      (Link.next cfg s.link (.send .close)).map fun link => { s with link := link, pumpDone := true }
    else none
  | .pumpClosed =>
    if s.pumping ∧ s.link.sender.closed ∧ s.chunk = [] then some { s with pumpDone := true } else none
  | .runClosed =>
    if s.link.sender.closed ∧ s.link.sender.batchSent = false then some { s with runDone := true }
    else none
  | .retransmitClosed =>
    if s.link.sender.closed then some { s with retransmitDone := true } else none
  | .link l =>
    if s.allows l then (Link.next cfg s.link l).map fun link => { s with link := link } else none

def initial (cfg : Config) (stream : Bytes) : State where
  link := Link.initial cfg
  unread := stream
  chunk := []
  pumpDone := false
  runDone := false
  retransmitDone := false

def system (cfg : Config) (stream : Bytes) : System State Label where
  init := fun s => s = initial cfg stream
  next := next cfg

-- The steps of the client's writer, and whether it has one to take.
def Label.ofWriter : Label → Bool
  | .link (.recv l) => l.ofWriter
  | _ => false

def State.writerReady (s : State) : Bool :=
  match s.link.receiver.writer with
  | .sleeping => s.link.receiver.delivery.wake
  | .stopped => false
  | _ => true

-- The DATA records a step hands to the socket.
def State.transmits (s : State) (l : Label) (seq : ℕ) : Prop :=
  l = .link (.send .transmit) ∧ ∃ f ∈ s.link.sender.batch, f.cmd = .data ∧ f.seq = seq

def Label.receives (l : Label) (seq : ℕ) : Prop :=
  ∃ f, l = .link (.recv (.receive f)) ∧ f.cmd = .data ∧ f.seq = seq

structure Fair {cfg : Config} {stream : Bytes} (ρ : Execution (system cfg stream)) : Prop where
  -- the client's writer is scheduled
  writer : ∀ i, ∃ j, i ≤ j ∧ ((ρ.label j).ofWriter = true ∨ (ρ.state j).writerReady = false)
  -- the client acknowledges what it has
  acks : ∀ i, ∃ j, i ≤ j ∧ ∃ cmd,
    ρ.label j = .link (.recv (.sendAck (ρ.state j).link.receiver.delivery.snapshot cmd))
  -- the network lets through some of what is sent again and again
  network : ∀ seq, (∀ i, ∃ j, i ≤ j ∧ (ρ.state j).transmits (ρ.label j) seq) →
    ∀ i, ∃ j, i ≤ j ∧ (ρ.label j).receives seq
  -- a closed channel is noticed
  closed : ∀ i, (ρ.state i).link.sender.closed = true →
    ∃ j, i ≤ j ∧ (ρ.state j).runDone = true ∧ (ρ.state j).retransmitDone = true

-- Every record sent so far is in the client's delivery queue or was delivered.
def State.AllIn (s : State) : Prop :=
  ∀ seq, 0 < seq → seq ≤ s.link.sender.passed.length →
    seq ≤ s.link.receiver.delivery.delivered ∨ seq ∈ s.link.receiver.delivery.pending

end UdpCustom.Downstream
