import UdpCustom.Delivery
import UdpCustom.Lib.Transition

-- The target side of a server session: the writer goroutine, the buffered
-- writer in front of a TCP target, the teardown, and the Acks that leave
-- meanwhile from any goroutine.
namespace UdpCustom.Target

open UdpCustom.Frame UdpCustom.Delivery Transition

def upstreamWriteBuf : ℕ := 256 * 1024
def upstreamWriteFlush : ℕ := upstreamWriteBuf / 2

inductive Network
  | tcp
  | udp
  deriving DecidableEq, Repr

-- The target connection. `out` is what `Write` calls that succeeded have
-- taken; `failed` is the sticky error of the buffered writer.
structure Upstream where
  network : Network
  out : Bytes
  buffered : Bytes
  failed : Bool
  isOpen : Bool

-- How the connection answers a `Write`: it takes everything, or it fails after
-- `accepted` bytes. A closed connection takes nothing.
inductive WriteResult
  | done
  | failed (accepted : ℕ)
  deriving DecidableEq, Repr

def Upstream.takes (u : Upstream) (r : WriteResult) : Bool :=
  r = .done ∧ u.isOpen

-- `bufio.Writer.Flush`. A failure keeps the bytes that were not accepted.
def Upstream.flush (u : Upstream) (r : WriteResult) : Bool × Upstream :=
  if u.failed then (false, u)
  else if u.buffered = [] then (true, u)
  else if u.takes r then (true, { u with out := u.out ++ u.buffered, buffered := [] })
  else
    match r with
    | .done => (false, { u with failed := true })
    | .failed accepted => (false, { u with failed := true, buffered := u.buffered.drop accepted })

-- The write callback of a TCP target. A record always fits the buffer behind
-- what `upstreamWriteFlush` lets stay in it.
def Upstream.writeBuffered (u : Upstream) (p : Bytes) (r : WriteResult) : Bool × Upstream :=
  if u.failed then (false, u)
  else
    let u := { u with buffered := u.buffered ++ p }
    if upstreamWriteFlush ≤ u.buffered.length then u.flush r else (true, u)

def Upstream.writeToTarget (u : Upstream) (p : Bytes) (r : WriteResult) : Bool × Upstream :=
  if p = [] then (true, u)
  else if u.takes r then (true, { u with out := u.out ++ p })
  else (false, u)

def Upstream.write (u : Upstream) (p : Bytes) (r : WriteResult) : Bool × Upstream :=
  match u.network with
  | .tcp => u.writeBuffered p r
  | .udp => u.writeToTarget p r

-- The idle callback: only a TCP target has one.
def Upstream.idle (u : Upstream) (r : WriteResult) : Upstream :=
  match u.network with
  | .tcp => if u.buffered = [] then u else (u.flush r).2
  | .udp => u

-- `ServerSession.Close` in its order: the delivery queue, the close channel,
-- the connection.
inductive Teardown
  | running
  | deliveryClosed
  | doneClosed
  | upstreamClosed
  deriving DecidableEq, Repr

structure State where
  delivery : OrderedDelivery
  writer : Writer
  upstream : Upstream
  teardown : Teardown
  -- history: the payloads of the delivered records in order, the values of
  -- `delivered` some goroutine has read for an Ack, and each Ack sent with
  -- what the target had taken by then
  taken : List Bytes
  heldAcks : List ℕ
  sentAcks : List (ℕ × Bytes)

inductive Label
  | offer (seq : ℕ) (payload : Bytes)
  | wakeUp
  | drain
  | write (r : WriteResult)
  | complete
  | idle (r : WriteResult)
  | readAck
  | sendAck (n : ℕ)
  | teardown

def State.done (s : State) : Bool :=
  s.teardown = .doneClosed ∨ s.teardown = .upstreamClosed

def tearDown (s : State) : State :=
  match s.teardown with
  | .running => { s with teardown := .deliveryClosed, delivery := s.delivery.close }
  | .deliveryClosed => { s with teardown := .doneClosed }
  | .doneClosed | .upstreamClosed =>
    { s with teardown := .upstreamClosed, upstream := { s.upstream with isOpen := false } }

def writeStep (s : State) (seq : ℕ) (payload : Bytes) (r : WriteResult) : State :=
  let (ok, u) := s.upstream.write payload r
  { s with upstream := u, writer := if ok then .written seq payload else .stopped }

def next (s : State) : Label → Option State
  | .offer seq payload =>
    if payload.length ≤ udpcMaxData then
      some { s with delivery := (s.delivery.offerObserved seq payload).2 }
    else none
  | .wakeUp =>
    match s.writer with
    | .sleeping =>
      if s.done then some { s with writer := .stopped }
      else if s.delivery.wake then
        some { s with writer := .draining, delivery := { s.delivery with wake := false } }
      else none
    | _ => none
  | .drain =>
    match s.writer with
    | .draining => some { s with writer := Writer.drain s.delivery s.done }
    | _ => none
  | .write r =>
    match s.writer with
    | .writing seq payload => some (writeStep s seq payload r)
    | _ => none
  | .complete =>
    match s.writer with
    | .written seq payload =>
      some { s with
        delivery := s.delivery.complete seq
        taken := s.taken ++ [payload]
        writer := .draining }
    | _ => none
  | .idle r =>
    match s.writer with
    | .idling => some { s with upstream := s.upstream.idle r, writer := .sleeping }
    | _ => none
  | .readAck => some { s with heldAcks := s.delivery.delivered :: s.heldAcks }
  | .sendAck n =>
    if n ∈ s.heldAcks then some { s with sentAcks := (n, s.upstream.out) :: s.sentAcks } else none
  | .teardown => some (tearDown s)

def initial (network : Network) (limit : ℕ) : State where
  delivery := newOrderedDelivery limit
  writer := .sleeping
  upstream := { network := network, out := [], buffered := [], failed := false, isOpen := true }
  teardown := .running
  taken := []
  heldAcks := []
  sentAcks := []

def system (network : Network) (limit : ℕ) : System State Label where
  init := fun s => s = initial network limit
  next := next

-- The payload that is in the target's hands but not yet counted as delivered.
def State.inProgress (s : State) : Bytes :=
  match s.writer with
  | .written _ payload => payload
  | _ => []

-- An Ack value is read only while the buffered writer has had no failed flush
-- and holds no byte of a delivered record. A UDP target has no such buffer.
def ReadsFlushed (s : State) : Label → Prop
  | .readAck =>
    s.upstream.network = .udp ∨
      (s.upstream.failed = false ∧ s.upstream.buffered.length ≤ s.inProgress.length)
  | _ => True

instance (s : State) (l : Label) : Decidable (ReadsFlushed s l) := by
  cases l <;> unfold ReadsFlushed <;> infer_instance

end UdpCustom.Target
