import UdpCustom.Delivery
import UdpCustom.Lib.Transition

-- The delivery queue between the goroutines that offer records, those that take
-- snapshots, its own `run` loop and `close`, one critical section at a time.
namespace UdpCustom.Drain

open UdpCustom.Frame UdpCustom.Delivery Transition

-- The part of `offerObserved` that holds the lock; the token is sent after it.
def offerLocked (d : OrderedDelivery) (seq : ℕ) (payload : Bytes) : Offered × OrderedDelivery :=
  let offered := d.offerObserved seq payload
  (offered.1, { offered.2 with wake := d.wake })

def notify (d : OrderedDelivery) : OrderedDelivery :=
  { d with wake := true }

-- How far a call is that stored a record: it may have to report a stalled writer
-- before the token, and a gap after it.
inductive Stage
  | waking
  | returning
  deriving DecidableEq, Repr

structure OfferCall where
  seq : ℕ
  ack : Option ℕ
  stage : Stage
  deriving DecidableEq, Repr

-- Where the loop of `run` stands.
inductive Run
  | waiting
  | looking
  | checking (seq : ℕ) (payload : Bytes)
  | starting (seq : ℕ) (payload : Bytes)
  | writing (seq : ℕ)
  | written (seq : ℕ)
  | queueing
  | idling
  | failing
  | stopped
  deriving DecidableEq, Repr

-- Between the token and the idle hook.
def Run.draining : Run → Bool
  | looking | checking _ _ | starting _ _ | writing _ | written _ | queueing => true
  | waiting | idling | failing | stopped => false

structure State where
  queue : OrderedDelivery
  offers : List OfferCall
  run : Run
  done : Bool
  failed : Bool
  -- history: the records stored, the writes started, and how many of these after
  -- `close`
  stored : List (ℕ × Bytes)
  started : List (ℕ × Bytes)
  lateStarts : ℕ

inductive Label
  | offer (seq : ℕ) (payload : Bytes)
  | notify (c : OfferCall)
  | return (c : OfferCall)
  | snapshot
  | wakeUp
  | quit
  | look
  | check
  | start
  | finish (ok : Bool)
  | complete
  | queueAck
  | idle
  | fail
  | close
  | closeDone

def State.offer (s : State) (seq : ℕ) (payload : Bytes) : State :=
  let offered := offerLocked s.queue seq payload
  if offered.1.fresh then
    { s with
      queue := offered.2
      offers := { seq := seq, ack := offered.1.ack, stage := .waking } :: s.offers
      stored := s.stored ++ [(seq, payload)] }
  else { s with queue := offered.2 }

def next (s : State) : Label → Option State
  | .offer seq payload => some (s.offer seq payload)
  | .notify c =>
    if c ∈ s.offers ∧ c.stage = .waking then
      some { s with
        queue := notify s.queue
        offers := { c with stage := .returning } :: s.offers.erase c }
    else none
  | .return c =>
    if c ∈ s.offers ∧ c.stage = .returning then some { s with offers := s.offers.erase c } else none
  | .snapshot => some s
  | .wakeUp =>
    if s.run = .waiting ∧ s.queue.wake then
      some { s with run := .looking, queue := { s.queue with wake := false } }
    else none
  | .quit => if s.run = .waiting ∧ s.done then some { s with run := .stopped } else none
  | .look =>
    if s.run = .looking then
      match s.queue.head with
      | none => some { s with run := .idling }
      | some payload => some { s with run := .checking (s.queue.delivered + 1) payload }
    else none
  | .check =>
    match s.run with
    | .checking seq payload =>
      some { s with run := if s.done then .stopped else .starting seq payload }
    | _ => none
  | .start =>
    match s.run with
    | .starting seq payload =>
      some { s with
        run := .writing seq
        started := s.started ++ [(seq, payload)]
        lateStarts := if s.queue.closed then s.lateStarts + 1 else s.lateStarts }
    | _ => none
  | .finish ok =>
    match s.run with
    | .writing seq =>
      if ok then some { s with run := .written seq }
      else some { s with run := .failing, failed := true }
    | _ => none
  | .complete =>
    match s.run with
    | .written seq => some { s with run := .queueing, queue := s.queue.complete seq }
    | _ => none
  | .queueAck => if s.run = .queueing then some { s with run := .looking } else none
  | .idle => if s.run = .idling then some { s with run := .waiting } else none
  | .fail => if s.run = .failing then some { s with run := .stopped } else none
  | .close => some { s with queue := s.queue.close }
  | .closeDone => some { s with done := true }

def initial (limit : ℕ) : State where
  queue := newOrderedDelivery limit
  offers := []
  run := .waiting
  done := false
  failed := false
  stored := []
  started := []
  lateStarts := 0

def system (limit : ℕ) : System State Label where
  init := fun s => s = initial limit
  next := next

end UdpCustom.Drain
