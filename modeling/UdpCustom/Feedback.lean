import UdpCustom.Coalesce
import UdpCustom.Delivery
import UdpCustom.Lib.Transition

-- The acknowledging side of one end: the delivery queue, the coalescer every
-- sending goroutine shares, and the feedback that leaves.
namespace UdpCustom.Feedback

open UdpCustom.Frame UdpCustom.Delivery UdpCustom.Coalesce Transition

structure State where
  delivery : OrderedDelivery
  -- the record the writer is handing to the application
  writing : Option ℕ
  coalesce : AckCoalescer
  now : ℕ
  closed : Bool
  -- history: values of `delivered` that goroutines have read for a record, and
  -- the Acks of the standalone feedback sent
  reads : List ℕ
  feedback : List ℕ

-- The Ack of the record `feedbackFrame` builds: a SACK takes its own snapshot.
def feedbackAck (recovery : Bool) (s : State) (ackSeq : ℕ) : ℕ :=
  if recovery then s.delivery.snapshot.ack else ackSeq

-- `sendACK` and `sendCumulativeACK`, with the Ack of the datagram emitted.
def sendACK (recovery : Bool) (srtt : ℕ) (s : State) (ackSeq : ℕ) : Option ℕ × State :=
  if s.closed then (none, s)
  else
    let snap := s.delivery.snapshot
    let ack := if recovery then snap.ack else ackSeq
    let urgent := recovery && decide (ackGapUrgent ≤ sackGaps snap.bitmap)
    let claimed := s.coalesce.claim ack (ackCoalesceInterval srtt) urgent s.now
    (if claimed.1 then some (feedbackAck recovery s ack) else none, { s with coalesce := claimed.2 })

def flushACK (recovery : Bool) (srtt : ℕ) (s : State) : Option ℕ × State :=
  if s.closed then (none, s)
  else
    let due := s.coalesce.flushDue (ackCoalesceInterval srtt) s.now
    (if due.1.1 = 0 then none else some (feedbackAck recovery s due.1.1),
      { s with coalesce := due.2 })

-- How a DATA record that was delivered before comes in again: rejected by the
-- replay window, or admitted and offered.
inductive Route
  | replayed
  | offered (seq : ℕ) (payload : Bytes)

def onDuplicate (recovery : Bool) (srtt : ℕ) (s : State) : Route → Option ℕ × State
  | .replayed =>
    if 0 < s.delivery.delivered then sendACK recovery srtt s s.delivery.delivered else (none, s)
  | .offered seq payload =>
    let offered := s.delivery.offerObserved seq payload
    match offered.1.ack with
    | none => (none, { s with delivery := offered.2 })
    | some ack => sendACK recovery srtt { s with delivery := offered.2 } ack

inductive Label
  | offer (seq : ℕ) (payload : Bytes)
  | startWrite
  | finishWrite
  | read
  -- a record carrying `ack` is on the wire
  | commitSent (ack : ℕ)
  -- a goroutine that took its snapshot earlier claims a datagram
  | claim (ack srtt : ℕ) (urgent : Bool)
  | flush (srtt : ℕ)
  | tick (d : ℕ)
  | close
  | closeDelivery

def next (recovery : Bool) (s : State) : Label → Option State
  | .offer seq payload =>
    let offered := s.delivery.offerObserved seq payload
    some { s with delivery := offered.2, reads := offered.1.ack.toList ++ s.reads }
  | .startWrite =>
    if s.writing = none ∧ s.delivery.head.isSome then
      some { s with writing := some (s.delivery.delivered + 1) }
    else none
  | .finishWrite =>
    match s.writing with
    | none => none
    | some seq =>
      some { s with delivery := s.delivery.complete seq, writing := none, reads := seq :: s.reads }
  | .read => some { s with reads := s.delivery.delivered :: s.reads }
  | .commitSent ack =>
    if ack ∈ s.reads then some { s with coalesce := s.coalesce.commitSent ack } else none
  | .claim ack srtt urgent =>
    if ack ∈ s.reads then
      let claimed := s.coalesce.claim ack (ackCoalesceInterval srtt) urgent s.now
      some { s with
        coalesce := claimed.2
        feedback := if claimed.1 then feedbackAck recovery s ack :: s.feedback else s.feedback }
    else none
  | .flush srtt =>
    let flushed := flushACK recovery srtt s
    some { flushed.2 with feedback := flushed.1.toList ++ s.feedback }
  | .tick d => some { s with now := s.now + d }
  | .close => some { s with closed := true }
  | .closeDelivery => if s.closed then some { s with delivery := s.delivery.close } else none

def initial (limit : ℕ) : State where
  delivery := newOrderedDelivery limit
  writing := none
  coalesce := .zero
  now := 0
  closed := false
  reads := []
  feedback := []

def system (recovery : Bool) (limit : ℕ) : System State Label where
  init := fun s => s = initial limit
  next := next recovery

-- The duplicate brings out feedback that acknowledges everything delivered, at
-- once or at the flush after `wait`.
def Reacked (recovery : Bool) (srtt srtt' wait : ℕ) (s : State) (route : Route) : Prop :=
  let first := onDuplicate recovery srtt s route
  let later := flushACK recovery srtt' { first.2 with now := first.2.now + wait }
  ∃ ack, (first.1 = some ack ∨ later.1 = some ack) ∧ s.delivery.delivered ≤ ack

end UdpCustom.Feedback
