import UdpCustom.Lib.Transition
import Mathlib.Data.Finset.Basic
import Mathlib.Data.Option.Basic
import Mathlib.Data.Finset.Option

-- The connection wrapper that dials again, under any number of goroutines. One step is
-- one section under `mu`, one dial, or one operation of the inner connection; `dialMu`
-- is held from the first section of `ensure` to its last.
namespace UdpCustom.Reconnect

open Transition

-- Nanoseconds.
def reconnectBackoffBase : ℕ := 2 * 10 ^ 9

def reconnectBackoffMax : ℕ := 30 * 10 ^ 9

-- The wait after the given number of failed dials.
def backoff (dialFails : ℕ) : ℕ :=
  min (reconnectBackoffBase * 2 ^ min (dialFails - 1) 4) reconnectBackoffMax

inductive Op
  | read
  | write
  | close
  | setDeadline (t : Option ℕ)
  | setReadDeadline (t : Option ℕ)
  | setWriteDeadline (t : Option ℕ)
  deriving DecidableEq

-- What a call returns; `closed` is ErrClosed.
inductive Result (ε : Type)
  | ok (n : ℕ)
  | closed
  | throttled (wait : ℕ) (cause : Option ε)
  | dialFailed (cause : ε)
  | failed (n : ℕ) (cause : ε)
  deriving DecidableEq

-- Where a call is. Connections are numbered in the order they are dialed.
inductive Place (ε : Type)
  | ensure
  | dial (isReconnect : Bool)
  | dialFailed (cause : ε)
  | adopt (c : ℕ) (isReconnect : Bool)
  | io (c : ℕ)
  | drop (c n : ℕ) (cause : ε)
  | close
  | closeConn (c : ℕ)
  | deadline
  | done (result : Result ε)
  deriving DecidableEq

def Place.holdsDialMu {ε : Type} : Place ε → Bool
  | .dial _ | .dialFailed _ | .adopt _ _ => true
  | _ => false

-- The connection a call in progress has in its hands.
def Place.conn {ε : Type} : Place ε → Option ℕ
  | .adopt c _ | .io c | .drop c _ _ | .closeConn c => some c
  | _ => none

structure Call (ε : Type) where
  op : Op
  place : Place ε
  deriving DecidableEq

structure State (ε : Type) where
  conn : Option ℕ
  closed : Bool
  needsRestart : Bool
  reconnectAttempts : ℕ
  restarts : ℕ
  -- a zero time is no deadline and no throttle
  readDeadline : Option ℕ
  writeDeadline : Option ℕ
  dialFails : ℕ
  nextDialAt : Option ℕ
  lastDialErr : Option ε
  now : ℕ
  calls : List (Call ε)
  -- the connections dialed and not closed yet
  opened : Finset ℕ
  -- history: for each connection, whether the wrapper was closed when its dial returned,
  -- and those that some operation has used
  dialed : List Bool
  used : Finset ℕ

def init {ε : Type} : State ε where
  conn := none
  closed := false
  needsRestart := false
  reconnectAttempts := 0
  restarts := 0
  readDeadline := none
  writeDeadline := none
  dialFails := 0
  nextDialAt := none
  lastDialErr := none
  now := 0
  calls := []
  opened := ∅
  dialed := []
  used := ∅

variable {ε : Type}

def State.dialFree (s : State ε) : Prop :=
  ∀ call ∈ s.calls, call.place.holdsDialMu = false

instance (s : State ε) : Decidable s.dialFree :=
  inferInstanceAs (Decidable (∀ call ∈ s.calls, call.place.holdsDialMu = false))

def State.shut (s : State ε) (c : ℕ) : State ε :=
  { s with opened := s.opened.erase c }

def State.use (s : State ε) (c : ℕ) : State ε :=
  { s with used := insert c s.used }

-- How long a dial is still refused after a failed one.
def State.throttle (s : State ε) : ℕ :=
  s.nextDialAt.elim 0 (· - s.now)

-- The first section of `ensure`.
def State.ensure (s : State ε) : State ε × Place ε :=
  if s.closed then (s, .done .closed)
  else
    match s.conn with
    | some c => (s, .io c)
    | none =>
        if 0 < s.throttle then (s, .done (.throttled s.throttle s.lastDialErr))
        else if s.needsRestart then
          ({ s with reconnectAttempts := s.reconnectAttempts + 1 }, .dial true)
        else (s, .dial false)

def State.dialSucceeds (s : State ε) (isReconnect : Bool) : State ε × Place ε :=
  ({ s with opened := insert s.dialed.length s.opened, dialed := s.dialed ++ [s.closed] },
    .adopt s.dialed.length isReconnect)

def State.dialFailed (s : State ε) (cause : ε) : State ε :=
  { s with
    dialFails := s.dialFails + 1
    nextDialAt := some (s.now + backoff (s.dialFails + 1))
    lastDialErr := some cause }

-- The last section of `ensure`: the deadlines, if any, are set on the new connection.
def State.adopt (s : State ε) (c : ℕ) (isReconnect : Bool) : State ε :=
  let s := if s.readDeadline = none ∧ s.writeDeadline = none then s else s.use c
  let s := { s with conn := some c, dialFails := 0, nextDialAt := none, lastDialErr := none }
  if isReconnect then
    { s with restarts := s.restarts + 1, needsRestart := false, reconnectAttempts := 0 }
  else s

def State.drop (s : State ε) (c : ℕ) : State ε :=
  if s.conn = some c then { s with conn := none, needsRestart := true }.shut c else s.shut c

def State.close (s : State ε) : State ε × Place ε :=
  if s.closed then (s, .done (.ok 0))
  else
    ({ s with closed := true, conn := none },
      match s.conn with
      | some c => .closeConn c
      | none => .done (.ok 0))

-- The inner connection's own deadline follows, if there is one.
def State.setDeadlines (s : State ε) : Op → State ε
  | .setDeadline t => { s with readDeadline := t, writeDeadline := t }
  | .setReadDeadline t => { s with readDeadline := t }
  | .setWriteDeadline t => { s with writeDeadline := t }
  | _ => s

def Result.inner (n : ℕ) : Option ε → Result ε
  | none => .ok n
  | some cause => .failed n cause

-- What the environment decides in a step.
inductive Choice (ε : Type)
  | go
  | dialed (err : Option ε)
  | inner (n : ℕ) (err : Option ε)
  deriving DecidableEq

def act (s : State ε) (op : Op) : Place ε → Choice ε → Option (State ε × Place ε)
  | .ensure, .go => if s.dialFree then some s.ensure else none
  | .dial isReconnect, .dialed none => some (s.dialSucceeds isReconnect)
  | .dial _, .dialed (some cause) => some (s, .dialFailed cause)
  | .dialFailed cause, .go => some (s.dialFailed cause, .done (.dialFailed cause))
  | .adopt c isReconnect, .go =>
      if s.closed then some (s.shut c, .done .closed) else some (s.adopt c isReconnect, .io c)
  | .io c, .inner n none => some (s.use c, .done (.ok n))
  | .io c, .inner n (some cause) => some (s.use c, .drop c n cause)
  | .drop c n cause, .go => some (s.drop c, .done (.failed n cause))
  | .close, .go => some s.close
  | .closeConn c, .inner n err => some (s.shut c, .done (.inner n err))
  | .deadline, .inner n err =>
      match s.conn with
      | some c => some ((s.setDeadlines op).use c, .done (.inner n err))
      | none => some (s.setDeadlines op, .done (.ok 0))
  | _, _ => none

def Op.place : Op → Place ε
  | .read | .write => .ensure
  | .close => .close
  | _ => .deadline

inductive Label (ε : Type)
  | call (op : Op)
  | run (i : ℕ) (choice : Choice ε)
  | tick (d : ℕ)
  deriving DecidableEq

def State.move (s : State ε) (i : ℕ) (call : Call ε) : State ε :=
  { s with calls := s.calls.set i call }

def next (s : State ε) : Label ε → Option (State ε)
  | .call op => some { s with calls := s.calls ++ [⟨op, op.place⟩] }
  | .run i choice =>
      match s.calls[i]? with
      | none => none
      | some call => (act s call.op call.place choice).map fun r => r.1.move i { call with place := r.2 }
  | .tick d => some { s with now := s.now + d }

def system (ε : Type) : System (State ε) (Label ε) where
  init := (· = init)
  next := next

def Call.Returned (call : Call ε) : Prop :=
  ∃ result, call.place = .done result

-- No call is in progress.
def State.Idle (s : State ε) : Prop :=
  ∀ call ∈ s.calls, call.Returned

end UdpCustom.Reconnect
