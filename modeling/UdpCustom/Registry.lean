import UdpCustom.Lib.Transition
import Mathlib.Data.Finset.Basic

-- The sessions of a server under any number of goroutines: `handleHandshake` from its
-- check of the session cap on, `ServerSession.Close` and `Server.Close`. A session and its
-- upstream go by the number of the goroutine whose handshake makes them.
namespace UdpCustom.Registry

open Transition Function

inductive Once
  | idle
  | running (t : ℕ)
  | done
  deriving DecidableEq

-- What is left of the body of `closeOnce`, with what the swap of `registered` has found.
inductive CloseStep
  | swap
  | uncount
  | stop (wasRegistered : Bool)
  | leave (wasRegistered : Bool)
  deriving DecidableEq

-- Where Close returns to: its caller, or the Range of Server.Close with the sessions that
-- it still has to meet, as far as they stay in the map.
inductive After
  | back
  | sweep (due : Finset ℕ)
  deriving DecidableEq

inductive Place
  | admission
  | draw
  | dial
  | recheck
  | store
  | confirm
  | register
  | count
  | established
  | enter (i : ℕ) (after : After)
  | body (i : ℕ) (step : CloseStep) (after : After)
  | shutdown
  | range
  | sweep (due : Finset ℕ)
  | done
  deriving DecidableEq

def After.due : After → Finset ℕ
  | .back => ∅
  | .sweep due => due

def After.place : After → Place
  | .back => .done
  | .sweep due => .sweep due

structure Server where
  closed : Bool
  -- history: the goroutine whose Server.Close was the first
  closer : ℕ
  -- the map, as the sessions it has under their numbers, and all it ever had
  sessions : Finset ℕ
  stored : Finset ℕ
  liveSessions : ℤ
  sessionID : ℕ → ℕ
  registered : ℕ → Bool
  closeOnce : ℕ → Once
  upstream : ℕ → Bool

def newServer : Server where
  closed := false
  closer := 0
  sessions := ∅
  stored := ∅
  liveSessions := 0
  sessionID _ := 0
  registered _ := false
  closeOnce _ := .idle
  upstream _ := false

abbrev Server.taken (s : Server) (sessionID : ℕ) : Prop :=
  ∃ i ∈ s.sessions, s.sessionID i = sessionID

abbrev Server.hangUp (s : Server) (i : ℕ) : Server :=
  { s with upstream := update s.upstream i false }

-- What the environment decides in a step.
inductive Choice
  | go
  | fail
  | drew (sessionID : ℕ)
  | meet (i : ℕ)

def act (maxSessions : ℤ) (s : Server) (t : ℕ) : Place → Choice → Option (Server × Place)
  | .admission, .go =>
      some (s, if 0 < maxSessions ∧ maxSessions ≤ s.liveSessions then .done else .draw)
  | .draw, .drew sessionID =>
      some (if sessionID ≠ 0 ∧ ¬s.taken sessionID then
        ({ s with sessionID := update s.sessionID t sessionID }, .dial) else (s, .draw))
  | .draw, .fail => some (s, .done)
  | .dial, .go => some ({ s with upstream := update s.upstream t true }, .recheck)
  | .dial, .fail => some (s, .done)
  | .recheck, .go => some (if s.closed then (s.hangUp t, .done) else (s, .store))
  | .recheck, .fail => some (s.hangUp t, .done)
  | .store, .go =>
      some (if s.taken (s.sessionID t) then (s.hangUp t, .enter t .back)
        else ({ s with sessions := insert t s.sessions, stored := insert t s.stored }, .confirm))
  | .confirm, .go => some (if s.closed then (s.hangUp t, .enter t .back) else (s, .register))
  | .register, .go => some ({ s with registered := update s.registered t true }, .count)
  | .count, .go => some ({ s with liveSessions := s.liveSessions + 1 }, .established)
  | .enter i after, .go =>
      match s.closeOnce i with
      | .idle => some ({ s with closeOnce := update s.closeOnce i (.running t) }, .body i .swap after)
      | .running _ => none
      | .done => some (s, after.place)
  | .body i .swap after, .go =>
      some ({ s with registered := update s.registered i false },
        .body i (if s.registered i then .uncount else .stop false) after)
  | .body i .uncount after, .go =>
      some ({ s with liveSessions := s.liveSessions - 1 }, .body i (.stop true) after)
  | .body i (.stop b) after, .go => some (s.hangUp i, .body i (.leave b) after)
  | .body i (.leave true) after, .go =>
      some ({ s with
        sessions := s.sessions.filter fun j => s.sessionID j ≠ s.sessionID i
        closeOnce := update s.closeOnce i .done }, after.place)
  | .body i (.leave false) after, .go =>
      some ({ s with closeOnce := update s.closeOnce i .done }, after.place)
  | .shutdown, .go => some (if s.closed then (s, .done) else ({ s with closed := true, closer := t }, .range))
  | .range, .go => some (s, .sweep s.sessions)
  | .sweep due, .meet i => if i ∈ s.stored then some (s, .enter i (.sweep (due.erase i))) else none
  | .sweep due, .go => if ∀ i ∈ due, i ∉ s.sessions then some (s, .done) else none
  | _, _ => none

-- Where a goroutine may start: a handshake, Server.Close, or the Close of a session by
-- whoever came to it through the map.
def Server.calls (s : Server) : Place → Bool
  | .admission | .shutdown => true
  | .enter i .back => i ∈ s.stored
  | _ => false

inductive Label
  | call (pl : Place)
  | run (t : ℕ) (choice : Choice)

-- The server and its goroutines, numbered as they start.
structure State where
  server : Server
  tasks : ℕ → Place
  calls : ℕ

def next (maxSessions : ℤ) (s : State) : Label → Option State
  | .call pl =>
      if s.server.calls pl then
        some { s with tasks := update s.tasks s.calls pl, calls := s.calls + 1 }
      else none
  | .run t choice =>
      if t < s.calls then
        (act maxSessions s.server t (s.tasks t) choice).map fun r =>
          { s with server := r.1, tasks := update s.tasks t r.2 }
      else none

def system (maxSessions : ℤ) : System State Label where
  init s := s = ⟨newServer, fun _ => .done, 0⟩
  next := next maxSessions

-- No call is in progress.
abbrev State.Idle (s : State) : Prop :=
  ∀ t < s.calls, s.tasks t = .done ∨ s.tasks t = .established

end UdpCustom.Registry
