import UdpCustom.Lib.Transition
import UdpCustom.Replay
import UdpCustom.Seal

-- The receive boundary of one process: every wire an adversary delivers, the
-- sessions it may be dispatched to, and the goroutines between the check of
-- the replay window and the end of the handler.
namespace UdpCustom.Receive

open UdpCustom.Frame UdpCustom.Seal UdpCustom.Replay Transition

inductive Role
  | client
  | server
  deriving DecidableEq, Repr

def Role.inbound : Role → Direction
  | client => .toClient
  | server => .toServer

-- Where a receive goroutine stands with the frame it holds.
inductive Phase
  | opened
  | accepted
  | refused
  deriving DecidableEq, Repr

structure Task (Session : Type) where
  session : Session
  frame : UDPCFrame
  phase : Phase
  deriving DecidableEq

structure State (Session : Type) where
  sealedLog : List (Sealed Session)
  sessions : ℕ → Option Session
  replayFilter : Session → ReplayFilter
  tasks : List (Task Session)
  -- history: frames re-acknowledged as duplicates, frames handed to the
  -- command switch, and DATA the handler kept
  reacked : List (Session × UDPCFrame)
  processed : List (Session × UDPCFrame)
  admitted : List (Session × UDPCFrame)

inductive Label (Session : Type)
  | sealRecord (r : Sealed Session)
  | store (sid : ℕ) (session : Option Session)
  | receive (wire : Bytes)
  | accept (t : Task Session)
  | handle (t : Task Session) (kept : Bool)
  | remove (t : Task Session)

structure Config (Session Key : Type) where
  aead : Aead Key
  keys : KeySchedule Session Key
  role : Role
  magic : ℕ
  -- whether the session negotiated recovery
  flow : Session → Bool

variable {Session Key : Type} [DecidableEq Session] [DecidableEq Key]

-- `Client.dispatch` and `processIncomingFrame` up to the replay window. A
-- handshake reply is the client's own business before any session is looked up.
def inspect (cfg : Config Session Key) (s : State Session) (wire : Bytes) :
    Option (Session × UDPCFrame) := do
  let frame ← (parseUDPCFrame wire cfg.magic).toOption
  guard ¬(cfg.role = .client ∧ frame.cmd = .handshakeAck)
  guard ¬(cfg.role = .server ∧ frame.cmd = .handshakeSyn)
  let session ← s.sessions frame.sessionID
  guard ¬(frame.cmd = .sack ∧ cfg.flow session = false)
  guard (validSessionFrameShape frame = true)
  let plaintext ← openFrameAEAD cfg.aead cfg.keys s.sealedLog
    (cfg.keys.key session cfg.role.inbound) frame wire
  return (session, { frame with data := plaintext })

def setFilter (s : State Session) (session : Session) (rf : ReplayFilter) : State Session :=
  { s with replayFilter := fun x => if x = session then rf else s.replayFilter x }

-- `replayFilter.Accept`, and what its answer decides.
def acceptTask (s : State Session) (t : Task Session) : State Session :=
  let (fresh, rf) := (s.replayFilter t.session).accept t.frame.packetNo
  let s := setFilter { s with tasks := s.tasks.erase t } t.session rf
  if fresh then
    { s with
      tasks := { t with phase := .accepted } :: s.tasks
      processed := (t.session, t.frame) :: s.processed }
  else if t.frame.cmd = .data then
    { s with reacked := (t.session, t.frame) :: s.reacked }
  else s

-- The command switch. Refused DATA is rolled back; a refused control record
-- stays consumed.
def handleTask (s : State Session) (t : Task Session) (kept : Bool) : State Session :=
  let s := { s with tasks := s.tasks.erase t }
  if t.frame.cmd = .data then
    if kept then { s with admitted := (t.session, t.frame) :: s.admitted }
    else { s with tasks := { t with phase := .refused } :: s.tasks }
  else s

def removeTask (s : State Session) (t : Task Session) : State Session :=
  setFilter { s with tasks := s.tasks.erase t } t.session
    ((s.replayFilter t.session).remove t.frame.packetNo)

def next (cfg : Config Session Key) (s : State Session) : Label Session → Option (State Session)
  | .sealRecord r =>
    if r.frame.Fits ∧ (sealFrameAEAD cfg.aead (cfg.keys.key r.session r.dir) r.frame
        r.plaintext).isSome then
      some { s with sealedLog := r :: s.sealedLog }
    else none
  | .store sid session =>
    some { s with sessions := fun x => if x = sid then session else s.sessions x }
  | .receive wire =>
    match inspect cfg s wire with
    | none => some s
    | some (session, frame) =>
      some { s with tasks := { session := session, frame := frame, phase := .opened } :: s.tasks }
  | .accept t => if t ∈ s.tasks ∧ t.phase = .opened then some (acceptTask s t) else none
  | .handle t kept =>
    if t ∈ s.tasks ∧ t.phase = .accepted then some (handleTask s t kept) else none
  | .remove t => if t ∈ s.tasks ∧ t.phase = .refused then some (removeTask s t) else none

def initial : State Session where
  sealedLog := []
  sessions := fun _ => none
  replayFilter := fun _ => .new
  tasks := []
  reacked := []
  processed := []
  admitted := []

def system (cfg : Config Session Key) : System (State Session) (Label Session) where
  init := fun s => s = initial
  next := next cfg

end UdpCustom.Receive
