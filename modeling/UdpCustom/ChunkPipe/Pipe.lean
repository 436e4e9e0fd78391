import UdpCustom.ChunkPipe
import UdpCustom.Lib.Transition
import Mathlib.Logic.Function.Basic

-- The whole pipe under any number of goroutines. One step is one section under the
-- lock, one send of `signal`, one wake-up, or a timer that fires.
namespace UdpCustom.ChunkPipe

open UdpCustom.Frame Transition

inductive End
  | app
  | session
  deriving DecidableEq

inductive Kind
  | read
  | write
  deriving DecidableEq

-- down carries session to application.
inductive Dir
  | down
  | up
  deriving DecidableEq

inductive Chan
  | downData
  | downSpace
  | upData
  | upSpace
  deriving DecidableEq

def readDir : End → Dir
  | .app => .down
  | .session => .up

def writeDir : End → Dir
  | .app => .up
  | .session => .down

-- The channel a blocked call waits on.
def wakeChan : End → Kind → Chan
  | .app, .read => .downData
  | .session, .read => .upData
  | .app, .write => .upSpace
  | .session, .write => .downSpace

-- The order in which `signal` sends.
def signalOrder : List Chan :=
  [.downData, .downSpace, .upData, .upSpace]

inductive PipeError
  | eof
  | closedPipe
  | deadlineExceeded
  deriving DecidableEq

-- What a call returns.
structure Result where
  n : ℕ
  err : Option PipeError
  deriving DecidableEq

inductive Op
  | read (size : ℕ)
  | write (b : Bytes)
  | close
  | setDeadline (t : Option ℕ)
  | setReadDeadline (t : Option ℕ)
  | setWriteDeadline (t : Option ℕ)
  deriving DecidableEq

-- Where a goroutine is: before the lock, between the sends of `signal` (with what it
-- returns after them, if it does not loop), in `sleepUntil`, or back at its caller.
inductive Pc
  | check
  | signal (left : List Chan) (result : Option Result)
  | sleep (deadline : Option ℕ)
  | done (result : Result)
  deriving DecidableEq

structure Call where
  side : End
  op : Op
  written : ℕ
  -- history: the bytes this call has read, or queued
  moved : Bytes
  pc : Pc
  deriving DecidableEq

structure State where
  closed : Bool
  queue : Dir → ChunkDir
  token : Chan → Bool
  -- a zero time is no deadline
  deadline : End → Kind → Option ℕ
  now : ℕ
  calls : List Call
  -- history: what Writes have queued and what Reads have taken, in order
  accepted : Dir → Bytes
  delivered : Dir → Bytes

inductive Label
  | call (side : End) (op : Op)
  | run (i : ℕ)
  | timeout (i : ℕ)
  | tick (d : ℕ)

def State.expired (s : State) (side : End) (kind : Kind) : Bool :=
  (s.deadline side kind).any (· ≤ s.now)

def State.setCall (s : State) (i : ℕ) (c : Call) : State :=
  { s with calls := s.calls.set i c }

def State.setDeadline (s : State) (side : End) (kind : Kind) (t : Option ℕ) : State :=
  { s with deadline := Function.update s.deadline side (Function.update (s.deadline side) kind t) }

def Call.return (c : Call) (n : ℕ) (err : Option PipeError) : Call :=
  { c with pc := .done ⟨n, err⟩ }

def Call.signals (c : Call) (result : Option Result) : Call :=
  { c with pc := .signal signalOrder result }

-- The section under the lock in a Read's loop.
def State.readStep (s : State) (i : ℕ) (c : Call) (size : ℕ) : State :=
  let taken := (s.queue (readDir c.side)).take size
  let s := { s with queue := Function.update s.queue (readDir c.side) taken.2 }
  if 0 < taken.1.length then
    { s with
      delivered := Function.update s.delivered (readDir c.side)
        (s.delivered (readDir c.side) ++ taken.1) }.setCall i
      ({ c with moved := taken.1 }.signals (some ⟨taken.1.length, none⟩))
  else if s.closed then s.setCall i (c.return 0 (some .eof))
  else if s.expired c.side .read then s.setCall i (c.return 0 (some .deadlineExceeded))
  else s.setCall i { c with pc := .sleep (s.deadline c.side .read) }

-- The section under the lock in a Write's loop.
def State.writeStep (s : State) (i : ℕ) (c : Call) (b : Bytes) : State :=
  if s.closed then s.setCall i (c.return c.written (some .closedPipe))
  else if s.expired c.side .write then s.setCall i (c.return c.written (some .deadlineExceeded))
  else
    let q := s.queue (writeDir c.side)
    if q.bytes < chunkPipeBuffer then
      let rest := b.drop c.written
      let written := c.written + min chunkPipeChunk rest.length
      { s with
        queue := Function.update s.queue (writeDir c.side) (q.push rest)
        accepted := Function.update s.accepted (writeDir c.side)
          (s.accepted (writeDir c.side) ++ rest.take chunkPipeChunk) }.setCall i
        ({ c with written := written, moved := c.moved ++ rest.take chunkPipeChunk }.signals
          (if written < b.length then none else some ⟨written, none⟩))
    else s.setCall i { c with pc := .sleep (s.deadline c.side .write) }

def State.lockStep (s : State) (i : ℕ) (c : Call) : State :=
  match c.op with
  | .read size => s.readStep i c size
  | .write b => s.writeStep i c b
  | .close =>
    if s.closed then s.setCall i (c.return 0 none)
    else { s with closed := true }.setCall i (c.signals (some ⟨0, none⟩))
  | .setDeadline t =>
    ((s.setDeadline c.side .read t).setDeadline c.side .write t).setCall i (c.signals (some ⟨0, none⟩))
  | .setReadDeadline t => (s.setDeadline c.side .read t).setCall i (c.signals (some ⟨0, none⟩))
  | .setWriteDeadline t => (s.setDeadline c.side .write t).setCall i (c.signals (some ⟨0, none⟩))

def Op.kind : Op → Option Kind
  | .read _ => some .read
  | .write _ => some .write
  | _ => none

def State.runStep (s : State) (i : ℕ) (c : Call) : Option State :=
  match c.pc with
  | .check => some (s.lockStep i c)
  | .signal (ch :: left) result =>
    some ({ s with token := Function.update s.token ch true }.setCall i { c with pc := .signal left result })
  | .signal [] none => some (s.setCall i { c with pc := .check })
  | .signal [] (some result) => some (s.setCall i { c with pc := .done result })
  | .sleep _ =>
    match c.op.kind with
    | none => none
    | some kind =>
      if s.token (wakeChan c.side kind) then
        some ({ s with token := Function.update s.token (wakeChan c.side kind) false }.setCall i
          { c with pc := .check })
      else none
  | .done _ => none

-- An empty buffer returns without the lock.
def startPc : Op → Pc
  | .read 0 => .done ⟨0, none⟩
  | .write [] => .done ⟨0, none⟩
  | _ => .check

def newCall (side : End) (op : Op) : Call where
  side := side
  op := op
  written := 0
  moved := []
  pc := startPc op

def next (s : State) : Label → Option State
  | .call side op => some { s with calls := s.calls ++ [newCall side op] }
  | .run i =>
    match s.calls[i]? with
    | none => none
    | some c => s.runStep i c
  | .timeout i =>
    match s.calls[i]? with
    | none => none
    | some c =>
      match c.pc with
      | .sleep (some d) =>
        if d ≤ s.now then some (s.setCall i (c.return c.written (some .deadlineExceeded))) else none
      | _ => none
  | .tick d => some { s with now := s.now + d }

def newChunkPipe : State where
  closed := false
  queue := fun _ => ChunkDir.empty
  token := fun _ => false
  deadline := fun _ _ => none
  now := 0
  calls := []
  accepted := fun _ => []
  delivered := fun _ => []

def system : System State Label where
  init := fun s => s = newChunkPipe
  next := next

end UdpCustom.ChunkPipe
