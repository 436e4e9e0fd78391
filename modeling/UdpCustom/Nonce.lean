import UdpCustom.Receive

-- The packet-number counter of one end of a session, shared by every goroutine
-- that seals a record, and the teardown its exhaustion starts.
namespace UdpCustom.Nonce

open UdpCustom.Frame UdpCustom.Receive Transition

-- The values of the atomic counter.
def packetNoSpace : ℕ := 2 ^ 64

inductive Once
  | idle
  | running
  | done
  deriving DecidableEq, Repr

-- A goroutine between `sendPacketNo.Add(1)` and the seal. `inClose` marks the
-- FIN that `close` sends from inside its `closeOnce`.
structure Drawn where
  packetNo : ℕ
  frame : UDPCFrame
  inClose : Bool
  deriving DecidableEq

structure Config where
  role : Role
  -- whether the client session has a local connection, which is when it sends a FIN
  hasConn : Bool
  magic : ℕ
  sessionID : ℕ

structure State where
  sendPacketNo : ℕ
  drawn : List Drawn
  closeOnce : Once
  finDue : Bool
  -- history: the records sealed under this direction's key, where the counter
  -- started and how many numbers were drawn
  sealedRecords : List UDPCFrame
  start : ℕ
  draws : ℕ

inductive Label
  | draw (f : UDPCFrame)
  | drawFin
  | finish (d : Drawn)
  | close

def finFrame (cfg : Config) : UDPCFrame where
  magic := cfg.magic
  version := udpcVersion
  cmd := .fin
  flags := 0
  sessionID := cfg.sessionID
  packetNo := 0
  seq := 0
  ack := 0
  windowSize := 0
  data := []

-- `sendPacketNo.Add(1)` on behalf of `f`.
def drawNo (s : State) (f : UDPCFrame) (inClose : Bool) : State :=
  let no := (s.sendPacketNo + 1) % packetNoSpace
  { s with
    sendPacketNo := no
    drawn := { packetNo := no, frame := f, inClose := inClose } :: s.drawn
    draws := s.draws + 1 }

-- `closeWithReason` and `Close`: the first caller runs the body. The client's
-- body ends with a FIN, the server's sends nothing.
def enterClose (cfg : Config) (s : State) : State :=
  match s.closeOnce with
  | .idle =>
    match cfg.role with
    | .client =>
      if cfg.hasConn then { s with closeOnce := .running, finDue := true }
      else { s with closeOnce := .done }
    | .server => { s with closeOnce := .done }
  | .running | .done => s

-- What a goroutine does with the number it drew. Zero retires the session; a
-- FIN that draws zero waits on its own `closeOnce` for good.
def finish (cfg : Config) (s : State) (d : Drawn) : State :=
  let s := { s with drawn := s.drawn.erase d }
  if d.packetNo = 0 then
    if d.inClose then s else enterClose cfg s
  else
    { s with
      sealedRecords := { d.frame with packetNo := d.packetNo } :: s.sealedRecords
      closeOnce := if d.inClose then .done else s.closeOnce }

def next (cfg : Config) (s : State) : Label → Option State
  | .draw f => some (drawNo s f false)
  | .drawFin => if s.finDue then some (drawNo { s with finDue := false } (finFrame cfg) true) else none
  | .finish d => if d ∈ s.drawn then some (finish cfg s d) else none
  | .close => some (enterClose cfg s)

def initial (start : ℕ) : State where
  sendPacketNo := start
  drawn := []
  closeOnce := .idle
  finDue := false
  sealedRecords := []
  start := start
  draws := 0

def system (cfg : Config) : System State Label where
  init := fun s => ∃ start < packetNoSpace, s = initial start
  next := next cfg

-- The step draws no number once the whole space has been drawn.
def WithinSpace (s : State) : Label → Prop
  | .draw _ => s.draws < packetNoSpace
  | .drawFin => s.draws < packetNoSpace
  | .finish _ => True
  | .close => True

end UdpCustom.Nonce
