import UdpCustom.Lib.SeqMap
import UdpCustom.Lib.Transition
import Mathlib.Logic.Function.Basic
import Mathlib.Data.Int.Notation

-- The pool of reply sockets under any number of goroutines. One step is one atomic
-- operation of the source: a load, store or add of an atomic, one operation on the
-- map, one system call. Taking a lock goes with the operation after it, releasing it
-- with the operation before.
namespace UdpCustom.SockPool

open Transition

def DefaultSendSockMax : ℤ := 512

-- The pool's limit for a configured one.
def newSendSockPool (limit : ℤ) : ℤ :=
  if limit ≤ 0 then DefaultSendSockMax else limit

-- A `*pooledConn`: its port, and a number that tells it from the others.
structure PooledConn where
  port : ℕ
  serial : ℕ
  deriving DecidableEq

-- A `Range` in progress, as the documentation of sync.Map has it: no key is met
-- twice, a key that stays is met, and what is met for a key is a mapping it had at
-- some point since the Range began.
structure Walk where
  due : Finset ℕ
  seen : Finset (ℕ × PooledConn)
  met : Finset ℕ
  deriving DecidableEq

def Walk.store (w : Walk) (pc : PooledConn) : Walk :=
  { w with seen := insert (pc.port, pc) w.seen }

def Walk.delete (w : Walk) (port : ℕ) : Walk :=
  { w with due := w.due.erase port }

def Walk.meet (w : Walk) (port : ℕ) : Walk :=
  { w with due := w.due.erase port, met := insert port w.met }

-- On whose behalf a socket is bound and published.
inductive Purpose
  | get
  | repair
  deriving DecidableEq

-- Where reclaimOverflow returns to.
inductive After
  | made (why : Purpose) (pc : PooledConn)
  | wrote (pc : PooledConn) (again : Bool)
  deriving DecidableEq

-- Where a goroutine is. Each place is before the operation it names.
inductive Place
  -- Get
  | get (port : ℤ)
  | load (port : ℕ)
  | stamp (pc : PooledConn)
  | touch (pc : PooledConn) (stamp : ℕ)
  | lock (port : ℕ)
  | checkClosed (port : ℕ)
  | back (pc : PooledConn)
  -- ListenUDP to the end of the bind in Get and in repairAndRetry
  | listen (why : Purpose) (port : ℕ)
  | stampNew (why : Purpose) (pc : PooledConn)
  | publish (why : Purpose) (pc : PooledConn) (stamp : ℕ)
  | count (why : Purpose) (pc : PooledConn)
  | pinNew (why : Purpose) (pc : PooledConn)
  | unpinNew (why : Purpose) (pc : PooledConn)
  -- writeOnce; the first write of WriteToUDPAddrPort is the one that is repaired
  | pin (pc : PooledConn) (first : Bool)
  | write (pc : PooledConn) (first : Bool)
  | unpin (pc : PooledConn) (again : Bool)
  | overflow (pc : PooledConn) (again : Bool)
  -- repairAndRetry
  | repair (broken : PooledConn)
  | relock (broken : PooledConn)
  | reload (broken : PooledConn)
  | restamp (other : PooledConn)
  | retouch (other : PooledConn) (stamp : ℕ)
  | unlink (broken : PooledConn)
  | uncount (broken : PooledConn)
  | discard (broken : PooledConn)
  -- reclaimOverflow
  | evict (after : After)
  | loop (after : After)
  | scan (after : After) (walk : Walk) (cands : List (ℕ × PooledConn))
  | visit (after : After) (walk : Walk) (cands : List (ℕ × PooledConn)) (port : ℕ) (pc : PooledConn)
  | sort (after : After) (cands : List (ℕ × PooledConn)) (stamps : List ℕ)
  | check (after : After) (port : ℕ) (victim : PooledConn)
  | stampVictim (after : After) (victim : PooledConn)
  | touchVictim (after : After) (victim : PooledConn) (stamp : ℕ)
  | take (after : After) (port : ℕ) (victim : PooledConn)
  | uncountVictim (after : After) (victim : PooledConn)
  | closeVictim (after : After) (victim : PooledConn)
  -- Close
  | close
  | closeWalk
  | closing (walk : Walk)
  | comparing (walk : Walk) (port : ℕ) (pc : PooledConn)
  | uncounting (walk : Walk) (pc : PooledConn)
  | shutting (walk : Walk) (pc : PooledConn)
  | done
  deriving DecidableEq

-- A lock is held while some goroutine is at a place inside its section.
def Place.holdsBindMu : Place → Bool
  | .checkClosed _ | .listen _ _ | .stampNew _ _ | .publish _ _ _ | .count .repair _ => true
  | .reload _ | .restamp _ | .retouch _ _ | .unlink _ | .uncount _ | .discard _ => true
  | _ => false

def Place.holdsEvictMu : Place → Bool
  | .loop _ | .scan _ _ _ | .visit _ _ _ _ _ | .sort _ _ _ | .check _ _ _ => true
  | .stampVictim _ _ | .touchVictim _ _ _ | .take _ _ _ => true
  | .uncountVictim _ _ | .closeVictim _ _ => true
  | _ => false

def Place.onWalk (f : Walk → Walk) : Place → Place
  | .scan after w cands => .scan after (f w) cands
  | .visit after w cands port pc => .visit after (f w) cands port pc
  | .closing w => .closing (f w)
  | .comparing w port pc => .comparing (f w) port pc
  | .uncounting w pc => .uncounting (f w) pc
  | .shutting w pc => .shutting (f w) pc
  | pl => pl

-- After the bind, Get returns the socket and repairAndRetry writes through it.
def Place.made (pc : PooledConn) : Purpose → Place
  | .get => .back pc
  | .repair => .pin pc false

-- After writeOnce, a permanent error of the first write is repaired.
def Place.wrote (pc : PooledConn) (again : Bool) : Place :=
  if again then .repair pc else .done

def After.place : After → Place
  | .made why pc => .unpinNew why pc
  | .wrote pc again => .wrote pc again

structure State where
  conns : SeqMap PooledConn
  total : ℤ
  clock : ℕ
  closed : Bool
  refs : PooledConn → ℤ
  lastUse : PooledConn → ℕ
  -- the sockets opened and not closed yet
  sockets : Finset PooledConn
  made : ℕ
  -- what Get has returned
  handed : List PooledConn
  calls : List Place

def init : State where
  conns := ∅
  total := 0
  clock := 0
  closed := false
  refs := fun _ => 0
  lastUse := fun _ => 0
  sockets := ∅
  made := 0
  handed := []
  calls := []

-- What one operation does to the state its goroutines share.
inductive Effect
  | quiet
  | draw
  | use (pc : PooledConn) (stamp : ℕ)
  | ref (pc : PooledConn) (d : ℤ)
  | add (d : ℤ)
  | listen (pc : PooledConn)
  | put (pc : PooledConn) (stamp : ℕ)
  | cut (port : ℕ)
  | shut (pc : PooledConn)
  | close
  | hand (pc : PooledConn)
  deriving DecidableEq

-- The stamp of a new socket is stored before anybody else can see it.
def State.affect (s : State) : Effect → State
  | .quiet => s
  | .draw => { s with clock := s.clock + 1 }
  | .use pc stamp => { s with lastUse := Function.update s.lastUse pc stamp }
  | .ref pc d => { s with refs := Function.update s.refs pc (s.refs pc + d) }
  | .add d => { s with total := s.total + d }
  | .listen pc => { s with sockets := insert pc s.sockets, made := s.made + 1 }
  | .put pc stamp =>
      { s with
        conns := s.conns.insert pc.port pc
        lastUse := Function.update s.lastUse pc stamp
        calls := s.calls.map (Place.onWalk (·.store pc)) }
  | .cut port =>
      { s with
        conns := s.conns.erase port
        calls := s.calls.map (Place.onWalk (·.delete port)) }
  | .shut pc => { s with sockets := s.sockets.erase pc }
  | .close => { s with closed := true }
  | .hand pc => { s with handed := pc :: s.handed }

-- What the environment decides in a step.
inductive Choice
  | go
  | bound (ok : Bool)
  | wrote (permanent : Bool)
  | meet (port : ℕ) (pc : PooledConn)
  | finish
  | first (k : ℕ)
  deriving DecidableEq

def State.bindFree (s : State) : Prop :=
  ∀ pl ∈ s.calls, pl.holdsBindMu = false

instance (s : State) : Decidable s.bindFree :=
  inferInstanceAs (Decidable (∀ pl ∈ s.calls, pl.holdsBindMu = false))

def State.evictFree (s : State) : Prop :=
  ∀ pl ∈ s.calls, pl.holdsEvictMu = false

instance (s : State) : Decidable s.evictFree :=
  inferInstanceAs (Decidable (∀ pl ∈ s.calls, pl.holdsEvictMu = false))

def State.range (s : State) : Walk where
  due := s.conns.keys
  seen := s.conns.keys.biUnion fun port => ((s.conns.lookup port).toFinset).image fun pc => (port, pc)
  met := ∅

-- The loop test of reclaimOverflow, and the start of its Range.
def State.reclaim (limit : ℤ) (s : State) (after : After) : Place :=
  if limit < s.total then .scan after s.range [] else after.place

-- sort.Slice reads the stamps while it sorts: the first candidate afterwards is the
-- oldest, unless a stamp changed in the meantime.
def State.maySortFirst (s : State) (cands : List (ℕ × PooledConn)) (stamps : List ℕ) (pc : PooledConn) :
    Prop :=
  cands.map (fun c => s.lastUse c.2) = stamps → ∀ c ∈ cands, s.lastUse pc ≤ s.lastUse c.2

instance (s : State) (cands : List (ℕ × PooledConn)) (stamps : List ℕ) (pc : PooledConn) :
    Decidable (s.maySortFirst cands stamps pc) :=
  inferInstanceAs (Decidable (_ = _ → ∀ c ∈ cands, _))

-- One operation of a goroutine: what it does and where the goroutine is after it.
-- ListenUDP sets no address reuse, so it fails while the port has an open socket.
def act (limit : ℤ) (s : State) : Place → Choice → Option (Effect × Place)
  | .get port, .go =>
      if port ≤ 0 ∨ 65535 < port ∨ s.closed = true then some (.quiet, .done)
      else some (.quiet, .load port.toNat)
  | .load port, .go =>
      match s.conns.lookup port with
      | some pc => some (.quiet, .stamp pc)
      | none => some (.quiet, .lock port)
  | .stamp pc, .go => some (.draw, .touch pc (s.clock + 1))
  | .touch pc stamp, .go => some (.use pc stamp, .back pc)
  | .back pc, .go => some (.hand pc, .done)
  | .lock port, .go =>
      if s.bindFree then
        match s.conns.lookup port with
        | some pc => some (.quiet, .stamp pc)
        | none => some (.quiet, .checkClosed port)
      else none
  | .checkClosed port, .go =>
      if s.closed then some (.quiet, .done) else some (.quiet, .listen .get port)
  | .listen why port, .bound true =>
      if ∀ pc ∈ s.sockets, pc.port ≠ port then some (.listen ⟨port, s.made⟩, .stampNew why ⟨port, s.made⟩)
      else none
  | .listen _ _, .bound false => some (.quiet, .done)
  | .stampNew why pc, .go => some (.draw, .publish why pc (s.clock + 1))
  | .publish why pc stamp, .go => some (.put pc stamp, .count why pc)
  | .count why pc, .go => some (.add 1, if limit < s.total + 1 then .pinNew why pc else .made pc why)
  | .pinNew why pc, .go => some (.ref pc 1, .evict (.made why pc))
  | .unpinNew why pc, .go => some (.ref pc (-1), .made pc why)
  | .pin pc first, .go => some (.ref pc 1, .write pc first)
  | .write pc first, .wrote permanent => some (.quiet, .unpin pc (first && permanent))
  | .unpin pc again, .go =>
      some (.ref pc (-1), if s.refs pc - 1 = 0 then .overflow pc again else .wrote pc again)
  | .overflow pc again, .go =>
      some (.quiet, if limit < s.total then .evict (.wrote pc again) else .wrote pc again)
  | .repair broken, .go => some (.quiet, if s.closed then .done else .relock broken)
  | .relock broken, .go =>
      if s.bindFree then some (.quiet, if s.closed then .done else .reload broken) else none
  | .reload broken, .go =>
      match s.conns.lookup broken.port with
      | some other => some (.quiet, if other = broken then .unlink broken else .restamp other)
      | none => some (.quiet, .unlink broken)
  | .restamp other, .go => some (.draw, .retouch other (s.clock + 1))
  | .retouch other stamp, .go => some (.use other stamp, .pin other true)
  | .unlink broken, .go =>
      match s.conns.lookup broken.port with
      | some actual =>
          some (.cut broken.port, if actual = broken then .uncount broken else .discard broken)
      | none => some (.quiet, .discard broken)
  | .uncount broken, .go => some (.add (-1), .discard broken)
  | .discard broken, .go => some (.shut broken, .listen .repair broken.port)
  | .evict after, .go => if s.evictFree then some (.quiet, s.reclaim limit after) else none
  | .loop after, .go => some (.quiet, s.reclaim limit after)
  | .scan after w cands, .meet port pc =>
      if (port, pc) ∈ w.seen ∧ port ∉ w.met then some (.quiet, .visit after (w.meet port) cands port pc)
      else none
  | .scan after w cands, .finish =>
      if w.due = ∅ then
        some (.quiet, if cands = [] then after.place
          else .sort after cands (cands.map fun c => s.lastUse c.2))
      else none
  | .visit after w cands port pc, .go =>
      some (.quiet, .scan after w (if s.refs pc = 0 then cands ++ [(port, pc)] else cands))
  | .sort after cands stamps, .first k =>
      match cands[k]? with
      | some (port, pc) =>
          if s.maySortFirst cands stamps pc then some (.quiet, .check after port pc) else none
      | none => none
  | .check after port victim, .go =>
      some (.quiet, if s.refs victim = 0 then .take after port victim else .stampVictim after victim)
  | .stampVictim after victim, .go => some (.draw, .touchVictim after victim (s.clock + 1))
  | .touchVictim after victim stamp, .go => some (.use victim stamp, after.place)
  | .take after port victim, .go =>
      match s.conns.lookup port with
      | some actual =>
          some (.cut port, if actual = victim then .uncountVictim after victim else after.place)
      | none => some (.quiet, after.place)
  | .uncountVictim after victim, .go => some (.add (-1), .closeVictim after victim)
  | .closeVictim after victim, .go => some (.shut victim, .loop after)
  | .close, .go => some (.close, .closeWalk)
  | .closeWalk, .go => some (.quiet, .closing s.range)
  | .closing w, .meet port pc =>
      if (port, pc) ∈ w.seen ∧ port ∉ w.met then some (.quiet, .comparing (w.meet port) port pc) else none
  | .closing w, .finish => if w.due = ∅ then some (.quiet, .done) else none
  | .comparing w port pc, .go =>
      if s.conns.lookup port = some pc then some (.cut port, .uncounting w pc)
      else some (.quiet, .shutting w pc)
  | .uncounting w pc, .go => some (.add (-1), .shutting w pc)
  | .shutting w pc, .go => some (.shut pc, .closing w)
  | _, _ => none

-- The calls from outside. A batch of writes pins the socket as writeOnce does, and is
-- not repaired.
inductive Op
  | get (port : ℤ)
  | write (pc : PooledConn)
  | batch (pc : PooledConn)
  | close
  deriving DecidableEq

def Op.place : Op → Place
  | .get port => .get port
  | .write pc => .pin pc true
  | .batch pc => .pin pc false
  | .close => .close

-- Only sockets that Get has returned are written to from outside.
def Op.admitted (s : State) : Op → Bool
  | .write pc | .batch pc => pc ∈ s.handed
  | _ => true

inductive Label
  | call (op : Op)
  | run (i : ℕ) (choice : Choice)
  deriving DecidableEq

def State.move (s : State) (i : ℕ) (pl : Place) : State :=
  { s with calls := s.calls.set i pl }

def next (limit : ℤ) (s : State) : Label → Option State
  | .call op => if op.admitted s then some { s with calls := s.calls ++ [op.place] } else none
  | .run i choice =>
      match s.calls[i]? with
      | none => none
      | some pl => (act limit s pl choice).map fun r => (s.move i r.2).affect r.1

def system (limit : ℤ) : System State Label where
  init := (· = init)
  next := next (newSendSockPool limit)

-- No call is in progress.
def State.Idle (s : State) : Prop :=
  ∀ pl ∈ s.calls, pl = .done

instance (s : State) : Decidable s.Idle :=
  inferInstanceAs (Decidable (∀ pl ∈ s.calls, pl = .done))

end UdpCustom.SockPool
