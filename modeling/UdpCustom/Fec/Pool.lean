import UdpCustom.Fec.Formation
import UdpCustom.Lib.Execution
import UdpCustom.Lib.Slice

-- Senders with their blocks in memory. The arrays behind the blocks come from one pool
-- that all senders of the process share; a goroutine that detached a block reads it
-- after the lock is released and puts its array back in the end.
namespace UdpCustom.Fec.Pool

open UdpCustom.Frame UdpCustom.Fec.Formation Transition

def zeroShard : SourceShard := ⟨0, []⟩

structure Memory where
  heap : Heap SourceShard
  pool : List Slice

-- `fecSourcesPool.Get`: one of the slices put back before, or a new one where the pick
-- is none of them.
def Memory.get (m : Memory) (pick : ℕ) : Slice × Memory :=
  match m.pool[pick]? with
  | some p => (p, { m with pool := m.pool.eraseIdx pick })
  | none =>
    (⟨m.heap.length, 0, 0, fecDataShardsMax⟩,
      { m with heap := m.heap ++ [List.replicate fecDataShardsMax zeroShard] })

def Memory.clear (m : Memory) (block : Slice) : Memory :=
  { m with heap := m.heap.clear block zeroShard }

-- `fecSourcesPool.Put` of `block[:0]`
def Memory.put (m : Memory) (block : Slice) : Memory :=
  { m with pool := m.pool ++ [{ block with len := 0 }] }

structure Taken where
  block : Slice
  -- history: its records when it was detached
  records : List SourceShard
  deriving DecidableEq

-- Where a goroutine is in `emitBlock` or `releaseFECSources`, with its local variables.
inductive Place
  | check
  | count (size : ℕ)
  | parity (size blockNo : ℕ)
  | encode (size parityShards : ℕ)
  | send (parityShards index : ℕ) (left : List Bytes)
  | clear
  | put
  deriving DecidableEq

-- A goroutine past its section under the lock, with the blocks it still has to deal with.
structure Flush where
  blocks : List Taken
  place : Place
  deriving DecidableEq

structure Sender where
  pending : Slice
  clock : Clock
  flushGen : ℕ
  closed : Bool
  blocks : ℕ
  extParity : Bool
  -- whether there is a function to emit with
  emit : Bool
  flushes : List Flush
  -- history: the records of all calls, the blocks that were detached, those that
  -- entered `emitBlock`, as it read them, and the parity that was emitted
  added : List SourceShard
  detached : List (List SourceShard)
  emitted : List (List SourceShard)
  sent : List ParityShard

def newSender (extParity emit : Bool) : Sender where
  pending := .none
  clock := .init
  flushGen := 0
  closed := false
  blocks := 0
  extParity := extParity
  emit := emit
  flushes := []
  added := []
  detached := []
  emitted := []
  sent := []

-- Nothing stands for the nil block: `emitBlock` and `releaseFECSources` return at once
-- for it.
def Sender.detachLocked (h : Heap SourceShard) (s : Sender) : List Taken × Sender :=
  if s.pending.len = 0 then ([], s)
  else
    ([⟨s.pending, h.read s.pending⟩],
      { s with
        pending := .none
        clock := s.clock.stop
        detached := s.detached ++ [h.read s.pending] })

def Sender.cut (h : Heap SourceShard) (s : Sender) (src : SourceShard) : List Taken × Sender :=
  if (h.read s.pending).getLast?.any fun last => src.seq ≠ (last.seq + 1) % 2 ^ 64 then
    s.detachLocked h
  else ([], s)

def Sender.cutFull (h : Heap SourceShard) (s : Sender) : List Taken × Sender :=
  if fecDataShardsMax ≤ s.pending.len then s.detachLocked h else ([], s)

def Memory.fetch (m : Memory) (pending : Slice) (pick : ℕ) : Slice × Memory :=
  if pending = .none then m.get pick else (pending, m)

def Sender.take (m : Memory) (s : Sender) (src : SourceShard) (pick : ℕ) (spare : List SourceShard) :
    Memory × Sender :=
  let got := m.fetch s.pending pick
  let grown := got.2.heap.append got.1 [src] spare
  let m := { got.2 with heap := grown.2 }
  let s := { s with pending := grown.1, added := s.added ++ [src] }
  if s.pending.len = 1 then
    let gen := (s.flushGen + 1) % 2 ^ 64
    (m, { s with flushGen := gen, clock := s.clock.arm gen src.seq })
  else (m, s)

def Sender.launch (s : Sender) (blocks : List Taken) : Sender :=
  { s with flushes := s.flushes ++ [⟨blocks, .check⟩] }

def Sender.add (m : Memory) (s : Sender) (src : SourceShard) (loss : Float) (pick : ℕ)
    (spare : List SourceShard) : Memory × Sender :=
  if ignores s.closed s.pending.len s.blocks src loss then (m, { s with added := s.added ++ [src] })
  else
    let cut := s.cut m.heap src
    let taken := cut.2.take m src pick spare
    let full := taken.2.cutFull taken.1.heap
    (taken.1, full.2.launch (cut.1 ++ full.1))

def Sender.flushTimer (h : Heap SourceShard) (s : Sender) (gen : ℕ) : Sender :=
  if s.closed ∨ gen ≠ s.flushGen then s
  else
    let detached := s.detachLocked h
    detached.2.launch detached.1

def Sender.close (m : Memory) (s : Sender) : Memory × Sender :=
  if s.closed then (m, s)
  else
    (if s.pending.cap = fecDataShardsMax then (m.clear s.pending).put s.pending else m,
      { s with closed := true, clock := s.clock.stop, pending := .none })

def baseSeq (block : List SourceShard) : ℕ :=
  (block.headD zeroShard).seq

-- `copy` into a shard of this size.
def copied (size : ℕ) (payload : Bytes) : Bytes :=
  (shard size payload).take size

-- One step of `emitBlock` or of `releaseFECSources` after it: what it leaves, and where
-- the goroutine is then. There is no such place when it is through with the block.
def Sender.emitStep (code : ErasureCode UInt8) (m : Memory) (s : Sender) (block : Slice) (loss : Float) :
    Place → Memory × Sender × Option Place
  | .check =>
    let records := m.heap.read block
    let s := { s with emitted := s.emitted ++ [records] }
    if block.len = 0 ∨ s.emit = false ∨ consecutive (baseSeq records) records = false ∨
        udpcMaxData < shardSize records then (m, s, some .clear)
    else (m, s, some (.count (shardSize records)))
  | .count size =>
    if s.closed then (m, s, some .clear)
    else (m, { s with blocks := s.blocks + 1 }, some (.parity size (s.blocks + 1)))
  | .parity size blockNo =>
    let parityShards := parityCount blockNo block.len loss s.extParity
    if parityShards = 0 then (m, s, some .clear) else (m, s, some (.encode size parityShards))
  | .encode size parityShards =>
    if code.supported block.len parityShards then
      let shards := (m.heap.read block).map fun src => copied size src.payload
      (m, s, some (.send parityShards 0 (code.encode block.len parityShards shards)))
    else (m, s, some .clear)
  | .send _ _ [] => (m, s, some .clear)
  | .send parityShards index (data :: left) =>
    let p : ParityShard :=
      { baseSeq := baseSeq (m.heap.read block)
        dataShards := block.len
        parityShards := parityShards
        index := index
        data := data }
    (m, { s with sent := s.sent ++ [p] }, some (.send parityShards (index + 1) left))
  | .clear =>
    if block.cap = fecDataShardsMax then (m.clear block, s, some .put) else (m, s, none)
  | .put => (m.put block, s, none)

def Flush.after (cur : Taken) (rest : List Taken) : Option Place → Flush
  | some place => ⟨cur :: rest, place⟩
  | none => ⟨rest, .check⟩

def Sender.run (code : ErasureCode UInt8) (m : Memory) (s : Sender) (g : ℕ) (loss : Float) :
    Option (Memory × Sender) :=
  match s.flushes[g]? with
  | some ⟨cur :: rest, place⟩ =>
    let out := s.emitStep code m cur.block loss place
    some (out.1, { out.2.1 with flushes := s.flushes.set g (.after cur rest out.2.2) })
  | _ => none

inductive Action
  -- `pick` is what the pool gives, `spare` what the runtime puts behind a moved slice
  | add (src : SourceShard) (loss : Float) (pick : ℕ) (spare : List SourceShard)
  | fire (t : ℕ)
  | run (g : ℕ) (loss : Float)
  | close
  -- time passes
  | wait

def Sender.act (code : ErasureCode UInt8) (m : Memory) (s : Sender) :
    Action → Option (Memory × Sender)
  | .add src loss pick spare =>
    if (∀ x ∈ s.added, x.seq < src.seq) ∧ src.seq < 2 ^ 64 then some (s.add m src loss pick spare)
    else none
  | .fire t =>
    match s.clock.timers[t]? with
    | none => none
    | some tm =>
      if tm.ran then none
      else some (m, { s with clock := s.clock.begin t }.flushTimer m.heap tm.gen)
  | .run g loss => s.run code m g loss
  | .close => some (s.close m)
  | .wait => some (m, s)

structure State where
  memory : Memory
  senders : List Sender

def next (code : ErasureCode UInt8) (st : State) (l : ℕ × Action) : Option State :=
  match st.senders[l.1]? with
  | none => none
  | some s =>
    (s.act code st.memory l.2).map fun out => ⟨out.1, st.senders.set l.1 out.2⟩

-- Any number of senders, none of which has done anything yet.
def init (senders : List (Bool × Bool)) : State where
  memory := ⟨Heap.init, []⟩
  senders := senders.map fun p => newSender p.1 p.2

def system (code : ErasureCode UInt8) : System State (ℕ × Action) where
  init := fun st => ∃ senders, st = init senders
  next := next code

-- The sender with its pending block as a list of records.
def Sender.view (h : Heap SourceShard) (s : Sender) : Formation.State where
  sender :=
    { pending := h.read s.pending
      flushGen := s.flushGen
      closed := s.closed
      blocks := s.blocks
      extParity := s.extParity }
  clock := s.clock
  added := s.added
  detached := s.detached

end UdpCustom.Fec.Pool
