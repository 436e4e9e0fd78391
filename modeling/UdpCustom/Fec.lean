import UdpCustom.Frame
import UdpCustom.Lib.ErasureCode
import UdpCustom.Lib.SeqMap
import Mathlib.Data.List.Sort

-- Forward error correction over blocks of consecutive DATA records. The
-- Reed-Solomon codec is a parameter; the loss estimate is an argument wherever
-- it is read.
namespace UdpCustom.Fec

open UdpCustom.Frame

def fecDataShardsMax : ℕ := 8
def fecParityShardsMax : ℕ := 4
def fecParityShardsExtMax : ℕ := 8
def fecRecentDataLimit : ℕ := 64
def fecRecentDataHardLimit : ℕ := 2 * fecRecentDataLimit
def fecMaxPendingBlocks : ℕ := 16
def fecBlockTTL : ℕ := 2000000000
def fecBootstrapBlocks : ℕ := 4

def fecDataShift : ℕ := 4
def fecDataMask : ℕ := 0x7 <<< fecDataShift
def fecParityShift : ℕ := 7
def fecParityMask : ℕ := 0x3 <<< fecParityShift
def fecIndexShift : ℕ := 9
def fecIndexMask : ℕ := 0x3 <<< fecIndexShift
def fecMetaMask : ℕ := fecDataMask ||| fecParityMask ||| fecIndexMask
def fecParityExtFlag : ℕ := 1 <<< 2
def fecIndexExtFlag : ℕ := 1 <<< 3

def fecParityForLossExt (loss : Float) (ext : Bool) : ℕ :=
  if loss < 0.005 then 0
  else if loss < 0.025 then 1
  else if loss < 0.06 then 2
  else if loss < 0.12 then 3
  else if ext = false ∨ loss < 0.20 then 4
  else if loss < 0.30 then 6
  else 8

-- What a sender has sent: its payload for each sequence number used so far.
abbrev Records := ℕ → Option Bytes

structure SourceShard where
  seq : ℕ
  payload : Bytes
  deriving DecidableEq

structure ParityShard where
  baseSeq : ℕ
  dataShards : ℕ
  parityShards : ℕ
  index : ℕ
  data : Bytes
  deriving DecidableEq

def maxParity (ext : Bool) : ℕ :=
  if ext then fecParityShardsExtMax else fecParityShardsMax

-- `x &^= mask` on sixteen bits.
def clearFlags (flags mask : ℕ) : ℕ :=
  flags &&& (0xFFFF ^^^ mask)

def metaFlags (flags dataShards parityShards index : ℕ) (ext : Bool) : ℕ :=
  let flags := clearFlags flags fecMetaMask
  let flags := if ext then clearFlags flags (fecParityExtFlag ||| fecIndexExtFlag) else flags
  let flags := flags ||| ((dataShards - 1) &&& 7) <<< fecDataShift
  let flags := flags ||| ((parityShards - 1) &&& 3) <<< fecParityShift
  let flags := flags ||| (index &&& 3) <<< fecIndexShift
  let flags := if ext ∧ 4 ≤ parityShards - 1 then flags ||| fecParityExtFlag else flags
  if ext ∧ 4 ≤ index then flags ||| fecIndexExtFlag else flags

def ParityShard.applyToFrame (p : ParityShard) (f : UDPCFrame) (ext : Bool) : Option UDPCFrame :=
  if p.baseSeq = 0 ∨ p.dataShards < 1 ∨ fecDataShardsMax < p.dataShards ∨ p.parityShards < 1 ∨
      maxParity ext < p.parityShards ∨ p.parityShards ≤ p.index ∨
      p.data.length < fecLengthPrefixSize ∨ udpcMaxData < p.data.length then none
  else some { f with
    seq := p.baseSeq
    flags := metaFlags f.flags p.dataShards p.parityShards p.index ext
    data := p.data }

def metaDataShards (flags : ℕ) : ℕ :=
  (flags &&& fecDataMask) >>> fecDataShift + 1

def metaParityShards (flags : ℕ) (ext : Bool) : ℕ :=
  (flags &&& fecParityMask) >>> fecParityShift +
    (if ext ∧ flags &&& fecParityExtFlag ≠ 0 then 4 else 0) + 1

def metaIndex (flags : ℕ) (ext : Bool) : ℕ :=
  (flags &&& fecIndexMask) >>> fecIndexShift +
    (if ext ∧ flags &&& fecIndexExtFlag ≠ 0 then 4 else 0)

def parseFECParityFrameExt (frame : UDPCFrame) (ext : Bool) : Except String ParityShard :=
  if frame.cmd ≠ .fec ∨ frame.seq = 0 ∨ frame.data.length < fecLengthPrefixSize then
    .error "invalid fec frame"
  else
    let p : ParityShard :=
      { baseSeq := frame.seq
        dataShards := metaDataShards frame.flags
        parityShards := metaParityShards frame.flags ext
        index := metaIndex frame.flags ext
        data := frame.data }
    if p.dataShards < 1 ∨ fecDataShardsMax < p.dataShards ∨ p.parityShards < 1 ∨
        maxParity ext < p.parityShards ∨ p.parityShards ≤ p.index then
      .error "invalid fec metadata"
    else if 2 ^ 64 - 1 - (p.dataShards - 1) < p.baseSeq then .error "fec sequence range overflow"
    else .ok p

-- A data shard: the payload behind its length, padded with zeros.
def shard (size : ℕ) (payload : Bytes) : Bytes :=
  BigEndian.put fecLengthPrefixSize payload.length ++ payload ++
    List.replicate (size - fecLengthPrefixSize - payload.length) 0

def unshard (size : ℕ) (s : Bytes) : Option Bytes :=
  let n := fieldAt s 0 fecLengthPrefixSize
  if s.length ≠ size ∨ size - fecLengthPrefixSize < n then none
  else some ((s.drop fecLengthPrefixSize).take n)

-- The sender: one open block, and a flush timer that names the block it was
-- armed for.
structure FecSender where
  pending : List SourceShard
  flushGen : ℕ
  closed : Bool
  blocks : ℕ
  extParity : Bool

def newFECSenderExt (extParity : Bool) : FecSender where
  pending := []
  flushGen := 0
  closed := false
  blocks := 0
  extParity := extParity

-- A record that does not continue the open block detaches it; so does a full one.
def FecSender.add (s : FecSender) (src : SourceShard) (loss : Float) :
    List (List SourceShard) × FecSender :=
  if src.seq = 0 ∨ src.payload = [] ∨ s.closed then ([], s)
  else if s.pending = [] ∧ fecBootstrapBlocks ≤ s.blocks ∧ fecParityForLossExt loss false = 0 then
    ([], s)
  else
    let broken := s.pending.getLast?.any fun last => src.seq ≠ last.seq + 1
    let detached := if broken then [s.pending] else []
    let pending := if broken then [src] else s.pending ++ [src]
    let flushGen := if pending.length = 1 then s.flushGen + 1 else s.flushGen
    if fecDataShardsMax ≤ pending.length then
      (detached ++ [pending], { s with pending := [], flushGen := flushGen })
    else (detached, { s with pending := pending, flushGen := flushGen })

def FecSender.flushTimer (s : FecSender) (gen : ℕ) : List SourceShard × FecSender :=
  if s.closed ∨ gen ≠ s.flushGen then ([], s)
  else (s.pending, { s with pending := [] })

def FecSender.close (s : FecSender) : FecSender :=
  { s with closed := true, pending := [] }

def consecutive (base : ℕ) : List SourceShard → Bool
  | [] => true
  | src :: rest => src.seq = base ∧ consecutive (base + 1) rest

def shardSize (block : List SourceShard) : ℕ :=
  fecLengthPrefixSize + (block.map (·.payload.length)).foldr max 0

def parityCount (blockNo dataShards : ℕ) (loss : Float) (ext : Bool) : ℕ :=
  let wanted := fecParityForLossExt loss ext
  let wanted := if blockNo ≤ fecBootstrapBlocks ∧ wanted < 1 then 1 else wanted
  min (min wanted (dataShards - 1)) (maxParity ext)

def parityShardsOf (code : ErasureCode UInt8) (base m : ℕ) (block : List SourceShard) :
    List ParityShard :=
  (code.encode block.length m (block.map fun src => shard (shardSize block) src.payload)).mapIdx
    fun i data =>
      { baseSeq := base, dataShards := block.length, parityShards := m, index := i, data := data }

def FecSender.emitBlock (code : ErasureCode UInt8) (s : FecSender) (block : List SourceShard)
    (loss : Float) : List ParityShard × FecSender :=
  match block with
  | [] => ([], s)
  | first :: _ =>
    if consecutive first.seq block = false ∨ udpcMaxData < shardSize block ∨ s.closed then ([], s)
    else
      let s := { s with blocks := s.blocks + 1 }
      let m := parityCount s.blocks block.length loss s.extParity
      if m = 0 ∨ code.supported block.length m = false then ([], s)
      else (parityShardsOf code first.seq m block, s)

structure RecvBlock where
  baseSeq : ℕ
  dataShards : ℕ
  parityShards : ℕ
  shardSize : ℕ
  parity : List (Option Bytes)
  updatedAt : ℕ

structure FecReceiver where
  recent : SeqMap Bytes
  highest : ℕ
  lastPrune : ℕ
  blocks : SeqMap RecvBlock
  extParity : Bool

def newFECReceiverExt (extParity : Bool) : FecReceiver where
  recent := ∅
  highest := 0
  lastPrune := 0
  blocks := ∅
  extParity := extParity

-- The records of a block, as far as they have arrived.
def FecReceiver.arrived (r : FecReceiver) (b : RecvBlock) : List (Option Bytes) :=
  (List.range b.dataShards).map fun i => r.recent.lookup (b.baseSeq + i)

-- The rebuilt records one after another. A shard whose length prefix makes no
-- sense ends the loop; what was cached before it stays.
def FecReceiver.rebuild (b : RecvBlock) (shards : List Bytes) :
    List ℕ → FecReceiver → Option (List SourceShard) × FecReceiver
  | [], r => (some [], r)
  | i :: rest, r =>
    match unshard b.shardSize (shards.getD i []) with
    | none => (none, r)
    | some payload =>
      let later := rebuild b shards rest
        { r with recent := r.recent.insert (b.baseSeq + i) payload }
      (later.1.map ({ seq := b.baseSeq + i, payload := payload } :: ·), later.2)

def FecReceiver.dropBlock (r : FecReceiver) (base : ℕ) : FecReceiver :=
  { r with blocks := r.blocks.erase base }

def FecReceiver.tryRecover (code : ErasureCode UInt8) (r : FecReceiver) (b : RecvBlock) :
    List SourceShard × FecReceiver :=
  let arrived := r.arrived b
  let missing := (List.range b.dataShards).filter fun i => (r.recent.lookup (b.baseSeq + i)).isNone
  if arrived.any (·.any fun p => b.shardSize - fecLengthPrefixSize < p.length) then ([], r)
  else if missing = [] then ([], r.dropBlock b.baseSeq)
  else if arrived.countP (·.isSome) + b.parity.countP (·.isSome) < b.dataShards ∨
      b.parityShards < missing.length then ([], r)
  else if code.supported b.dataShards b.parityShards = false then ([], r)
  else
    match code.reconstructData b.dataShards b.parityShards
        (arrived.map (·.map (shard b.shardSize)) ++ b.parity) with
    | none => ([], r)
    | some shards =>
      match FecReceiver.rebuild b shards missing r with
      | (none, r) => ([], r)
      | (some recovered, r) => (recovered, r.dropBlock b.baseSeq)

def FecReceiver.pruneRecent (r : FecReceiver) : FecReceiver :=
  let r := if fecRecentDataLimit < r.highest ∧ fecDataShardsMax ≤ r.highest - r.lastPrune then
      { r with
        recent := SeqMap.eraseAll r.recent
          ((SeqMap.ascending r.recent).filter (· < r.highest - fecRecentDataLimit))
        lastPrune := r.highest }
    else r
  { r with
    recent := SeqMap.eraseAll r.recent
      ((SeqMap.ascending r.recent).take (SeqMap.size r.recent - fecRecentDataHardLimit)) }

-- The oldest block in the order a scan of the map meets them.
def oldestBlock (blocks : SeqMap RecvBlock) (scan : List ℕ) : Option ℕ :=
  scan.foldl
    (fun best base =>
      match blocks.lookup base, best.bind blocks.lookup with
      | none, _ => best
      | some _, none => some base
      | some b, some oldest => if b.updatedAt < oldest.updatedAt then some base else best)
    none

def evictOldest (scan : List ℕ) : ℕ → SeqMap RecvBlock → SeqMap RecvBlock
  | 0, blocks => blocks
  | n + 1, blocks =>
    if fecMaxPendingBlocks < SeqMap.size blocks then
      match oldestBlock blocks scan with
      | none => blocks
      | some base => evictOldest scan n (blocks.erase base)
    else blocks

def FecReceiver.pruneBlocks (r : FecReceiver) (now : ℕ) (scan : List ℕ) : FecReceiver :=
  let live := SeqMap.eraseAll r.blocks
    ((SeqMap.ascending r.blocks).filter fun base =>
      (r.blocks.lookup base).any fun b => fecBlockTTL < now - b.updatedAt)
  { r with blocks := evictOldest scan (SeqMap.size live) live }

-- The end is a uint64, which is zero for a block that ends at the last sequence number.
def RecvBlock.contains (b : RecvBlock) (seq : ℕ) : Bool :=
  b.baseSeq ≤ seq ∧ seq < (b.baseSeq + b.dataShards) % 2 ^ 64

def FecReceiver.tryBlocks (code : ErasureCode UInt8) (seq : ℕ) :
    List ℕ → FecReceiver → List SourceShard × FecReceiver
  | [], r => ([], r)
  | base :: rest, r =>
    match r.blocks.lookup base with
    | none => tryBlocks code seq rest r
    | some b =>
      if b.contains seq then
        let tried := r.tryRecover code b
        let later := tryBlocks code seq rest tried.2
        (tried.1 ++ later.1, later.2)
      else tryBlocks code seq rest r

def sortRecovered (out : List SourceShard) : List SourceShard :=
  out.insertionSort fun a b => a.seq ≤ b.seq

-- `scan` is the order in which the map of blocks is walked, and `evict` the one
-- in which it is searched for the oldest.
def FecReceiver.onData (code : ErasureCode UInt8) (r : FecReceiver) (seq : ℕ) (payload : Bytes)
    (now : ℕ) (scan evict : List ℕ) : List SourceShard × FecReceiver :=
  if seq = 0 then ([], r)
  else
    let r := if seq ∈ r.recent then r else
      { r with recent := r.recent.insert seq payload, highest := max r.highest seq }
    let tried := FecReceiver.tryBlocks code seq scan r.pruneRecent
    (sortRecovered tried.1, tried.2.pruneBlocks now evict)

def FecReceiver.onParityFrame (code : ErasureCode UInt8) (r : FecReceiver) (frame : UDPCFrame)
    (now : ℕ) (evict : List ℕ) : List SourceShard × FecReceiver :=
  match parseFECParityFrameExt frame r.extParity with
  | .error _ => ([], r)
  | .ok p =>
    let block := (r.blocks.lookup p.baseSeq).getD
      { baseSeq := p.baseSeq, dataShards := p.dataShards, parityShards := p.parityShards,
        shardSize := p.data.length, parity := List.replicate p.parityShards none, updatedAt := now }
    if block.dataShards ≠ p.dataShards ∨ block.parityShards ≠ p.parityShards ∨
        block.shardSize ≠ p.data.length then ([], r)
    else
      let parity := if (block.parity.getD p.index none).isNone then
          block.parity.set p.index (some p.data)
        else block.parity
      let block := { block with updatedAt := now, parity := parity }
      let tried := FecReceiver.tryRecover code { r with blocks := r.blocks.insert p.baseSeq block } block
      (sortRecovered tried.1, tried.2.pruneBlocks now evict)

end UdpCustom.Fec
