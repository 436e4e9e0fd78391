import UdpCustom.Frame
import UdpCustom.Lib.BitWindow
import UdpCustom.Lib.SeqMap

namespace UdpCustom.Delivery

open UdpCustom.Frame

def deliveryWindow : ℕ := 512
def deliveryWindowWide : ℕ := 4096

def deliveryLimitFor (wide : Bool) : ℕ :=
  if wide then deliveryWindowWide else deliveryWindow

structure OrderedDelivery where
  pending : SeqMap Bytes
  limit : ℕ
  closed : Bool
  delivered : ℕ
  wake : Bool
  limit_pos : 0 < limit
  limit_le : limit ≤ deliveryWindowWide

def newOrderedDelivery (limit : ℕ) : OrderedDelivery where
  pending := ∅
  limit := if limit = 0 ∨ deliveryWindowWide < limit then deliveryWindowWide else limit
  closed := false
  delivered := 0
  wake := false
  limit_pos := by
    split
    · decide
    · omega
  limit_le := by
    split
    · exact Nat.le_refl _
    · omega

-- The answer of `offerObserved`, with the Ack it asks to be sent after it has
-- released the lock: a duplicate of delivered data, or a record beyond a gap.
structure Offered where
  fresh : Bool
  ok : Bool
  ack : Option ℕ
  deriving DecidableEq

def Offered.refused : Offered where
  fresh := false
  ok := false
  ack := none

def OrderedDelivery.offerObserved (d : OrderedDelivery) (seq : ℕ) (payload : Bytes) :
    Offered × OrderedDelivery :=
  if seq = 0 then (.refused, d)
  else if d.closed then (.refused, d)
  else if seq ≤ d.delivered then ({ fresh := false, ok := true, ack := some d.delivered }, d)
  else if seq ∈ d.pending then ({ fresh := false, ok := true, ack := none }, d)
  else if d.limit < seq - d.delivered ∨ d.limit ≤ SeqMap.size d.pending then (.refused, d)
  else
    let pending := d.pending.insert seq payload
    let gap := d.delivered + 1 < seq ∧ d.delivered + 1 ∉ pending
    ({ fresh := true, ok := true, ack := if gap then some d.delivered else none },
      { d with pending := pending, wake := true })

def OrderedDelivery.offer (d : OrderedDelivery) (seq : ℕ) (payload : Bytes) :
    Bool × OrderedDelivery :=
  let (r, d) := d.offerObserved seq payload
  (r.ok, d)

-- What the writer finds to hand on: the record after the delivered prefix.
def OrderedDelivery.head (d : OrderedDelivery) : Option Bytes :=
  if d.closed then none else d.pending.lookup (d.delivered + 1)

def OrderedDelivery.complete (d : OrderedDelivery) (seq : ℕ) : OrderedDelivery :=
  { d with pending := d.pending.erase seq, delivered := seq }

def OrderedDelivery.close (d : OrderedDelivery) : OrderedDelivery :=
  { d with closed := true, pending := ∅ }

def sackWordsWide : ℕ := 64

-- Bit `k` stands for the record `k + 1` above the delivered prefix.
def OrderedDelivery.bitmap (d : OrderedDelivery) : List (BitVec 64) :=
  (List.range d.limit).foldl
    (fun words k => if d.delivered + 1 + k ∈ d.pending then BitWindow.setBit words k else words)
    (List.replicate sackWordsWide 0)

structure Snapshot where
  ack : ℕ
  bitmap : List (BitVec 64)
  credit : ℕ
  deriving DecidableEq

def OrderedDelivery.snapshot (d : OrderedDelivery) : Snapshot where
  ack := d.delivered
  bitmap := d.bitmap
  credit := d.limit - SeqMap.size d.pending

def sackGaps (bitmap : List (BitVec 64)) : ℕ :=
  BitWindow.ones bitmap

-- Where `run`, the sole writer, stands. `done` is the session's close channel.
inductive Writer
  | sleeping
  | draining
  | writing (seq : ℕ) (payload : Bytes)
  | written (seq : ℕ) (payload : Bytes)
  | idling
  | stopped
  deriving DecidableEq

-- One look at the queue: the next record, the idle hook, or the end.
def Writer.drain (d : OrderedDelivery) (done : Bool) : Writer :=
  match d.head with
  | none => .idling
  | some payload => if done then .stopped else .writing (d.delivered + 1) payload

end UdpCustom.Delivery
