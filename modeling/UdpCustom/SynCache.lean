import UdpCustom.Frame

-- The cache that makes a handshake idempotent: one record for each key, reserved
-- while a handshake is under way and completed with the ACK it ended in. Times are
-- in nanoseconds.
namespace UdpCustom.SynCache

def synCacheTTL : ℕ := 600 * 10 ^ 9
def synCacheMax : ℕ := 4096

-- A `synRecord` with the key it is filed under.
structure SynRecord (Key Addr Ack : Type) where
  key : Key
  ackFrame : Option Ack
  createdAt : ℕ
  ownerIP : Addr

structure SynFIFOEntry (Key : Type) where
  key : Key
  createdAt : ℕ

structure Cache (Key Addr Ack : Type) where
  entries : List (SynRecord Key Addr Ack)
  fifo : List (SynFIFOEntry Key)

def newSynCache {Key Addr Ack : Type} : Cache Key Addr Ack where
  entries := []
  fifo := []

variable {Key Addr Ack : Type} [DecidableEq Key] [DecidableEq Addr]

-- What a time of `now` leaves of a record's life.
def SynRecord.fresh (now : ℕ) (rec : SynRecord Key Addr Ack) : Bool :=
  now - rec.createdAt ≤ synCacheTTL

def SynFIFOEntry.names (item : SynFIFOEntry Key) (rec : SynRecord Key Addr Ack) : Bool :=
  rec.key = item.key ∧ rec.createdAt = item.createdAt

-- The loop that pops the oldest items until there is room.
def evict (entries : List (SynRecord Key Addr Ack)) :
    List (SynFIFOEntry Key) → List (SynRecord Key Addr Ack) × List (SynFIFOEntry Key)
  | [] => (entries, [])
  | oldest :: fifo =>
    if synCacheMax ≤ entries.length then
      evict (entries.filter fun rec => !oldest.names rec) fifo
    else (entries, oldest :: fifo)

def Cache.makeSpaceLocked (c : Cache Key Addr Ack) (now : ℕ) : Cache Key Addr Ack :=
  let kept := evict (c.entries.filter (·.fresh now)) c.fifo
  { entries := kept.1
    fifo := if synCacheMax * 2 < kept.2.length then
        kept.2.filter fun item => kept.1.any item.names
      else kept.2 }

def Cache.reserve (c : Cache Key Addr Ack) (key : Key) (now : ℕ) (ip : Addr) : Cache Key Addr Ack :=
  let c := c.makeSpaceLocked now
  { entries := { key := key, ackFrame := none, createdAt := now, ownerIP := ip } :: c.entries
    fifo := c.fifo ++ [{ key := key, createdAt := now }] }

-- The cached ACK, if there is one for this address, and whether the caller owns
-- the key from now on.
def Cache.acquire (c : Cache Key Addr Ack) (key : Key) (now : ℕ) (ip : Addr) :
    (Option Ack × Bool) × Cache Key Addr Ack :=
  match c.entries.find? (·.key = key) with
  | some rec =>
    if rec.fresh now then ((if rec.ownerIP = ip then rec.ackFrame else none, false), c)
    else
      let c := { c with entries := c.entries.filter (·.key ≠ key) }
      ((none, true), c.reserve key now ip)
  | none => ((none, true), c.reserve key now ip)

def SynRecord.publish (ackFrame : Ack) (rec : SynRecord Key Addr Ack) : SynRecord Key Addr Ack :=
  { rec with ackFrame := some (rec.ackFrame.getD ackFrame) }

def Cache.complete (c : Cache Key Addr Ack) (key : Key) (ackFrame : Ack) : Cache Key Addr Ack :=
  { c with entries := c.entries.map fun rec => if rec.key = key then rec.publish ackFrame else rec }

def Cache.abort (c : Cache Key Addr Ack) (key : Key) : Cache Key Addr Ack :=
  { c with entries := c.entries.filter fun rec => ¬(rec.key = key ∧ rec.ackFrame.isNone) }

end UdpCustom.SynCache
