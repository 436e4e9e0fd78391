import Mathlib.Algebra.Order.Field.Rat
import Mathlib.Data.List.Perm.Basic

-- The per-source limit on SYNs. Times are in nanoseconds, tokens exact.
namespace UdpCustom.Limiter

open scoped List

def synRatePerSec : ℚ := 5
def synBurst : ℚ := 20
def synLimiterMaxBuckets : ℕ := 1024

-- `d.Seconds()`
def seconds (d : ℤ) : ℚ := d / 10 ^ 9

-- A `synBucket` with the source it is filed under.
structure SynBucket (IP : Type) where
  ip : IP
  tokens : ℚ
  last : ℤ

structure SynLimiter (IP : Type) where
  buckets : List (SynBucket IP)
  rate : ℚ
  burst : ℚ

def newSynLimiter {IP : Type} (ratePerSec burst : ℚ) : SynLimiter IP where
  buckets := []
  rate := if ratePerSec ≤ 0 then 5 else ratePerSec
  burst := if burst < 1 then 10 else burst

-- The order in which a range over the map meets its buckets.
abbrev Walk (IP : Type) :=
  { walk : List (SynBucket IP) → List (SynBucket IP) // ∀ buckets, walk buckets ~ buckets }

variable {IP : Type}

def SynBucket.idle (now : ℤ) (b : SynBucket IP) : Bool :=
  60 * 10 ^ 9 < now - b.last

def older (best : Option (SynBucket IP)) (b : SynBucket IP) : Option (SynBucket IP) :=
  match best with
  | none => some b
  | some oldest => if b.last < oldest.last then some b else some oldest

def oldestBucket (buckets : List (SynBucket IP)) : Option (SynBucket IP) :=
  buckets.foldl older none

-- The bucket that has to go although it is not idle, if the map is full of such.
def SynLimiter.victim (l : SynLimiter IP) (walk : Walk IP) (now : ℤ) : Option (SynBucket IP) :=
  let kept := l.buckets.filter fun b => !b.idle now
  if synLimiterMaxBuckets ≤ l.buckets.length ∧ synLimiterMaxBuckets ≤ kept.length then
    oldestBucket (walk.1 kept)
  else none

def SynBucket.refill (rate burst : ℚ) (now : ℤ) (b : SynBucket IP) : SynBucket IP :=
  let tokens := b.tokens + seconds (now - b.last) * rate
  { b with tokens := if burst < tokens then burst else tokens, last := now }

def SynBucket.take (b : SynBucket IP) : Bool × SynBucket IP :=
  if b.tokens < 1 then (false, b) else (true, { b with tokens := b.tokens - 1 })

variable [DecidableEq IP]

def SynLimiter.makeRoom (l : SynLimiter IP) (walk : Walk IP) (now : ℤ) : List (SynBucket IP) :=
  if synLimiterMaxBuckets ≤ l.buckets.length then
    let kept := l.buckets.filter fun b => !b.idle now
    match l.victim walk now with
    | none => kept
    | some oldest => kept.filter (·.ip ≠ oldest.ip)
  else l.buckets

def SynLimiter.find (l : SynLimiter IP) (ip : IP) : Option (SynBucket IP) :=
  l.buckets.find? (·.ip = ip)

def SynLimiter.allow (l : SynLimiter IP) (walk : Walk IP) (ip : IP) (now : ℤ) : Bool × SynLimiter IP :=
  match l.find ip with
  | some b =>
    let taken := (b.refill l.rate l.burst now).take
    (taken.1, { l with buckets := l.buckets.map fun o => if o.ip = ip then taken.2 else o })
  | none =>
    let b : SynBucket IP := { ip := ip, tokens := l.burst, last := now }
    let taken := (b.refill l.rate l.burst now).take
    (taken.1, { l with buckets := taken.2 :: l.makeRoom walk now })

-- The source whose bucket a call throws out as the least recently used.
def SynLimiter.evicted (l : SynLimiter IP) (walk : Walk IP) (ip : IP) (now : ℤ) : Option IP :=
  match l.find ip with
  | some _ => none
  | none => (l.victim walk now).map (·.ip)

structure Call (IP : Type) where
  ip : IP
  now : ℤ
  walk : Walk IP

structure Outcome (IP : Type) where
  ip : IP
  now : ℤ
  accepted : Bool
  evicted : Option IP
  buckets : ℕ

def SynLimiter.outcome (l : SynLimiter IP) (call : Call IP) : Outcome IP where
  ip := call.ip
  now := call.now
  accepted := (l.allow call.walk call.ip call.now).1
  evicted := l.evicted call.walk call.ip call.now
  buckets := (l.allow call.walk call.ip call.now).2.buckets.length

def SynLimiter.trace (l : SynLimiter IP) : List (Call IP) → List (Outcome IP)
  | [] => []
  | call :: rest => l.outcome call :: trace (l.allow call.walk call.ip call.now).2 rest

-- The SYNs of a source accepted from `a` to `b`.
def accepted (outcomes : List (Outcome IP)) (ip : IP) (a b : ℤ) : ℕ :=
  outcomes.countP fun o => o.ip = ip ∧ o.accepted ∧ a ≤ o.now ∧ o.now ≤ b

end UdpCustom.Limiter
