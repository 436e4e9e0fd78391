import Mathlib.Algebra.Group.Nat.Defs
import Mathlib.Data.Nat.Basic
import Mathlib.Order.Lattice
import Mathlib.Tactic.SplitIfs

-- Whether a cumulative ACK deserves a datagram of its own. Times are in
-- nanoseconds.
namespace UdpCustom.Coalesce

def ackMaxCoalesce : ℕ := 100 * 10 ^ 6
def ackGapUrgent : ℕ := 3

def ackCoalesceInterval (srtt : ℕ) : ℕ :=
  min (max (srtt / 2) (10 ^ 6)) ackMaxCoalesce

-- `lastAt = none` is the zero time, longer ago than any interval.
structure AckCoalescer where
  lastValue : ℕ
  lastAt : Option ℕ
  pending : ℕ
  deriving DecidableEq

def AckCoalescer.zero : AckCoalescer where
  lastValue := 0
  lastAt := none
  pending := 0

def AckCoalescer.Elapsed (c : AckCoalescer) (now iv : ℕ) : Prop :=
  ∀ t ∈ c.lastAt, iv ≤ now - t

instance (c : AckCoalescer) (now iv : ℕ) : Decidable (c.Elapsed now iv) := by
  unfold AckCoalescer.Elapsed
  infer_instance

def AckCoalescer.commitLocked (c : AckCoalescer) (ackSeq now : ℕ) : AckCoalescer where
  lastValue := max c.lastValue ackSeq
  lastAt := some now
  pending := 0

def AckCoalescer.commitSent (c : AckCoalescer) (ackSeq : ℕ) : AckCoalescer :=
  if ackSeq = 0 then c
  else { c with
    lastValue := max c.lastValue ackSeq
    pending := if c.pending ≤ ackSeq then 0 else c.pending }

def AckCoalescer.claim (c : AckCoalescer) (ackSeq iv : ℕ) (urgent : Bool) (now : ℕ) :
    Bool × AckCoalescer :=
  if urgent then (true, c.commitLocked ackSeq now)
  else if ackSeq = 0 ∨ ackSeq ≤ c.lastValue then (false, c)
  else if c.Elapsed now iv then (true, c.commitLocked ackSeq now)
  else (false, { c with pending := max c.pending ackSeq })

def AckCoalescer.Due (c : AckCoalescer) (iv now : ℕ) : Prop :=
  c.pending ≠ 0 ∧ c.lastValue < c.pending ∧ c.Elapsed now iv

instance (c : AckCoalescer) (iv now : ℕ) : Decidable (c.Due iv now) := by
  unfold AckCoalescer.Due
  infer_instance

-- The advance that may go out now, zero for none, and how long the next one
-- is still held back.
def AckCoalescer.flushDue (c : AckCoalescer) (iv now : ℕ) : (ℕ × ℕ) × AckCoalescer :=
  if c.Due iv now then ((c.pending, 0), c.commitLocked c.pending now)
  else if c.pending = 0 ∨ c.pending ≤ c.lastValue then ((0, 0), c)
  else ((0, iv - (now - c.lastAt.getD 0)), c)

-- Everything the coalescer knows stays at or below `n`.
def AckCoalescer.Below (c : AckCoalescer) (n : ℕ) : Prop :=
  c.lastValue ≤ n ∧ c.pending ≤ n

variable {c : AckCoalescer}

theorem AckCoalescer.Below.mono {n m : ℕ} (h : c.Below n) (hnm : n ≤ m) :
    c.Below m :=
  ⟨h.1.trans hnm, h.2.trans hnm⟩

theorem below_commitLocked {n a : ℕ} (h : c.Below n) (ha : a ≤ n) (now : ℕ) :
    (c.commitLocked a now).Below n :=
  ⟨max_le h.1 ha, Nat.zero_le _⟩

theorem below_commitSent {n a : ℕ} (h : c.Below n) (ha : a ≤ n) :
    (c.commitSent a).Below n := by
  unfold AckCoalescer.commitSent
  split_ifs
  · exact h
  · exact ⟨max_le h.1 ha, Nat.zero_le _⟩
  · exact ⟨max_le h.1 ha, h.2⟩

theorem below_claim {n a : ℕ} (h : c.Below n) (ha : a ≤ n) (iv : ℕ)
    (urgent : Bool) (now : ℕ) : (c.claim a iv urgent now).2.Below n := by
  unfold AckCoalescer.claim
  split_ifs
  · exact below_commitLocked h ha now
  · exact h
  · exact below_commitLocked h ha now
  · exact ⟨h.1, max_le h.2 ha⟩

theorem below_flushDue {n : ℕ} (h : c.Below n) (iv now : ℕ) :
    (c.flushDue iv now).2.Below n := by
  unfold AckCoalescer.flushDue
  split_ifs
  · exact below_commitLocked h h.2 now
  · exact h
  · exact h

@[simp] theorem lastValue_commitSent (c : AckCoalescer) (a : ℕ) :
    (c.commitSent a).lastValue = max c.lastValue a := by
  unfold AckCoalescer.commitSent
  split
  · rename_i h
    rw [h, Nat.max_zero]
  · rfl

@[simp] theorem lastAt_commitSent (c : AckCoalescer) (a : ℕ) :
    (c.commitSent a).lastAt = c.lastAt := by
  unfold AckCoalescer.commitSent
  split_ifs <;> rfl

theorem pending_commitSent {a : ℕ} (h : a < c.pending) :
    (c.commitSent a).pending = c.pending := by
  unfold AckCoalescer.commitSent
  split_ifs
  · rfl
  · omega
  · rfl

-- A claim without urgency after a quiet interval succeeds exactly if it is news.
theorem claim_quiet_iff {a iv now : ℕ} (hquiet : c.Elapsed now iv) (ha : 0 < a) (urgent : Bool) :
    (c.claim a iv urgent now).1 = true ↔ urgent = true ∨ c.lastValue < a := by
  unfold AckCoalescer.claim
  split_ifs with hu hold
  · simp [hu]
  · simp only [hu, Bool.false_eq_true, false_or, false_iff]
    omega
  · simp only [true_iff]
    omega

-- A claim refused after a quiet interval has left the coalescer as it was.
theorem claim_quiet_refused {a iv now : ℕ} {urgent : Bool}
    (hquiet : c.Elapsed now iv) (h : (c.claim a iv urgent now).1 = false) :
    (c.claim a iv urgent now).2 = c := by
  unfold AckCoalescer.claim at h ⊢
  split_ifs at h ⊢
  rfl

theorem flushDue_stale (h : c.pending ≤ c.lastValue) (iv now : ℕ) :
    (c.flushDue iv now).1.1 = 0 := by
  unfold AckCoalescer.flushDue
  split_ifs with hdue
  · exact absurd hdue.2.1 (Nat.not_lt.2 h)
  · rfl
  · rfl

end UdpCustom.Coalesce
