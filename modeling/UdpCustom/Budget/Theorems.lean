import UdpCustom.Budget
import UdpCustom.Lib.Transition
import Mathlib.Data.Int.Basic

-- What the records a server session accepts do to its frame budget, for calls
-- with any numbers: the two sizes are atomic 32-bit integers.
namespace UdpCustom.Budget

open UdpCustom.Frame UdpCustom.Mtu Transition

def int32 (n : ℤ) : ℤ := n.bmod (2 ^ 32)

theorem int32_of_lt {n : ℤ} (hlow : 0 ≤ n) (hhigh : n < 2 ^ 31) : int32 n = n :=
  Int.bmod_eq_of_le (by omega) (by omega)

structure SessionBudget where
  maxPkt : ℤ
  observedPayload : ℤ
  deriving DecidableEq

def SessionBudget.initial : SessionBudget where
  maxPkt := 0
  observedPayload := 0

-- The client's word that the path got narrower.
def SessionBudget.Shrinks (limit : SendCap) (b : SessionBudget) (n : ℤ) : Prop :=
  0 < b.maxPkt ∧ clampCommit limit n < b.maxPkt

instance (limit : SendCap) (b : SessionBudget) (n : ℤ) : Decidable (b.Shrinks limit n) := by
  unfold SessionBudget.Shrinks
  infer_instance

def SessionBudget.applyMtuCommit (limit : SendCap) (b : SessionBudget) (n : ℤ) : SessionBudget :=
  if b.maxPkt ≠ 0 ∧ b.maxPkt = clampCommit limit n then b
  else
    { maxPkt := int32 (clampCommit limit n)
      observedPayload := if b.Shrinks limit n then 0 else b.observedPayload }

def SessionBudget.noteObservedPayload (b : SessionBudget) (n : ℤ) : SessionBudget :=
  if n ≤ 0 ∨ n ≤ b.observedPayload then b else { b with observedPayload := int32 n }

-- The budget before what the client has been seen to send is looked at.
def SessionBudget.committedPayload (limit : SendCap) (fec : Bool) (b : SessionBudget) : ℤ :=
  let ceiling := effectivePayloadCap limit.size
  let budget := if 0 < b.maxPkt ∧ payloadCap b.maxPkt < ceiling then payloadCap b.maxPkt else ceiling
  if fec then fecDataPayloadCap budget else budget

def SessionBudget.maxPayload (limit : SendCap) (fec : Bool) (b : SessionBudget) : ℤ :=
  if b.committedPayload limit fec < b.observedPayload ∧
      b.observedPayload ≤ effectivePayloadCap limit.size then b.observedPayload
  else b.committedPayload limit fec

-- `FrameBudget` is this budget as long as no length reaches 2 ^ 31, and a record
-- is far shorter.
def FrameBudget.session (b : FrameBudget) : SessionBudget where
  maxPkt := b.maxPkt
  observedPayload := b.observedPayload

theorem clampCommit_bounds (limit : SendCap) (n : ℤ) :
    maxPktFloor ≤ clampCommit limit n ∧ clampCommit limit n ≤ limit.size := by
  have hlow := limit.floor_le
  unfold clampCommit
  dsimp only
  split_ifs <;> omega

theorem int32_clampCommit (limit : SendCap) (n : ℤ) :
    int32 (clampCommit limit n) = clampCommit limit n := by
  obtain ⟨hlow, hhigh⟩ := clampCommit_bounds limit n
  have hceiling := limit.le_ceiling
  simp only [maxPktFloor, maxPktCeiling, udpcHdrSize, udpcTrailerSize, udpcMaxPkt] at hlow hceiling
  exact int32_of_lt (by omega) (by omega)

theorem observedPayload_session (b : FrameBudget) :
    b.session.observedPayload = b.observedPayload := rfl

-- A repeated commit stores what is stored already.
theorem applyMtuCommit_eq (limit : SendCap) (b : SessionBudget) (n : ℤ) :
    b.applyMtuCommit limit n =
      { maxPkt := clampCommit limit n
        observedPayload := if b.Shrinks limit n then 0 else b.observedPayload } := by
  unfold SessionBudget.applyMtuCommit
  rw [int32_clampCommit]
  by_cases hsame : b.maxPkt ≠ 0 ∧ b.maxPkt = clampCommit limit n
  · have hgrows : ¬b.Shrinks limit n := fun hshrinks => by
      have := hshrinks.2
      omega
    rw [if_pos hsame, if_neg hgrows, ← hsame.2]
  · rw [if_neg hsame]

theorem observedPayload_applyMtuCommit (limit : SendCap) (b : FrameBudget) (n : ℤ) :
    (b.applyMtuCommit limit n).observedPayload =
      if b.session.Shrinks limit n then 0 else b.observedPayload := by
  unfold FrameBudget.applyMtuCommit
  dsimp only [FrameBudget.openMtuGate]
  split
  · rename_i hsame
    have hgrows : ¬b.session.Shrinks limit n := fun hshrinks => by
      have : clampCommit limit n < b.maxPkt := hshrinks.2
      omega
    rw [if_neg hgrows]
  · rfl

theorem session_applyMtuCommit (limit : SendCap) (b : FrameBudget) (n : ℤ) :
    (b.applyMtuCommit limit n).session = b.session.applyMtuCommit limit n := by
  rw [applyMtuCommit_eq, FrameBudget.session, maxPkt_applyMtuCommit,
    observedPayload_applyMtuCommit, SessionBudget.mk.injEq]
  refine ⟨rfl, ?_⟩
  split_ifs <;> rfl

theorem session_noteObservedPayload (b : FrameBudget) {n : ℕ} (hn : n < 2 ^ 31) :
    (b.noteObservedPayload n).session = b.session.noteObservedPayload n := by
  unfold FrameBudget.noteObservedPayload SessionBudget.noteObservedPayload
  rw [int32_of_lt (by omega) (by omega)]
  split
  · rename_i hold
    rw [observedPayload_session] at hold
    rw [Nat.max_eq_left (by omega)]
  · rename_i hnews
    rw [observedPayload_session] at hnews
    rw [Nat.max_eq_right (by omega)]
    rfl

theorem session_maxPayload (limit : SendCap) (fec : Bool) (b : FrameBudget) :
    b.session.maxPayload limit fec = b.maxPayload limit fec :=
  rfl

theorem committedPayload_le (limit : SendCap) (fec : Bool) (b : SessionBudget) :
    b.committedPayload limit fec ≤ effectivePayloadCap limit.size := by
  have hlow := limit.floor_le
  simp only [maxPktFloor, udpcHdrSize, udpcTrailerSize] at hlow
  simp only [SessionBudget.committedPayload, effectivePayloadCap, fecDataPayloadCap, payloadCap,
    udpcHdrSize, udpcTrailerSize, fecLengthPrefixSize]
  split_ifs <;> omega

theorem effectivePayloadCap_pos (limit : SendCap) : 0 < effectivePayloadCap limit.size := by
  have hlow := limit.floor_le
  simp only [maxPktFloor, udpcHdrSize, udpcTrailerSize] at hlow
  simp only [effectivePayloadCap, payloadCap, udpcHdrSize, udpcTrailerSize]
  split_ifs <;> omega

theorem maxPayload_le (limit : SendCap) (fec : Bool) (b : SessionBudget) :
    b.maxPayload limit fec ≤ effectivePayloadCap limit.size := by
  unfold SessionBudget.maxPayload
  split_ifs with hobserved
  · exact hobserved.2
  · exact committedPayload_le limit fec b

theorem le_maxPayload_iff (limit : SendCap) (fec : Bool) (b : SessionBudget) (n : ℤ) :
    n ≤ b.maxPayload limit fec ↔ n ≤ b.committedPayload limit fec ∨
      n ≤ b.observedPayload ∧ b.observedPayload ≤ effectivePayloadCap limit.size := by
  have hcommitted := committedPayload_le limit fec b
  unfold SessionBudget.maxPayload
  split_ifs <;> omega

inductive Call
  | applyMtuCommit (n : ℤ)
  | noteObservedPayload (n : ℤ)

def SessionBudget.after (limit : SendCap) (b : SessionBudget) : Call → SessionBudget
  | .applyMtuCommit n => b.applyMtuCommit limit n
  | .noteObservedPayload n => b.noteObservedPayload n

def FrameBudget.after (limit : SendCap) (b : FrameBudget) : Call → FrameBudget
  | .applyMtuCommit n => b.applyMtuCommit limit n
  | .noteObservedPayload n => b.noteObservedPayload n.toNat

theorem maxPayload_calls (limit : SendCap) (fec : Bool) (b : FrameBudget) {calls : List Call}
    (h : ∀ n, .noteObservedPayload n ∈ calls → 0 ≤ n ∧ n < 2 ^ 31) :
    (calls.foldl (FrameBudget.after limit) b).maxPayload limit fec =
      (calls.foldl (SessionBudget.after limit) b.session).maxPayload limit fec := by
  induction calls generalizing b with
  | nil => exact (session_maxPayload limit fec b).symm
  | cons call rest ih =>
      have hstep : (b.after limit call).session = b.session.after limit call := by
        cases call with
        | applyMtuCommit n => exact session_applyMtuCommit limit b n
        | noteObservedPayload n =>
            obtain ⟨hlow, hhigh⟩ := h n List.mem_cons_self
            have hnote := session_noteObservedPayload b (n := n.toNat) (by omega)
            rwa [Int.toNat_of_nonneg hlow] at hnote
      rw [List.foldl_cons, List.foldl_cons, ← hstep]
      exact ih _ fun n hn => h n (List.mem_cons_of_mem _ hn)

-- A budget with the lengths accepted since the last shrinking commit, newest first.
structure History where
  budget : SessionBudget
  accepted : List ℤ
  deriving DecidableEq

def History.after (limit : SendCap) (s : History) (call : Call) : History where
  budget := s.budget.after limit call
  accepted :=
    match call with
    | .applyMtuCommit n => if s.budget.Shrinks limit n then [] else s.accepted
    | .noteObservedPayload n => n :: s.accepted

def system (limit : SendCap) : System History Call where
  init s := s = ⟨.initial, []⟩
  next s call := some (s.after limit call)

-- The high-water mark that a sequence of lengths leaves, newest first.
def mark : List ℤ → ℤ
  | [] => 0
  | n :: earlier => if n ≤ 0 ∨ n ≤ mark earlier then mark earlier else int32 n

theorem observedPayload_eq_mark {limit : SendCap} {s : History} (h : Reachable (system limit) s) :
    s.budget.observedPayload = mark s.accepted := by
  refine h.invariant (I := fun s => s.budget.observedPayload = mark s.accepted) ?_
    fun s call s' hmark _ hst => ?_
  · rintro s rfl
    rfl
  · obtain rfl := Option.some.inj hst
    cases call with
    | applyMtuCommit n =>
        simp only [History.after, SessionBudget.after, applyMtuCommit_eq]
        split_ifs
        · rfl
        · exact hmark
    | noteObservedPayload n =>
        simp only [History.after, SessionBudget.after, SessionBudget.noteObservedPayload, mark,
          ← hmark]
        split_ifs <;> rfl

-- Below 2 ^ 31 the mark is the largest length.
theorem mark_spec {accepted : List ℤ} (h : ∀ n ∈ accepted, n < 2 ^ 31) :
    0 ≤ mark accepted ∧ (∀ n ∈ accepted, n ≤ mark accepted) ∧
      (mark accepted = 0 ∨ mark accepted ∈ accepted) := by
  induction accepted with
  | nil => exact ⟨le_rfl, (fun n hn => by cases hn), .inl rfl⟩
  | cons n earlier ih =>
      obtain ⟨hpos, hall, hmem⟩ := ih fun m hm => h m (List.mem_cons_of_mem _ hm)
      have hn := h n List.mem_cons_self
      unfold mark
      split_ifs with hold
      · refine ⟨hpos, fun m hm => ?_, hmem.imp id (List.mem_cons_of_mem _)⟩
        rcases List.mem_cons.1 hm with rfl | hm
        · omega
        · exact hall m hm
      · rw [int32_of_lt (by omega) hn]
        refine ⟨by omega, fun m hm => ?_, .inr List.mem_cons_self⟩
        rcases List.mem_cons.1 hm with rfl | hm
        · exact le_rfl
        · have := hall m hm
          omega

-- Every accepted length within the server's limit may be sent back.
def History.Honours (limit : SendCap) (fec : Bool) (s : History) : Prop :=
  ∀ n ∈ s.accepted, n ≤ effectivePayloadCap limit.size → n ≤ s.budget.maxPayload limit fec

-- The lengths within the limit that the committed size does not cover already.
def History.Uncommitted (limit : SendCap) (fec : Bool) (s : History) (n : ℤ) : Prop :=
  n ∈ s.accepted ∧ n ≤ effectivePayloadCap limit.size ∧ s.budget.committedPayload limit fec < n

theorem honours_iff {limit : SendCap} {s : History} (h : Reachable (system limit) s) (fec : Bool) :
    s.Honours limit fec ↔ ∀ n, s.Uncommitted limit fec n →
      n ≤ mark s.accepted ∧ mark s.accepted ≤ effectivePayloadCap limit.size := by
  unfold History.Honours
  simp only [le_maxPayload_iff, observedPayload_eq_mark h]
  constructor
  · rintro hall n ⟨hmem, hle, hover⟩
    exact (hall n hmem hle).resolve_left (by omega)
  · intro hall n hmem hle
    rcases Int.lt_or_le (s.budget.committedPayload limit fec) n with hover | hfits
    · exact .inr (hall n ⟨hmem, hle, hover⟩)
    · exact .inl hfits

theorem observed_payload_honoured_iff {limit : SendCap} {s : History}
    (h : Reachable (system limit) s) (fec : Bool) :
    s.budget.maxPayload limit fec ≤ effectivePayloadCap limit.size ∧
    (s.Honours limit fec ↔ ∀ n, s.Uncommitted limit fec n →
      n ≤ mark s.accepted ∧ mark s.accepted ≤ effectivePayloadCap limit.size) ∧
    ((∀ n ∈ s.accepted, n < 2 ^ 31) →
      (s.Honours limit fec ↔ (∀ n, ¬s.Uncommitted limit fec n) ∨
        ∀ n ∈ s.accepted, n ≤ effectivePayloadCap limit.size)) := by
  refine ⟨maxPayload_le limit fec s.budget, honours_iff h fec, fun hsmall => ?_⟩
  obtain ⟨_, hall, hmem⟩ := mark_spec hsmall
  rw [honours_iff h fec]
  constructor
  · intro hcovered
    by_cases hnone : ∃ n, s.Uncommitted limit fec n
    · obtain ⟨n, hn⟩ := hnone
      exact .inr fun m hm => (hall m hm).trans (hcovered n hn).2
    · exact .inl fun n hn => hnone ⟨n, hn⟩
  · rintro (hnone | hwithin) n hn
    · exact absurd hn (hnone n)
    · refine ⟨hall n hn.1, ?_⟩
      rcases hmem with hzero | hmem
      · rw [hzero]
        exact (effectivePayloadCap_pos limit).le
      · exact hwithin _ hmem

-- A server for 1000-byte records and a client that committed the smallest size.
def narrowLimit : SendCap where
  size := 1000
  floor_le := by decide
  le_ceiling := by decide

def echoed : History where
  budget := ⟨120, 944⟩
  accepted := [10, 944]

theorem full_record_honoured : (944 : ℤ) ≤ echoed.budget.maxPayload narrowLimit false := by
  have hrun : (system narrowLimit).run ⟨.initial, []⟩
      [.applyMtuCommit 120, .noteObservedPayload 944, .noteObservedPayload 10] = some echoed := rfl
  have hreach : Reachable (system narrowLimit) echoed := (ReachableBy.init rfl).run hrun
  exact ((observed_payload_honoured_iff hreach false).2.2 (by decide)).2 (.inr (by decide)) 944
    (by decide) (by decide)

-- A record one byte above the limit hides the one before it.
theorem larger_record_hides_smaller :
    ∃ s, Reachable (system narrowLimit) s ∧ 944 ∈ s.accepted ∧
      944 ≤ effectivePayloadCap narrowLimit.size ∧ s.budget.maxPayload narrowLimit false = 64 :=
  (system narrowLimit).exists_run (P := fun s => 944 ∈ s.accepted ∧
      944 ≤ effectivePayloadCap narrowLimit.size ∧ s.budget.maxPayload narrowLimit false = 64) rfl
    [.applyMtuCommit 120, .noteObservedPayload 944, .noteObservedPayload 945] (by decide)

end UdpCustom.Budget
