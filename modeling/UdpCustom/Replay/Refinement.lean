import UdpCustom.Lib.Calls
import UdpCustom.Replay.Theorems
import Mathlib.Data.Finset.Basic

namespace UdpCustom.Replay

-- What the filter is for: the newest number ever accepted, and every accepted
-- number that was not taken back.
structure Reference where
  newest : Option ℕ
  accepted : Finset ℕ

namespace Reference

def empty : Reference where
  newest := none
  accepted := ∅

-- Within the window below the newest number, in exact arithmetic.
def Recent (r : Reference) (n : ℕ) : Prop :=
  ∀ m ∈ r.newest, (m : ℤ) - 4096 < n

def Accepts (r : Reference) (n : ℕ) : Prop :=
  0 < n ∧ r.Recent n ∧ n ∉ r.accepted

def InWindow (r : Reference) (n : ℕ) : Prop :=
  r.Recent n ∧ ∃ m ∈ r.newest, n ≤ m

instance (r : Reference) (n : ℕ) : Decidable (r.Recent n) := by
  unfold Recent
  infer_instance

instance (r : Reference) (n : ℕ) : Decidable (r.Accepts n) := by
  unfold Accepts
  infer_instance

instance (r : Reference) (n : ℕ) : Decidable (r.InWindow n) := by
  unfold InWindow
  infer_instance

def add (r : Reference) (n : ℕ) : Reference :=
  if r.Accepts n then
    { newest := some (max n (r.newest.getD 0)), accepted := insert n r.accepted }
  else r

def delete (r : Reference) (n : ℕ) : Reference :=
  if r.InWindow n then { r with accepted := r.accepted.erase n } else r

def call (r : Reference) : Call → Option Bool × Reference
  | .accept n => (some (r.Accepts n), r.add n)
  | .checkAndAdd n => (some (¬r.Accepts n), r.add n)
  | .seen n => (some (¬r.Accepts n), r)
  | .remove n => (none, r.delete n)

end Reference

-- The bitmap and the set agree on every number the window still covers.
structure Tracks (rf : ReplayFilter) (r : Reference) : Prop where
  newest : r.newest = if rf.seenMax then some rf.maxSeq else none
  accepted : ∀ n, ¬rf.Behind n → (n ∈ r.accepted ↔ rf.Recorded n)
  pos : 0 ∉ r.accepted

theorem tracks_new : Tracks ReplayFilter.new Reference.empty where
  newest := rfl
  accepted := fun n _ => iff_of_false (Finset.notMem_empty n) (not_recorded_new n)
  pos := Finset.notMem_empty 0

namespace Tracks

variable {rf : ReplayFilter} {r : Reference}

theorem recent_iff (h : Tracks rf r) (n : ℕ) : r.Recent n ↔ ¬rf.Behind n := by
  have hwindow : replayWindowPackets = 4096 := rfl
  unfold Reference.Recent ReplayFilter.Behind
  rw [h.newest, hwindow]
  cases rf.seenMax with
  | false => simp
  | true =>
      simp only [ite_true, Option.mem_some_iff, forall_eq', true_and]
      omega

theorem accepts_iff (h : Tracks rf r) (n : ℕ) : r.Accepts n ↔ (rf.accept n).1 = true := by
  unfold Reference.Accepts
  rw [accept_iff, h.recent_iff, Nat.pos_iff_ne_zero]
  constructor
  · rintro ⟨hzero, hrecent, hnew⟩
    exact ⟨hzero, hrecent, fun hrec => hnew ((h.accepted n hrecent).2 hrec)⟩
  · rintro ⟨hzero, hrecent, hnew⟩
    exact ⟨hzero, hrecent, fun hmem => hnew ((h.accepted n hrecent).1 hmem)⟩

theorem decide_accepts (h : Tracks rf r) (n : ℕ) : decide (r.Accepts n) = (rf.accept n).1 := by
  rw [Bool.eq_iff_iff, decide_eq_true_iff]
  exact h.accepts_iff n

theorem decide_refuses (h : Tracks rf r) (n : ℕ) : decide (¬r.Accepts n) = !(rf.accept n).1 := by
  rw [decide_not, h.decide_accepts]

theorem add (h : Tracks rf r) (n : ℕ) : Tracks (rf.accept n).2 (r.add n) := by
  unfold Reference.add
  split_ifs with hacc
  · have hcode := (h.accepts_iff n).1 hacc
    refine ⟨?_, fun m hm => ?_, ?_⟩
    · obtain ⟨hseen, hmax⟩ := newest_accept hcode
      rw [hseen, hmax, h.newest]
      cases rf.seenMax with
      | false => simp
      | true => simp
    · rw [recorded_accept hcode, Finset.mem_insert, and_iff_left hm]
      have hbefore : ¬rf.Behind m := fun hb => hm ((behind_accept hcode m).2 (.inl hb))
      rw [h.accepted m hbefore]
    · rw [Finset.mem_insert, not_or]
      exact ⟨hacc.1.ne, h.pos⟩
  · have hcode : (rf.accept n).1 = false := by
      rw [← Bool.not_eq_true, ← h.accepts_iff n]
      exact hacc
    rw [accept_false hcode]
    exact h

theorem delete (h : Tracks rf r) (n : ℕ) : Tracks (rf.remove n) (r.delete n) := by
  have hnewest : (r.delete n).newest = r.newest := by
    unfold Reference.delete
    split_ifs <;> rfl
  have hmem : ∀ m, ¬rf.Behind m → (m ∈ (r.delete n).accepted ↔ rf.Recorded m ∧ m ≠ n) := by
    intro m hm
    unfold Reference.delete
    split_ifs with hin
    · rw [Finset.mem_erase, and_comm, h.accepted m hm]
    · rw [h.accepted m hm]
      refine ⟨fun hrec => ⟨hrec, ?_⟩, fun hrec => hrec.1⟩
      -- a recorded number is in the window
      rintro rfl
      refine hin ⟨(h.recent_iff m).2 hm, rf.maxSeq, ?_, hrec.2.1⟩
      rw [h.newest, hrec.1]
      rfl
  refine ⟨?_, fun m hm => ?_, ?_⟩
  · rw [hnewest, h.newest]
    unfold ReplayFilter.remove
    split_ifs <;> rfl
  · rw [behind_remove] at hm
    rw [hmem m hm]
    by_cases hn : n = 0
    · rw [hn, ReplayFilter.remove, if_pos rfl, and_iff_left_iff_imp, ← h.accepted m hm]
      rintro hacc rfl
      exact h.pos hacc
    · rw [recorded_remove rf hn]
  · unfold Reference.delete
    split_ifs with hin
    · exact fun hacc => h.pos (Finset.mem_of_mem_erase hacc)
    · exact h.pos

end Tracks

theorem simulates : Calls.Simulates Tracks ReplayFilter.call Reference.call where
  result := by
    intro rf r h c
    cases c with
    | accept n => exact congrArg some (h.decide_accepts n).symm
    | checkAndAdd n => exact congrArg some (h.decide_refuses n).symm
    | seen n => exact congrArg some ((seen_eq rf n).trans (h.decide_refuses n).symm)
    | remove n => rfl
  keeps := by
    intro rf r h c
    cases c with
    | accept n => exact h.add n
    | checkAndAdd n => exact h.add n
    | seen n => exact h
    | remove n => exact h.delete n

theorem results_eq_reference (calls : List Call) :
    Calls.results ReplayFilter.call .new calls = Calls.results Reference.call .empty calls :=
  simulates.results_eq tracks_new calls

end UdpCustom.Replay
