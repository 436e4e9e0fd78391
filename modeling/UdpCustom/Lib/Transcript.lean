import Mathlib.Data.List.Induction

-- A running hash over a sequence of messages: each step hashes the last digest with the
-- next message behind it.
namespace Transcript

variable {α : Type*} (hash : List α → List α)

def digest (h : List α) (msgs : List (List α)) : List α :=
  msgs.foldl (fun h m => hash (h ++ m)) h

-- What is hashed on the way.
def inputs (h : List α) : List (List α) → List (List α)
  | [] => []
  | m :: msgs => (h ++ m) :: inputs (hash (h ++ m)) msgs

def CollisionFree (S : List (List α)) : Prop :=
  ∀ x ∈ S, ∀ y ∈ S, hash x = hash y → x = y

variable {hash}

theorem digest_concat (h : List α) (msgs : List (List α)) (m : List α) :
    digest hash h (msgs ++ [m]) = hash (digest hash h msgs ++ m) := by
  unfold digest
  rw [List.foldl_append]
  rfl

theorem inputs_append (h : List α) (msgs more : List (List α)) :
    inputs hash h (msgs ++ more) = inputs hash h msgs ++ inputs hash (digest hash h msgs) more := by
  induction msgs generalizing h with
  | nil => rfl
  | cons m msgs ih => exact congrArg _ (ih _)

theorem length_digest {n : ℕ} (hlen : ∀ x, (hash x).length = n) {h : List α} (hh : h.length = n)
    (msgs : List (List α)) : (digest hash h msgs).length = n := by
  induction msgs generalizing h with
  | nil => exact hh
  | cons m msgs ih => exact ih (hlen _)

theorem inputs_subset_of_concat {h : List α} {S xs : List (List α)} {x : List α}
    (hx : inputs hash h (xs ++ [x]) ⊆ S) : inputs hash h xs ⊆ S := by
  rw [inputs_append] at hx
  exact List.Subset.trans (List.subset_append_left _ _) hx

section CollisionFree

variable {n : ℕ} (hlen : ∀ x, (hash x).length = n) {h : List α} (hh : h.length = n)
  {S : List (List α)} (hfree : CollisionFree hash S)

include hlen hh hfree

-- Equal digests come from equal digests and equal last messages.
theorem of_digest_concat_eq {xs ys : List (List α)} {x y : List α}
    (hx : inputs hash h (xs ++ [x]) ⊆ S) (hy : inputs hash h (ys ++ [y]) ⊆ S)
    (heq : digest hash h (xs ++ [x]) = digest hash h (ys ++ [y])) :
    digest hash h xs = digest hash h ys ∧ x = y := by
  have hlast : ∀ msgs m, inputs hash h (msgs ++ [m]) ⊆ S → digest hash h msgs ++ m ∈ S := by
    intro msgs m hin
    rw [inputs_append] at hin
    exact hin (List.mem_append_right _ (List.mem_singleton.2 rfl))
  rw [digest_concat, digest_concat] at heq
  exact List.append_inj (hfree _ (hlast xs x hx) _ (hlast ys y hy) heq)
    ((length_digest hlen hh xs).trans (length_digest hlen hh ys).symm)

theorem digest_injective {xs ys : List (List α)} (hx : inputs hash h xs ⊆ S)
    (hy : inputs hash h ys ⊆ S) (heq : digest hash h xs = digest hash h ys)
    (hsame : xs.length = ys.length) : xs = ys := by
  induction xs using List.reverseRecOn generalizing ys with
  | nil => exact (List.length_eq_zero_iff.1 hsame.symm).symm
  | append_singleton xs x ih =>
      cases ys using List.reverseRecOn with
      | nil => simp at hsame
      | append_singleton ys y =>
          obtain ⟨hinit, rfl⟩ := of_digest_concat_eq hlen hh hfree hx hy heq
          rw [List.length_append, List.length_append] at hsame
          rw [ih (inputs_subset_of_concat hx) (inputs_subset_of_concat hy) hinit
            (Nat.add_right_cancel hsame)]

end CollisionFree

end Transcript
