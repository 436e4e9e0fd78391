import Mathlib.Data.List.Perm.Basic
import Mathlib.Data.List.Sort
import Mathlib.Order.MinMax

-- What a pass over a collection finds without depending on the order it is
-- handed the elements in.
namespace Unordered

variable {α β : Type*} {step : Option α → α → Option α}

theorem foldl_min_le_iff [LinearOrder β] (a b : β) (l : List β) :
    l.foldl min a ≤ b ↔ a ≤ b ∨ ∃ x ∈ l, x ≤ b := by
  induction l generalizing a with
  | nil => simp
  | cons x rest ih =>
      rw [List.foldl_cons, ih, min_le_iff]
      simp [or_assoc]

theorem foldl_min_perm [LinearOrder β] {l l' : List β} (h : l.Perm l') (a : β) :
    l.foldl min a = l'.foldl min a :=
  haveI : RightCommutative (min : β → β → β) := ⟨fun a b c => min_right_comm a b c⟩
  h.foldl_eq a

-- A pass that keeps its best candidate or takes the element at hand, and misses no
-- element worth taking while it has none.
theorem exists_foldl_best {P : α → Prop}
    (hstep : ∀ best x, (step best x = best ∧ (P x → best ≠ none)) ∨ (step best x = some x ∧ P x))
    (l : List α) (best : Option α) (h : best ≠ none ∨ ∃ x ∈ l, P x) :
    ∃ o, l.foldl step best = some o ∧ (best = some o ∨ o ∈ l ∧ P o) := by
  induction l generalizing best with
  | nil =>
      obtain ⟨o, rfl⟩ := Option.ne_none_iff_exists'.1 (h.resolve_right nofun)
      exact ⟨o, rfl, .inl rfl⟩
  | cons x rest ih =>
      rw [List.foldl_cons]
      rcases hstep best x with ⟨hkept, hworth⟩ | ⟨htaken, hx⟩
      · rw [hkept]
        have hleft : best ≠ none ∨ ∃ y ∈ rest, P y := by
          rcases h with hbest | ⟨y, hy, hPy⟩
          · exact .inl hbest
          · rcases List.mem_cons.1 hy with rfl | hrest
            · exact .inl (hworth hPy)
            · exact .inr ⟨y, hrest, hPy⟩
        obtain ⟨o, ho, hfrom⟩ := ih best hleft
        exact ⟨o, ho, hfrom.imp_right fun hlater => ⟨List.mem_cons_of_mem _ hlater.1, hlater.2⟩⟩
      · rw [htaken]
        obtain ⟨o, ho, hfrom⟩ := ih (some x) (.inl nofun)
        refine ⟨o, ho, .inr ?_⟩
        rcases hfrom with hsame | ⟨hrest, hPo⟩
        · cases hsame
          exact ⟨List.mem_cons_self, hx⟩
        · exact ⟨List.mem_cons_of_mem _ hrest, hPo⟩

-- A pass that passes over an element only for a candidate with no greater key, and
-- takes one only if its key is no greater than its candidate's.
structure Minimizing [LE β] (key : α → Option β) (step : Option α → α → Option α) : Prop where
  pass_or_take : ∀ best x, step best x = best ∨ step best x = some x
  pass : ∀ best x a, step best x = best → key x = some a →
    ∃ o b, best = some o ∧ key o = some b ∧ b ≤ a
  take : ∀ o x b, step (some o) x = some x → key o = some b → ∃ a, key x = some a ∧ a ≤ b

theorem Minimizing.foldl_le [Preorder β] {key : α → Option β}
    (h : Minimizing key step) {o : α} {b : β} (hb : key o = some b) (l : List α) :
    ∃ o' b', l.foldl step (some o) = some o' ∧ key o' = some b' ∧ b' ≤ b := by
  induction l generalizing o b with
  | nil => exact ⟨o, b, rfl, hb, le_refl b⟩
  | cons x rest ih =>
      rw [List.foldl_cons]
      rcases h.pass_or_take (some o) x with hkept | htaken
      · rw [hkept]
        exact ih hb
      · rw [htaken]
        obtain ⟨a, ha, hab⟩ := h.take o x b htaken hb
        obtain ⟨o', b', ho', hb', hle⟩ := ih ha
        exact ⟨o', b', ho', hb', hle.trans hab⟩

-- The result is no greater than any element with a key.
theorem Minimizing.foldl_least [Preorder β] {key : α → Option β}
    (h : Minimizing key step) {l : List α} {x : α} (hx : x ∈ l) {a : β} (ha : key x = some a)
    (best : Option α) : ∃ o b, l.foldl step best = some o ∧ key o = some b ∧ b ≤ a := by
  obtain ⟨before, after, rfl⟩ := List.append_of_mem hx
  rw [List.foldl_append, List.foldl_cons]
  generalize before.foldl step best = best
  rcases h.pass_or_take best x with hkept | htaken
  · obtain ⟨o, b, rfl, hb, hba⟩ := h.pass best x a hkept ha
    rw [hkept]
    obtain ⟨o', b', ho', hb', hle⟩ := h.foldl_le hb after
    exact ⟨o', b', ho', hb', hle.trans hba⟩
  · rw [htaken]
    exact h.foldl_le ha after

-- Elements sorted by their keys, when the keys are those of a strictly
-- increasing list.
theorem map_sort_eq {l : List α} {keys : List ℕ} (key : α → ℕ) (hperm : (l.map key).Perm keys)
    (hkeys : keys.Pairwise (· < ·)) :
    (l.insertionSort fun a b => key a ≤ key b).map key = keys := by
  rw [List.map_insertionSort (fun a b => key a ≤ key b) (· ≤ ·) key l fun _ _ _ _ => Iff.rfl]
  refine ((List.perm_insertionSort _ _).trans hperm).eq_of_pairwise' (r := (· ≤ ·)) ?_ ?_
  · exact List.pairwise_insertionSort _ _
  · exact hkeys.imp Nat.le_of_lt

end Unordered
