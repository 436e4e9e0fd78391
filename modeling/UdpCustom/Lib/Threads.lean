import Mathlib.Algebra.BigOperators.Group.List.Basic
import Mathlib.Data.List.Basic
import Mathlib.Data.Int.Notation
import Mathlib.Tactic.Ring

-- A list of threads, each at some place of its program, of which one moves at a time.
namespace Threads

variable {α : Type*} {i : ℕ} {a : α}

theorem of_getElem?_set {l : List α} {i j : ℕ} {a b : α} (h : (l.set i b)[j]? = some a) :
    j = i ∧ a = b ∨ j ≠ i ∧ l[j]? = some a := by
  rw [List.getElem?_set] at h
  by_cases hij : i = j
  · rw [if_pos hij] at h
    split at h
    · exact .inl ⟨hij.symm, (Option.some.inj h).symm⟩
    · cases h
  · rw [if_neg hij] at h
    exact .inr ⟨fun he => hij he.symm, h⟩

theorem getElem?_set_self {l : List α} (hi : l[i]? = some a) (b : α) :
    (l.set i b)[i]? = some b := by
  obtain ⟨hlt, -⟩ := List.getElem?_eq_some_iff.1 hi
  exact List.getElem?_set_self hlt

theorem of_mem_set {l : List α} {a b : α} (h : a ∈ l.set i b) :
    a = b ∨ ∃ j, j ≠ i ∧ l[j]? = some a := by
  obtain ⟨j, hj⟩ := List.mem_iff_getElem?.1 h
  rcases of_getElem?_set hj with ⟨-, hab⟩ | ⟨hne, hold⟩
  · exact .inl hab
  · exact .inr ⟨j, hne, hold⟩

-- A thread that does not move is still there.
theorem mem_set_of_ne {l : List α} {i j : ℕ} (hj : l[j]? = some a) (hne : j ≠ i) (b : α) :
    a ∈ l.set i b := by
  apply List.mem_of_getElem? (i := j)
  rw [List.getElem?_set, if_neg fun he => hne he.symm, hj]

theorem mem_set_self {l : List α} (hi : l[i]? = some a) (b : α) : b ∈ l.set i b :=
  List.mem_of_getElem? (getElem?_set_self hi b)

-- A sum over the threads changes by what the moving one contributes.
theorem sum_map_set (f : α → ℤ) {l : List α} (hi : l[i]? = some a) (b : α) :
    ((l.set i b).map f).sum = (l.map f).sum - f a + f b := by
  induction l generalizing i with
  | nil => cases hi
  | cons x rest ih =>
      cases i with
      | zero =>
          obtain rfl : x = a := Option.some.inj hi
          simp only [List.set_cons_zero, List.map_cons, List.sum_cons]
          ring
      | succ i =>
          simp only [List.set_cons_succ, List.map_cons, List.sum_cons, ih (by simpa using hi)]
          ring

-- What the threads hold together, with the moving one apart.
theorem flatMap_perm {β : Type*} (f : α → List β) {l : List α} (hi : l[i]? = some a) :
    (l.flatMap f).Perm (f a ++ (l.eraseIdx i).flatMap f) := by
  obtain ⟨hlt, rfl⟩ := List.getElem?_eq_some_iff.1 hi
  exact ((List.getElem_cons_eraseIdx_perm hlt).symm.flatMap_right f)

theorem flatMap_set_perm {β : Type*} (f : α → List β) {l : List α} (hi : l[i]? = some a)
    (b : α) : ((l.set i b).flatMap f).Perm (f b ++ (l.eraseIdx i).flatMap f) := by
  rw [← List.eraseIdx_set_eq (a := b)]
  exact flatMap_perm f (getElem?_set_self hi b)

-- At most one thread is inside a section.
def Exclusive (inside : α → Bool) (l : List α) : Prop :=
  ∀ (i j : ℕ) (a b : α), l[i]? = some a → l[j]? = some b → inside a = true → inside b = true → i = j

variable {inside : α → Bool} {l : List α}

theorem Exclusive.nil : Exclusive inside [] := by
  intro i j a b ha
  cases ha

theorem Exclusive.push (h : Exclusive inside l) {b : α} (hb : inside b = false) :
    Exclusive inside (l ++ [b]) := by
  have hold : ∀ {j : ℕ} {a : α}, (l ++ [b])[j]? = some a → inside a = true → l[j]? = some a := by
    intro j a hj ha
    by_cases hlt : j < l.length
    · rwa [List.getElem?_append_left hlt] at hj
    · rw [List.getElem?_append_right (Nat.le_of_not_lt hlt), List.getElem?_singleton] at hj
      split at hj
      · cases hj
        rw [hb] at ha
        cases ha
      · cases hj
  intro i j a c hi hj ha hc
  exact h i j a c (hold hi ha) (hold hj hc) ha hc

-- A section is entered only while nobody is inside.
theorem Exclusive.set (h : Exclusive inside l) {a b : α} (hi : l[i]? = some a)
    (hb : inside b = true → inside a = true ∨ ∀ x ∈ l, inside x = false) :
    Exclusive inside (l.set i b) := by
  -- The moving thread is alone inside, if it is inside.
  have halone : ∀ j c, l[j]? = some c → inside c = true → inside b = true → j = i := by
    intro j c hj hc hin
    rcases hb hin with ha | hnone
    · exact h j i c a hj hi hc ha
    · rw [hnone c (List.mem_of_getElem? hj)] at hc
      cases hc
  intro j k c d hj hk hc hd
  rcases of_getElem?_set hj with ⟨hji, rfl⟩ | ⟨hji, hjold⟩ <;>
    rcases of_getElem?_set hk with ⟨hki, rfl⟩ | ⟨hki, hkold⟩
  · rw [hji, hki]
  · exact absurd (halone k d hkold hd hc) hki
  · exact absurd (halone j c hjold hc hd) hji
  · exact h j k c d hjold hkold hc hd

theorem Exclusive.map (h : Exclusive inside l) {g : α → α} (hg : ∀ a, inside (g a) = inside a) :
    Exclusive inside (l.map g) := by
  intro i j a b hi hj ha hb
  rw [List.getElem?_map] at hi hj
  obtain ⟨c, hiold, rfl⟩ := Option.map_eq_some_iff.1 hi
  obtain ⟨d, hjold, rfl⟩ := Option.map_eq_some_iff.1 hj
  rw [hg] at ha hb
  exact h i j c d hiold hjold ha hb

end Threads
