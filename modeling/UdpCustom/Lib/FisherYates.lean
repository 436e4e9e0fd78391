import Mathlib.Data.Set.Function
import Mathlib.Logic.Equiv.Basic
import Mathlib.Order.Interval.Set.Defs

-- A partial Fisher-Yates shuffle of an array that is given as a function.
namespace FisherYates

variable {α : Type*} {a : ℕ → α} {i total : ℕ} {draws : List ℕ}

-- Each draw picks one of the places from `i` on, and what stood at `i` moves there.
def deal (a : ℕ → α) (i : ℕ) : List ℕ → List α
  | [] => []
  | d :: draws => a (i + d) :: deal (a ∘ Equiv.swap i (i + d)) (i + 1) draws

-- The draws stay among the places that are left.
def Bounded (total i : ℕ) : List ℕ → Prop
  | [] => True
  | d :: draws => i + d < total ∧ Bounded total (i + 1) draws

theorem bounded_iff :
    Bounded total i draws ↔ ∀ (k : ℕ) d, draws[k]? = some d → i + k + d < total := by
  induction draws generalizing i with
  | nil => simp [Bounded]
  | cons d draws ih =>
      rw [Bounded, ih]
      constructor
      · rintro ⟨hhead, hrest⟩ k e hk
        cases k with
        | zero =>
            rw [List.getElem?_cons_zero, Option.some_inj] at hk
            omega
        | succ k =>
            have hlt := hrest k e (by simpa using hk)
            omega
      · intro h
        refine ⟨by simpa using h 0 d rfl, fun k e hk => ?_⟩
        have hlt := h (k + 1) e (by simpa using hk)
        omega

theorem length_deal (a : ℕ → α) (i : ℕ) (draws : List ℕ) : (deal a i draws).length = draws.length := by
  induction draws generalizing a i with
  | nil => rfl
  | cons d draws ih => rw [deal, List.length_cons, List.length_cons, ih]

-- After a draw the places from `i + 1` on hold what they did, without what was picked.
theorem image_swap (h : Set.InjOn a (Set.Ico i total)) {d : ℕ} (hd : i + d < total) :
    (a ∘ Equiv.swap i (i + d)) '' Set.Ico (i + 1) total = a '' Set.Ico i total \ {a (i + d)} := by
  ext x
  constructor
  · rintro ⟨k, ⟨hlow, hhigh⟩, rfl⟩
    have hk : Equiv.swap i (i + d) k ∈ Set.Ico i total ∧ Equiv.swap i (i + d) k ≠ i + d := by
      rw [Equiv.swap_apply_def]
      split_ifs with h₁ h₂
      · omega
      · exact ⟨⟨le_rfl, by omega⟩, by omega⟩
      · exact ⟨⟨by omega, hhigh⟩, h₂⟩
    exact ⟨⟨_, hk.1, rfl⟩, fun heq => hk.2 (h hk.1 ⟨by omega, hd⟩ heq)⟩
  · rintro ⟨⟨k, ⟨hlow, hhigh⟩, rfl⟩, hne⟩
    have hkd : k ≠ i + d := fun heq => hne (congrArg a heq)
    refine ⟨Equiv.swap i (i + d) k, ?_, ?_⟩
    · rw [Equiv.swap_apply_def]
      split_ifs with h₁
      · exact ⟨by omega, hd⟩
      · exact ⟨by omega, hhigh⟩
    · rw [Function.comp_apply, Equiv.swap_apply_self]

theorem injOn_swap (h : Set.InjOn a (Set.Ico i total)) {d : ℕ} (hd : i + d < total) :
    Set.InjOn (a ∘ Equiv.swap i (i + d)) (Set.Ico (i + 1) total) := by
  refine h.comp (Equiv.injective _).injOn fun k hk => ?_
  rw [Equiv.swap_apply_def]
  obtain ⟨hlow, hhigh⟩ := hk
  split_ifs with h₁
  · exact ⟨by omega, hd⟩
  · exact ⟨le_rfl, by omega⟩
  · exact ⟨by omega, hhigh⟩

theorem mem_of_mem_deal (h : Set.InjOn a (Set.Ico i total))
    (hdraws : Bounded total i draws) {x : α} (hx : x ∈ deal a i draws) : x ∈ a '' Set.Ico i total := by
  induction draws generalizing a i with
  | nil => cases hx
  | cons d draws ih =>
      obtain ⟨hd, hrest⟩ := hdraws
      rcases List.mem_cons.1 hx with rfl | hx
      · exact ⟨i + d, ⟨by omega, hd⟩, rfl⟩
      · have hmem := ih (injOn_swap h hd) hrest hx
        rw [image_swap h hd] at hmem
        exact hmem.1

theorem nodup_deal (h : Set.InjOn a (Set.Ico i total))
    (hdraws : Bounded total i draws) : (deal a i draws).Nodup := by
  induction draws generalizing a i with
  | nil => exact List.nodup_nil
  | cons d draws ih =>
      obtain ⟨hd, hrest⟩ := hdraws
      refine List.nodup_cons.2 ⟨fun hmem => ?_, ih (injOn_swap h hd) hrest⟩
      have himage := mem_of_mem_deal (injOn_swap h hd) hrest hmem
      rw [image_swap h hd] at himage
      exact himage.2 rfl

-- Whatever is selected without repetition, one sequence of draws selects it.
theorem existsUnique_deal {selection : List α} (h : Set.InjOn a (Set.Ico i total))
    (hnodup : selection.Nodup) (hmem : ∀ x ∈ selection, x ∈ a '' Set.Ico i total) :
    ∃! draws, Bounded total i draws ∧ deal a i draws = selection := by
  induction selection generalizing a i with
  | nil =>
      refine ⟨[], ⟨trivial, rfl⟩, ?_⟩
      rintro (_ | ⟨d, draws⟩) ⟨-, hdeal⟩
      · rfl
      · cases hdeal
  | cons x rest ih =>
      obtain ⟨hx, hdistinct⟩ := List.nodup_cons.1 hnodup
      obtain ⟨k, ⟨hlow, hhigh⟩, rfl⟩ := hmem x List.mem_cons_self
      obtain ⟨d, rfl⟩ := Nat.exists_eq_add_of_le hlow
      have hrest : ∀ y ∈ rest, y ∈ (a ∘ Equiv.swap i (i + d)) '' Set.Ico (i + 1) total := by
        intro y hy
        rw [image_swap h hhigh]
        exact ⟨hmem y (List.mem_cons_of_mem _ hy), fun heq => hx (heq ▸ hy)⟩
      obtain ⟨draws, ⟨hdraws, hdeal⟩, hunique⟩ := ih (injOn_swap h hhigh) hdistinct hrest
      refine ⟨d :: draws, ⟨⟨hhigh, hdraws⟩, congrArg (a (i + d) :: ·) hdeal⟩, ?_⟩
      rintro (_ | ⟨e, others⟩) ⟨hothers, hdeal'⟩
      · cases hdeal'
      · obtain ⟨he, hothers⟩ := hothers
        obtain ⟨hhead, htail⟩ := List.cons.inj hdeal'
        have hsame : e = d := by
          have heq := h ⟨by omega, he⟩ ⟨hlow, hhigh⟩ hhead
          omega
        subst hsame
        rw [hunique others ⟨hothers, htail⟩]

end FisherYates
