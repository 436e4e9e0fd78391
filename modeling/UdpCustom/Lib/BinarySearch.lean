import Mathlib.Data.List.Basic
import Mathlib.Data.Int.Notation

-- Binary search of a list for an element that a comparison calls equal: `lt` if what is
-- looked for lies below the element, `gt` if it lies above.
namespace BinarySearch

variable {α : Type*} {cmp : α → Ordering}

-- The loop with inclusive bounds, for as many rounds as there is fuel.
def loop (cmp : α → Ordering) (l : List α) : ℕ → ℤ → ℤ → Bool
  | 0, _, _ => false
  | fuel + 1, lo, hi =>
      if lo ≤ hi then
        let mid := (lo + hi) / 2
        match l[mid.toNat]? with
        | none => false
        | some x =>
            match cmp x with
            | .lt => loop cmp l fuel lo (mid - 1)
            | .gt => loop cmp l fuel (mid + 1) hi
            | .eq => true
      else false

def search (cmp : α → Ordering) (l : List α) : Bool :=
  loop cmp l l.length 0 (l.length - 1)

-- Below an element is below those after it, above one is above those before it.
def Ordered (cmp : α → Ordering) (l : List α) : Prop :=
  l.Pairwise fun a b => (cmp a = .lt → cmp b = .lt) ∧ (cmp b = .gt → cmp a = .gt)

theorem loop_sound {l : List α} {fuel : ℕ} {lo hi : ℤ}
    (h : loop cmp l fuel lo hi = true) : ∃ x ∈ l, cmp x = .eq := by
  induction fuel generalizing lo hi with
  | zero => cases h
  | succ fuel ih =>
      unfold loop at h
      dsimp only at h
      split at h
      · split at h
        · cases h
        · rename_i x hx
          split at h
          · exact ih h
          · exact ih h
          · exact ⟨x, List.mem_of_getElem? hx, ‹_›⟩
      · cases h

-- The window keeps the element, and each round halves it.
theorem loop_complete {l : List α} (hl : Ordered cmp l) {x : α}
    (hx : cmp x = .eq) {k : ℕ} (hk : l[k]? = some x) {fuel : ℕ} {lo hi : ℤ} (hlo : 0 ≤ lo)
    (hlok : lo ≤ k) (hkhi : k ≤ hi) (hhi : hi < l.length) (hfuel : hi - lo < fuel) :
    loop cmp l fuel lo hi = true := by
  induction fuel generalizing lo hi with
  | zero => omega
  | succ fuel ih =>
      have hmid : ((lo + hi) / 2).toNat < l.length := by omega
      unfold loop
      dsimp only
      rw [if_pos (by omega), List.getElem?_eq_getElem hmid]
      dsimp only
      obtain ⟨hklt, hkx⟩ := List.getElem?_eq_some_iff.1 hk
      split
      · rename_i hlt
        -- The element at the middle lies above, so `k` is before it.
        have hbefore : k < ((lo + hi) / 2).toNat := by
          by_contra hnot
          rcases Nat.lt_or_eq_of_le (Nat.not_lt.1 hnot) with hafter | heq
          · have hpair := (List.pairwise_iff_getElem.1 hl _ _ hmid hklt hafter).1 hlt
            rw [hkx, hx] at hpair
            cases hpair
          · subst heq
            rw [hkx, hx] at hlt
            cases hlt
        exact ih hlo hlok (by omega) (by omega) (by omega)
      · rename_i hgt
        have hafter : ((lo + hi) / 2).toNat < k := by
          by_contra hnot
          rcases Nat.lt_or_eq_of_le (Nat.not_lt.1 hnot) with hbefore | heq
          · have hpair := (List.pairwise_iff_getElem.1 hl _ _ hklt hmid hbefore).2 hgt
            rw [hkx, hx] at hpair
            cases hpair
          · subst heq
            rw [hkx, hx] at hgt
            cases hgt
        exact ih (by omega) (by omega) hkhi hhi (by omega)
      · rfl

theorem search_iff {l : List α} (hl : Ordered cmp l) :
    search cmp l = true ↔ ∃ x ∈ l, cmp x = .eq := by
  refine ⟨loop_sound, ?_⟩
  rintro ⟨x, hmem, hx⟩
  obtain ⟨k, hk⟩ := List.mem_iff_getElem?.1 hmem
  obtain ⟨hklt, -⟩ := List.getElem?_eq_some_iff.1 hk
  exact loop_complete hl hx hk (Int.le_refl 0) (by omega) (by omega) (by omega) (by omega)

end BinarySearch
