import Mathlib.Data.List.Basic

-- Patterns with one symbol for any sequence and one for any single letter.
namespace Glob

variable {α : Type*} {star one : α} {p s : List α}

inductive Expands (star one : α) : List α → List α → Prop
  | nil : Expands star one [] []
  | letter {c : α} {p s : List α} : c ≠ star → Expands star one p s →
      Expands star one (c :: p) (c :: s)
  | one {c : α} {p s : List α} : Expands star one p s → Expands star one (one :: p) (c :: s)
  | skip {p s : List α} : Expands star one p s → Expands star one (star :: p) s
  | more {c : α} {p s : List α} : Expands star one (star :: p) s →
      Expands star one (star :: p) (c :: s)

theorem Expands.extend {p v : List α} (h : Expands star one (star :: p) v) (u : List α) :
    Expands star one (star :: p) (u ++ v) := by
  induction u with
  | nil => exact h
  | cons c u ih => exact .more ih

theorem Expands.of_star (hne : star ≠ one)
    (h : Expands star one (star :: p) s) : ∃ u v, s = u ++ v ∧ Expands star one p v := by
  generalize hq : star :: p = q at h
  induction h with
  | nil => cases hq
  | letter hc =>
      cases hq
      exact absurd rfl hc
  | one =>
      cases hq
      exact absurd rfl hne
  | skip h =>
      cases hq
      exact ⟨[], _, rfl, h⟩
  | more _ ih =>
      obtain ⟨u, v, rfl, hv⟩ := ih hq
      exact ⟨_ :: u, v, rfl, hv⟩

theorem expands_star_iff (hne : star ≠ one) :
    Expands star one (star :: p) s ↔ Expands star one p s ∨ Expands star one (star :: p) s.tail := by
  constructor
  · intro h
    obtain ⟨u, v, rfl, hv⟩ := h.of_star hne
    cases u with
    | nil => exact .inl hv
    | cons c u => exact .inr ((Expands.skip hv).extend u)
  · rintro (hnow | hlater)
    · exact .skip hnow
    · cases s with
      | nil => exact hlater
      | cons c s => exact .more hlater

-- A symbol other than the star takes exactly one letter.
theorem Expands.of_cons {q : α} (hq : q ≠ star) (h : Expands star one (q :: p) s) :
    ∃ c rest, s = c :: rest ∧ (q = one ∨ q = c) ∧ Expands star one p rest := by
  cases h with
  | letter _ h => exact ⟨_, _, rfl, .inr rfl, h⟩
  | one h => exact ⟨_, _, rfl, .inl rfl, h⟩
  | skip _ => exact absurd rfl hq
  | more _ => exact absurd rfl hq

theorem Expands.of_append {lit p s : List α} (hlit : star ∉ lit)
    (h : Expands star one (lit ++ p) s) :
    ∃ m v, s = m ++ v ∧ m.length = lit.length ∧ Expands star one p v := by
  induction lit generalizing s with
  | nil => exact ⟨[], s, rfl, rfl, h⟩
  | cons q lit ih =>
      obtain ⟨hq, hlit⟩ := not_or.1 (mt List.mem_cons.2 hlit)
      obtain ⟨c, rest, rfl, -, hrest⟩ := h.of_cons (Ne.symm hq)
      obtain ⟨m, v, rfl, hlen, hv⟩ := ih hlit hrest
      exact ⟨c :: m, v, rfl, congrArg (· + 1) hlen, hv⟩

theorem expands_nil_iff {p : List α} : Expands star one p [] ↔ ∀ q ∈ p, q = star := by
  induction p with
  | nil => exact iff_of_true .nil (List.forall_mem_nil _)
  | cons q p ih =>
      rw [List.forall_mem_cons, ← ih]
      constructor
      · intro h
        cases h with
        | skip h => exact ⟨rfl, h⟩
      · rintro ⟨rfl, h⟩
        exact .skip h

-- Letters the pattern cannot name may be exchanged.
theorem Expands.map {f : α → α} (hf : ∀ c, c ≠ star → f c = c)
    (h : Expands star one p s) : Expands star one p (s.map f) := by
  induction h with
  | nil => exact .nil
  | letter hc _ ih =>
      rw [List.map_cons, hf _ hc]
      exact .letter hc ih
  | one _ ih => exact .one ih
  | skip _ ih => exact .skip ih
  | more _ ih => exact .more ih

end Glob
