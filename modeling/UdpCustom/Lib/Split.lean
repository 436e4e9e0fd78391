import Mathlib.Data.List.Basic

-- Texts put together with a separator and cut at it again.
namespace Split

variable {α : Type*}

theorem of_mem_intercalate {sep c : α} {ls : List (List α)} (hc : c ∈ [sep].intercalate ls) :
    c = sep ∨ ∃ l ∈ ls, c ∈ l := by
  induction ls with
  | nil => cases hc
  | cons first rest ih =>
      cases rest with
      | nil => exact .inr ⟨first, List.mem_cons_self, by simpa [List.intercalate] using hc⟩
      | cons second rest =>
          rw [List.intercalate_cons_cons] at hc
          rcases List.mem_append.1 hc with hhead | hrest
          · rcases List.mem_append.1 hhead with hfirst | hsep
            · exact .inr ⟨first, List.mem_cons_self, hfirst⟩
            · exact .inl (List.mem_singleton.1 hsep)
          · rcases ih hrest with hsep | ⟨l, hl, hcl⟩
            · exact .inl hsep
            · exact .inr ⟨l, List.mem_cons_of_mem _ hl, hcl⟩

-- Every text with the separator after it.
def ended (sep : α) (ls : List (List α)) : List α :=
  ls.flatMap (· ++ [sep])

theorem splitOn_of_notMem [DecidableEq α] {sep : α} {l : List α} (h : sep ∉ l) :
    l.splitOn sep = [l] := by
  have hone : ∀ l' ∈ [l], sep ∉ l' := by simpa using h
  simpa [List.intercalate] using List.splitOn_intercalate sep hone (by simp)

theorem splitOn_ended_append [DecidableEq α] {sep : α} {ls : List (List α)} (h : ∀ l ∈ ls, sep ∉ l)
    (rest : List α) : (ended sep ls ++ rest).splitOn sep = ls ++ rest.splitOn sep := by
  induction ls with
  | nil => rfl
  | cons l ls ih =>
      have hsplit := splitOn_of_notMem (h l List.mem_cons_self)
      rw [ended, List.flatMap_cons, ← ended, List.append_assoc, List.append_assoc, List.singleton_append,
        List.splitOn, List.splitOnP_append_cons _ _ (by simp), ← List.splitOn, ← List.splitOn, hsplit,
        ih fun l' hl' => h l' (List.mem_cons_of_mem _ hl')]
      rfl

end Split
