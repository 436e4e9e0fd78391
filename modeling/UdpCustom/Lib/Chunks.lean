import Mathlib.Data.List.Count
import Mathlib.Data.List.Flatten
import Mathlib.Data.List.Nodup

-- A list cut into consecutive blocks of `n` elements, of which only the last may be shorter.
namespace Chunks

variable {α β : Type*} {n : ℕ}

def chunk (n : ℕ) (l : List α) (k : ℕ) : List α :=
  (l.drop (n * k)).take n

def chunks (n : ℕ) (l : List α) : List (List α) :=
  (List.range ((l.length + (n - 1)) / n)).map (chunk n l)

theorem flatMap_chunk (n : ℕ) (l : List α) (m : ℕ) :
    (List.range m).flatMap (chunk n l) = l.take (n * m) := by
  induction m with
  | zero => simp
  | succ m ih =>
      rw [List.range_succ, List.flatMap_append, ih, List.flatMap_singleton, Nat.mul_succ, List.take_add,
        chunk]

theorem flatten_chunks (hn : 0 < n) (l : List α) : (chunks n l).flatten = l := by
  have hlen : l.length ≤ n * ((l.length + (n - 1)) / n) := by
    have hmod := Nat.div_add_mod (l.length + (n - 1)) n
    have hlt := Nat.mod_lt (l.length + (n - 1)) hn
    omega
  rw [chunks, ← List.flatMap_def, flatMap_chunk, List.take_of_length_le hlen]

theorem chunks_map (n : ℕ) (f : α → β) (l : List α) :
    chunks n (l.map f) = (chunks n l).map (List.map f) := by
  rw [chunks, chunks, List.length_map, List.map_map]
  refine List.map_congr_left fun k _ => ?_
  rw [Function.comp_apply, chunk, chunk, List.map_take, List.map_drop]

theorem ne_nil_of_mem_chunks (hn : 0 < n) {l block : List α} (h : block ∈ chunks n l) :
    block ≠ [] := by
  obtain ⟨k, hk, rfl⟩ := List.mem_map.1 h
  have hlt : n * k < l.length := by
    have hle := (Nat.le_div_iff_mul_le hn).1 (Nat.succ_le_of_lt (List.mem_range.1 hk))
    rw [Nat.mul_comm] at hle
    have hsucc := Nat.mul_succ n k
    omega
  intro hnil
  have hlen := congrArg List.length hnil
  rw [chunk, List.length_take, List.length_drop, List.length_nil] at hlen
  omega

theorem mem_of_mem_chunks (hn : 0 < n) {l block : List α} (h : block ∈ chunks n l) {a : α}
    (ha : a ∈ block) : a ∈ l := by
  rw [← flatten_chunks hn l]
  exact List.mem_flatten.2 ⟨block, h, ha⟩

-- Over lists with no element twice, how many hold an element is how often it stands in
-- all of them together.
theorem countP_mem_eq_count_flatten [DecidableEq α] {ls : List (List α)} (h : ∀ l ∈ ls, l.Nodup) (a : α) :
    ls.countP (a ∈ ·) = ls.flatten.count a := by
  induction ls with
  | nil => rfl
  | cons l rest ih =>
      have hl := h l List.mem_cons_self
      rw [List.countP_cons, List.flatten_cons, List.count_append,
        ih fun l' hl' => h l' (List.mem_cons_of_mem _ hl'), hl.count, Nat.add_comm]
      simp only [decide_eq_true_eq]

theorem chunk_append (n : ℕ) (l rest : List α) (k : ℕ) :
    ∃ tail, chunk n (l ++ rest) k = chunk n l k ++ tail := by
  rw [chunk, List.drop_append, List.take_append]
  exact ⟨_, rfl⟩

theorem chunk_flatten {ls : List (List α)} (h : ∀ l ∈ ls, l.length = n) (k : ℕ) :
    chunk n ls.flatten k = ls[k]?.getD [] := by
  induction ls generalizing k with
  | nil => simp [chunk]
  | cons l rest ih =>
      have hl := h l List.mem_cons_self
      cases k with
      | zero =>
          rw [chunk, Nat.mul_zero, List.drop_zero, List.flatten_cons, List.take_left' hl]
          rfl
      | succ k =>
          have hdrop : (l ++ rest.flatten).drop (n * (k + 1)) = rest.flatten.drop (n * k) := by
            rw [Nat.mul_succ, Nat.add_comm, ← List.drop_drop, List.drop_left' hl]
          rw [chunk, List.flatten_cons, hdrop, List.getElem?_cons_succ,
            ← ih fun l' hl' => h l' (List.mem_cons_of_mem _ hl'), chunk]

theorem length_chunk {l : List α} {k : ℕ} (h : n * (k + 1) ≤ l.length) :
    (chunk n l k).length = n := by
  rw [Nat.mul_succ] at h
  rw [chunk, List.length_take, List.length_drop]
  omega

theorem exists_of_mem_chunk {l : List α} {k : ℕ} {a : α} (h : a ∈ chunk n l k) :
    ∃ m, n * k ≤ m ∧ m < n * (k + 1) ∧ l[m]? = some a := by
  obtain ⟨m, hm⟩ := List.mem_iff_getElem?.1 h
  rw [chunk, List.getElem?_take] at hm
  split at hm
  · rename_i hlt
    rw [List.getElem?_drop] at hm
    exact ⟨n * k + m, Nat.le_add_right _ _, by rw [Nat.mul_succ]; omega, hm⟩
  · cases hm

end Chunks
