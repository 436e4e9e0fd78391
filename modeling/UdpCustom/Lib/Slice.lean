import Mathlib.Data.List.GetD
import Mathlib.Data.List.Infix

-- Windows into arrays, the way a language with slices has them: appending writes in
-- place while the capacity lasts and moves to a new array after that.
structure Slice where
  array : ℕ
  offset : ℕ
  len : ℕ
  cap : ℕ
  deriving DecidableEq

-- All arrays ever allocated, by number. The first one is empty and stands behind the
-- nil slice.
abbrev Heap (α : Type) := List (List α)

namespace Slice

def none : Slice := ⟨0, 0, 0, 0⟩

-- `s[k:]`
def skip (s : Slice) (k : ℕ) : Slice :=
  { s with offset := s.offset + k, len := s.len - k, cap := s.cap - k }

end Slice

namespace Heap

variable {α : Type} {h h' : Heap α} {s t : Slice} {data spare : List α}

def init : Heap α := [[]]

def array (h : Heap α) (i : ℕ) : List α :=
  h.getD i []

def read (h : Heap α) (s : Slice) : List α :=
  ((h.array s.array).drop s.offset).take s.len

structure Valid (h : Heap α) (s : Slice) : Prop where
  array : s.array < h.length
  len : s.len ≤ s.cap
  cap : s.offset + s.cap ≤ (h.array s.array).length

-- A new array of exactly this content.
def clone (h : Heap α) (data : List α) : Slice × Heap α :=
  (⟨h.length, 0, data.length, data.length⟩, h ++ [data])

-- `spare` is what the new array has beyond the content, as much as the runtime likes.
def append (h : Heap α) (s : Slice) (data spare : List α) : Slice × Heap α :=
  if s.len + data.length ≤ s.cap then
    let a := h.array s.array
    ({ s with len := s.len + data.length },
      h.set s.array (a.take (s.offset + s.len) ++ data ++ a.drop (s.offset + s.len + data.length)))
  else
    let whole := h.read s ++ data
    (⟨h.length, 0, whole.length, whole.length + spare.length⟩, h ++ [whole ++ spare])

-- `clear(s)`
def clear (h : Heap α) (s : Slice) (zero : α) : Heap α :=
  let a := h.array s.array
  h.set s.array (a.take s.offset ++ List.replicate s.len zero ++ a.drop (s.offset + s.len))

-- The arrays of this list are as they were.
structure Agree (h h' : Heap α) (arrays : List ℕ) : Prop where
  grows : h.length ≤ h'.length
  same : ∀ i ∈ arrays, h'.array i = h.array i

theorem valid_none (hne : h ≠ []) : h.Valid .none :=
  ⟨List.length_pos_iff.2 hne, Nat.le_refl _, Nat.zero_le _⟩

theorem read_of_len_eq_zero (hlen : s.len = 0) : h.read s = [] := by
  rw [read, hlen, List.take_zero]

theorem length_read (hs : h.Valid s) : (h.read s).length = s.len := by
  have hlen := hs.len
  have hcap := hs.cap
  rw [read, List.length_take, List.length_drop]
  omega

-- New arrays leave the old ones alone.
theorem array_of_grown (hgrown : h <+: h') {i : ℕ} (hi : i < h.length) : h'.array i = h.array i := by
  obtain ⟨more, rfl⟩ := hgrown
  rw [array, array, List.getD_append _ _ _ _ hi]

theorem read_of_grown (hgrown : h <+: h') (ht : t.array < h.length) : h'.read t = h.read t := by
  rw [read, read, array_of_grown hgrown ht]

theorem Valid.grown (hgrown : h <+: h') (hs : h.Valid s) : h'.Valid s :=
  ⟨hs.array.trans_le hgrown.length_le, hs.len, (array_of_grown hgrown hs.array).symm ▸ hs.cap⟩

theorem array_concat (h : Heap α) (a : List α) : Heap.array (h ++ [a]) h.length = a := by
  rw [array, List.getD_append_right _ _ _ _ (Nat.le_refl _), Nat.sub_self]
  rfl

theorem clone_grown (h : Heap α) (data : List α) : h <+: (h.clone data).2 :=
  List.prefix_append _ _

theorem valid_clone (h : Heap α) (data : List α) : (h.clone data).2.Valid (h.clone data).1 where
  array := by
    rw [clone, List.length_append]
    exact Nat.lt_succ_self _
  len := Nat.le_refl _
  cap := by
    rw [clone, array_concat, Nat.zero_add]

theorem read_clone (h : Heap α) (data : List α) : (h.clone data).2.read (h.clone data).1 = data := by
  rw [read, clone, array_concat, List.drop_zero, List.take_length]

theorem valid_skip (hs : h.Valid s) {k : ℕ} (hk : k ≤ s.len) : h.Valid (s.skip k) where
  array := hs.array
  len := Nat.sub_le_sub_right hs.len k
  cap := by
    have hlen := hs.len
    have hcap := hs.cap
    dsimp only [Slice.skip]
    omega

theorem read_skip (h : Heap α) (s : Slice) (k : ℕ) : h.read (s.skip k) = (h.read s).drop k := by
  rw [read, read, Slice.skip, List.drop_take, List.drop_drop]

theorem array_set_self (h : Heap α) {i : ℕ} (hi : i < h.length) (a : List α) :
    Heap.array (h.set i a) i = a := by
  rw [array, List.getD_eq_getElem?_getD, List.getElem?_set_self hi, Option.getD_some]

theorem array_set_ne (h : Heap α) {i j : ℕ} (hne : i ≠ j) (a : List α) :
    Heap.array (h.set i a) j = h.array j := by
  rw [array, array, List.getD_eq_getElem?_getD, List.getElem?_set_ne hne, List.getD_eq_getElem?_getD]

theorem length_append_le (h : Heap α) (s : Slice) (data spare : List α) :
    h.length ≤ (h.append s data spare).2.length := by
  unfold append
  split
  · rw [List.length_set]
  · rw [List.length_append]
    exact Nat.le_add_right _ _

theorem read_append (hs : h.Valid s) (data spare : List α) :
    (h.append s data spare).2.read (h.append s data spare).1 = h.read s ++ data := by
  have hlen := hs.len
  have hcap := hs.cap
  unfold append
  split
  · rename_i hfit
    have htake : ((h.array s.array).take (s.offset + s.len)).length = s.offset + s.len := by
      rw [List.length_take]
      omega
    rw [read, array_set_self h hs.array]
    dsimp only
    rw [List.append_assoc, List.drop_append_of_le_length (by omega), List.drop_take,
      Nat.add_sub_cancel_left, List.take_append, ← read]
    rw [length_read hs, List.take_of_length_le (by rw [length_read hs]; omega), Nat.add_sub_cancel_left,
      List.take_left]
  · rw [read, array_concat, List.drop_zero, List.take_left]

theorem valid_append (hs : h.Valid s) (data spare : List α) :
    (h.append s data spare).2.Valid (h.append s data spare).1 := by
  have hlen := hs.len
  have hcap := hs.cap
  unfold append
  split
  · rename_i hfit
    refine ⟨?_, hfit, ?_⟩
    · rw [List.length_set]
      exact hs.array
    · rw [array_set_self h hs.array]
      simp only [List.length_append, List.length_take, List.length_drop]
      omega
  · refine ⟨?_, Nat.le_add_right _ _, ?_⟩
    · rw [List.length_append]
      exact Nat.lt_succ_self _
    · rw [array_concat, List.length_append, Nat.zero_add]

-- Appending writes to the slice's own array or to a new one.
theorem read_append_of_ne (ht : t.array < h.length) (hne : t.array ≠ s.array) (data spare : List α) :
    (h.append s data spare).2.read t = h.read t := by
  unfold append
  split
  · rw [read, array_set_ne h hne.symm, ← read]
  · exact read_of_grown (List.prefix_append _ _) ht

theorem array_append (h : Heap α) (s : Slice) (data spare : List α) :
    (h.append s data spare).1.array = s.array ∨ (h.append s data spare).1.array = h.length := by
  unfold append
  split
  · exact .inl rfl
  · exact .inr rfl

variable {arrays : List ℕ}

theorem Agree.refl (h : Heap α) (arrays : List ℕ) : h.Agree h arrays :=
  ⟨Nat.le_refl _, fun _ _ => rfl⟩

theorem Agree.trans {h₁ h₂ h₃ : Heap α} (h : h₁.Agree h₂ arrays) (h' : h₂.Agree h₃ arrays) :
    h₁.Agree h₃ arrays :=
  ⟨h.grows.trans h'.grows, fun i hi => (h'.same i hi).trans (h.same i hi)⟩

theorem Agree.mono {fewer : List ℕ} (hag : h.Agree h' arrays) (hsub : fewer ⊆ arrays) : h.Agree h' fewer :=
  ⟨hag.grows, fun i hi => hag.same i (hsub hi)⟩

theorem Agree.read (hag : h.Agree h' arrays) (hs : s.array ∈ arrays) : h'.read s = h.read s := by
  rw [Heap.read, Heap.read, hag.same _ hs]

theorem Agree.valid (hag : h.Agree h' arrays) (hs : s.array ∈ arrays) (hvalid : h.Valid s) :
    h'.Valid s :=
  ⟨hvalid.array.trans_le hag.grows, hvalid.len, (hag.same _ hs).symm ▸ hvalid.cap⟩

theorem agree_of_grown (hgrown : h <+: h') (hlt : ∀ i ∈ arrays, i < h.length) : h.Agree h' arrays :=
  ⟨hgrown.length_le, fun i hi => array_of_grown hgrown (hlt i hi)⟩

theorem agree_set {i : ℕ} (hi : i ∉ arrays) (a : List α) : h.Agree (h.set i a) arrays := by
  refine ⟨(List.length_set).ge, fun j hj => array_set_ne h ?_ a⟩
  rintro rfl
  exact hi hj

theorem agree_append (hs : s.array ∉ arrays) (hlt : ∀ i ∈ arrays, i < h.length) (data spare : List α) :
    h.Agree (h.append s data spare).2 arrays := by
  unfold append
  split
  · exact agree_set hs _
  · exact agree_of_grown (List.prefix_append _ _) hlt

theorem agree_clear (hs : s.array ∉ arrays) (zero : α) : h.Agree (h.clear s zero) arrays :=
  agree_set hs _

-- Clearing leaves every array its length.
theorem Valid.clear (hs : h.Valid s) (zero : α) : (h.clear s zero).Valid s := by
  have hlen := hs.len
  have hcap := hs.cap
  refine ⟨?_, hlen, ?_⟩
  · rw [Heap.clear, List.length_set]
    exact hs.array
  · rw [Heap.clear, array_set_self h hs.array]
    simp only [List.length_append, List.length_take, List.length_replicate, List.length_drop]
    omega

theorem len_append (h : Heap α) (hs : h.Valid s) (data spare : List α) :
    (h.append s data spare).1.len = s.len + data.length := by
  unfold append
  split
  · rfl
  · dsimp only
    rw [List.length_append, length_read hs]

end Heap
