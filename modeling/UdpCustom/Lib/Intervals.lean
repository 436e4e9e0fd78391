import UdpCustom.Lib.BinarySearch
import Mathlib.Algebra.BigOperators.Group.List.Basic
import Mathlib.Algebra.Order.Ring.Int

-- Sets of integers as lists of inclusive intervals in increasing order with a gap
-- between any two.
namespace Intervals

structure Interval where
  lo : ℤ
  hi : ℤ
  deriving DecidableEq

variable {ivs : List Interval} {iv : Interval}

namespace Interval

def Contains (iv : Interval) (p : ℤ) : Prop :=
  iv.lo ≤ p ∧ p ≤ iv.hi

def width (iv : Interval) : ℤ :=
  iv.hi - iv.lo + 1

def elements (iv : Interval) : List ℤ :=
  (List.range iv.width.toNat).map fun k : ℕ => iv.lo + k

theorem mem_elements {p : ℤ} : p ∈ iv.elements ↔ iv.Contains p := by
  unfold elements Contains width
  constructor
  · intro h
    obtain ⟨k, hk, rfl⟩ := List.mem_map.1 h
    have hk := List.mem_range.1 hk
    omega
  · rintro ⟨hlo, hhi⟩
    refine List.mem_map.2 ⟨(p - iv.lo).toNat, List.mem_range.2 ?_, ?_⟩ <;> omega

theorem pairwise_elements (iv : Interval) : iv.elements.Pairwise (· < ·) := by
  unfold elements
  rw [List.pairwise_map]
  exact List.pairwise_lt_range.imp fun hlt => by omega

theorem length_elements (h : iv.lo ≤ iv.hi) : (iv.elements.length : ℤ) = iv.width := by
  unfold elements width
  rw [List.length_map, List.length_range]
  omega

end Interval

-- Non-empty intervals, in increasing order, no two of which touch.
structure Separated (ivs : List Interval) : Prop where
  nonempty : ∀ iv ∈ ivs, iv.lo ≤ iv.hi
  gaps : ivs.Pairwise fun a b => a.hi + 1 < b.lo

theorem Separated.tail {rest : List Interval} (h : Separated (iv :: rest)) :
    Separated rest :=
  ⟨fun x hx => h.nonempty x (List.mem_cons_of_mem _ hx), (List.pairwise_cons.1 h.gaps).2⟩

theorem Separated.cons {rest : List Interval} (h : Separated rest) (hiv : iv.lo ≤ iv.hi)
    (hgap : ∀ other ∈ rest, iv.hi + 1 < other.lo) : Separated (iv :: rest) := by
  refine ⟨fun x hx => ?_, List.pairwise_cons.2 ⟨hgap, h.gaps⟩⟩
  rcases List.mem_cons.1 hx with rfl | hx
  · exact hiv
  · exact h.nonempty x hx

def elements (ivs : List Interval) : List ℤ :=
  ivs.flatMap Interval.elements

def width (ivs : List Interval) : ℤ :=
  (ivs.map Interval.width).sum

theorem mem_elements {p : ℤ} :
    p ∈ elements ivs ↔ ∃ iv ∈ ivs, iv.Contains p := by
  simp only [elements, List.mem_flatMap, Interval.mem_elements]

theorem Separated.pairwise_elements (h : Separated ivs) :
    (elements ivs).Pairwise (· < ·) := by
  induction ivs with
  | nil => exact List.Pairwise.nil
  | cons iv rest ih =>
      rw [elements, List.flatMap_cons, ← elements]
      refine List.pairwise_append.2 ⟨iv.pairwise_elements, ih h.tail, fun a ha b hb => ?_⟩
      obtain ⟨other, hother, hlo, -⟩ := mem_elements.1 hb
      have hgap := (List.pairwise_cons.1 h.gaps).1 other hother
      have hhi := (Interval.mem_elements.1 ha).2
      omega

theorem Separated.length_elements (h : Separated ivs) :
    ((elements ivs).length : ℤ) = width ivs := by
  induction ivs with
  | nil => rfl
  | cons iv rest ih =>
      rw [elements, List.flatMap_cons, ← elements, List.length_append, width, List.map_cons,
        List.sum_cons, ← width, ← ih h.tail, Nat.cast_add,
        Interval.length_elements (h.nonempty iv List.mem_cons_self)]

-- Below an interval, above it, or inside.
def compare (p : ℤ) (iv : Interval) : Ordering :=
  if p < iv.lo then .lt else if iv.hi < p then .gt else .eq

theorem compare_eq_iff {p : ℤ} : compare p iv = .eq ↔ iv.Contains p := by
  unfold compare Interval.Contains
  split_ifs <;> simp <;> omega

theorem Separated.ordered (h : Separated ivs) (p : ℤ) :
    BinarySearch.Ordered (compare p) ivs := by
  have hboth : ivs.Pairwise fun a b => (a.hi + 1 < b.lo) ∧ a.lo ≤ a.hi ∧ b.lo ≤ b.hi := by
    refine List.Pairwise.imp_of_mem (fun ha hb hgap => ?_) h.gaps
    exact ⟨hgap, h.nonempty _ ha, h.nonempty _ hb⟩
  refine hboth.imp fun {a b} hab => ⟨fun hlt => ?_, fun hgt => ?_⟩
  · unfold compare at hlt ⊢
    split_ifs at hlt ⊢ <;> first | rfl | omega
  · unfold compare at hgt ⊢
    split_ifs at hgt ⊢ <;> first | rfl | omega

theorem Separated.search_iff (h : Separated ivs) (p : ℤ) :
    BinarySearch.search (compare p) ivs = true ↔ p ∈ elements ivs := by
  rw [BinarySearch.search_iff (h.ordered p), mem_elements]
  simp only [compare_eq_iff]

-- The element at a position, by walking over the intervals.
def nth : List Interval → ℤ → Option ℤ
  | [], _ => none
  | iv :: rest, i => if i < iv.width then some (iv.lo + i) else nth rest (i - iv.width)

theorem Separated.nth_eq (h : Separated ivs) (k : ℕ) :
    nth ivs k = (elements ivs)[k]? := by
  induction ivs generalizing k with
  | nil => rfl
  | cons iv rest ih =>
      have hlen := Interval.length_elements (h.nonempty iv List.mem_cons_self)
      rw [nth, elements, List.flatMap_cons, ← elements]
      split
      · rename_i hk
        have hlt : k < iv.elements.length := by omega
        rw [List.getElem?_append_left hlt, List.getElem?_eq_getElem hlt]
        simp [Interval.elements]
      · rename_i hk
        have hge : iv.elements.length ≤ k := by omega
        rw [List.getElem?_append_right hge, ← ih h.tail (k - iv.elements.length)]
        congr 1
        omega

end Intervals
