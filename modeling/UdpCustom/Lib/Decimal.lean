import UdpCustom.Lib.Ascii
import Mathlib.Data.Nat.Digits.Defs
import Mathlib.Data.Int.Notation
import Mathlib.Tactic.Ring

-- Integers in decimal text, as strconv.Itoa writes them and strconv.Atoi reads them
-- with 64-bit integers.
namespace Decimal

def byte (d : ℕ) : UInt8 := UInt8.ofNat (48 + d)

def render (n : ℕ) : List UInt8 :=
  if n = 0 then [byte 0] else (Nat.digits 10 n).reverse.map byte

def itoa : ℤ → List UInt8
  | .ofNat n => render n
  | .negSucc n => 45 :: render (n + 1)

def isDigit (c : UInt8) : Bool := 48 ≤ c ∧ c ≤ 57

def read (acc : ℕ) : List UInt8 → Option ℕ
  | [] => some acc
  | c :: rest => if isDigit c then read (acc * 10 + (c.toNat - 48)) rest else none

-- At least one digit after an optional sign, and a value in range.
def unsigned (s : List UInt8) : Option ℕ :=
  if s = [] then none else read 0 s

def atoi (s : List UInt8) : Option ℤ :=
  match s with
  | 45 :: rest => (unsigned rest).bind fun n => if n ≤ 2 ^ 63 then some (-(n : ℤ)) else none
  | 43 :: rest => (unsigned rest).bind fun n => if n < 2 ^ 63 then some (n : ℤ) else none
  | s => (unsigned s).bind fun n => if n < 2 ^ 63 then some (n : ℤ) else none

theorem toNat_byte {d : ℕ} (hd : d < 10) : (byte d).toNat = 48 + d := by
  simp only [byte, UInt8.toNat_ofNat']
  omega

theorem isDigit_byte {d : ℕ} (hd : d < 10) : isDigit (byte d) = true := by
  have h := toNat_byte hd
  simp only [isDigit, UInt8.le_iff_toNat_le, h]
  simp
  omega

theorem read_map_byte {ds : List ℕ} (hds : ∀ d ∈ ds, d < 10) (acc : ℕ) :
    read acc (ds.map byte) = some (ds.foldl (fun a d => a * 10 + d) acc) := by
  induction ds generalizing acc with
  | nil => rfl
  | cons d rest ih =>
      have hd := hds d List.mem_cons_self
      rw [List.map_cons, read, if_pos (isDigit_byte hd), toNat_byte hd, Nat.add_sub_cancel_left,
        ih fun e he => hds e (List.mem_cons_of_mem _ he), List.foldl_cons]

theorem foldl_reverse_digits (n : ℕ) :
    (Nat.digits 10 n).reverse.foldl (fun a d => a * 10 + d) 0 = n := by
  have hfold : ∀ ds : List ℕ, ds.foldr (fun d a => a * 10 + d) 0 = Nat.ofDigits 10 ds := by
    intro ds
    induction ds with
    | nil => rfl
    | cons d rest ih =>
        rw [List.foldr_cons, ih, Nat.ofDigits_cons]
        ring
  rw [List.foldl_reverse, hfold, Nat.ofDigits_digits]

theorem render_ne_nil (n : ℕ) : render n ≠ [] := by
  unfold render
  split
  · exact List.cons_ne_nil _ _
  · rename_i hn
    simpa using Nat.digits_ne_nil_iff_ne_zero.2 hn

theorem isDigit_of_mem_render {n : ℕ} {c : UInt8} (hc : c ∈ render n) : isDigit c = true := by
  unfold render at hc
  split at hc
  · rw [List.mem_singleton.1 hc]
    decide
  · obtain ⟨d, hd, rfl⟩ := List.mem_map.1 hc
    exact isDigit_byte (Nat.digits_lt_base (by decide) (List.mem_reverse.1 hd))

theorem unsigned_render (n : ℕ) : unsigned (render n) = some n := by
  rw [unsigned, if_neg (render_ne_nil n)]
  unfold render
  split
  · rename_i hn
    rw [hn]
    decide
  · rw [read_map_byte fun d hd => Nat.digits_lt_base (by decide) (List.mem_reverse.1 hd),
      foldl_reverse_digits]

theorem atoi_render {n : ℕ} (hn : n < 2 ^ 63) : atoi (render n) = some (n : ℤ) := by
  have hsome : ((unsigned (render n)).bind fun m => if m < 2 ^ 63 then some (m : ℤ) else none) =
      some (n : ℤ) := by
    rw [unsigned_render, Option.bind_some, if_pos hn]
  -- A rendered number does not begin with a sign.
  cases hr : render n with
  | nil => exact absurd hr (render_ne_nil n)
  | cons c rest =>
      have hc : isDigit c = true := isDigit_of_mem_render (hr ▸ List.mem_cons_self)
      rw [hr] at hsome
      unfold atoi
      split
      · rename_i heq
        cases heq
        exact absurd hc (by decide)
      · rename_i heq
        cases heq
        exact absurd hc (by decide)
      · exact hsome

theorem itoa_of_nonneg {n : ℤ} (hn : 0 ≤ n) : itoa n = render n.toNat := by
  obtain ⟨m, rfl⟩ := Int.eq_ofNat_of_zero_le hn
  rfl

theorem atoi_itoa {n : ℤ} (hn : 0 ≤ n) (hlt : n < 2 ^ 63) : atoi (itoa n) = some n := by
  rw [itoa_of_nonneg hn, atoi_render (by omega)]
  exact congrArg some (Int.toNat_of_nonneg hn)

theorem isDigit_of_mem_itoa {n : ℤ} (hn : 0 ≤ n) {c : UInt8} (hc : c ∈ itoa n) : isDigit c = true := by
  rw [itoa_of_nonneg hn] at hc
  exact isDigit_of_mem_render hc

theorem itoa_ne_nil {n : ℤ} (hn : 0 ≤ n) : itoa n ≠ [] := by
  rw [itoa_of_nonneg hn]
  exact render_ne_nil _

theorem graphic_of_isDigit {c : UInt8} (h : isDigit c = true) : Ascii.graphic c = true := by
  unfold isDigit at h
  unfold Ascii.graphic
  simp only [decide_eq_true_eq, UInt8.le_iff_toNat_le] at h ⊢
  obtain ⟨hlow, hhigh⟩ := h
  exact ⟨le_trans (by decide) hlow, le_trans hhigh (by decide)⟩

theorem graphic_of_mem_itoa {n : ℤ} {c : UInt8} (hc : c ∈ itoa n) : Ascii.graphic c = true := by
  cases n with
  | ofNat n => exact graphic_of_isDigit (isDigit_of_mem_render hc)
  | negSucc n =>
      rcases List.mem_cons.1 hc with rfl | hc
      · decide
      · exact graphic_of_isDigit (isDigit_of_mem_render hc)

theorem all_graphic_itoa (n : ℤ) : (itoa n).all Ascii.graphic = true :=
  List.all_eq_true.2 fun _ hc => graphic_of_mem_itoa hc

end Decimal
