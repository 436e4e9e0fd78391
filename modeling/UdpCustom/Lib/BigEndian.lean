import Mathlib.Data.List.Basic
import Mathlib.Tactic.Ring
import Mathlib.Tactic.Linarith

namespace BigEndian

-- The `w` low bytes of `n`, most significant first.
def put : (w : ℕ) → ℕ → List UInt8
  | 0, _ => []
  | w + 1, n => UInt8.ofNat (n / 256 ^ w) :: put w n

def get : List UInt8 → ℕ
  | [] => 0
  | b :: rest => b.toNat * 256 ^ rest.length + get rest

@[simp] theorem length_put (w n : ℕ) : (put w n).length = w := by
  induction w with
  | zero => rfl
  | succ w ih => simp [put, ih]

-- Reading back what was written keeps the low bytes.
theorem get_put (w n : ℕ) : get (put w n) = n % 256 ^ w := by
  induction w with
  | zero => simp [put, get, Nat.mod_one]
  | succ w ih =>
      rw [put, get, length_put, ih, UInt8.toNat_ofNat']
      have h := Nat.mod_mul (x := n) (a := 256 ^ w) (b := 256)
      rw [show 256 ^ (w + 1) = 256 ^ w * 256 by ring, h]
      ring

-- A field behind others is found by dropping their widths.
theorem drop_put_append {w k : ℕ} (n : ℕ) (rest : List UInt8) (h : w ≤ k) :
    (put w n ++ rest).drop k = rest.drop (k - w) := by
  rw [List.drop_append, length_put, List.drop_of_length_le (by rwa [length_put]), List.nil_append]

theorem take_put_append (w n : ℕ) (rest : List UInt8) : (put w n ++ rest).take w = put w n :=
  List.take_left' (length_put w n)

theorem get_put_of_lt {w n : ℕ} (h : n < 256 ^ w) : get (put w n) = n := by
  rw [get_put, Nat.mod_eq_of_lt h]

-- Only the low bytes are written.
theorem put_congr {w n m : ℕ} (h : n % 256 ^ w = m % 256 ^ w) : put w n = put w m := by
  induction w with
  | zero => rfl
  | succ w ih =>
      have hpow : 256 ^ (w + 1) = 256 ^ w * 256 := by ring
      have hlow : n % 256 ^ w = m % 256 ^ w := by
        have hboth := congrArg (· % 256 ^ w) h
        simpa only [hpow, Nat.mod_mul_right_mod] using hboth
      have hhigh : n / 256 ^ w % 256 = m / 256 ^ w % 256 := by
        have hboth := congrArg (· / 256 ^ w) h
        simpa only [hpow, Nat.mod_mul_right_div_self] using hboth
      have hbyte : UInt8.ofNat (n / 256 ^ w) = UInt8.ofNat (m / 256 ^ w) :=
        UInt8.toNat_inj.1 (by rw [UInt8.toNat_ofNat', UInt8.toNat_ofNat']; exact hhigh)
      rw [put, put, hbyte, ih hlow]

theorem get_lt (bytes : List UInt8) : get bytes < 256 ^ bytes.length := by
  induction bytes with
  | nil => exact Nat.one_pos
  | cons b rest ih =>
      have hb : b.toNat < 256 := b.toNat_lt
      have hpow : 256 ^ (rest.length + 1) = 256 * 256 ^ rest.length := by ring
      rw [get, List.length_cons, hpow]
      nlinarith

-- Writing back what was read restores the bytes.
theorem put_get (bytes : List UInt8) : put bytes.length (get bytes) = bytes := by
  induction bytes with
  | nil => rfl
  | cons b rest ih =>
      have hlow := get_lt rest
      have hpos : 0 < 256 ^ rest.length := Nat.pow_pos (by decide)
      have hhead : (b.toNat * 256 ^ rest.length + get rest) / 256 ^ rest.length = b.toNat := by
        rw [Nat.add_comm, Nat.add_mul_div_right _ _ hpos, Nat.div_eq_of_lt hlow, Nat.zero_add]
      have htail : put rest.length (b.toNat * 256 ^ rest.length + get rest) =
          put rest.length (get rest) :=
        put_congr (by rw [Nat.add_comm, Nat.add_mul_mod_self_right])
      rw [List.length_cons, put, get, hhead, htail, ih, UInt8.ofNat_toNat]

end BigEndian
