import UdpCustom.Lib.Ascii
import Mathlib.Data.List.Basic

-- Bytes written as text: hexadecimal, and base64 with and without padding.
open Ascii

namespace Hex

def digit (v : ℕ) : UInt8 :=
  if v < 10 then ascii '0' + UInt8.ofNat v else ascii 'a' + UInt8.ofNat (v - 10)

def value (c : UInt8) : Option ℕ :=
  if ascii '0' ≤ c ∧ c ≤ ascii '9' then some (c.toNat - (ascii '0').toNat)
  else if ascii 'a' ≤ c ∧ c ≤ ascii 'f' then some (c.toNat - (ascii 'a').toNat + 10)
  else if ascii 'A' ≤ c ∧ c ≤ ascii 'F' then some (c.toNat - (ascii 'A').toNat + 10)
  else none

def encode (b : List UInt8) : List UInt8 :=
  b.flatMap fun b => [digit (b.toNat / 16), digit (b.toNat % 16)]

def decode : List UInt8 → Option (List UInt8)
  | [] => some []
  | [_] => none
  | c :: d :: rest =>
    match value c, value d, decode rest with
    | some x, some y, some bytes => some (UInt8.ofNat (16 * x + y) :: bytes)
    | _, _, _ => none

end Hex

namespace Base64

def letter (v : ℕ) : UInt8 :=
  if v < 26 then ascii 'A' + UInt8.ofNat v
  else if v < 52 then ascii 'a' + UInt8.ofNat (v - 26)
  else if v < 62 then ascii '0' + UInt8.ofNat (v - 52)
  else if v = 62 then ascii '+'
  else ascii '/'

def value (c : UInt8) : Option ℕ :=
  if ascii 'A' ≤ c ∧ c ≤ ascii 'Z' then some (c.toNat - (ascii 'A').toNat)
  else if ascii 'a' ≤ c ∧ c ≤ ascii 'z' then some (c.toNat - (ascii 'a').toNat + 26)
  else if ascii '0' ≤ c ∧ c ≤ ascii '9' then some (c.toNat - (ascii '0').toNat + 52)
  else if c = ascii '+' then some 62
  else if c = ascii '/' then some 63
  else none

def first (a : UInt8) : UInt8 := letter (a.toNat / 4)
def second (a b : UInt8) : UInt8 := letter (a.toNat % 4 * 16 + b.toNat / 16)
def third (b c : UInt8) : UInt8 := letter (b.toNat % 16 * 4 + c.toNat / 64)
def fourth (c : UInt8) : UInt8 := letter (c.toNat % 64)

def encode : List UInt8 → List UInt8
  | [] => []
  | [a] => [first a, second a 0, ascii '=', ascii '=']
  | [a, b] => [first a, second a b, third b 0, ascii '=']
  | a :: b :: c :: rest => first a :: second a b :: third b c :: fourth c :: encode rest

def oneByte (p q : UInt8) : Option (List UInt8) :=
  match value p, value q with
  | some x, some y => some [UInt8.ofNat (x * 4 + y / 16)]
  | _, _ => none

def twoBytes (p q r : UInt8) : Option (List UInt8) :=
  match oneByte p q, value q, value r with
  | some bytes, some y, some z => some (bytes ++ [UInt8.ofNat (y % 16 * 16 + z / 4)])
  | _, _, _ => none

def threeBytes (p q r s : UInt8) : Option (List UInt8) :=
  match twoBytes p q r, value r, value s with
  | some bytes, some z, some w => some (bytes ++ [UInt8.ofNat (z % 4 * 64 + w)])
  | _, _, _ => none

-- The groups of a text with padding. The bits a padded group does not use are not
-- looked at.
def padded : List UInt8 → Option (List UInt8)
  | [] => some []
  | p :: q :: r :: s :: rest =>
    if s = ascii '=' then
      if rest ≠ [] then none
      else if r = ascii '=' then oneByte p q
      else twoBytes p q r
    else
      match threeBytes p q r s, padded rest with
      | some bytes, some more => some (bytes ++ more)
      | _, _ => none
  | _ => none

def unpadded : List UInt8 → Option (List UInt8)
  | [] => some []
  | [_] => none
  | [p, q] => oneByte p q
  | [p, q, r] => twoBytes p q r
  | p :: q :: r :: s :: rest =>
    match threeBytes p q r s, unpadded rest with
    | some bytes, some more => some (bytes ++ more)
    | _, _ => none

-- Line breaks are skipped wherever they stand.
def stripped (s : List UInt8) : List UInt8 :=
  s.filter fun c => c ≠ 10 ∧ c ≠ 13

def decode (s : List UInt8) : Option (List UInt8) := padded (stripped s)

def decodeRaw (s : List UInt8) : Option (List UInt8) := unpadded (stripped s)

-- A letter is a printable character, and stands for its value.
theorem letter_spec {v : ℕ} (hv : v < 64) :
    value (letter v) = some v ∧ letter v ≠ ascii '=' ∧ graphic (letter v) = true := by
  revert v
  decide

theorem oneByte_encode (a b : UInt8) : oneByte (first a) (second a b) = some [a] := by
  have ha := a.toNat_lt
  have hb := b.toNat_lt
  unfold oneByte first second
  rw [(letter_spec (show a.toNat / 4 < 64 by omega)).1,
    (letter_spec (show a.toNat % 4 * 16 + b.toNat / 16 < 64 by omega)).1]
  dsimp only
  rw [show a.toNat / 4 * 4 + (a.toNat % 4 * 16 + b.toNat / 16) / 16 = a.toNat by omega,
    UInt8.ofNat_toNat]

theorem twoBytes_encode (a b c : UInt8) :
    twoBytes (first a) (second a b) (third b c) = some [a, b] := by
  have ha := a.toNat_lt
  have hb := b.toNat_lt
  have hc := c.toNat_lt
  unfold twoBytes
  rw [oneByte_encode]
  unfold second third
  rw [(letter_spec (show a.toNat % 4 * 16 + b.toNat / 16 < 64 by omega)).1,
    (letter_spec (show b.toNat % 16 * 4 + c.toNat / 64 < 64 by omega)).1]
  dsimp only
  rw [show (a.toNat % 4 * 16 + b.toNat / 16) % 16 * 16 + (b.toNat % 16 * 4 + c.toNat / 64) / 4 =
    b.toNat by omega, UInt8.ofNat_toNat]
  rfl

theorem threeBytes_encode (a b c : UInt8) :
    threeBytes (first a) (second a b) (third b c) (fourth c) = some [a, b, c] := by
  have hb := b.toNat_lt
  have hc := c.toNat_lt
  unfold threeBytes
  rw [twoBytes_encode]
  unfold third fourth
  rw [(letter_spec (show b.toNat % 16 * 4 + c.toNat / 64 < 64 by omega)).1,
    (letter_spec (show c.toNat % 64 < 64 by omega)).1]
  dsimp only
  rw [show (b.toNat % 16 * 4 + c.toNat / 64) % 4 * 64 + c.toNat % 64 = c.toNat by omega,
    UInt8.ofNat_toNat]
  rfl

theorem padded_encode (b : List UInt8) : padded (encode b) = some b := by
  induction b using encode.induct with
  | case1 => rfl
  | case2 a => exact oneByte_encode a 0
  | case3 a b =>
      have hthird : third b 0 ≠ ascii '=' :=
        (letter_spec (by have := b.toNat_lt; simp; omega)).2.1
      unfold encode padded
      rw [if_pos rfl, if_neg (fun h => h rfl), if_neg hthird, twoBytes_encode]
  | case4 a b c rest ih =>
      have hfourth : fourth c ≠ ascii '=' := (letter_spec (Nat.mod_lt _ (by decide))).2.1
      unfold encode padded
      rw [if_neg hfourth, threeBytes_encode, ih]
      rfl

theorem graphic_encode (b : List UInt8) : ∀ c ∈ encode b, graphic c = true := by
  have hpad : graphic (ascii '=') = true := by decide
  have hfirst : ∀ a, graphic (first a) = true := fun a =>
    (letter_spec (by have := a.toNat_lt; omega)).2.2
  have hsecond : ∀ a b, graphic (second a b) = true := fun a b =>
    (letter_spec (by have := b.toNat_lt; omega)).2.2
  have hthird : ∀ b c, graphic (third b c) = true := fun b c =>
    (letter_spec (by have := c.toNat_lt; omega)).2.2
  have hfourth : ∀ c, graphic (fourth c) = true := fun c =>
    (letter_spec (Nat.mod_lt _ (by decide))).2.2
  induction b using encode.induct with
  | case1 => exact List.forall_mem_nil _
  | case2 a => simp [encode, hfirst, hsecond, hpad]
  | case3 a b => simp [encode, hfirst, hsecond, hthird, hpad]
  | case4 a b c rest ih => simp [encode, hfirst, hsecond, hthird, hfourth]; exact ih

theorem decode_encode (b : List UInt8) : decode (encode b) = some b := by
  have hplain : stripped (encode b) = encode b := by
    refine List.filter_eq_self.2 fun c hc => decide_eq_true ⟨?_, ?_⟩
    · rintro rfl
      exact absurd (graphic_encode b 10 hc) (by decide)
    · rintro rfl
      exact absurd (graphic_encode b 13 hc) (by decide)
  rw [decode, hplain, padded_encode]

theorem length_encode (b : List UInt8) : (encode b).length = (b.length + 2) / 3 * 4 := by
  induction b using encode.induct with
  | case1 => rfl
  | case2 a => simp [encode]
  | case3 a b => simp [encode]
  | case4 a b c rest ih =>
      simp only [encode, List.length_cons, ih]
      omega

end Base64
