import Mathlib.Data.List.Basic

-- Text as the bytes the source has it in.
namespace Ascii

def ascii (c : Char) : UInt8 := UInt8.ofNat c.toNat

def text (s : String) : List UInt8 := s.toList.map ascii

-- A printable character other than the space.
def graphic (c : UInt8) : Bool := 33 ≤ c ∧ c ≤ 126

theorem notMem_of_graphic {s : List UInt8} (h : s.all graphic = true) {c : UInt8} (hc : graphic c = false) :
    c ∉ s := by
  intro hmem
  exact absurd (List.all_eq_true.1 h c hmem) (Bool.eq_false_iff.1 hc)

end Ascii
