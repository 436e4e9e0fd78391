import UdpCustom.Lib.Ascii

-- strings.TrimSpace: the code points of Unicode white space in UTF-8.
namespace WhiteSpace

def codes : List (List UInt8) :=
  [[9], [10], [11], [12], [13], [32], [0xC2, 0x85], [0xC2, 0xA0], [0xE1, 0x9A, 0x80],
    [0xE2, 0x80, 0x80], [0xE2, 0x80, 0x81], [0xE2, 0x80, 0x82], [0xE2, 0x80, 0x83], [0xE2, 0x80, 0x84],
    [0xE2, 0x80, 0x85], [0xE2, 0x80, 0x86], [0xE2, 0x80, 0x87], [0xE2, 0x80, 0x88], [0xE2, 0x80, 0x89],
    [0xE2, 0x80, 0x8A], [0xE2, 0x80, 0xA8], [0xE2, 0x80, 0xA9], [0xE2, 0x80, 0xAF], [0xE2, 0x81, 0x9F],
    [0xE3, 0x80, 0x80]]

-- Drop what a list of codes matches at the front, `n` times at most.
def dropCodes (codes : List (List UInt8)) : ℕ → List UInt8 → List UInt8
  | 0, s => s
  | n + 1, s =>
      match codes.find? (·.isPrefixOf s) with
      | none => s
      | some code => dropCodes codes n (s.drop code.length)

def trimLeft (s : List UInt8) : List UInt8 :=
  dropCodes codes s.length s

def trimRight (s : List UInt8) : List UInt8 :=
  (dropCodes (codes.map List.reverse) s.length s.reverse).reverse

def trimSpace (s : List UInt8) : List UInt8 :=
  trimRight (trimLeft s)

-- Codes that each begin with a byte that is not printable drop nothing of a text that is.
theorem dropCodes_of_graphic {codes : List (List UInt8)}
    (hcodes : ∀ code ∈ codes, code.head?.all (!Ascii.graphic ·) = true ∧ code ≠ []) (n : ℕ)
    {s : List UInt8} (h : s.all Ascii.graphic = true) : dropCodes codes n s = s := by
  cases n with
  | zero => rfl
  | succ n =>
      have hnone : codes.find? (·.isPrefixOf s) = none := by
        rw [List.find?_eq_none]
        intro code hcode hmatch
        obtain ⟨hhead, hne⟩ := hcodes code hcode
        obtain ⟨rest, hrest⟩ := List.isPrefixOf_iff_prefix.1 hmatch
        cases code with
        | nil => exact hne rfl
        | cons c code =>
            have hc : Ascii.graphic c = true :=
              List.all_eq_true.1 h c (hrest ▸ List.mem_cons_self)
            simp [hc] at hhead
      rw [dropCodes, hnone]

theorem trimSpace_of_graphic {s : List UInt8} (h : s.all Ascii.graphic = true) : trimSpace s = s := by
  rw [trimSpace, trimLeft, dropCodes_of_graphic (by decide) _ h, trimRight,
    dropCodes_of_graphic (by decide) _ (by rwa [List.all_reverse]), List.reverse_reverse]

end WhiteSpace
