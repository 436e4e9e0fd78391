import Mathlib.Algebra.GroupWithZero.Nat
import Mathlib.Data.List.GetD
import Mathlib.Tactic.SplitIfs

-- A window of bits kept in words, bit 0 of word 0 first. Sliding the window by
-- `n` moves every bit `n` places up; what passes the last word is forgotten.
namespace BitWindow

variable {w : ℕ} {words : List (BitVec w)}

def bit (words : List (BitVec w)) (i : ℕ) : Bool :=
  (words.getD (i / w) 0).getLsbD (i % w)

-- One word up, dropping the last.
def shiftWord (words : List (BitVec w)) : List (BitVec w) :=
  0 :: words.dropLast

-- `n` places up within words: each word takes the top bits of the one below it.
def shiftBits (n : ℕ) (below : BitVec w) : List (BitVec w) → List (BitVec w)
  | [] => []
  | x :: rest => ((x <<< n) ||| (below >>> (w - n))) :: shiftBits n x rest

-- Whole words while there are any to slide, the rest in one partial slide.
def slide : (fuel : ℕ) → (n : ℕ) → List (BitVec w) → List (BitVec w)
  | 0, _, words => words
  | fuel + 1, n, words =>
    if n = 0 then words
    else if w ≤ n then slide fuel (n - w) (shiftWord words)
    else slide fuel 0 (shiftBits n 0 words)

def setBit (words : List (BitVec w)) (i : ℕ) : List (BitVec w) :=
  words.set (i / w) (words.getD (i / w) 0 ||| (1#w <<< (i % w)))

def clearBit (words : List (BitVec w)) (i : ℕ) : List (BitVec w) :=
  words.set (i / w) (words.getD (i / w) 0 &&& ~~~(1#w <<< (i % w)))

@[simp] theorem length_setBit (words : List (BitVec w)) (i : ℕ) :
    (setBit words i).length = words.length := by
  simp [setBit]

@[simp] theorem length_clearBit (words : List (BitVec w)) (i : ℕ) :
    (clearBit words i).length = words.length := by
  simp [clearBit]

theorem length_shiftWord (h : words ≠ []) :
    (shiftWord words).length = words.length := by
  have := List.length_pos_iff.2 h
  simp [shiftWord]
  omega

@[simp] theorem length_shiftBits (n : ℕ) (below : BitVec w) (words : List (BitVec w)) :
    (shiftBits n below words).length = words.length := by
  induction words generalizing below with
  | nil => rfl
  | cons x rest ih => simp [shiftBits, ih]

theorem length_slide (fuel n : ℕ) (h : words ≠ []) :
    (slide fuel n words).length = words.length := by
  induction fuel generalizing n words with
  | zero => rfl
  | succ fuel ih =>
      unfold slide
      have hpos := List.length_pos_iff.2 h
      split_ifs
      · rfl
      · rw [ih _ (by simp [shiftWord]), length_shiftWord h]
      · rw [ih _ (List.ne_nil_of_length_pos (by simpa using hpos)), length_shiftBits]

-- Two positions in the same word have different offsets.
private theorem mod_ne_of_div_eq {i j : ℕ} (hij : i ≠ j) (hd : i / w = j / w) :
    i % w ≠ j % w := by
  intro hm
  apply hij
  rw [← Nat.div_add_mod i w, ← Nat.div_add_mod j w, hd, hm]

private theorem div_mod_of_eq {i q r : ℕ} (h : i = w * q + r) (hr : r < w) :
    i / w = q ∧ i % w = r := by
  subst h
  rw [Nat.mul_add_div (by omega), Nat.mul_add_mod, Nat.div_eq_of_lt hr, Nat.mod_eq_of_lt hr]
  exact ⟨rfl, rfl⟩

-- Writing one bit of one word.
private theorem bit_set {words : List (BitVec w)} {i j : ℕ} {x : BitVec w} {v : Bool} (hw : 0 < w)
    (hi : i < words.length * w)
    (hx : ∀ r, r < w → x.getLsbD r = if r = i % w then v else (words.getD (i / w) 0).getLsbD r) :
    bit (words.set (i / w) x) j = if j = i then v else bit words j := by
  have hlt : i / w < words.length := (Nat.div_lt_iff_lt_mul hw).2 hi
  unfold bit
  by_cases hd : i / w = j / w
  · rw [← hd, List.getD_eq_getElem _ _ (by simpa using hlt), List.getElem_set_self, hx _ (Nat.mod_lt _ hw)]
    by_cases hij : j = i
    · rw [hij, if_pos rfl, if_pos rfl]
    · rw [if_neg (mod_ne_of_div_eq hij hd.symm), if_neg hij]
  · have hij : j ≠ i := fun h => hd (by rw [h])
    simp [hij, List.getD_eq_getElem?_getD, hd]

theorem bit_setBit {i j : ℕ} (hw : 0 < w)
    (hi : i < words.length * w) : bit (setBit words i) j = (bit words j || decide (j = i)) := by
  rw [setBit, bit_set (v := true) hw hi fun r hr => ?_]
  · split_ifs with hij <;> simp [hij]
  · split_ifs with hri
    · simp [hri, Nat.mod_lt _ hw]
    · simp [hr]
      omega

theorem bit_clearBit {i j : ℕ} (hw : 0 < w)
    (hi : i < words.length * w) : bit (clearBit words i) j = (bit words j && decide (j ≠ i)) := by
  rw [clearBit, bit_set (v := false) hw hi fun r hr => ?_]
  · split_ifs with hij <;> simp [hij]
  · split_ifs with hri
    · simp [hri, Nat.mod_lt _ hw]
    · simp [hr]
      omega

theorem bit_shiftWord {i : ℕ} (hw : 0 < w) (hi : i < words.length * w) :
    bit (shiftWord words) i = (decide (w ≤ i) && bit words (i - w)) := by
  unfold bit shiftWord
  by_cases h : w ≤ i
  · obtain ⟨j, rfl⟩ := Nat.exists_eq_add_of_le' h
    have hdiv : (j + w) / w = j / w + 1 := Nat.add_div_right _ hw
    have hlt : j / w < words.dropLast.length := by
      rw [List.length_dropLast]
      have := (Nat.div_lt_iff_lt_mul hw).2 hi
      omega
    rw [hdiv, List.getD_cons_succ, List.getD_eq_getElem _ _ hlt, List.getElem_dropLast,
      Nat.add_sub_cancel, List.getD_eq_getElem _ _ (by simp at hlt; omega)]
    simp
  · rw [Nat.div_eq_of_lt (by omega)]
    simp [h]

-- The word above `below` in the shifted window, wherever it stands.
private theorem getD_shiftBits (n : ℕ) (below : BitVec w) (words : List (BitVec w)) (k : ℕ)
    (hk : k < words.length) :
    (shiftBits n below words).getD k 0 =
      (words.getD k 0 <<< n) ||| ((below :: words).getD k 0 >>> (w - n)) := by
  induction words generalizing below k with
  | nil => simp at hk
  | cons x rest ih =>
      cases k with
      | zero => simp [shiftBits]
      | succ k =>
          simp only [shiftBits, List.getD_cons_succ]
          exact ih x k (by simpa using hk)

theorem bit_shiftBits {n i : ℕ} (hn : 0 < n) (hnw : n < w) (hi : i < words.length * w) :
    bit (shiftBits n 0 words) i = (decide (n ≤ i) && bit words (i - n)) := by
  have hw : 0 < w := by omega
  have hk : i / w < words.length := (Nat.div_lt_iff_lt_mul hw).2 hi
  have hm : i % w < w := Nat.mod_lt _ hw
  have hdm := Nat.div_add_mod i w
  unfold bit
  rw [getD_shiftBits n 0 words _ hk]
  by_cases hlow : i % w < n
  -- the bit comes out of the word below
  · cases hq : i / w with
    | zero =>
        have : i < n := by
          rw [hq] at hdm
          omega
        simp [hlow, hm, Nat.not_le.2 this]
    | succ q =>
        have hin : n ≤ i := by
          rw [hq, Nat.mul_succ] at hdm
          omega
        have hpos : i - n = w * q + (i % w + w - n) := by
          rw [hq, Nat.mul_succ] at hdm
          omega
        obtain ⟨hd, hr⟩ := div_mod_of_eq hpos (by omega)
        rw [hd, hr]
        simp [hlow, hm, hin]
        congr 1
        omega
  · have hin : n ≤ i := by
      have := Nat.mod_le i w
      omega
    have hpos : i - n = w * (i / w) + (i % w - n) := by omega
    obtain ⟨hd, hr⟩ := div_mod_of_eq hpos (by omega)
    have hbelow : ∀ x : BitVec w, x.getLsbD (w - n + i % w) = false := fun x =>
      BitVec.getLsbD_of_ge _ _ (by omega)
    rw [hd, hr, BitVec.getLsbD_or, BitVec.getLsbD_ushiftRight, hbelow, BitVec.getLsbD_shiftLeft]
    simp only [hlow, hm, hin, decide_true, decide_false, Bool.not_false, Bool.true_and,
      Bool.or_false]

-- What the sliding loop leaves at each place of the window.
theorem bit_slide {fuel n i : ℕ} (hw : 0 < w) (hfuel : n ≤ fuel) (hi : i < words.length * w) :
    bit (slide fuel n words) i = (decide (n ≤ i) && bit words (i - n)) := by
  induction fuel generalizing n i words with
  | zero => simp [slide, Nat.le_zero.1 hfuel]
  | succ fuel ih =>
      have hne : words ≠ [] := by
        rintro rfl
        simp at hi
      unfold slide
      split_ifs with h0 hword
      · simp [h0]
      · have hlen := length_shiftWord hne
        rw [ih (by omega) (by rw [hlen]; exact hi)]
        by_cases hin : n - w ≤ i
        · rw [bit_shiftWord hw (by omega)]
          by_cases hni : n ≤ i
          · simp [hni, hin, show w ≤ i - (n - w) by omega, show i - (n - w) - w = i - n by omega]
          · simp [hni, show ¬w ≤ i - (n - w) by omega]
        · simp [hin, show ¬n ≤ i by omega]
      · rw [ih (by omega) (by simpa using hi), bit_shiftBits (by omega) (by omega) (by omega)]
        simp

-- How many bits of the window are set, word by word.
def ones (words : List (BitVec w)) : ℕ :=
  (words.map fun x => (List.range w).countP x.getLsbD).sum

theorem bit_cons_of_lt {x : BitVec w} {i : ℕ} (h : i < w) :
    bit (x :: words) i = x.getLsbD i := by
  rw [bit, Nat.div_eq_of_lt h, Nat.mod_eq_of_lt h, List.getD_cons_zero]

theorem bit_cons_add {x : BitVec w} {i : ℕ} (hw : 0 < w) :
    bit (x :: words) (w + i) = bit words i := by
  rw [bit, bit, Nat.add_div_left _ hw, Nat.add_mod_left, List.getD_cons_succ]

theorem ones_eq_countP (words : List (BitVec w)) (hw : 0 < w) :
    ones words = (List.range (words.length * w)).countP (bit words) := by
  induction words with
  | nil => simp [ones]
  | cons x words ih =>
      have hlow : (List.range w).countP (bit (x :: words)) = (List.range w).countP x.getLsbD := by
        apply List.countP_congr
        intro i hi
        rw [bit_cons_of_lt (List.mem_range.1 hi)]
      have hhigh : (List.map (w + ·) (List.range (words.length * w))).countP (bit (x :: words)) =
          (List.range (words.length * w)).countP (bit words) := by
        rw [List.countP_map]
        apply List.countP_congr
        intro i _
        rw [Function.comp_apply, bit_cons_add hw]
      rw [List.length_cons, Nat.succ_mul, Nat.add_comm, List.range_add, List.countP_append, hlow,
        hhigh, ← ih]
      simp [ones]

end BitWindow
