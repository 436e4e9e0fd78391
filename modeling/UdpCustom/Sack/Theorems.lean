import UdpCustom.Sack
import UdpCustom.Delivery.Theorems
import UdpCustom.Frame.Theorems

namespace UdpCustom.Sack

open UdpCustom.Frame UdpCustom.Delivery

variable {words : List (BitVec 64)} {d : OrderedDelivery}

theorem trimWords_le (words : List (BitVec 64)) (n : ℕ) : trimWords words n ≤ n := by
  induction n with
  | zero => exact Nat.le_refl _
  | succ n ih =>
      rw [trimWords]
      split_ifs
      · omega
      · exact Nat.le_refl _

private theorem drop_flatMap_put (words : List (BitVec 64)) (i : ℕ) :
    (words.flatMap fun word => BigEndian.put 8 word.toNat).drop (i * 8) =
      (words.drop i).flatMap fun word => BigEndian.put 8 word.toNat := by
  induction i generalizing words with
  | zero => simp
  | succ i ih =>
      cases words with
      | nil => simp
      | cons word words =>
          rw [List.flatMap_cons, List.drop_succ_cons, ← ih words, Nat.succ_mul, Nat.add_comm,
            ← List.drop_drop, List.drop_left' (BigEndian.length_put 8 _)]

private theorem length_flatMap_put (words : List (BitVec 64)) :
    (words.flatMap fun word => BigEndian.put 8 word.toNat).length = words.length * 8 := by
  induction words with
  | nil => rfl
  | cons word words ih =>
      rw [List.flatMap_cons, List.length_append, ih, BigEndian.length_put, List.length_cons]
      omega

theorem sackMaxWords_le (wide : Bool) : sackMaxWords wide ≤ sackWordsWide := by
  unfold sackMaxWords
  split <;> decide

theorem encodeSACKWords_eq (credit : ℕ) (words : List (BitVec 64)) (maxWords : ℕ) :
    encodeSACKWords credit words maxWords = sackPayload credit words (trimWords words maxWords) :=
  rfl

theorem length_sackPayload (credit : ℕ) (words : List (BitVec 64)) (n : ℕ) :
    (sackPayload credit words n).length = 2 + (words.take n).length * 8 := by
  rw [sackPayload, List.length_append, length_flatMap_put, BigEndian.length_put]

theorem length_encodeSACKWords (credit : ℕ) (words : List (BitVec 64)) (maxWords : ℕ) :
    (encodeSACKWords credit words maxWords).length =
      2 + (words.take (trimWords words maxWords)).length * 8 :=
  length_sackPayload credit words _

-- A peer reads back the words that were written.
theorem sackWords_payload (credit : ℕ) (words : List (BitVec 64)) (n : ℕ) :
    sackWords (sackPayload credit words n) = words.take n := by
  set kept := words.take n with hkept
  have hlen : (sackPayload credit words n).length = 2 + kept.length * 8 :=
    length_sackPayload credit words n
  apply List.ext_getElem
  · simp only [sackWords, List.length_map, List.length_range, hlen]
    omega
  · intro i _ hi
    have hfield : fieldAt (sackPayload credit words n) (2 + i * 8) 8 = kept[i].toNat := by
      rw [fieldAt, sackPayload, ← hkept, ← List.drop_drop,
        List.drop_left' (BigEndian.length_put 2 credit), drop_flatMap_put,
        List.drop_eq_getElem_cons hi, List.flatMap_cons, List.take_left' (BigEndian.length_put 8 _)]
      exact BigEndian.get_put_of_lt kept[i].isLt
    simp only [sackWords, List.getElem_map, List.getElem_range, hfield, BitVec.ofNat_toNat,
      BitVec.setWidth_eq]

theorem bit_take {n j : ℕ}
    (h : BitWindow.bit (words.take n) j = true) : BitWindow.bit words j = true := by
  unfold BitWindow.bit at *
  rw [List.getD_eq_getElem?_getD, List.getElem?_take] at h
  split_ifs at h with hj
  · rwa [List.getD_eq_getElem?_getD]
  · simp at h

-- The highest bit of a word is one of the window's.
theorem bit_len64 {i : ℕ} (h : words.getD i 0 ≠ 0) :
    ∃ k, len64 (words.getD i 0) = k + 1 ∧ BitWindow.bit words (i * 64 + k) = true := by
  have hpos : (words.getD i 0).toNat ≠ 0 := fun hzero => h (BitVec.eq_of_toNat_eq hzero)
  have hlog : (words.getD i 0).toNat.log2 < 64 := (Nat.log2_lt hpos).2 (words.getD i 0).isLt
  refine ⟨(words.getD i 0).toNat.log2, by rw [len64, if_neg h], ?_⟩
  unfold BitWindow.bit
  rw [show (i * 64 + (words.getD i 0).toNat.log2) / 64 = i by omega,
    show (i * 64 + (words.getD i 0).toNat.log2) % 64 = (words.getD i 0).toNat.log2 by omega,
    BitVec.getLsbD]
  exact Nat.testBit_log2 hpos

theorem lt_len64 {word : BitVec 64} {k : ℕ} (h : word.getLsbD k = true) : k < len64 word := by
  have hpow : 2 ^ k ≤ word.toNat := Nat.ge_two_pow_of_testBit h
  have hpos : word.toNat ≠ 0 := by
    have := Nat.two_pow_pos k
    omega
  have hne : word ≠ 0 := fun hzero => hpos (congrArg BitVec.toNat hzero)
  rw [len64, if_neg hne]
  exact Nat.lt_succ_of_le ((Nat.le_log2 hpos).2 hpow)

-- What trimming drops is zero.
theorem getD_of_trimWords_le {m i : ℕ} (htrim : trimWords words m ≤ i)
    (hi : i < m) : words.getD i 0 = 0 := by
  induction m with
  | zero => exact absurd hi (Nat.not_lt_zero i)
  | succ m ih =>
      rw [trimWords] at htrim
      split_ifs at htrim with hzero
      · rcases Nat.lt_succ_iff_lt_or_eq.1 hi with hlt | rfl
        · exact ih htrim hlt
        · exact hzero
      · omega

theorem bit_take_of_zero {n : ℕ} (h : ∀ i, n ≤ i → words.getD i 0 = 0) (j : ℕ) :
    BitWindow.bit (words.take n) j = BitWindow.bit words j := by
  unfold BitWindow.bit
  by_cases hj : j / 64 < n
  · rw [List.getD_eq_getElem?_getD, List.getElem?_take, if_pos hj, List.getD_eq_getElem?_getD]
  · rw [h _ (Nat.not_lt.1 hj), List.getD_eq_getElem?_getD, List.getElem?_take, if_neg hj]
    rfl

-- A bit the sender reads from a snapshot's record names a record held then.
theorem bit_payload_snapshot {n j : ℕ}
    (h : BitWindow.bit (sackWords (sackPayload d.snapshot.credit d.snapshot.bitmap n)) j = true) :
    d.delivered + 1 + j ∈ d.pending := by
  rw [sackWords_payload] at h
  have hbit := bit_take h
  rw [OrderedDelivery.snapshot, (bitmap_spec d j).2, decide_eq_true_iff] at hbit
  exact hbit.2

theorem bit_sackWords_snapshot {maxWords j : ℕ}
    (h : BitWindow.bit (sackWords (encodeSACKWords d.snapshot.credit d.snapshot.bitmap maxWords)) j =
      true) : d.delivered + 1 + j ∈ d.pending :=
  bit_payload_snapshot h

-- And if the negotiated words cover the window, every record held has its bit.
theorem bit_payload_snapshot_eq (hwindow : d.InWindow) {maxWords n : ℕ}
    (hlimit : d.limit ≤ 64 * maxWords) (htrim : trimWords d.bitmap maxWords ≤ n) (j : ℕ) :
    BitWindow.bit (sackWords (sackPayload d.snapshot.credit d.snapshot.bitmap n)) j =
      decide (d.delivered + 1 + j ∈ d.pending) := by
  have hzero : ∀ i, n ≤ i → d.bitmap.getD i 0 = 0 := by
    intro i hi
    by_cases hmax : i < maxWords
    · exact getD_of_trimWords_le (htrim.trans hi) hmax
    · by_contra hword
      obtain ⟨k, -, hbit⟩ := bit_len64 hword
      rw [(bitmap_spec d _).2, decide_eq_true_iff] at hbit
      omega
  rw [sackWords_payload, OrderedDelivery.snapshot, bit_take_of_zero hzero, (bitmap_spec d j).2,
    decide_eq_decide, and_iff_right_iff_imp]
  intro hheld
  have := hwindow _ hheld
  omega

theorem sackCredit_payload {credit : ℕ} (h : credit < 2 ^ 16) (words : List (BitVec 64)) (n : ℕ) :
    sackCredit (sackPayload credit words n) = credit := by
  unfold sackCredit fieldAt
  rw [List.drop_zero, sackPayload, List.take_left' (BigEndian.length_put 2 credit)]
  exact BigEndian.get_put_of_lt h

theorem sackCredit_encode {credit : ℕ} (h : credit < 2 ^ 16) (words : List (BitVec 64))
    (maxWords : ℕ) : sackCredit (encodeSACKWords credit words maxWords) = credit :=
  sackCredit_payload h words _

end UdpCustom.Sack
