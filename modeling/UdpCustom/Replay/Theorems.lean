import UdpCustom.Replay
import Mathlib.Tactic.SplitIfs

namespace UdpCustom.Replay

variable {rf : ReplayFilter} {n : ℕ}

-- What the filter is for: the packet numbers it still remembers.
def ReplayFilter.Recorded (rf : ReplayFilter) (n : ℕ) : Prop :=
  rf.seenMax = true ∧ n ≤ rf.maxSeq ∧ rf.maxSeq - n < replayWindowPackets ∧
    BitWindow.bit rf.window (rf.maxSeq - n) = true

instance (rf : ReplayFilter) (n : ℕ) : Decidable (rf.Recorded n) := by
  unfold ReplayFilter.Recorded
  infer_instance

-- A number is behind the window once the newest accepted one is a window ahead of it.
def ReplayFilter.Behind (rf : ReplayFilter) (n : ℕ) : Prop :=
  rf.seenMax = true ∧ n + replayWindowPackets ≤ rf.maxSeq

instance (rf : ReplayFilter) (n : ℕ) : Decidable (rf.Behind n) := by
  unfold ReplayFilter.Behind
  infer_instance

@[simp] theorem not_recorded_new (n : ℕ) : ¬ReplayFilter.new.Recorded n := by
  simp [ReplayFilter.Recorded, ReplayFilter.new]

@[simp] theorem not_behind_new (n : ℕ) : ¬ReplayFilter.new.Behind n := by
  simp [ReplayFilter.Behind, ReplayFilter.new]

private theorem window_bits (rf : ReplayFilter) :
    rf.window.length * 64 = replayWindowPackets := by
  rw [rf.length_window]
  rfl

private theorem bit_zeroWindow (i : ℕ) : BitWindow.bit zeroWindow i = false := by
  unfold BitWindow.bit zeroWindow
  rw [List.getD_eq_getElem?_getD, List.getElem?_replicate]
  split <;> simp

private theorem bit_slideWindow (rf : ReplayFilter) (diff : ℕ) {i : ℕ}
    (hi : i < replayWindowPackets) :
    BitWindow.bit (slideWindow rf.window diff) i =
      (decide (diff ≤ i) && BitWindow.bit rf.window (i - diff)) := by
  unfold slideWindow
  split_ifs with h
  · simp [bit_zeroWindow, show ¬diff ≤ i by omega]
  · exact BitWindow.bit_slide (by decide) (Nat.le_refl _) (by rw [window_bits]; exact hi)

-- The decision: neither zero, nor behind the window, nor remembered.
theorem accept_iff (rf : ReplayFilter) (n : ℕ) :
    (rf.accept n).1 = true ↔ n ≠ 0 ∧ ¬rf.Behind n ∧ ¬rf.Recorded n := by
  unfold ReplayFilter.accept ReplayFilter.acceptLocked ReplayFilter.Behind ReplayFilter.Recorded
  split_ifs with h0 hfresh hnew hold hbit
  · simp [h0]
  · simp [h0, hfresh]
  · have : ¬n + replayWindowPackets ≤ rf.maxSeq := by omega
    simp [h0, this, Nat.not_le.2 hnew]
  · have : n + replayWindowPackets ≤ rf.maxSeq := by
      have : 0 < replayWindowPackets := by decide
      omega
    simp [h0, this, hfresh]
  · have hs : rf.seenMax = true := by simpa using hfresh
    simp [h0, hs, hbit, Nat.not_lt.1 hnew, Nat.not_le.1 hold]
  · have : ¬n + replayWindowPackets ≤ rf.maxSeq := by omega
    simp [h0, this, hbit]

theorem accept_newer (h : rf.maxSeq < n) : (rf.accept n).1 = true := by
  rw [accept_iff]
  refine ⟨by omega, ?_, ?_⟩
  · rintro ⟨_, hold⟩
    omega
  · rintro ⟨_, hold, _⟩
    omega

theorem maxSeq_accept {n m : ℕ} (h : rf.maxSeq ≤ m) (hn : n ≤ m) :
    (rf.accept n).2.maxSeq ≤ m := by
  unfold ReplayFilter.accept ReplayFilter.acceptLocked
  split_ifs
  · exact h
  · exact hn
  · exact hn
  · exact h
  · exact h
  · exact h

theorem accept_false (h : (rf.accept n).1 = false) :
    (rf.accept n).2 = rf := by
  unfold ReplayFilter.accept ReplayFilter.acceptLocked at h ⊢
  split_ifs at h ⊢ <;> simp_all

theorem newest_accept (h : (rf.accept n).1 = true) :
    (rf.accept n).2.seenMax = true ∧
      (rf.accept n).2.maxSeq = if rf.seenMax then max n rf.maxSeq else n := by
  unfold ReplayFilter.accept ReplayFilter.acceptLocked at *
  cases hseen : rf.seenMax with
  | false =>
      simp only [hseen, Bool.false_eq_true, ite_true, ite_false] at h ⊢
      split_ifs at h ⊢ with h0
      exact ⟨rfl, rfl⟩
  | true =>
      simp only [hseen, Bool.true_eq_false, ite_false] at h ⊢
      split_ifs at h ⊢ with h0 hnew hold hbit
      · exact ⟨rfl, (Nat.max_eq_left (Nat.le_of_lt hnew)).symm⟩
      · exact ⟨rfl, (Nat.max_eq_right (Nat.not_lt.1 hnew)).symm⟩

theorem seen_eq (rf : ReplayFilter) (n : ℕ) : rf.seen n = !(rf.accept n).1 := by
  unfold ReplayFilter.seen ReplayFilter.accept ReplayFilter.acceptLocked
  split_ifs with h0 hfresh hnew hold hbit
  · rfl
  · rfl
  · rfl
  · rfl
  · exact hbit
  · exact Bool.eq_false_iff.2 hbit

-- What is behind the window after an acceptance.
theorem behind_accept (h : (rf.accept n).1 = true) (m : ℕ) :
    (rf.accept n).2.Behind m ↔ rf.Behind m ∨ m + replayWindowPackets ≤ n := by
  unfold ReplayFilter.accept ReplayFilter.acceptLocked ReplayFilter.Behind at *
  split_ifs at h ⊢ with h0 hfresh hnew hold hbit
  · simp [hfresh]
  · have hs : rf.seenMax = true := by simpa using hfresh
    simp only [true_and, hs]
    omega
  · have hs : rf.seenMax = true := by simpa using hfresh
    simp only [true_and, hs]
    omega

private theorem first_window : zeroWindow.set 0 1 = BitWindow.setBit zeroWindow 0 := by
  decide

-- What is remembered after an acceptance.
theorem recorded_accept (h : (rf.accept n).1 = true) (m : ℕ) :
    (rf.accept n).2.Recorded m ↔ (m = n ∨ rf.Recorded m) ∧ ¬(rf.accept n).2.Behind m := by
  have hpos : 0 < replayWindowPackets := by decide
  unfold ReplayFilter.accept ReplayFilter.acceptLocked ReplayFilter.Behind
    ReplayFilter.Recorded at *
  split_ifs at h ⊢ with h0 hfresh hnew hold hbit
  · simp only [rf.fresh hfresh, first_window, hfresh, true_and]
    by_cases hm : m ≤ n ∧ n - m < replayWindowPackets
    · rw [BitWindow.bit_setBit (by decide) (by decide), bit_zeroWindow]
      simp only [Bool.false_or, decide_eq_true_eq, Bool.false_eq_true, false_and, or_false]
      omega
    · simp only [Bool.false_eq_true, false_and, or_false]
      omega
  · have hs : rf.seenMax = true := by simpa using hfresh
    simp only [true_and, hs]
    by_cases hm : m ≤ n ∧ n - m < replayWindowPackets
    · have hslide := length_slideWindow (n - rf.maxSeq) rf.length_window
      rw [BitWindow.bit_setBit (by decide) (by rw [hslide]; decide),
        bit_slideWindow rf _ hm.2]
      simp only [Bool.or_eq_true, Bool.and_eq_true, decide_eq_true_eq]
      by_cases hle : m ≤ rf.maxSeq
      · rw [show n - m - (n - rf.maxSeq) = rf.maxSeq - m by omega]
        have hd : n - rf.maxSeq ≤ n - m := by omega
        have hw : rf.maxSeq - m < replayWindowPackets := by omega
        have hb : ¬m + replayWindowPackets ≤ n := by omega
        have hne : m ≠ n := by omega
        simp [hm.1, hm.2, hle, hd, hw, hb, hne, show ¬n - m = 0 by omega]
      · have hd : ¬n - rf.maxSeq ≤ n - m := by omega
        simp only [hd, hle, false_and, false_or, or_false]
        omega
    · omega
  · have hs : rf.seenMax = true := by simpa using hfresh
    simp only [true_and, hs]
    rw [BitWindow.bit_setBit (by decide) (by rw [window_bits]; omega)]
    simp only [Bool.or_eq_true, decide_eq_true_eq]
    by_cases hm : m ≤ rf.maxSeq ∧ rf.maxSeq - m < replayWindowPackets
    · have hb : ¬m + replayWindowPackets ≤ rf.maxSeq := by omega
      have he : rf.maxSeq - m = rf.maxSeq - n ↔ m = n := by omega
      simp only [hm.1, hm.2, hb, he, true_and, not_false_eq_true, and_true]
      exact or_comm
    · omega

theorem behind_remove (rf : ReplayFilter) (n m : ℕ) : (rf.remove n).Behind m ↔ rf.Behind m := by
  unfold ReplayFilter.remove ReplayFilter.Behind
  split_ifs <;> rfl

theorem recorded_remove (rf : ReplayFilter) (hn : n ≠ 0) (m : ℕ) :
    (rf.remove n).Recorded m ↔ rf.Recorded m ∧ m ≠ n := by
  unfold ReplayFilter.remove ReplayFilter.Recorded
  rw [if_neg hn]
  split_ifs with hout
  · constructor
    · rintro ⟨hs, hle, hlt, hb⟩
      refine ⟨⟨hs, hle, hlt, hb⟩, ?_⟩
      rintro rfl
      rcases hout with h | h | h
      · simp [hs] at h
      · omega
      · omega
    · exact fun h => h.1
  · have hin : rf.maxSeq - n < replayWindowPackets := by omega
    simp only
    rw [BitWindow.bit_clearBit (by decide) (by rw [window_bits]; exact hin)]
    simp only [Bool.and_eq_true, decide_eq_true_eq]
    constructor
    · rintro ⟨hs, hle, hlt, hb, hne⟩
      exact ⟨⟨hs, hle, hlt, hb⟩, fun h => hne (by rw [h])⟩
    · rintro ⟨⟨hs, hle, hlt, hb⟩, hne⟩
      exact ⟨hs, hle, hlt, hb, by omega⟩

-- A number taken back right after its acceptance is acceptable again.
theorem accept_remove_accept (h : (rf.accept n).1 = true) :
    (((rf.accept n).2.remove n).accept n).1 = true := by
  obtain ⟨hzero, hbehind, -⟩ := (accept_iff rf n).1 h
  rw [accept_iff, behind_remove, recorded_remove _ hzero, behind_accept h]
  refine ⟨hzero, ?_, fun hrec => hrec.2 rfl⟩
  rintro (hb | hb)
  · exact hbehind hb
  · have hpos : 0 < replayWindowPackets := by decide
    omega

theorem recorded_remove_of_ne (rf : ReplayFilter) {n m : ℕ} (h : m ≠ n) :
    (rf.remove n).Recorded m ↔ rf.Recorded m := by
  by_cases hn : n = 0
  · simp [ReplayFilter.remove, hn]
  · rw [recorded_remove rf hn]
    exact and_iff_left h

-- What an acceptance leaves of the numbers known before it: each is still
-- remembered or has fallen behind.
theorem known_accept (rf : ReplayFilter) (n m : ℕ) (h : rf.Recorded m ∨ rf.Behind m) :
    (rf.accept n).2.Recorded m ∨ (rf.accept n).2.Behind m := by
  cases hacc : (rf.accept n).1 with
  | false =>
      rw [accept_false hacc]
      exact h
  | true =>
      by_cases hb : (rf.accept n).2.Behind m
      · exact .inr hb
      · rw [behind_accept hacc] at hb
        have hrec : rf.Recorded m := h.resolve_right fun h => hb (.inl h)
        refine .inl ((recorded_accept hacc m).2 ⟨.inr hrec, ?_⟩)
        rw [behind_accept hacc]
        exact hb

theorem known_accepted (hacc : (rf.accept n).1 = true) :
    (rf.accept n).2.Recorded n ∨ (rf.accept n).2.Behind n := by
  by_cases hb : (rf.accept n).2.Behind n
  · exact .inr hb
  · exact .inl ((recorded_accept hacc n).2 ⟨.inl rfl, hb⟩)

end UdpCustom.Replay
