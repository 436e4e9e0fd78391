import UdpCustom.Delivery

namespace UdpCustom.Delivery

open UdpCustom.Frame

variable {d : OrderedDelivery}

-- Everything an offer can do. It changes the queue only by storing a new
-- record inside the window.
theorem offerObserved_cases (d : OrderedDelivery) (seq : ℕ) (payload : Bytes) :
    (d.offerObserved seq payload = (.refused, d) ∧
      (seq = 0 ∨ d.closed = true ∨
        (d.delivered < seq ∧ seq ∉ d.pending ∧
          (d.delivered + d.limit < seq ∨ d.limit ≤ SeqMap.size d.pending)))) ∨
    (d.offerObserved seq payload = ({ fresh := false, ok := true, ack := some d.delivered }, d) ∧
      d.closed = false ∧ 0 < seq ∧ seq ≤ d.delivered) ∨
    (d.offerObserved seq payload = ({ fresh := false, ok := true, ack := none }, d) ∧
      d.closed = false ∧ d.delivered < seq ∧ seq ∈ d.pending) ∨
    (∃ ack, d.offerObserved seq payload = ({ fresh := true, ok := true, ack := ack },
        { d with pending := d.pending.insert seq payload, wake := true }) ∧
      (∀ a ∈ ack, a = d.delivered) ∧ d.closed = false ∧ d.delivered < seq ∧ seq ∉ d.pending ∧
      seq ≤ d.delivered + d.limit ∧ SeqMap.size d.pending < d.limit) := by
  unfold OrderedDelivery.offerObserved
  split_ifs with hzero hclosed hold hheld hfar
  · exact .inl ⟨rfl, .inl hzero⟩
  · exact .inl ⟨rfl, .inr (.inl hclosed)⟩
  · exact .inr (.inl ⟨rfl, by simpa using hclosed, by omega, hold⟩)
  · exact .inr (.inr (.inl ⟨rfl, by simpa using hclosed, by omega, hheld⟩))
  · exact .inl ⟨rfl, .inr (.inr ⟨by omega, hheld, by omega⟩)⟩
  · refine .inr (.inr (.inr ⟨_, rfl, ?_, by simpa using hclosed, by omega, hheld, by omega,
      by omega⟩))
    intro a ha
    split_ifs at ha <;> simp_all

-- What it does to the queue, whatever it answers.
theorem offerObserved_queue (d : OrderedDelivery) (seq : ℕ) (payload : Bytes) :
    (d.offerObserved seq payload).2 = d ∨
    (d.offerObserved seq payload).2 = { d with pending := d.pending.insert seq payload, wake := true } ∧
      d.delivered < seq ∧ seq ≤ d.delivered + d.limit := by
  rcases offerObserved_cases d seq payload with
    ⟨h, _⟩ | ⟨h, _⟩ | ⟨h, _⟩ | ⟨ack, h, _, _, hlow, _, hhigh, _⟩
  · exact .inl (congrArg Prod.snd h)
  · exact .inl (congrArg Prod.snd h)
  · exact .inl (congrArg Prod.snd h)
  · exact .inr ⟨congrArg Prod.snd h, hlow, hhigh⟩

theorem delivered_offerObserved (d : OrderedDelivery) (seq : ℕ) (payload : Bytes) :
    (d.offerObserved seq payload).2.delivered = d.delivered := by
  rcases offerObserved_queue d seq payload with h | ⟨h, _⟩ <;> rw [h]

-- A record the queue answers for: it holds it or has delivered it. A closed
-- queue answers for nothing.
def OrderedDelivery.Held (d : OrderedDelivery) (seq : ℕ) : Prop :=
  d.closed = true ∨ seq ∈ d.pending ∨ seq ≤ d.delivered

-- How a queue changes: it never takes back an answer.
structure OrderedDelivery.Advances (d d' : OrderedDelivery) : Prop where
  delivered : d.delivered ≤ d'.delivered
  limit : d'.limit = d.limit
  closed : d.closed = true → d'.closed = true
  held : ∀ seq, d.Held seq → d'.Held seq

theorem OrderedDelivery.Advances.refl (d : OrderedDelivery) : d.Advances d :=
  ⟨Nat.le_refl _, rfl, id, fun _ => id⟩

theorem OrderedDelivery.Advances.trans {d d₁ d' : OrderedDelivery} (h : d.Advances d₁)
    (h' : d₁.Advances d') : d.Advances d' where
  delivered := h.delivered.trans h'.delivered
  limit := h'.limit.trans h.limit
  closed := fun hc => h'.closed (h.closed hc)
  held := fun seq hs => h'.held seq (h.held seq hs)

theorem advances_offerObserved (d : OrderedDelivery) (seq : ℕ) (payload : Bytes) :
    d.Advances (d.offerObserved seq payload).2 := by
  rcases offerObserved_queue d seq payload with h | ⟨h, _⟩
  · rw [h]
    exact .refl d
  · rw [h]
    refine ⟨Nat.le_refl _, rfl, id, fun k hk => ?_⟩
    rcases hk with hk | hk | hk
    · exact .inl hk
    · exact .inr (.inl (Finmap.mem_insert.2 (.inr hk)))
    · exact .inr (.inr hk)

theorem advances_complete (d : OrderedDelivery) : d.Advances (d.complete (d.delivered + 1)) := by
  refine ⟨Nat.le_succ _, rfl, id, fun k hk => ?_⟩
  rcases hk with hk | hk | hk
  · exact .inl hk
  · by_cases hhead : k = d.delivered + 1
    · exact .inr (.inr hhead.le)
    · exact .inr (.inl (Finmap.mem_erase.2 ⟨hhead, hk⟩))
  · exact .inr (.inr (hk.trans (Nat.le_succ _)))

theorem advances_close (d : OrderedDelivery) : d.Advances d.close :=
  ⟨Nat.le_refl _, rfl, fun _ => rfl, fun _ _ => .inl rfl⟩

-- What is held lies in the window above the delivered prefix.
def OrderedDelivery.InWindow (d : OrderedDelivery) : Prop :=
  ∀ k ∈ d.pending, d.delivered < k ∧ k ≤ d.delivered + d.limit

theorem inWindow_new (limit : ℕ) : (newOrderedDelivery limit).InWindow := by
  intro k hk
  exact absurd hk Finmap.notMem_empty

theorem inWindow_offerObserved (h : d.InWindow) (seq : ℕ) (payload : Bytes) :
    (d.offerObserved seq payload).2.InWindow := by
  rcases offerObserved_queue d seq payload with he | ⟨he, hlow, hhigh⟩
  · rw [he]
    exact h
  · rw [he]
    intro k hk
    rcases Finmap.mem_insert.1 hk with rfl | hk
    · exact ⟨hlow, hhigh⟩
    · exact h k hk

theorem inWindow_complete (h : d.InWindow) :
    (d.complete (d.delivered + 1)).InWindow := by
  intro k hk
  obtain ⟨hne, hk⟩ := Finmap.mem_erase.1 hk
  have := h k hk
  simp only [OrderedDelivery.complete]
  omega

theorem inWindow_close (d : OrderedDelivery) : d.close.InWindow := by
  intro k hk
  exact absurd hk Finmap.notMem_empty

theorem size_pending_le (h : d.InWindow) :
    SeqMap.size d.pending ≤ d.limit :=
  SeqMap.size_le_of_window h

private theorem foldl_setBit (p : ℕ → Prop) [DecidablePred p] (ks : List ℕ)
    (words : List (BitVec 64)) (hks : ∀ k ∈ ks, k < words.length * 64) (j : ℕ) :
    let out := ks.foldl (fun words k => if p k then BitWindow.setBit words k else words) words
    out.length = words.length ∧
      BitWindow.bit out j = (BitWindow.bit words j || decide (j ∈ ks ∧ p j)) := by
  induction ks generalizing words with
  | nil => simp
  | cons k ks ih =>
      have hk := hks k List.mem_cons_self
      have hrest : ∀ i ∈ ks, i < words.length * 64 := fun i hi => hks i (List.mem_cons_of_mem _ hi)
      simp only [List.foldl_cons]
      split_ifs with hp
      · obtain ⟨hlen, hbit⟩ := ih (BitWindow.setBit words k) (by simpa using hrest)
        refine ⟨by simpa using hlen, ?_⟩
        rw [hbit, BitWindow.bit_setBit (by decide) hk]
        by_cases hj : j = k
        · simp [hj, hp]
        · simp [hj]
      · obtain ⟨hlen, hbit⟩ := ih words hrest
        refine ⟨hlen, ?_⟩
        rw [hbit]
        by_cases hj : j = k
        · simp [hj, hp]
        · simp [hj]

private theorem bit_zeros (j : ℕ) :
    BitWindow.bit (List.replicate sackWordsWide (0 : BitVec 64)) j = false := by
  rw [BitWindow.bit, List.getD_eq_getElem?_getD, List.getElem?_replicate]
  split <;> simp

theorem bitmap_spec (d : OrderedDelivery) (j : ℕ) :
    d.bitmap.length = sackWordsWide ∧
      BitWindow.bit d.bitmap j = decide (j < d.limit ∧ d.delivered + 1 + j ∈ d.pending) := by
  have hlimit : ∀ k ∈ List.range d.limit,
      k < (List.replicate sackWordsWide (0 : BitVec 64)).length * 64 := by
    intro k hk
    have := List.mem_range.1 hk
    have := d.limit_le
    simp only [List.length_replicate, sackWordsWide, deliveryWindowWide] at *
    omega
  obtain ⟨hlen, hbit⟩ := foldl_setBit (fun k => d.delivered + 1 + k ∈ d.pending)
    (List.range d.limit) (List.replicate sackWordsWide 0) hlimit j
  refine ⟨hlen.trans List.length_replicate, ?_⟩
  rw [OrderedDelivery.bitmap, hbit, bit_zeros, Bool.false_or]
  simp only [List.mem_range]

-- The gaps a snapshot shows are the records held.
theorem sackGaps_bitmap (h : d.InWindow) :
    sackGaps d.bitmap = SeqMap.size d.pending := by
  have hlen := (bitmap_spec d 0).1
  let held := (List.range (d.bitmap.length * 64)).filter (BitWindow.bit d.bitmap)
  have hkeys : d.pending.keys = (held.map (d.delivered + 1 + ·)).toFinset := by
    ext k
    rw [Finmap.mem_keys, List.mem_toFinset, List.mem_map]
    constructor
    · intro hk
      have hwin := h k hk
      have hmax := d.limit_le
      have he : d.delivered + 1 + (k - d.delivered - 1) = k := by omega
      refine ⟨k - d.delivered - 1, List.mem_filter.2 ⟨?_, ?_⟩, he⟩
      · rw [hlen, List.mem_range]
        simp only [sackWordsWide, deliveryWindowWide] at *
        omega
      · rw [(bitmap_spec d _).2, decide_eq_true_iff, he]
        exact ⟨by omega, hk⟩
    · rintro ⟨j, hj, rfl⟩
      have hbit := (List.mem_filter.1 hj).2
      rw [(bitmap_spec d j).2, decide_eq_true_iff] at hbit
      exact hbit.2
  have hnodup : (held.map (d.delivered + 1 + ·)).Nodup :=
    (List.nodup_range.filter _).map fun _ _ h => Nat.add_left_cancel h
  rw [sackGaps, BitWindow.ones_eq_countP _ (by decide), SeqMap.size, hkeys,
    List.toFinset_card_of_nodup hnodup, List.length_map, List.countP_eq_length_filter]

end UdpCustom.Delivery
