import UdpCustom.Recovery.Cases

namespace UdpCustom.Recovery

open UdpCustom.Frame UdpCustom.Flow

variable {o : Outstanding} {wire : UDPCFrame}

-- Bookkeeping that neither drops a record nor changes its wire.
structure Outstanding.Kept (o o' : Outstanding) : Prop where
  wire : ∀ seq, (o'.unacked.lookup seq).map (·.wire) = (o.unacked.lookup seq).map (·.wire)
  max : o'.flow.map (·.max) = o.flow.map (·.max)

theorem Outstanding.Kept.refl (o : Outstanding) : o.Kept o :=
  ⟨fun _ => rfl, rfl⟩

theorem Outstanding.Kept.mem_iff {o o' : Outstanding} (h : o.Kept o') {seq : ℕ} :
    seq ∈ o'.unacked ↔ seq ∈ o.unacked := by
  have hw := congrArg Option.isSome (h.wire seq)
  rw [SeqMap.mem_iff_isSome, SeqMap.mem_iff_isSome]
  simpa using hw

theorem Outstanding.Kept.size_eq {o o' : Outstanding} (h : o.Kept o') :
    SeqMap.size o'.unacked = SeqMap.size o.unacked := by
  have hkeys : o'.unacked.keys = o.unacked.keys := by
    ext seq
    rw [Finmap.mem_keys, Finmap.mem_keys, h.mem_iff]
  rw [SeqMap.size, SeqMap.size, hkeys]

theorem Outstanding.Kept.lookup {o o' : Outstanding} (h : o.Kept o') {seq : ℕ} {p : UnackedPkt}
    (hp : o'.unacked.lookup seq = some p) : ∃ q, o.unacked.lookup seq = some q ∧ q.wire = p.wire := by
  have hw := h.wire seq
  rw [hp, Option.map_some] at hw
  obtain ⟨q, hq, he⟩ := Option.map_eq_some_iff.1 hw.symm
  exact ⟨q, hq, he⟩

theorem markTransmitted_kept (o : Outstanding) (wires : List UDPCFrame) (now : ℕ) :
    o.Kept (o.markTransmitted wires now) := by
  refine ⟨fun seq => ?_, rfl⟩
  apply SeqMap.map_lookup_modifyAll
  intro p
  rfl

theorem updateSACK_kept (o : Outstanding) (frame : UDPCFrame) (highest now rtt : ℕ) :
    o.Kept (o.updateSACK frame highest now rtt).2 := by
  have hways := updateSACK_cases o frame highest now rtt
  generalize o.updateSACK frame highest now rtt = r at hways ⊢
  cases hways with
  | ignored _ => exact .refl o
  | taken hflow _ =>
      refine ⟨fun seq => ?_, by rw [hflow]; rfl⟩
      trans
      · apply SeqMap.map_lookup_modifyAll
        intro p
        rfl
      · apply SeqMap.map_lookup_modifyAll
        intro p
        rfl

theorem steady_retract (unacked : SeqMap UnackedPkt) (now srtt : ℕ) (seqs : List ℕ) (f : SendFlow) :
    f.Steady (retract unacked now srtt seqs f) := by
  have hundo : ∀ (f : SendFlow) (p : UnackedPkt), f.Steady (undoIfSpurious f p now srtt).2 := by
    intro f p
    unfold undoIfSpurious
    split_ifs
    · exact .refl f
    · exact .refl f
    · exact steady_undoLoss f
  induction seqs generalizing f with
  | nil => exact .refl f
  | cons seq rest ih =>
      unfold retract
      split
      · exact ih f
      · rename_i p _
        dsimp only
        split_ifs
        · exact hundo f p
        · exact (hundo f p).trans (ih _)

-- How an operation changes the flow, if there is one.
def Outstanding.SteadyFlow (o o' : Outstanding) : Prop :=
  (o.flow = none ∧ o'.flow = none) ∨ ∃ f f', o.flow = some f ∧ o'.flow = some f' ∧ f.Steady f'

theorem Outstanding.SteadyFlow.max {o o' : Outstanding} (h : o.SteadyFlow o') :
    o'.flow.map (·.max) = o.flow.map (·.max) := by
  rcases h with ⟨hf, hf'⟩ | ⟨f, f', hf, hf', hsteady⟩
  · rw [hf, hf']
  · rw [hf, hf', Option.map_some, Option.map_some, hsteady.max]

theorem steadyFlow_handleAck (o : Outstanding) (sendSeq ackSeq now srtt : ℕ) :
    o.SteadyFlow (o.handleAck sendSeq ackSeq now srtt) := by
  cases hflow : o.flow with
  | none =>
      left
      unfold Outstanding.handleAck
      split_ifs <;> simp [hflow]
  | some f =>
      right
      unfold Outstanding.handleAck
      split_ifs
      · exact ⟨f, f, hflow, hflow, .refl f⟩
      · exact ⟨f, f, hflow, hflow, .refl f⟩
      · refine ⟨f, _, hflow, by rw [hflow]; rfl, ?_⟩
        refine SendFlow.Steady.trans ?_ (steady_acknowledged _ _)
        refine SendFlow.Steady.trans ?_ (steady_retract _ _ _ _ _)
        split
        · exact .refl f
        · split_ifs
          · exact steady_observeRTT f _
          · exact .refl f

theorem steady_wakeFlow (o : Outstanding) (now rtt bdp : ℕ) (f : SendFlow) :
    f.Steady (o.wakeFlow now rtt bdp f) := by
  have hprobed : f.Steady (if (creditProbeInterval o).2 then { f with lastProbe := some now } else f) := by
    split
    · exact ⟨rfl, rfl, rfl⟩
    · exact .refl f
  unfold Outstanding.wakeFlow
  dsimp only
  split
  · exact hprobed
  · exact hprobed.trans (steady_loss _ _ _ _ _)

theorem steadyFlow_retryDue (o : Outstanding) (now maximumRTO rtt bdp : ℕ) :
    o.SteadyFlow (o.retryDue now maximumRTO rtt bdp).2 := by
  have hways := retryDue_cases o now maximumRTO rtt bdp
  generalize o.retryDue now maximumRTO rtt bdp = r at hways ⊢
  cases hflow : o.flow with
  | none =>
      left
      cases hways with
      | abandons _ _ _ => exact ⟨hflow, hflow⟩
      | repairs _ => exact ⟨hflow, by rw [hflow]; rfl⟩
  | some f =>
      right
      cases hways with
      | abandons _ _ _ => exact ⟨f, f, hflow, hflow, .refl f⟩
      | repairs _ => exact ⟨f, _, hflow, by rw [hflow]; rfl, steady_wakeFlow o now rtt bdp f⟩

theorem retryDue_kept (o : Outstanding) (now maximumRTO rtt bdp : ℕ) :
    o.Kept (o.retryDue now maximumRTO rtt bdp).2 := by
  refine ⟨fun seq => ?_, (steadyFlow_retryDue o now maximumRTO rtt bdp).max⟩
  have hways := retryDue_cases o now maximumRTO rtt bdp
  generalize o.retryDue now maximumRTO rtt bdp = r at hways ⊢
  cases hways with
  | abandons _ _ _ => rfl
  | repairs _ =>
      apply SeqMap.map_lookup_modifyAll
      intro p
      rfl

theorem mem_wiresAt {unacked : SeqMap UnackedPkt} {seqs : List ℕ}
    (h : wire ∈ wiresAt unacked seqs) :
    ∃ seq p, unacked.lookup seq = some p ∧ p.wire = wire := by
  obtain ⟨seq, _, hseq⟩ := List.mem_filterMap.1 h
  obtain ⟨p, hp, hw⟩ := Option.map_eq_some_iff.1 hseq
  exact ⟨seq, p, hp, hw⟩

-- What the two repair paths repeat is always a record still outstanding.
theorem updateSACK_wires {frame : UDPCFrame} {highest now rtt : ℕ}
    (h : wire ∈ (o.updateSACK frame highest now rtt).1.1) :
    ∃ seq p, o.unacked.lookup seq = some p ∧ p.wire = wire := by
  have hways := updateSACK_cases o frame highest now rtt
  generalize o.updateSACK frame highest now rtt = r at hways h
  cases hways with
  | ignored _ => cases h
  | taken _ _ =>
      obtain ⟨seq, p, hp, hw⟩ := mem_wiresAt h
      have hmap := SeqMap.map_lookup_modifyAll (f := UnackedPkt.markSacked) (g := (·.wire))
        (fun _ => rfl) o.unacked (sackedSeqs frame) seq
      rw [← Outstanding.marked, hp, Option.map_some] at hmap
      obtain ⟨q, hq, he⟩ := Option.map_eq_some_iff.1 hmap.symm
      exact ⟨seq, q, hq, he.trans hw⟩

theorem retryDue_wires {now maximumRTO rtt bdp : ℕ}
    (h : wire ∈ (o.retryDue now maximumRTO rtt bdp).1.wires) :
    ∃ seq p, o.unacked.lookup seq = some p ∧ p.wire = wire := by
  have hways := retryDue_cases o now maximumRTO rtt bdp
  generalize o.retryDue now maximumRTO rtt bdp = r at hways h
  cases hways with
  | abandons _ _ _ => cases h
  | repairs _ => exact mem_wiresAt h

theorem length_wiresAt {unacked : SeqMap UnackedPkt} {seqs : List ℕ} (h : ∀ seq ∈ seqs, seq ∈ unacked) :
    (wiresAt unacked seqs).length = seqs.length := by
  induction seqs with
  | nil => rfl
  | cons seq rest ih =>
      obtain ⟨p, hp⟩ := Finmap.mem_iff.1 (h seq List.mem_cons_self)
      have hrest := ih fun k hk => h k (List.mem_cons_of_mem _ hk)
      simp only [wiresAt, List.filterMap_cons, hp, Option.map_some, List.length_cons]
      rw [← hrest, wiresAt]

-- A record that is neither queued nor sacked and has timed out is repeated,
-- unless the wake gives the session up or has its burst full of older ones.
theorem retryDue_covers {seq now : ℕ} {p : UnackedPkt}
    (hp : o.unacked.lookup seq = some p) (hexpired : p.expired now = true)
    (maximumRTO rtt bdp : ℕ) :
    (o.retryDue now maximumRTO rtt bdp).1.abandoned = true ∨
      p.wire ∈ (o.retryDue now maximumRTO rtt bdp).1.wires ∨
      (o.retryDue now maximumRTO rtt bdp).1.wires.length = retryBurstMax := by
  have hmem : seq ∈ o.overdue now := mem_overdue.2 ⟨p, hp, hexpired⟩
  have hways := retryDue_cases o now maximumRTO rtt bdp
  generalize o.retryDue now maximumRTO rtt bdp = r at hways ⊢
  cases hways with
  | abandons _ _ _ => exact .inl rfl
  | repairs _ =>
      right
      by_cases hdue : seq ∈ o.burst now
      · exact .inl (List.mem_filterMap.2 ⟨seq, hdue, by rw [hp]; rfl⟩)
      · right
        have hlong : retryBurstMax ≤ (o.overdue now).length := by
          by_contra hshort
          refine hdue ?_
          rwa [Outstanding.burst, List.take_of_length_le (by omega)]
        rw [length_wiresAt fun k hk => mem_of_mem_burst hk, Outstanding.burst, List.length_take]
        omega

-- Who is marked as selectively acknowledged.
def Outstanding.Sacked (o : Outstanding) (seq : ℕ) : Prop :=
  (o.unacked.lookup seq).any (·.sacked) = true

theorem sacked_of_map_eq {o o' : Outstanding} {seq : ℕ}
    (h : (o'.unacked.lookup seq).map (·.sacked) = (o.unacked.lookup seq).map (·.sacked)) :
    o'.Sacked seq ↔ o.Sacked seq := by
  unfold Outstanding.Sacked
  have hany : ∀ x : Option UnackedPkt, x.any (·.sacked) = (x.map (·.sacked)).any id := by
    intro x
    cases x <;> rfl
  rw [hany, hany, h]

theorem sacked_markTransmitted (o : Outstanding) (wires : List UDPCFrame) (now seq : ℕ) :
    (o.markTransmitted wires now).Sacked seq ↔ o.Sacked seq := by
  apply sacked_of_map_eq
  apply SeqMap.map_lookup_modifyAll
  intro p
  rfl

theorem sacked_retryDue (o : Outstanding) (now maximumRTO rtt bdp seq : ℕ) :
    (o.retryDue now maximumRTO rtt bdp).2.Sacked seq ↔ o.Sacked seq := by
  have hways := retryDue_cases o now maximumRTO rtt bdp
  generalize o.retryDue now maximumRTO rtt bdp = r at hways ⊢
  cases hways with
  | abandons _ _ _ => exact Iff.rfl
  | repairs _ =>
      apply sacked_of_map_eq
      apply SeqMap.map_lookup_modifyAll
      intro p
      rfl

theorem sacked_updateSACK {frame : UDPCFrame} {highest now rtt seq : ℕ}
    (h : (o.updateSACK frame highest now rtt).2.Sacked seq) :
    o.Sacked seq ∨ seq ∈ sackedSeqs frame := by
  have hways := updateSACK_cases o frame highest now rtt
  generalize o.updateSACK frame highest now rtt = r at hways h
  cases hways with
  | ignored _ => exact .inl h
  | taken _ _ =>
      by_cases hseq : seq ∈ sackedSeqs frame
      · exact .inr hseq
      · left
        refine (sacked_of_map_eq ?_).1 h
        trans
        · apply SeqMap.map_lookup_modifyAll
          intro p
          rfl
        · rw [Outstanding.marked, SeqMap.lookup_modifyAll_of_notMem hseq]

theorem sacked_file {now rto seq : ℕ} (h : (o.file wire now rto).Sacked seq) : o.Sacked seq := by
  unfold Outstanding.Sacked Outstanding.file at *
  by_cases hseq : seq = wire.seq
  · subst hseq
    simp [Finmap.lookup_insert] at h
  · rwa [Finmap.lookup_insert_of_ne _ hseq] at h

-- An acknowledgement forgets records it covers and no other.
theorem lookup_handleAck (o : Outstanding) (sendSeq ackSeq now srtt seq : ℕ) :
    (o.handleAck sendSeq ackSeq now srtt).unacked.lookup seq = o.unacked.lookup seq ∨
      (seq ≤ ackSeq ∧ (o.handleAck sendSeq ackSeq now srtt).unacked.lookup seq = none) := by
  unfold Outstanding.handleAck
  split_ifs
  · exact .inl rfl
  · exact .inl rfl
  · dsimp only
    rw [SeqMap.lookup_eraseAll]
    split_ifs with hcov
    · right
      have := List.mem_range'_1.1 hcov
      exact ⟨by omega, rfl⟩
    · exact .inl rfl

theorem lookup_of_handleAck {sendSeq ackSeq now srtt seq : ℕ} {p : UnackedPkt}
    (h : (o.handleAck sendSeq ackSeq now srtt).unacked.lookup seq = some p) :
    o.unacked.lookup seq = some p := by
  rcases lookup_handleAck o sendSeq ackSeq now srtt seq with he | ⟨_, he⟩
  · rwa [he] at h
  · rw [he] at h
    cases h

theorem size_handleAck_le (o : Outstanding) (sendSeq ackSeq now srtt : ℕ) :
    SeqMap.size (o.handleAck sendSeq ackSeq now srtt).unacked ≤ SeqMap.size o.unacked := by
  apply Finset.card_le_card
  intro seq hseq
  have hmem := SeqMap.mem_iff_isSome.1 (Finmap.mem_keys.1 hseq)
  rw [Finmap.mem_keys, SeqMap.mem_iff_isSome]
  rcases lookup_handleAck o sendSeq ackSeq now srtt seq with h | ⟨_, h⟩
  · rwa [h] at hmem
  · rw [h] at hmem
    cases hmem

theorem sacked_handleAck {sendSeq ackSeq now srtt seq : ℕ}
    (h : (o.handleAck sendSeq ackSeq now srtt).Sacked seq) : o.Sacked seq := by
  unfold Outstanding.Sacked at *
  rcases lookup_handleAck o sendSeq ackSeq now srtt seq with he | ⟨_, he⟩
  · rwa [he] at h
  · rw [he] at h
    cases h

-- The watermark below which nothing is outstanding.
def Outstanding.Lowest (o : Outstanding) : Prop :=
  ∀ seq ∈ o.unacked, o.lowestOutstanding ≤ seq

theorem Outstanding.Lowest.kept {o o' : Outstanding} (h : o.Lowest) (hkept : o.Kept o')
    (hsame : o'.lowestOutstanding = o.lowestOutstanding) : o'.Lowest := by
  intro seq hseq
  rw [hsame]
  exact h seq (hkept.mem_iff.1 hseq)

-- An Ack the sender believes covers everything up to it.
theorem notMem_handleAck (h : o.Lowest) {sendSeq ackSeq seq : ℕ} (now srtt : ℕ)
    (hsent : ackSeq < sendSeq) (hseq : seq ≤ ackSeq) :
    seq ∉ (o.handleAck sendSeq ackSeq now srtt).unacked := by
  intro hmem
  obtain ⟨p, hp⟩ := Finmap.mem_iff.1 hmem
  have hold : seq ∈ o.unacked := Finmap.mem_iff.2 ⟨p, lookup_of_handleAck hp⟩
  have hlow := h seq hold
  have hsize : SeqMap.size o.unacked ≠ 0 := Finset.card_ne_zero_of_mem (Finmap.mem_keys.2 hold)
  unfold Outstanding.handleAck at hp
  rw [if_neg (by omega), if_neg (by omega)] at hp
  dsimp only at hp
  rw [SeqMap.lookup_eraseAll, if_pos (List.mem_range'_1.2 ⟨hlow, by omega⟩)] at hp
  cases hp

theorem lowest_handleAck (h : o.Lowest) (sendSeq ackSeq now srtt : ℕ) :
    (o.handleAck sendSeq ackSeq now srtt).Lowest := by
  intro seq hseq
  have hold := hseq
  unfold Outstanding.handleAck at hseq ⊢
  split_ifs at hseq ⊢
  · exact h seq hseq
  · exact h seq hseq
  · dsimp only at hseq ⊢
    have hlookup := SeqMap.mem_iff_isSome.1 hseq
    rw [SeqMap.lookup_eraseAll] at hlookup
    split_ifs at hlookup with hcovered
    · cases hlookup
    · have hlow := h seq (SeqMap.mem_iff_isSome.2 hlookup)
      have hbeyond : ackSeq + 1 ≤ seq := by
        by_contra hle
        exact hcovered (List.mem_range'_1.2 ⟨hlow, by omega⟩)
      split_ifs
      · exact hbeyond
      · exact hbeyond
      · exact SeqMap.headD_ascending_le hseq _

end UdpCustom.Recovery
