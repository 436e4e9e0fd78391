import UdpCustom.Recovery.Selective

-- When the sender repeats a record, probes, or takes the peer's credit.
namespace UdpCustom.Recovery

open UdpCustom.Frame UdpCustom.Delivery UdpCustom.Flow UdpCustom.Sack

variable {o : Outstanding}

-- A record keeps its deadline unless its wire is among those repeated.
def Outstanding.Repaired (o o' : Outstanding) (wires : List UDPCFrame) : Prop :=
  ∀ seq p', o'.unacked.lookup seq = some p' → ∃ p, o.unacked.lookup seq = some p ∧
    p'.wire = p.wire ∧ p'.queued = p.queued ∧
      ((p'.sentTime = p.sentTime ∧ p'.rto = p.rto) ∨ p.wire ∈ wires)

theorem Outstanding.Repaired.refl (o : Outstanding) (wires : List UDPCFrame) :
    o.Repaired o wires :=
  fun _ p hp => ⟨p, hp, rfl, rfl, .inl ⟨rfl, rfl⟩⟩

theorem Outstanding.Repaired.mono {o o' : Outstanding} {wires wires' : List UDPCFrame}
    (h : o.Repaired o' wires) (hsub : ∀ w ∈ wires, w ∈ wires') : o.Repaired o' wires' := by
  intro seq p' hp'
  obtain ⟨p, hp, hwire, hqueued, hdeadline⟩ := h seq p' hp'
  exact ⟨p, hp, hwire, hqueued, hdeadline.imp id (hsub p.wire)⟩

theorem Outstanding.Repaired.trans {o o₁ o' : Outstanding} {wires : List UDPCFrame}
    (h : o.Repaired o₁ wires) (h' : o₁.Repaired o' wires) : o.Repaired o' wires := by
  intro seq p' hp'
  obtain ⟨q, hq, hwire', hqueued', hdeadline'⟩ := h' seq p' hp'
  obtain ⟨p, hp, hwire, hqueued, hdeadline⟩ := h seq q hq
  refine ⟨p, hp, hwire'.trans hwire, hqueued'.trans hqueued, ?_⟩
  rcases hdeadline' with ⟨hsent', hrto'⟩ | hmem
  · rcases hdeadline with ⟨hsent, hrto⟩ | hmem
    · exact .inl ⟨hsent'.trans hsent, hrto'.trans hrto⟩
    · exact .inr hmem
  · exact .inr (hwire ▸ hmem)

private theorem lookup_backOff {unacked : SeqMap UnackedPkt} {due : List ℕ} {now maximumRTO seq : ℕ}
    {p' : UnackedPkt}
    (h : (SeqMap.modifyAll (.backOff now maximumRTO) unacked due).lookup seq = some p') :
    ∃ p, unacked.lookup seq = some p ∧ p'.wire = p.wire ∧ p'.queued = p.queued ∧
      ((p'.sentTime = p.sentTime ∧ p'.rto = p.rto) ∨ p.wire ∈ wiresAt unacked due) := by
  by_cases hdue : seq ∈ due
  · revert h
    refine SeqMap.lookup_modifyAll_of (P := fun v => ∃ p, unacked.lookup seq = some p ∧
      v.wire = p.wire ∧ v.queued = p.queued ∧
        ((v.sentTime = p.sentTime ∧ v.rto = p.rto) ∨ p.wire ∈ wiresAt unacked due)) ?_ ?_ p'
    · rintro v ⟨p, hp, hwire, hqueued, _⟩
      refine ⟨p, hp, hwire, hqueued, .inr ?_⟩
      exact List.mem_filterMap.2 ⟨seq, hdue, by rw [hp]; rfl⟩
    · exact fun v hv => ⟨v, hv, rfl, rfl, .inl ⟨rfl, rfl⟩⟩
  · rw [SeqMap.lookup_modifyAll_of_notMem hdue] at h
    exact ⟨p', h, rfl, rfl, .inl ⟨rfl, rfl⟩⟩

theorem retryDue_repaired (o : Outstanding) (now maximumRTO rtt bdp : ℕ) :
    o.Repaired (o.retryDue now maximumRTO rtt bdp).2 (o.retryDue now maximumRTO rtt bdp).1.wires := by
  have hways := retryDue_cases o now maximumRTO rtt bdp
  generalize o.retryDue now maximumRTO rtt bdp = r at hways ⊢
  cases hways with
  | abandons _ _ _ => exact .refl o _
  | repairs _ => exact fun seq p' hp' => lookup_backOff hp'

-- A mark changes neither the wire nor its deadline nor its attempts.
private theorem lookup_markSacked {unacked : SeqMap UnackedPkt} {seqs : List ℕ} {seq : ℕ} :
    ∀ q, (SeqMap.modifyAll UnackedPkt.markSacked unacked seqs).lookup seq = some q →
      ∃ p, unacked.lookup seq = some p ∧ q.wire = p.wire ∧ q.queued = p.queued ∧
        q.sentTime = p.sentTime ∧ q.rto = p.rto ∧ q.retries = p.retries := by
  refine SeqMap.lookup_modifyAll_of ?_ ?_
  · rintro v ⟨p, hp, hv⟩
    exact ⟨p, hp, hv⟩
  · exact fun v hv => ⟨v, hv, rfl, rfl, rfl, rfl, rfl⟩

theorem updateSACK_repaired (o : Outstanding) (frame : UDPCFrame) (highest now rtt : ℕ) :
    o.Repaired (o.updateSACK frame highest now rtt).2 (o.updateSACK frame highest now rtt).1.1 := by
  have hways := updateSACK_cases o frame highest now rtt
  generalize o.updateSACK frame highest now rtt = r at hways ⊢
  cases hways with
  | ignored _ => exact .refl o _
  | taken _ _ =>
      intro seq p' hp'
      obtain ⟨q, hq, hwire, hqueued, hdeadline⟩ := lookup_backOff hp'
      obtain ⟨p, hp, hw, hqu, hsent, hrto, -⟩ := lookup_markSacked q hq
      refine ⟨p, hp, hwire.trans hw, hqueued.trans hqu, ?_⟩
      rcases hdeadline with ⟨hs, hr⟩ | hrepeat
      · exact .inl ⟨hs.trans hsent, hr.trans hrto⟩
      · exact .inr (hw ▸ hrepeat)

theorem handleAck_repaired (o : Outstanding) (sendSeq ackSeq now srtt : ℕ) :
    o.Repaired (o.handleAck sendSeq ackSeq now srtt) [] :=
  fun _ p hp => ⟨p, lookup_of_handleAck hp, rfl, rfl, .inl ⟨rfl, rfl⟩⟩

private theorem mem_take_of_least {l : List ℕ} (hsorted : l.Pairwise (· < ·)) {k n : ℕ} (hk : k ∈ l)
    (hleast : ∀ j ∈ l, k ≤ j) : k ∈ l.take (n + 1) := by
  cases l with
  | nil => cases hk
  | cons a rest =>
      rcases List.mem_cons.1 hk with rfl | hrest
      · exact List.mem_cons_self
      · have hlt := (List.pairwise_cons.1 hsorted).1 k hrest
        have hle := hleast a List.mem_cons_self
        omega

-- The oldest record outstanding never waits for room in the burst.
theorem retryDue_first {seq now : ℕ} {p : UnackedPkt}
    (hp : o.unacked.lookup seq = some p) (hexpired : p.expired now = true)
    (hleast : ∀ k ∈ o.unacked, seq ≤ k) {maximumRTO rtt bdp : ℕ}
    (hgoes : (o.retryDue now maximumRTO rtt bdp).1.abandoned = false) :
    p.wire ∈ (o.retryDue now maximumRTO rtt bdp).1.wires := by
  have hways := retryDue_cases o now maximumRTO rtt bdp
  generalize o.retryDue now maximumRTO rtt bdp = r at hways hgoes ⊢
  cases hways with
  | abandons _ _ _ => cases hgoes
  | repairs _ =>
      refine List.mem_filterMap.2 ⟨seq, ?_, by rw [hp]; rfl⟩
      apply mem_take_of_least (pairwise_overdue o now) (mem_overdue.2 ⟨p, hp, hexpired⟩)
      intro k hk
      exact hleast k (SeqMap.mem_ascending.1 (List.mem_filter.1 hk).1)

theorem retryDue_goes (h : ∀ seq p, o.unacked.lookup seq = some p → p.retries < clientMaxRetries)
    (now maximumRTO rtt bdp : ℕ) : (o.retryDue now maximumRTO rtt bdp).1.abandoned = false := by
  have hways := retryDue_cases o now maximumRTO rtt bdp
  generalize o.retryDue now maximumRTO rtt bdp = r at hways ⊢
  cases hways with
  | abandons hp _ hmax =>
      have hlt := h _ _ hp
      omega
  | repairs _ => rfl

-- Without credit every wake that finds something outstanding probes.
theorem retryDue_probes {f : SendFlow} (hflow : o.flow = some f)
    (hcredit : f.credit = 0) {seq : ℕ} (hseq : seq ∈ o.unacked) {now maximumRTO rtt bdp : ℕ}
    (hgoes : (o.retryDue now maximumRTO rtt bdp).1.abandoned = false) :
    (o.retryDue now maximumRTO rtt bdp).1.probe = true := by
  have hsize : SeqMap.size o.unacked ≠ 0 := Finset.card_ne_zero_of_mem (Finmap.mem_keys.2 hseq)
  have hprobe : (creditProbeInterval o).2 = true := by
    unfold creditProbeInterval
    rw [hflow]
    dsimp only
    split
    · rfl
    · simp [hcredit]
  have hways := retryDue_cases o now maximumRTO rtt bdp
  generalize o.retryDue now maximumRTO rtt bdp = r at hways hgoes ⊢
  cases hways with
  | abandons _ _ _ => cases hgoes
  | repairs _ => simp [hprobe, hsize]

theorem updateSACK_ignored {f : SendFlow} (hflow : o.flow = some f)
    {frame : UDPCFrame} {highest : ℕ} (hvalid : validSACK f frame highest = false) (now rtt : ℕ) :
    o.updateSACK frame highest now rtt = (([], false), o) := by
  have hways := updateSACK_cases o frame highest now rtt
  generalize o.updateSACK frame highest now rtt = r at hways ⊢
  cases hways with
  | ignored _ => rfl
  | taken hflow' hvalid' =>
      rw [hflow, Option.some.injEq] at hflow'
      rw [← hflow', hvalid] at hvalid'
      cases hvalid'

-- A report of nothing held repairs nothing.
theorem updateSACK_unrepaired (o : Outstanding) {frame : UDPCFrame}
    (h : ∀ j, BitWindow.bit (sackWords frame.data) j = false) (highest now rtt : ℕ) :
    (o.updateSACK frame highest now rtt).1.1 = [] := by
  have hones : BitWindow.ones (sackWords frame.data) < 3 := by
    rw [BitWindow.ones_eq_countP _ (by decide), List.countP_eq_zero.2]
    · decide
    · intro j _
      rw [h j]
      exact Bool.false_ne_true
  have hways := updateSACK_cases o frame highest now rtt
  generalize o.updateSACK frame highest now rtt = r at hways ⊢
  cases hways with
  | ignored _ => rfl
  | taken _ _ =>
      simp only [Outstanding.due, fastRepairs, if_pos hones]
      rfl

theorem lowest_updateSACK (h : o.Lowest) (frame : UDPCFrame) (highest now rtt : ℕ) :
    (o.updateSACK frame highest now rtt).2.Lowest := by
  refine h.kept (updateSACK_kept o frame highest now rtt) ?_
  have hways := updateSACK_cases o frame highest now rtt
  generalize o.updateSACK frame highest now rtt = r at hways ⊢
  cases hways <;> rfl

theorem lowest_retryDue (h : o.Lowest) (now maximumRTO rtt bdp : ℕ) :
    (o.retryDue now maximumRTO rtt bdp).2.Lowest := by
  refine h.kept (retryDue_kept o now maximumRTO rtt bdp) ?_
  have hways := retryDue_cases o now maximumRTO rtt bdp
  generalize o.retryDue now maximumRTO rtt bdp = r at hways ⊢
  cases hways <;> rfl

-- Every record is filed under its own sequence number.
def Outstanding.Keyed (o : Outstanding) : Prop :=
  ∀ seq p, o.unacked.lookup seq = some p → p.wire.seq = seq

theorem count_wiresAt {unacked : SeqMap UnackedPkt}
    (hkeyed : ∀ seq p, unacked.lookup seq = some p → p.wire.seq = seq) {seqs : List ℕ}
    (hseqs : seqs.Nodup) {seq : ℕ} {p : UnackedPkt} (hp : unacked.lookup seq = some p) :
    (wiresAt unacked seqs).count p.wire = if seq ∈ seqs then 1 else 0 := by
  induction seqs with
  | nil => rfl
  | cons k rest ih =>
      obtain ⟨hk, hrest⟩ := List.nodup_cons.1 hseqs
      have hcount := ih hrest
      by_cases hseq : seq = k
      · subst hseq
        rw [if_neg hk] at hcount
        rw [if_pos List.mem_cons_self, wiresAt, List.filterMap_cons, hp, Option.map_some,
          List.count_cons_self, ← wiresAt, hcount]
      · have hmem : seq ∈ k :: rest ↔ seq ∈ rest := by simp [hseq]
        simp only [hmem, ← hcount, wiresAt, List.filterMap_cons]
        cases hq : unacked.lookup k with
        | none => rfl
        | some q =>
            refine List.count_cons_of_ne fun he => hseq ?_
            rw [← hkeyed seq p hp, ← hkeyed k q hq]
            exact congrArg UDPCFrame.seq he.symm

-- Each record repeated has one attempt more, within the limit.
def Outstanding.Charged (o o' : Outstanding) (wires : List UDPCFrame) : Prop :=
  ∀ seq p', o'.unacked.lookup seq = some p' → ∃ p, o.unacked.lookup seq = some p ∧
    p'.wire = p.wire ∧ p'.retries = p.retries + wires.count p.wire ∧
    (p.retries ≤ clientMaxRetries → p'.retries ≤ clientMaxRetries)

theorem Outstanding.Charged.refl (o : Outstanding) : o.Charged o [] :=
  fun _ p hp => ⟨p, hp, rfl, rfl, id⟩

private theorem charged_backOff {unacked : SeqMap UnackedPkt}
    (hkeyed : ∀ seq p, unacked.lookup seq = some p → p.wire.seq = seq) {due : List ℕ}
    (hdue : due.Nodup)
    (hretries : ∀ seq ∈ due, ∀ p, unacked.lookup seq = some p → p.retries < clientMaxRetries)
    {now maximumRTO seq : ℕ} {p' : UnackedPkt}
    (h : (SeqMap.modifyAll (.backOff now maximumRTO) unacked due).lookup seq = some p') :
    ∃ p, unacked.lookup seq = some p ∧ p'.wire = p.wire ∧
      p'.retries = p.retries + (wiresAt unacked due).count p.wire ∧
      (p.retries ≤ clientMaxRetries → p'.retries ≤ clientMaxRetries) := by
  rw [SeqMap.lookup_modifyAll hdue] at h
  split at h
  · rename_i hmem
    obtain ⟨p, hp, rfl⟩ := Option.map_eq_some_iff.1 h
    refine ⟨p, hp, rfl, ?_, fun _ => hretries seq hmem p hp⟩
    rw [count_wiresAt hkeyed hdue hp, if_pos hmem]
    rfl
  · rename_i hmem
    refine ⟨p', h, rfl, ?_, id⟩
    rw [count_wiresAt hkeyed hdue h, if_neg hmem]
    rfl

theorem charged_retryDue (h : o.Keyed) {now maximumRTO rtt bdp : ℕ}
    (hgoes : (o.retryDue now maximumRTO rtt bdp).1.abandoned = false) :
    o.Charged (o.retryDue now maximumRTO rtt bdp).2 (o.retryDue now maximumRTO rtt bdp).1.wires := by
  have hways := retryDue_cases o now maximumRTO rtt bdp
  generalize o.retryDue now maximumRTO rtt bdp = r at hways hgoes ⊢
  cases hways with
  | abandons _ _ _ => cases hgoes
  | repairs hspared =>
      refine fun seq p' hp' => charged_backOff h (nodup_burst o now) ?_ hp'
      intro k hk p hp
      obtain ⟨q, hq, hexpired⟩ := mem_overdue.1 (List.mem_of_mem_take hk)
      rw [hq, Option.some.injEq] at hp
      exact hp ▸ hspared k q hq hexpired

private theorem retries_fastRepairs {unacked : SeqMap UnackedPkt} {frame : UDPCFrame}
    {highest now rtt seq : ℕ} {p : UnackedPkt} (hseq : seq ∈ fastRepairs unacked frame highest now rtt)
    (hp : unacked.lookup seq = some p) : p.retries < clientMaxRetries := by
  unfold fastRepairs at hseq
  split at hseq
  · cases hseq
  · have hany := (List.mem_filter.1 (List.mem_of_mem_take hseq)).2
    rw [hp] at hany
    exact (of_decide_eq_true hany).2.2.2

theorem charged_updateSACK (h : o.Keyed) (frame : UDPCFrame) (highest now rtt : ℕ) :
    o.Charged (o.updateSACK frame highest now rtt).2 (o.updateSACK frame highest now rtt).1.1 := by
  have hways := updateSACK_cases o frame highest now rtt
  generalize o.updateSACK frame highest now rtt = r at hways ⊢
  cases hways with
  | ignored _ => exact .refl o
  | taken _ _ =>
      intro seq p' hp'
      have hkeyed : ∀ k q, (o.marked frame).lookup k = some q → q.wire.seq = k := by
        intro k q hq
        obtain ⟨p, hp, hwire, -⟩ := lookup_markSacked q hq
        rw [hwire]
        exact h k p hp
      obtain ⟨q, hq, hwire, hcount, hmax⟩ := charged_backOff hkeyed
        (nodup_fastRepairs _ frame highest now rtt) (fun k hk q hq => retries_fastRepairs hk hq) hp'
      obtain ⟨p, hp, hw, -, -, -, hretries⟩ := lookup_markSacked q hq
      refine ⟨p, hp, hwire.trans hw, ?_, ?_⟩
      · rw [hcount, hretries, hw]
        rfl
      · rw [← hretries]
        exact hmax

theorem charged_handleAck (o : Outstanding) (sendSeq ackSeq now srtt : ℕ) :
    o.Charged (o.handleAck sendSeq ackSeq now srtt) [] :=
  fun _ p hp => ⟨p, lookup_of_handleAck hp, rfl, rfl, id⟩

theorem charged_markTransmitted (o : Outstanding) (wires : List UDPCFrame) (now : ℕ) :
    o.Charged (o.markTransmitted wires now) [] := by
  intro seq
  refine SeqMap.lookup_modifyAll_of ?_ ?_
  · rintro v ⟨p, hp, hv⟩
    exact ⟨p, hp, hv⟩
  · exact fun v hv => ⟨v, hv, rfl, rfl, id⟩

-- The session is given up because of this record.
def Outstanding.Blames (o : Outstanding) (now : ℕ) (p : UnackedPkt) : Prop :=
  ∃ seq, o.unacked.lookup seq = some p ∧ p.expired now = true ∧ clientMaxRetries ≤ p.retries

theorem abandoned_iff (o : Outstanding) (now maximumRTO rtt bdp : ℕ) :
    (o.retryDue now maximumRTO rtt bdp).1.abandoned = true ↔ ∃ p, o.Blames now p := by
  have hways := retryDue_cases o now maximumRTO rtt bdp
  generalize o.retryDue now maximumRTO rtt bdp = r at hways ⊢
  cases hways with
  | abandons hp hexpired hmax => exact iff_of_true rfl ⟨_, _, hp, hexpired, hmax⟩
  | repairs hspared =>
      refine iff_of_false Bool.false_ne_true ?_
      rintro ⟨p, seq, hp, hexpired, hmax⟩
      have hlt := hspared seq p hp hexpired
      omega

end UdpCustom.Recovery
