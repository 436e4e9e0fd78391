import UdpCustom.Recovery.Machine
import UdpCustom.Recovery.Scan

-- Which records a wake of the retransmit loop repeats, and when it wakes again.
namespace UdpCustom.Recovery

open UdpCustom.Frame UdpCustom.Flow

variable {o : Outstanding} {r : Retry × Outstanding} {now maximumRTO : ℕ}

theorem expired_iff {p : UnackedPkt} {now : ℕ} :
    p.expired now = true ↔ p.queued = false ∧ p.sacked = false ∧ p.rto < now - p.sentTime :=
  decide_eq_true_iff

theorem expired_iff_remaining {p : UnackedPkt} {now : ℕ} :
    p.expired now = true ↔ p.queued = false ∧ p.sacked = false ∧ p.remaining now < 0 := by
  rw [expired_iff, UnackedPkt.remaining]
  refine and_congr_right fun _ => and_congr_right fun _ => ?_
  omega

theorem retryDue_abandoned {now maximumRTO rtt bdp : ℕ}
    (h : (o.retryDue now maximumRTO rtt bdp).1.abandoned = true) :
    o.retryDue now maximumRTO rtt bdp = (.abandon, o) := by
  have hways := retryDue_cases o now maximumRTO rtt bdp
  generalize o.retryDue now maximumRTO rtt bdp = r at hways h ⊢
  cases hways with
  | abandons _ _ _ => rfl
  | repairs _ => cases h

-- Everything a wake does that does not give the session up.
structure Outstanding.Woken (o : Outstanding) (now maximumRTO : ℕ) (r : Retry × Outstanding) :
    Prop where
  wires : r.1.wires = wiresAt o.unacked (o.burst now)
  unacked : r.2.unacked = SeqMap.modifyAll (.backOff now maximumRTO) o.unacked (o.burst now)
  delay : r.1.delay = o.nextDelay r.2.unacked (o.burst now) now
  probe : r.1.probe = decide ((creditProbeInterval o).2 = true ∧ SeqMap.size o.unacked ≠ 0)

theorem retryDue_woken {now maximumRTO rtt bdp : ℕ}
    (h : (o.retryDue now maximumRTO rtt bdp).1.abandoned = false) :
    o.Woken now maximumRTO (o.retryDue now maximumRTO rtt bdp) := by
  have hways := retryDue_cases o now maximumRTO rtt bdp
  generalize o.retryDue now maximumRTO rtt bdp = r at hways h ⊢
  cases hways with
  | abandons _ _ _ => cases h
  | repairs _ => exact ⟨rfl, rfl, rfl, rfl⟩

theorem Outstanding.Woken.lookup (h : o.Woken now maximumRTO r) (seq : ℕ) :
    r.2.unacked.lookup seq = if seq ∈ o.burst now then
      (o.unacked.lookup seq).map (.backOff now maximumRTO) else o.unacked.lookup seq := by
  rw [h.unacked]
  exact SeqMap.lookup_modifyAll (nodup_burst o now) o.unacked seq

theorem map_some_wiresAt {unacked : SeqMap UnackedPkt} {seqs : List ℕ}
    (h : ∀ seq ∈ seqs, seq ∈ unacked) :
    (wiresAt unacked seqs).map some = seqs.map fun seq => (unacked.lookup seq).map (·.wire) := by
  induction seqs with
  | nil => rfl
  | cons seq rest ih =>
      obtain ⟨p, hp⟩ := Finmap.mem_iff.1 (h seq List.mem_cons_self)
      have hrest := ih fun k hk => h k (List.mem_cons_of_mem _ hk)
      rw [wiresAt] at hrest ⊢
      rw [List.filterMap_cons, hp, Option.map_some, List.map_cons, hrest, List.map_cons, hp,
        Option.map_some]

-- `n` records sent at time zero with a timeout of 200 ms, none of them answered.
def stalled (n : ℕ) : Outstanding :=
  let wires := (List.range' 1 n).map Machine.sampleRecord
  let sent := wires.foldl (fun o wire => Outstanding.file o wire 0 (200 * millisecond))
    (.new (some (newSendFlow 0 true true false)))
  sent.markTransmitted wires 0

-- The earliest time anything waiting for an answer needs a wake: overdue records
-- count as zero.
def Outstanding.OnTime (now : ℕ) (r : Retry × Outstanding) : Prop :=
  ∀ seq p, r.2.unacked.lookup seq = some p → p.queued = false → p.sacked = false →
    r.1.delay ≤ max (millisecond : ℤ) (max 0 (p.remaining now))

-- When nothing due is left out of the burst, or something else wakes the loop in
-- a millisecond.
def Outstanding.Prompt (o : Outstanding) (now maximumRTO : ℕ) : Prop :=
  (o.overdue now).length ≤ retryBurstMax ∨
  (∃ seq p, o.unacked.lookup seq = some p ∧ p.queued = false ∧ p.sacked = false ∧
    0 ≤ p.remaining now ∧ p.remaining now ≤ millisecond) ∨
  ((creditProbeInterval o).2 = true ∧ ∃ f, o.flow = some f ∧
    (creditProbeInterval o).1 - sinceProbe f now ≤ millisecond) ∨
  ∃ seq ∈ o.burst now, ∃ p, o.unacked.lookup seq = some p ∧
    min (p.rto * 3 / 2) maximumRTO ≤ millisecond

-- The three things the delay is the minimum of.
def Outstanding.WakesWithin (o : Outstanding) (repaired : SeqMap UnackedPkt) (due : List ℕ)
    (now : ℕ) (d : ℤ) : Prop :=
  (∃ seq p, o.unacked.lookup seq = some p ∧ p.queued = false ∧ p.sacked = false ∧
    0 ≤ p.remaining now ∧ p.remaining now ≤ d) ∨
  ((creditProbeInterval o).2 = true ∧ ∃ f, o.flow = some f ∧
    (creditProbeInterval o).1 - sinceProbe f now ≤ d) ∨
  ∃ seq ∈ due, ∃ p, repaired.lookup seq = some p ∧ (p.rto : ℤ) ≤ d

theorem timeLeft_eq_some {unacked : SeqMap UnackedPkt} {now seq : ℕ} {d : ℤ} :
    timeLeft unacked now seq = some d ↔ ∃ p, unacked.lookup seq = some p ∧ p.queued = false ∧
      p.sacked = false ∧ 0 ≤ p.remaining now ∧ p.remaining now = d := by
  unfold timeLeft
  rw [Option.bind_eq_some_iff]
  refine exists_congr fun p => and_congr_right fun _ => ?_
  have hlate : 0 ≤ p.remaining now ↔ ¬p.rto < now - p.sentTime := by
    unfold UnackedPkt.remaining
    omega
  rw [Option.ite_none_left_eq_some, hlate, Option.some.injEq, not_or, not_or, Bool.not_eq_true,
    Bool.not_eq_true, and_assoc, and_assoc]

theorem nextDelay_le_iff {now : ℕ} {repaired : SeqMap UnackedPkt} {due : List ℕ}
    {d : ℤ} (hmin : (millisecond : ℤ) ≤ d) :
    o.nextDelay repaired due now ≤ d ↔ idleRetryDelay ≤ d ∨ o.WakesWithin repaired due now d := by
  have hleft : (∃ x ∈ (SeqMap.ascending o.unacked).filterMap (timeLeft o.unacked now), x ≤ d) ↔
      ∃ seq p, o.unacked.lookup seq = some p ∧ p.queued = false ∧ p.sacked = false ∧
        0 ≤ p.remaining now ∧ p.remaining now ≤ d := by
    constructor
    · rintro ⟨x, hx, hle⟩
      obtain ⟨seq, _, hseq⟩ := List.mem_filterMap.1 hx
      obtain ⟨p, hp, hqueued, hsacked, hnot, rfl⟩ := timeLeft_eq_some.1 hseq
      exact ⟨seq, p, hp, hqueued, hsacked, hnot, hle⟩
    · rintro ⟨seq, p, hp, hqueued, hsacked, hnot, hle⟩
      refine ⟨p.remaining now, List.mem_filterMap.2 ⟨seq, ?_, ?_⟩, hle⟩
      · exact SeqMap.mem_ascending.2 (Finmap.mem_iff.2 ⟨p, hp⟩)
      · exact timeLeft_eq_some.2 ⟨p, hp, hqueued, hsacked, hnot, rfl⟩
  have hprobing : (∃ x ∈ (if (creditProbeInterval o).2 then
        o.flow.map fun f => (creditProbeInterval o).1 - sinceProbe f now else none).toList, x ≤ d) ↔
      (creditProbeInterval o).2 = true ∧ ∃ f, o.flow = some f ∧
        (creditProbeInterval o).1 - sinceProbe f now ≤ d := by
    cases (creditProbeInterval o).2 with
    | false => simp
    | true => cases o.flow <;> simp
  have hbacked : (∃ x ∈ due.filterMap fun seq => (repaired.lookup seq).map fun p => (p.rto : ℤ),
        x ≤ d) ↔ ∃ seq ∈ due, ∃ p, repaired.lookup seq = some p ∧ (p.rto : ℤ) ≤ d := by
    simp only [List.mem_filterMap, Option.map_eq_some_iff]
    constructor
    · rintro ⟨x, ⟨seq, hseq, p, hp, rfl⟩, hle⟩
      exact ⟨seq, hseq, p, hp, hle⟩
    · rintro ⟨seq, hseq, p, hp, hle⟩
      exact ⟨_, ⟨seq, hseq, p, hp, rfl⟩, hle⟩
  unfold Outstanding.nextDelay
  dsimp only
  rw [max_le_iff, and_iff_right hmin, Unordered.foldl_min_le_iff]
  refine or_congr Iff.rfl ?_
  simp only [List.mem_append, or_and_right, exists_or]
  rw [or_assoc]
  exact or_congr hleft (or_congr hprobing hbacked)

-- A record of the burst has just been sent, so that its new timeout is all left.
theorem Outstanding.Woken.lookup_burst
    (h : o.Woken now maximumRTO r) {seq : ℕ} (hseq : seq ∈ o.burst now) :
    ∃ p, o.unacked.lookup seq = some p ∧
      r.2.unacked.lookup seq = some (p.backOff now maximumRTO) := by
  obtain ⟨p, hp, _⟩ := mem_overdue.1 (List.mem_of_mem_take hseq)
  refine ⟨p, hp, ?_⟩
  rw [h.lookup, if_pos hseq, hp, Option.map_some]

theorem Outstanding.Woken.soon_iff (h : o.Woken now maximumRTO r) :
    r.1.delay ≤ millisecond ↔
      (∃ seq p, o.unacked.lookup seq = some p ∧ p.queued = false ∧ p.sacked = false ∧
        0 ≤ p.remaining now ∧ p.remaining now ≤ millisecond) ∨
      ((creditProbeInterval o).2 = true ∧ ∃ f, o.flow = some f ∧
        (creditProbeInterval o).1 - sinceProbe f now ≤ millisecond) ∨
      ∃ seq ∈ o.burst now, ∃ p, o.unacked.lookup seq = some p ∧
        min (p.rto * 3 / 2) maximumRTO ≤ millisecond := by
  rw [h.delay, nextDelay_le_iff le_rfl, or_iff_right (by decide), Outstanding.WakesWithin]
  refine or_congr Iff.rfl (or_congr Iff.rfl ?_)
  refine exists_congr fun seq => and_congr_right fun hseq => ?_
  obtain ⟨p, hp, hp'⟩ := h.lookup_burst hseq
  rw [hp, hp']
  simp only [Option.some.injEq, exists_eq_left', UnackedPkt.backOff]
  exact Int.ofNat_le

-- One record more than the burst holds.
theorem exists_left_out {now : ℕ}
    (h : retryBurstMax < (o.overdue now).length) : ∃ seq ∈ o.overdue now, seq ∉ o.burst now := by
  have hsplit := List.take_append_drop retryBurstMax (o.overdue now)
  have hnodup : (o.overdue now).Nodup := (pairwise_overdue o now).imp Nat.ne_of_lt
  have hdrop : (o.overdue now).drop retryBurstMax ≠ [] := by
    rw [Ne, List.drop_eq_nil_iff]
    omega
  obtain ⟨seq, hseq⟩ := List.exists_mem_of_ne_nil _ hdrop
  refine ⟨seq, List.mem_of_mem_drop hseq, fun hburst => ?_⟩
  rw [← hsplit] at hnodup
  exact (List.nodup_append.1 hnodup).2.2 seq hburst seq hseq rfl

theorem repair_wake_on_time_iff {o : Outstanding} {now maximumRTO rtt bdp : ℕ}
    (h : (o.retryDue now maximumRTO rtt bdp).1.abandoned = false) :
    Outstanding.OnTime now (o.retryDue now maximumRTO rtt bdp) ↔ o.Prompt now maximumRTO := by
  have hwoken := retryDue_woken h
  generalize o.retryDue now maximumRTO rtt bdp = r at hwoken
  unfold Outstanding.Prompt
  rw [← hwoken.soon_iff]
  constructor
  · intro htime
    rcases Nat.lt_or_ge retryBurstMax (o.overdue now).length with hlong | hshort
    · -- a record left out is due at once
      obtain ⟨seq, hseq, hout⟩ := exists_left_out hlong
      obtain ⟨p, hp, hexpired⟩ := mem_overdue.1 hseq
      obtain ⟨hqueued, hsacked, hlate⟩ := expired_iff_remaining.1 hexpired
      have hle := htime seq p (by rw [hwoken.lookup, if_neg hout, hp]) hqueued hsacked
      rw [max_eq_left hlate.le, max_eq_left (Int.natCast_nonneg _)] at hle
      exact .inr hle
    · exact .inl hshort
  · rintro (hshort | hsoon) seq p hp hqueued hsacked
    · rw [hwoken.delay]
      refine (nextDelay_le_iff (le_max_left _ _)).2 (.inr ?_)
      by_cases hseq : seq ∈ o.burst now
      · refine .inr (.inr ⟨seq, hseq, p, hp, le_max_of_le_right (le_max_of_le_right ?_)⟩)
        obtain ⟨q, _, hq⟩ := hwoken.lookup_burst hseq
        obtain rfl := Option.some.inj (hp.symm.trans hq)
        simp [UnackedPkt.remaining, UnackedPkt.backOff]
      · rw [hwoken.lookup, if_neg hseq] at hp
        have hearly : 0 ≤ p.remaining now := by
          by_contra hlate
          refine hseq ?_
          rw [Outstanding.burst, List.take_of_length_le hshort]
          exact mem_overdue.2 ⟨p, hp, expired_iff_remaining.2 ⟨hqueued, hsacked, by omega⟩⟩
        exact .inl ⟨seq, p, hp, hqueued, hsacked, hearly,
          le_max_of_le_right (le_max_of_le_right le_rfl)⟩
    · exact hsoon.trans (le_max_left _ _)

-- With 65 records overdue the last one waits ten milliseconds longer, although
-- it is overdue.
theorem left_out_record_waits :
    ((stalled 65).retryDue (201 * millisecond) rttMaxRTO 0 0).1.abandoned = false ∧
    ((stalled 65).retryDue (201 * millisecond) rttMaxRTO 0 0).1.delay = 10 * millisecond ∧
    (((stalled 65).retryDue (201 * millisecond) rttMaxRTO 0 0).2.unacked.lookup 65).any
      (·.expired (201 * millisecond)) = true := by
  decide +kernel

theorem full_burst_on_time :
    ((stalled 3).retryDue (201 * millisecond) rttMaxRTO 0 0).1.abandoned = false ∧
      Outstanding.OnTime (201 * millisecond)
        ((stalled 3).retryDue (201 * millisecond) rttMaxRTO 0 0) := by
  have hgoes : ((stalled 3).retryDue (201 * millisecond) rttMaxRTO 0 0).1.abandoned = false := by
    decide +kernel
  exact ⟨hgoes, (repair_wake_on_time_iff hgoes).2 (.inl (by decide +kernel))⟩

end UdpCustom.Recovery
