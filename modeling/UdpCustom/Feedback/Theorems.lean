import UdpCustom.Feedback
import UdpCustom.Delivery.Theorems

namespace UdpCustom.Feedback

open UdpCustom.Frame UdpCustom.Delivery UdpCustom.Coalesce Transition

variable {recovery : Bool} {s : State}

-- No goroutine, past or present, knows of more than has been delivered.
structure Inv (s : State) : Prop where
  window : s.delivery.InWindow
  writing : ∀ seq ∈ s.writing, seq = s.delivery.delivered + 1
  reads : ∀ a ∈ s.reads, a ≤ s.delivery.delivered
  coalesce : s.coalesce.Below s.delivery.delivered
  closed : s.closed = false → s.delivery.closed = false

theorem offer_delivered (d : OrderedDelivery) (seq : ℕ) (payload : Bytes) :
    (d.offerObserved seq payload).2.delivered = d.delivered ∧
      (d.offerObserved seq payload).2.closed = d.closed ∧
      ∀ a ∈ (d.offerObserved seq payload).1.ack, a = d.delivered := by
  rcases offerObserved_cases d seq payload with
    ⟨h, _⟩ | ⟨h, _⟩ | ⟨h, _⟩ | ⟨ack, h, hack, _⟩
  · rw [h]
    exact ⟨rfl, rfl, by simp [Offered.refused]⟩
  · rw [h]
    exact ⟨rfl, rfl, by simp⟩
  · rw [h]
    exact ⟨rfl, rfl, by simp⟩
  · rw [h]
    exact ⟨rfl, rfl, hack⟩

theorem inv_finishWrite {seq : ℕ} (hinv : Inv s) (hw : s.writing = some seq) :
    Inv { s with delivery := s.delivery.complete seq, writing := none, reads := seq :: s.reads } := by
  have hseq : seq = s.delivery.delivered + 1 := hinv.writing seq hw
  subst hseq
  refine ⟨inWindow_complete hinv.window, by simp, ?_, ?_, hinv.closed⟩
  · intro a ha
    rcases List.mem_cons.1 ha with rfl | ha
    · exact Nat.le_refl _
    · exact Nat.le_succ_of_le (hinv.reads a ha)
  · exact hinv.coalesce.mono (Nat.le_succ _)

theorem flushACK_state (recovery : Bool) (srtt : ℕ) (s : State) :
    (flushACK recovery srtt s).2 = s ∨ (flushACK recovery srtt s).2 =
      { s with coalesce := (s.coalesce.flushDue (ackCoalesceInterval srtt) s.now).2 } := by
  unfold flushACK
  split_ifs
  · exact .inl rfl
  · exact .inr rfl

theorem inv_step {s s' : State} {l : Label} (hinv : Inv s)
    (hst : next recovery s l = some s') : Inv s' := by
  cases l with
  | offer seq payload =>
      simp only [next, Option.some.injEq] at hst
      subst hst
      obtain ⟨hd, hc, hack⟩ := offer_delivered s.delivery seq payload
      refine ⟨inWindow_offerObserved hinv.window seq payload, ?_, ?_, ?_, ?_⟩
      · rw [hd]
        exact hinv.writing
      · intro a ha
        rw [hd]
        rcases List.mem_append.1 ha with ha | ha
        · exact (hack a (Option.mem_toList.1 ha)).le
        · exact hinv.reads a ha
      · rw [hd]
        exact hinv.coalesce
      · rw [hc]
        exact hinv.closed
  | startWrite =>
      simp only [next] at hst
      split_ifs at hst
      cases hst
      refine ⟨hinv.window, ?_, hinv.reads, hinv.coalesce, hinv.closed⟩
      intro seq hseq
      exact (Option.some.inj hseq).symm
  | finishWrite =>
      simp only [next] at hst
      split at hst
      · cases hst
      · rename_i seq hw
        cases hst
        exact inv_finishWrite hinv hw
  | read =>
      cases hst
      refine ⟨hinv.window, hinv.writing, ?_, hinv.coalesce, hinv.closed⟩
      intro a ha
      rcases List.mem_cons.1 ha with rfl | ha
      · exact Nat.le_refl _
      · exact hinv.reads a ha
  | commitSent ack =>
      simp only [next] at hst
      split_ifs at hst with hread
      cases hst
      exact ⟨hinv.window, hinv.writing, hinv.reads,
        below_commitSent hinv.coalesce (hinv.reads ack hread), hinv.closed⟩
  | claim ack srtt urgent =>
      obtain ⟨hread, ⟨⟩⟩ := Option.ite_none_right_eq_some.1 hst
      exact ⟨hinv.window, hinv.writing, hinv.reads,
        below_claim hinv.coalesce (hinv.reads ack hread) _ _ _, hinv.closed⟩
  | flush srtt =>
      simp only [next, Option.some.injEq] at hst
      subst hst
      rcases flushACK_state recovery srtt s with h | h
      · rw [h]
        exact ⟨hinv.window, hinv.writing, hinv.reads, hinv.coalesce, hinv.closed⟩
      · rw [h]
        exact ⟨hinv.window, hinv.writing, hinv.reads, below_flushDue hinv.coalesce _ _,
          hinv.closed⟩
  | tick d =>
      cases hst
      exact ⟨hinv.window, hinv.writing, hinv.reads, hinv.coalesce, hinv.closed⟩
  | close =>
      cases hst
      exact ⟨hinv.window, hinv.writing, hinv.reads, hinv.coalesce, by simp⟩
  | closeDelivery =>
      simp only [next] at hst
      split_ifs at hst with hclosed
      cases hst
      exact ⟨inWindow_close _, hinv.writing, hinv.reads, hinv.coalesce, by simp [hclosed]⟩

theorem inv_reachable {limit : ℕ} (h : Reachable (system recovery limit) s) : Inv s := by
  refine h.invariant (I := Inv) ?_ fun _ _ _ hinv _ hst => inv_step hinv hst
  rintro _ rfl
  exact ⟨inWindow_new limit, by simp [initial], by simp [initial], ⟨Nat.zero_le _, Nat.zero_le _⟩,
    fun _ => rfl⟩

-- Either route ends in the same call.
theorem onDuplicate_eq {srtt : ℕ} {route : Route} (hinv : Inv s)
    (hopen : s.closed = false) (hdelivered : 0 < s.delivery.delivered)
    (hroute : ∀ seq payload, route = .offered seq payload →
      0 < seq ∧ seq ≤ s.delivery.delivered) :
    onDuplicate recovery srtt s route = sendACK recovery srtt s s.delivery.delivered := by
  cases route with
  | replayed => simp only [onDuplicate, hdelivered, if_true]
  | offered seq payload =>
      obtain ⟨hpos, hle⟩ := hroute seq payload rfl
      have hoffer : s.delivery.offerObserved seq payload =
          ({ fresh := false, ok := true, ack := some s.delivery.delivered }, s.delivery) := by
        simp [OrderedDelivery.offerObserved, hinv.closed hopen, hle, Nat.pos_iff_ne_zero.1 hpos]
      simp only [onDuplicate, hoffer]

-- What the call does after a quiet interval.
theorem sendACK_quiet {srtt : ℕ} (hinv : Inv s)
    (hopen : s.closed = false) (hdelivered : 0 < s.delivery.delivered)
    (hquiet : s.coalesce.Elapsed s.now (ackCoalesceInterval srtt)) :
    ((s.coalesce.lastValue < s.delivery.delivered ∨
        (recovery = true ∧ ackGapUrgent ≤ SeqMap.size s.delivery.pending)) →
      (sendACK recovery srtt s s.delivery.delivered).1 = some s.delivery.delivered) ∧
    (¬(s.coalesce.lastValue < s.delivery.delivered ∨
        (recovery = true ∧ ackGapUrgent ≤ SeqMap.size s.delivery.pending)) →
      sendACK recovery srtt s s.delivery.delivered = (none, s)) := by
  have hack : (if recovery then s.delivery.snapshot.ack else s.delivery.delivered) =
      s.delivery.delivered := by
    split_ifs <;> rfl
  have hgaps : sackGaps s.delivery.snapshot.bitmap = SeqMap.size s.delivery.pending :=
    sackGaps_bitmap hinv.window
  have hclaim := claim_quiet_iff hquiet hdelivered
    (recovery && decide (ackGapUrgent ≤ SeqMap.size s.delivery.pending))
  rw [Bool.and_eq_true, decide_eq_true_iff, or_comm] at hclaim
  simp only [sendACK, hopen, hack, hgaps, Bool.false_eq_true, if_false]
  constructor
  · intro hnews
    rw [if_pos (hclaim.2 hnews), feedbackAck, hack]
  · intro hknown
    have hrefused := mt hclaim.1 hknown
    rw [if_neg hrefused, claim_quiet_refused hquiet (Bool.eq_false_iff.2 hrefused), ← hopen]

-- A duplicate of what has been acknowledged before is met with silence, now
-- and at the next flush.
theorem not_reacked_of_known {srtt : ℕ} {route : Route}
    (hinv : Inv s) (hopen : s.closed = false) (hdelivered : 0 < s.delivery.delivered)
    (hroute : ∀ seq payload, route = .offered seq payload →
      0 < seq ∧ seq ≤ s.delivery.delivered)
    (hquiet : s.coalesce.Elapsed s.now (ackCoalesceInterval srtt))
    (hknown : ¬(s.coalesce.lastValue < s.delivery.delivered ∨
      (recovery = true ∧ ackGapUrgent ≤ SeqMap.size s.delivery.pending))) (srtt' wait : ℕ) :
    ¬Reacked recovery srtt srtt' wait s route := by
  intro hre
  have hsilent := (sendACK_quiet hinv hopen hdelivered hquiet).2 hknown
  simp only [Reacked, onDuplicate_eq hinv hopen hdelivered hroute, hsilent] at hre
  obtain ⟨ack, hsent, -⟩ := hre
  have hpending : s.coalesce.pending ≤ s.coalesce.lastValue := by
    have := hinv.coalesce.2
    omega
  have hstale := flushDue_stale hpending (ackCoalesceInterval srtt') (s.now + wait)
  simp [flushACK, hstale, hopen] at hsent

-- After a quiet interval the duplicate is answered exactly if the Ack is news
-- to the coalescer, or enough records are held to make a SACK urgent.
theorem duplicate_reacked_iff {recovery : Bool} {limit : ℕ} {s : State}
    (h : Reachable (system recovery limit) s) (hopen : s.closed = false)
    (hdelivered : 0 < s.delivery.delivered) (route : Route)
    (hroute : ∀ seq payload, route = .offered seq payload →
      0 < seq ∧ seq ≤ s.delivery.delivered)
    (srtt srtt' wait : ℕ) (hquiet : s.coalesce.Elapsed s.now (ackCoalesceInterval srtt)) :
    Reacked recovery srtt srtt' wait s route ↔
      s.coalesce.lastValue < s.delivery.delivered ∨
        (recovery = true ∧ ackGapUrgent ≤ SeqMap.size s.delivery.pending) := by
  have hinv := inv_reachable h
  constructor
  · intro hre
    by_contra hknown
    exact not_reacked_of_known hinv hopen hdelivered hroute hquiet hknown srtt' wait hre
  · intro hnews
    refine ⟨s.delivery.delivered, .inl ?_, Nat.le_refl _⟩
    rw [onDuplicate_eq hinv hopen hdelivered hroute]
    exact (sendACK_quiet hinv hopen hdelivered hquiet).1 hnews

def oneDelivered : List Label :=
  [.offer 1 [104], .startWrite, .finishWrite]

-- Before any Ack of the record has left, its duplicate is answered.
theorem unacked_duplicate_reacked : ∃ s, Reachable (system true deliveryWindow) s ∧
    s.delivery.delivered = 1 ∧ Reacked true 0 0 0 s .replayed := by
  obtain ⟨s, hreach, hopen, hdelivered, hnever, hnone⟩ := (system true deliveryWindow).exists_run
    (P := fun s : State => s.closed = false ∧ s.delivery.delivered = 1 ∧ s.coalesce.lastValue = 0 ∧
      s.coalesce.lastAt = none)
    rfl oneDelivered (by decide)
  have hquiet : s.coalesce.Elapsed s.now (ackCoalesceInterval 0) := by
    intro t ht
    rw [hnone] at ht
    cases ht
  refine ⟨s, hreach, hdelivered, ?_⟩
  refine (duplicate_reacked_iff hreach hopen ?_ .replayed (by simp) 0 0 0 hquiet).2 (.inl ?_)
  · omega
  · omega

-- The Ack left once and was lost. However long the end waits, the peer's
-- duplicates bring out no other.
theorem lost_ack_not_repaired : ∃ s, Reachable (system true deliveryWindow) s ∧
    s.closed = false ∧ s.delivery.delivered = 1 ∧ s.feedback = [1] ∧
    s.coalesce.Elapsed s.now (ackCoalesceInterval 0) ∧
    ¬Reacked true 0 0 (10 ^ 9) s .replayed ∧ ¬Reacked true 0 0 (10 ^ 9) s (.offered 1 [104]) := by
  obtain ⟨s, hreach, hopen, hdelivered, hfeedback, hlast, hsize, hquiet⟩ :=
    (system true deliveryWindow).exists_run
    (P := fun s : State => s.closed = false ∧ s.delivery.delivered = 1 ∧ s.feedback = [1] ∧
      s.coalesce.lastValue = 1 ∧ SeqMap.size s.delivery.pending = 0 ∧
      s.coalesce.Elapsed s.now (ackCoalesceInterval 0))
    rfl
    (oneDelivered ++ [.claim 1 0 false, .tick (10 ^ 9)]) (by decide)
  have hinv := inv_reachable hreach
  have hknown : ¬(s.coalesce.lastValue < s.delivery.delivered ∨
      (true = true ∧ ackGapUrgent ≤ SeqMap.size s.delivery.pending)) := by
    rw [hdelivered, hlast, hsize]
    decide
  have hsilent : ∀ route, (∀ seq payload, route = .offered seq payload →
      0 < seq ∧ seq ≤ s.delivery.delivered) → ¬Reacked true 0 0 (10 ^ 9) s route :=
    fun route hroute => not_reacked_of_known hinv hopen (by omega) hroute hquiet hknown 0 (10 ^ 9)
  refine ⟨s, hreach, hopen, hdelivered, hfeedback, hquiet, hsilent _ (by simp), hsilent _ ?_⟩
  intro seq payload h
  cases h
  exact ⟨Nat.zero_lt_one, by omega⟩

end UdpCustom.Feedback
