import UdpCustom.Recovery.Repair
import UdpCustom.Lib.Unordered

-- `retryDue` as the loops it is. Each pass over the outstanding map visits its
-- keys in an order of the runtime's choice.
namespace UdpCustom.Recovery

open UdpCustom.Frame UdpCustom.Flow

variable {o : Outstanding} {order : List ℕ}

structure RetryFrame where
  seq : ℕ
  wire : UDPCFrame

def UnackedPkt.remaining (now : ℕ) (p : UnackedPkt) : ℤ :=
  (p.rto : ℤ) - ((now : ℤ) - p.sentTime)

-- The first pass: what is due so far and the delay so far. It ends early, with
-- `none`, at a record that has used up its retries.
def scan (unacked : SeqMap UnackedPkt) (now : ℕ) :
    List ℕ → List RetryFrame → ℤ → Option (List RetryFrame × ℤ)
  | [], due, next => some (due, next)
  | seq :: rest, due, next =>
    match unacked.lookup seq with
    | none => scan unacked now rest due next
    | some p =>
      if p.queued ∨ p.sacked then scan unacked now rest due next
      else if 0 ≤ p.remaining now then
        scan unacked now rest due (if p.remaining now < next then p.remaining now else next)
      else if clientMaxRetries ≤ p.retries then none
      else scan unacked now rest (due ++ [⟨seq, p.wire⟩]) next

structure ProbeScan where
  sacked : Bool
  gap : Bool

def ProbeScan.turn (unacked : SeqMap UnackedPkt) (s : ProbeScan) (seq : ℕ) : ProbeScan :=
  match unacked.lookup seq with
  | none => s
  | some p =>
    if p.sacked then { s with sacked := true }
    else if p.queued = false then { s with gap := true }
    else s

def Outstanding.creditProbeIntervalIn (o : Outstanding) (order : List ℕ) : ℤ × Bool :=
  match o.flow with
  | none => (0, false)
  | some f =>
    let s := order.foldl (ProbeScan.turn o.unacked) ⟨false, false⟩
    if s.sacked ∧ s.gap then (25 * millisecond, true)
    else (100 * millisecond, f.credit = 0 ∨ s.sacked)

-- The loop over the records chosen for this burst.
structure Burst where
  unacked : SeqMap UnackedPkt
  next : ℤ
  wires : List UDPCFrame

def Burst.turn (now maximumRTO : ℕ) (b : Burst) (seq : ℕ) : Burst :=
  match b.unacked.lookup seq with
  | none => b
  | some p =>
    let p := p.backOff now maximumRTO
    { unacked := b.unacked.insert seq p
      next := if (p.rto : ℤ) < b.next then p.rto else b.next
      wires := b.wires ++ [p.wire] }

def Outstanding.retryDueIn (o : Outstanding) (order probeOrder : List ℕ)
    (now maximumRTO rtt bdp : ℕ) : Retry × Outstanding :=
  match scan o.unacked now order [] idleRetryDelay with
  | none => (.abandon, o)
  | some (due, next) =>
    let interval := (o.creditProbeIntervalIn probeOrder).1
    let probe := (o.creditProbeIntervalIn probeOrder).2
    let next := if probe then
        o.flow.elim next fun f =>
          if interval - sinceProbe f now < next then interval - sinceProbe f now else next
      else next
    let flow := if probe then o.flow.map fun f => { f with lastProbe := some now } else o.flow
    let due := due.insertionSort fun a b => a.seq ≤ b.seq
    let due := if retryBurstMax < due.length then due.take retryBurstMax else due
    let burst := (due.map (·.seq)).foldl (Burst.turn now maximumRTO) ⟨o.unacked, next, []⟩
    ({ wires := burst.wires
       abandoned := false
       delay := max millisecond burst.next
       probe := probe ∧ SeqMap.size o.unacked ≠ 0 },
      { o with
        unacked := burst.unacked
        flow := if burst.wires = [] then flow else flow.map (·.loss now rtt true bdp) })

theorem ite_lt_eq_min (a b : ℤ) : (if a < b then a else b) = min b a := by
  split_ifs <;> omega

-- The record at `seq` if it is due, and the time left if it is not.
def dueFrame (unacked : SeqMap UnackedPkt) (now seq : ℕ) : Option RetryFrame :=
  (unacked.lookup seq).bind fun p => if p.expired now then some ⟨seq, p.wire⟩ else none

def timeLeft (unacked : SeqMap UnackedPkt) (now seq : ℕ) : Option ℤ :=
  (unacked.lookup seq).bind fun p =>
    if p.queued ∨ p.sacked ∨ p.rto < now - p.sentTime then none else some (p.remaining now)

def exhausted (unacked : SeqMap UnackedPkt) (now seq : ℕ) : Bool :=
  (unacked.lookup seq).any fun p => p.expired now && clientMaxRetries ≤ p.retries

theorem scan_eq (unacked : SeqMap UnackedPkt) (now : ℕ) (order : List ℕ) (due : List RetryFrame)
    (next : ℤ) :
    scan unacked now order due next =
      if order.any (exhausted unacked now) then none
      else some (due ++ order.filterMap (dueFrame unacked now),
        (order.filterMap (timeLeft unacked now)).foldl min next) := by
  induction order generalizing due next with
  | nil => simp [scan]
  | cons seq rest ih =>
      unfold scan
      cases hp : unacked.lookup seq with
      | none => simp [ih, exhausted, dueFrame, timeLeft, hp]
      | some p =>
          have hlate : 0 ≤ p.remaining now ↔ ¬p.rto < now - p.sentTime := by
            unfold UnackedPkt.remaining
            omega
          dsimp only
          by_cases hskip : p.queued = true ∨ p.sacked = true
          · have hexpired : p.expired now = false := by
              unfold UnackedPkt.expired
              rcases hskip with h | h <;> simp [h]
            have hleft : timeLeft unacked now seq = none := by
              rw [timeLeft, hp, Option.bind_some, if_pos (by tauto)]
            rw [if_pos hskip, ih]
            simp [exhausted, dueFrame, hp, hexpired, hleft]
          · rw [if_neg hskip]
            simp only [not_or, Bool.not_eq_true] at hskip
            by_cases hover : p.rto < now - p.sentTime
            · have hexpired : p.expired now = true := decide_eq_true ⟨hskip.1, hskip.2, hover⟩
              have hleft : timeLeft unacked now seq = none := by
                rw [timeLeft, hp, Option.bind_some, if_pos (.inr (.inr hover))]
              rw [if_neg (mt hlate.1 (not_not.2 hover))]
              by_cases hmax : clientMaxRetries ≤ p.retries
              · simp [exhausted, hp, hexpired, hmax]
              · rw [if_neg hmax, ih]
                simp [exhausted, dueFrame, hp, hexpired, hleft, hmax]
            · have hexpired : p.expired now = false := by simp [UnackedPkt.expired, hover]
              have hleft : timeLeft unacked now seq = some (p.remaining now) := by
                rw [timeLeft, hp, Option.bind_some, if_neg (by simp [hskip, hover])]
              rw [if_pos (hlate.2 hover), ih, ite_lt_eq_min]
              simp [exhausted, dueFrame, hp, hexpired, hleft]

theorem foldl_probeTurn (unacked : SeqMap UnackedPkt) (order : List ℕ) (s : ProbeScan) :
    order.foldl (ProbeScan.turn unacked) s =
      { sacked := s.sacked || order.any fun seq => (unacked.lookup seq).any (·.sacked)
        gap := s.gap || order.any fun seq =>
          (unacked.lookup seq).any fun p => p.sacked = false ∧ p.queued = false } := by
  induction order generalizing s with
  | nil => simp
  | cons seq rest ih =>
      rw [List.foldl_cons, ih, ProbeScan.turn]
      cases hp : unacked.lookup seq with
      | none => simp [hp]
      | some p =>
          cases hs : p.sacked <;> cases hq : p.queued <;> simp [hp, hs, hq]

theorem creditProbeIntervalIn_eq (h : order.Perm (SeqMap.ascending o.unacked)) :
    o.creditProbeIntervalIn order = creditProbeInterval o := by
  unfold Outstanding.creditProbeIntervalIn creditProbeInterval
  cases o.flow with
  | none => rfl
  | some f => simp only [foldl_probeTurn, Bool.false_or, h.any_eq]

@[simp] theorem wire_backOff (now maximumRTO : ℕ) (p : UnackedPkt) :
    (p.backOff now maximumRTO).wire = p.wire := rfl

theorem burstTurn_unacked (now maximumRTO : ℕ) (b : Burst) (seq : ℕ) :
    (b.turn now maximumRTO seq).unacked =
      SeqMap.modify (.backOff now maximumRTO) b.unacked seq := by
  unfold Burst.turn SeqMap.modify
  cases b.unacked.lookup seq <;> rfl

theorem wiresAt_modify {f : UnackedPkt → UnackedPkt} {unacked : SeqMap UnackedPkt} {seq : ℕ}
    {seqs : List ℕ} (hseq : seq ∉ seqs) :
    wiresAt (SeqMap.modify f unacked seq) seqs = wiresAt unacked seqs := by
  refine List.filterMap_congr fun k hk => ?_
  have hne : k ≠ seq := fun he => hseq (he ▸ hk)
  rw [SeqMap.lookup_modify, if_neg hne]

-- What the loop over the burst comes to. The wires and the deadlines are read
-- from the map as it is when their turn comes, but no turn touches another's.
theorem foldl_burstTurn (now maximumRTO : ℕ) {due : List ℕ} (hdue : due.Nodup) (b : Burst) :
    due.foldl (Burst.turn now maximumRTO) b =
      { unacked := SeqMap.modifyAll (.backOff now maximumRTO) b.unacked due
        next := (due.filterMap fun seq =>
          ((SeqMap.modifyAll (.backOff now maximumRTO) b.unacked due).lookup seq).map
            fun p => (p.rto : ℤ)).foldl min b.next
        wires := b.wires ++ wiresAt b.unacked due } := by
  induction due generalizing b with
  | nil => simp [SeqMap.modifyAll, wiresAt]
  | cons seq rest ih =>
      obtain ⟨hseq, hrest⟩ := List.nodup_cons.1 hdue
      have hmodify : SeqMap.modifyAll (.backOff now maximumRTO) b.unacked (seq :: rest) =
          SeqMap.modifyAll (.backOff now maximumRTO)
            (SeqMap.modify (.backOff now maximumRTO) b.unacked seq) rest := rfl
      have hfirst : (SeqMap.modifyAll (.backOff now maximumRTO)
          (SeqMap.modify (.backOff now maximumRTO) b.unacked seq) rest).lookup seq =
            (b.unacked.lookup seq).map (.backOff now maximumRTO) := by
        rw [SeqMap.lookup_modifyAll_of_notMem hseq, SeqMap.lookup_modify, if_pos rfl]
      rw [List.foldl_cons, ih hrest, burstTurn_unacked, wiresAt_modify hseq, hmodify]
      cases hp : b.unacked.lookup seq with
      | none =>
          rw [hp, Option.map_none] at hfirst
          simp [Burst.turn, hp, hfirst, wiresAt]
      | some p =>
          rw [hp, Option.map_some] at hfirst
          simp [Burst.turn, hp, hfirst, wiresAt, ite_lt_eq_min]

theorem map_seq_dueFrame (unacked : SeqMap UnackedPkt) (now : ℕ) (order : List ℕ) :
    (order.filterMap (dueFrame unacked now)).map (·.seq) =
      order.filter fun seq => (unacked.lookup seq).any (·.expired now) := by
  induction order with
  | nil => rfl
  | cons seq rest ih =>
      cases hp : unacked.lookup seq with
      | none => simp [dueFrame, hp, ← ih]
      | some p =>
          cases hexpired : p.expired now with
          | false | true => simp [dueFrame, hp, hexpired, ← ih]

-- Whatever the order of the scan, the records sorted out of it are the oldest
-- ones due.
theorem sorted_due {now : ℕ} (h : order.Perm (SeqMap.ascending o.unacked)) :
    (((order.filterMap (dueFrame o.unacked now)).insertionSort
      fun a b => a.seq ≤ b.seq).map (·.seq)) = o.overdue now := by
  refine Unordered.map_sort_eq _ ?_ (pairwise_overdue o now)
  rw [map_seq_dueFrame]
  exact h.filter _

theorem any_exhausted {now : ℕ} (h : order.Perm (SeqMap.ascending o.unacked)) :
    order.any (exhausted o.unacked now) = (o.overdue now).any fun seq =>
      (o.unacked.lookup seq).any fun p => clientMaxRetries ≤ p.retries := by
  rw [h.any_eq, Outstanding.overdue, List.any_filter]
  congr 1
  funext seq
  unfold exhausted
  cases o.unacked.lookup seq <;> rfl

theorem take_burst {α : Type} (l : List α) (n : ℕ) : (if n < l.length then l.take n else l) = l.take n := by
  split_ifs with hlong
  · rfl
  · exact (List.take_of_length_le (Nat.not_lt.1 hlong)).symm

-- The delay folded loop by loop is the one folded in one go.
theorem nextDelay_eq
    (h : order.Perm (SeqMap.ascending o.unacked)) (repaired : SeqMap UnackedPkt) (due : List ℕ)
    (now : ℕ) :
    let next := (order.filterMap (timeLeft o.unacked now)).foldl min idleRetryDelay
    let next := if (creditProbeInterval o).2 then
        o.flow.elim next fun f =>
          if (creditProbeInterval o).1 - sinceProbe f now < next then
            (creditProbeInterval o).1 - sinceProbe f now else next
      else next
    o.nextDelay repaired due now = max (millisecond : ℤ) ((due.filterMap fun seq =>
      (repaired.lookup seq).map fun p => (p.rto : ℤ)).foldl min next) := by
  dsimp only
  rw [Unordered.foldl_min_perm (h.filterMap _)]
  unfold Outstanding.nextDelay
  dsimp only
  rw [List.foldl_append, List.foldl_append]
  congr 2
  cases (creditProbeInterval o).2 with
  | false => rfl
  | true =>
      cases o.flow with
      | none => rfl
      | some f => exact (ite_lt_eq_min _ _).symm

theorem retryDueIn_eq {order probeOrder : List ℕ} (h : order.Perm (SeqMap.ascending o.unacked))
    (hprobe : probeOrder.Perm (SeqMap.ascending o.unacked)) (now maximumRTO rtt bdp : ℕ) :
    o.retryDueIn order probeOrder now maximumRTO rtt bdp = o.retryDue now maximumRTO rtt bdp := by
  unfold Outstanding.retryDueIn Outstanding.retryDue
  rw [scan_eq, any_exhausted h, creditProbeIntervalIn_eq hprobe]
  change _ = if (o.overdue now).any _ = true then _ else _
  by_cases hany : ((o.overdue now).any fun seq =>
      (o.unacked.lookup seq).any fun p => clientMaxRetries ≤ p.retries) = true
  · rw [if_pos hany, if_pos hany]
  · rw [if_neg hany, if_neg hany]
    dsimp only
    have hdue : ((o.overdue now).take retryBurstMax).Nodup := nodup_burst o now
    have hmem : ∀ seq ∈ (o.overdue now).take retryBurstMax, seq ∈ o.unacked :=
      fun _ hseq => mem_of_mem_burst hseq
    rw [take_burst, List.map_take, List.nil_append, sorted_due h, foldl_burstTurn _ _ hdue]
    have hempty : wiresAt o.unacked ((o.overdue now).take retryBurstMax) = [] ↔
        (o.overdue now).take retryBurstMax = [] := by
      rw [← List.length_eq_zero_iff, length_wiresAt hmem, List.length_eq_zero_iff]
    refine Prod.ext ?_ ?_
    · rw [Retry.mk.injEq]
      exact ⟨List.nil_append _, rfl, (nextDelay_eq h _ _ now).symm, rfl⟩
    · rw [Outstanding.mk.injEq]
      refine ⟨rfl, rfl, ?_⟩
      change (if [] ++ wiresAt o.unacked ((o.overdue now).take retryBurstMax) = [] then _ else _) =
        o.flow.map ((fun f => if (o.overdue now).take retryBurstMax = [] then f else _) ∘ _)
      rw [List.nil_append]
      cases o.flow with
      | none => simp
      | some f =>
          cases (creditProbeInterval o).2 with
          | false =>
              simp only [hempty, Bool.false_eq_true, if_false, Option.map_some, Function.comp_apply]
              split_ifs <;> rfl
          | true =>
              simp only [hempty, if_true, Option.map_some, Function.comp_apply]
              split_ifs <;> rfl

end UdpCustom.Recovery
