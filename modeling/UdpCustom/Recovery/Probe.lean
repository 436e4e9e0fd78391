import UdpCustom.Recovery.Timeout

-- The credit probes that the wakes of one retransmit loop report.
namespace UdpCustom.Recovery

open UdpCustom.Frame UdpCustom.Flow

-- What a wake finds. Between two wakes the outstanding records and the flow may
-- change in any way, but only `retryDue` writes the time of the last probe.
structure Wake where
  unacked : SeqMap UnackedPkt
  lowestOutstanding : ℕ
  flow : SendFlow
  now : ℕ
  maximumRTO : ℕ
  rtt : ℕ
  bdp : ℕ

def Wake.outstanding (w : Wake) (lastProbe : Option ℕ) : Outstanding where
  unacked := w.unacked
  lowestOutstanding := w.lowestOutstanding
  flow := some { w.flow with lastProbe := lastProbe }

def Wake.retryDue (w : Wake) (lastProbe : Option ℕ) : Retry × Outstanding :=
  (w.outstanding lastProbe).retryDue w.now w.maximumRTO w.rtt w.bdp

def probes : Option ℕ → List Wake → List Bool
  | _, [] => []
  | lastProbe, w :: rest =>
    (w.retryDue lastProbe).1.probe ::
      probes ((w.retryDue lastProbe).2.flow.bind (·.lastProbe)) rest

def Wake.interval (w : Wake) : ℤ :=
  (creditProbeInterval (w.outstanding none)).1

-- The probe condition: no credit, or a record the peer has selectively acknowledged.
def Wake.Starved (w : Wake) : Prop :=
  w.flow.credit = 0 ∨ ∃ seq p, w.unacked.lookup seq = some p ∧ p.sacked = true

def Wake.GivesUp (w : Wake) : Prop :=
  ∃ seq p, w.unacked.lookup seq = some p ∧ p.expired w.now = true ∧ clientMaxRetries ≤ p.retries

theorem probeCondition_iff (w : Wake) (lastProbe : Option ℕ) :
    (creditProbeInterval (w.outstanding lastProbe)).2 = true ↔ w.Starved := by
  have hsacked : ((SeqMap.ascending w.unacked).any fun seq =>
      (w.unacked.lookup seq).any (·.sacked)) = true ↔
        ∃ seq p, w.unacked.lookup seq = some p ∧ p.sacked = true := by
    rw [List.any_eq_true]
    constructor
    · rintro ⟨seq, _, hseq⟩
      obtain ⟨p, hp, hs⟩ := (Option.any_eq_true _ _).1 hseq
      exact ⟨seq, p, hp, hs⟩
    · rintro ⟨seq, p, hp, hs⟩
      refine ⟨seq, SeqMap.mem_ascending.2 (Finmap.mem_iff.2 ⟨p, hp⟩), ?_⟩
      rw [hp]
      exact hs
  unfold creditProbeInterval Wake.Starved
  dsimp only [Wake.outstanding]
  split
  · rename_i hgap
    exact iff_of_true rfl (.inr (hsacked.1 hgap.1))
  · rw [decide_eq_true_iff, hsacked]

-- A wake reports a probe whenever the condition holds and something is
-- outstanding, no matter when the last one was.
theorem retryDue_probe_iff (w : Wake) (lastProbe : Option ℕ) :
    (w.retryDue lastProbe).1.probe = true ↔
      w.Starved ∧ ¬w.GivesUp ∧ ∃ seq, seq ∈ w.unacked := by
  have hgives : (w.retryDue lastProbe).1.abandoned = true ↔ w.GivesUp := by
    rw [Wake.retryDue, abandoned_iff]
    exact ⟨fun ⟨p, seq, h⟩ => ⟨seq, p, h⟩, fun ⟨seq, p, h⟩ => ⟨p, seq, h⟩⟩
  rw [← hgives]
  cases habandoned : (w.retryDue lastProbe).1.abandoned with
  | true =>
      rw [Wake.retryDue] at habandoned ⊢
      rw [retryDue_abandoned habandoned]
      simp [Retry.abandon]
  | false =>
      have hsize : SeqMap.size w.unacked ≠ 0 ↔ ∃ seq, seq ∈ w.unacked := by
        rw [SeqMap.size, Finset.card_ne_zero]
        exact exists_congr fun seq => Finmap.mem_keys
      have hprobe := (retryDue_woken habandoned).probe
      rw [← Wake.retryDue] at hprobe
      rw [hprobe, decide_eq_true_iff, probeCondition_iff, ← hsize]
      simp [Wake.outstanding]

theorem probes_iff (lastProbe : Option ℕ) (wakes : List Wake) (i : ℕ) :
    (probes lastProbe wakes)[i]? = some true ↔
      ∃ w, wakes[i]? = some w ∧ w.Starved ∧ ¬w.GivesUp ∧ ∃ seq, seq ∈ w.unacked := by
  induction wakes generalizing lastProbe i with
  | nil => simp [probes]
  | cons w rest ih =>
      cases i with
      | zero => simp [probes, retryDue_probe_iff]
      | succ i => simpa [probes] using ih _ i

-- Wake `j` comes at least its probe interval after wake `i`.
def Later (wakes : List Wake) (i j : ℕ) : Prop :=
  ∀ w w', wakes[i]? = some w → wakes[j]? = some w' → (w.now : ℤ) + w'.interval ≤ w'.now

-- From wake `i` to wake `j` the probe condition persists and the session is kept.
def Persists (wakes : List Wake) (i j : ℕ) : Prop :=
  i ≤ j ∧ j < wakes.length ∧
    ∀ k w, i ≤ k → k ≤ j → wakes[k]? = some w → w.Starved ∧ ¬w.GivesUp

structure Paced (lastProbe : Option ℕ) (wakes : List Wake) : Prop where
  apart : ∀ i j, i < j → (probes lastProbe wakes)[i]? = some true →
    (probes lastProbe wakes)[j]? = some true → Later wakes i j
  reported : ∀ i j, Persists wakes i j → Later wakes i j →
    ∃ k, i ≤ k ∧ k ≤ j ∧ (probes lastProbe wakes)[k]? = some true

def Probing (wakes : List Wake) (i : ℕ) : Prop :=
  ∃ w, wakes[i]? = some w ∧ w.Starved ∧ ¬w.GivesUp ∧ ∃ seq, seq ∈ w.unacked

-- The loop is not woken faster than it should probe, and not without anything
-- outstanding for a whole interval.
structure Spaced (wakes : List Wake) : Prop where
  apart : ∀ i j, i < j → Probing wakes i → Probing wakes j → Later wakes i j
  outstanding : ∀ i j, Persists wakes i j → Later wakes i j →
    ∃ k w seq, i ≤ k ∧ k ≤ j ∧ wakes[k]? = some w ∧ seq ∈ w.unacked

theorem probe_pacing_iff (lastProbe : Option ℕ) (wakes : List Wake) :
    Paced lastProbe wakes ↔ Spaced wakes := by
  have hprobes : ∀ i, (probes lastProbe wakes)[i]? = some true ↔ Probing wakes i :=
    probes_iff lastProbe wakes
  constructor
  · rintro ⟨hapart, hreported⟩
    simp only [hprobes] at hapart hreported
    refine ⟨hapart, fun i j hpersists hlater => ?_⟩
    obtain ⟨k, hi, hj, w, hw, _, _, seq, hseq⟩ := hreported i j hpersists hlater
    exact ⟨k, w, seq, hi, hj, hw, hseq⟩
  · rintro ⟨hapart, houtstanding⟩
    refine ⟨?_, fun i j hpersists hlater => ?_⟩
    · simp only [hprobes]
      exact hapart
    · obtain ⟨k, w, seq, hi, hj, hw, hseq⟩ := houtstanding i j hpersists hlater
      obtain ⟨hstarved, hkept⟩ := hpersists.2.2 k w hi hj hw
      exact ⟨k, hi, hj, (hprobes k).2 ⟨w, hw, hstarved, hkept, seq, hseq⟩⟩

-- A wake that finds no credit, `n` records outstanding and none of them due.
def starvedWake (n now : ℕ) : Wake where
  unacked := (stalled n).unacked
  lowestOutstanding := 1
  flow := { newSendFlow 0 true true false with credit := 0 }
  now := now
  maximumRTO := rttMaxRTO
  rtt := 0
  bdp := 0

-- Two probes a nanosecond apart; and none in 200 ms when nothing is outstanding.
theorem probes_follow_wakes :
    probes none [starvedWake 1 0, starvedWake 1 1] = [true, true] ∧
    (starvedWake 1 1).interval = 100 * millisecond ∧
    probes none [starvedWake 0 0, starvedWake 0 (100 * millisecond),
      starvedWake 0 (200 * millisecond)] = [false, false, false] ∧
    (starvedWake 0 0).flow.credit = 0 := by
  decide +kernel

end UdpCustom.Recovery
