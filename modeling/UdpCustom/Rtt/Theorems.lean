import UdpCustom.Rtt
import UdpCustom.Coalesce
import Mathlib.Data.List.Basic

-- How long a cumulative ACK may be held back, against the timeout of a sender
-- with the same samples.
namespace UdpCustom.Rtt

open UdpCustom.Coalesce

def fed (samples : List ℤ) : RttEstimator :=
  samples.foldl RttEstimator.sample newDefaultRTTEstimator

-- A step of a truncated fraction of the way from `a` to `b` stays between them.
theorem min_le_step (a b : ℤ) {k : ℤ} (hk : 0 < k) : min a b ≤ a + (b - a).tdiv k := by
  rcases le_total a b with hab | hab
  · have hstep : 0 ≤ (b - a).tdiv k := Int.tdiv_nonneg (by omega) hk.le
    omega
  · have hstep : (a - b).tdiv k ≤ a - b := Int.tdiv_le_self k (by omega)
    have hneg : (b - a).tdiv k = -(a - b).tdiv k := by rw [← Int.neg_tdiv, neg_sub]
    omega

theorem step_le_max (a b : ℤ) {k : ℤ} (hk : 0 < k) : a + (b - a).tdiv k ≤ max a b := by
  rcases le_total a b with hab | hab
  · have hstep : (b - a).tdiv k ≤ b - a := Int.tdiv_le_self k (by omega)
    omega
  · have hstep : 0 ≤ (a - b).tdiv k := Int.tdiv_nonneg (by omega) hk.le
    have hneg : (b - a).tdiv k = -(a - b).tdiv k := by rw [← Int.neg_tdiv, neg_sub]
    omega

-- The bounds that samples inside `(low, high)` give the two averages.
structure RttEstimator.Within (e : RttEstimator) (low high : ℤ) : Prop where
  srtt : e.hasData = true → low < e.srtt ∧ e.srtt < high
  rttvar : e.hasData = true → 0 ≤ e.rttvar ∧ e.rttvar < high

theorem within_new (low high : ℤ) : newDefaultRTTEstimator.Within low high :=
  ⟨(fun h => by cases h), (fun h => by cases h)⟩

theorem RttEstimator.Within.sample {e : RttEstimator} {low high rtt : ℤ} (h : e.Within low high)
    (hlow : 0 ≤ low) (hrtt : low < rtt) (hhigh : rtt < high) : (e.sample rtt).Within low high := by
  unfold RttEstimator.sample
  rw [if_neg (by omega)]
  cases hdata : e.hasData with
  | false =>
      have hhalf : 0 ≤ rtt.tdiv 2 := Int.tdiv_nonneg (by omega) (by omega)
      have hle : rtt.tdiv 2 ≤ rtt := Int.tdiv_le_self 2 (by omega)
      refine ⟨fun _ => ?_, fun _ => ?_⟩ <;> simp <;> omega
  | true =>
      obtain ⟨hs, hs'⟩ := h.srtt hdata
      obtain ⟨hv, hv'⟩ := h.rttvar hdata
      have herr : 0 ≤ |rtt - e.srtt| ∧ |rtt - e.srtt| < high := by
        refine ⟨abs_nonneg _, abs_lt.2 ⟨?_, ?_⟩⟩ <;> omega
      have hsl := min_le_step e.srtt rtt (k := 8) (by omega)
      have hsh := step_le_max e.srtt rtt (k := 8) (by omega)
      have hvl := min_le_step e.rttvar |rtt - e.srtt| (k := 4) (by omega)
      have hvh := step_le_max e.rttvar |rtt - e.srtt| (k := 4) (by omega)
      refine ⟨fun _ => ?_, fun _ => ?_⟩
      · simp only [if_true]
        omega
      · simp only [if_true]
        omega

theorem within_fed {samples : List ℤ} {low high : ℤ} (hlow : 0 ≤ low)
    (h : ∀ r ∈ samples, low < r ∧ r < high) : (fed samples).Within low high := by
  unfold fed
  generalize he : newDefaultRTTEstimator = e
  have hstart : e.Within low high := he ▸ within_new low high
  clear he
  induction samples generalizing e with
  | nil => exact hstart
  | cons r rest ih =>
      obtain ⟨hr, hr'⟩ := h r List.mem_cons_self
      refine ih (fun q hq => h q (List.mem_cons_of_mem _ hq)) _ ?_
      exact hstart.sample hlow hr hr'

theorem hasData_sample (e : RttEstimator) {rtt : ℤ} (hrtt : 0 < rtt) :
    (e.sample rtt).hasData = true := by
  unfold RttEstimator.sample
  rw [if_neg (by omega)]

theorem rto_sample (e : RttEstimator) {rtt : ℤ} (hrtt : 0 < rtt) :
    (e.sample rtt).rto = min (max (max ((e.sample rtt).srtt + 4 * (e.sample rtt).rttvar)
      ((e.sample rtt).srtt * 2)) rttMinRTO) rttMaxRTO := by
  unfold RttEstimator.sample
  rw [if_neg (by omega)]

-- The durations the code holds in an `int64`.
def FitsInt64 (n : ℤ) : Prop := -2 ^ 63 ≤ n ∧ n < 2 ^ 63

-- The two durations the timeout is the larger of lie, one of them at least,
-- above its floor.
def RttEstimator.AboveFloor (e : RttEstimator) : Prop :=
  rttMinRTO < e.srtt + 4 * e.rttvar ∨ rttMinRTO < e.srtt * 2

theorem interval_lt_rto_iff {e : RttEstimator} {rtt : ℤ} (hrtt : 0 < rtt)
    (hpos : 0 < (e.sample rtt).srtt) :
    (ackCoalesceInterval (e.sample rtt).smoothed.toNat : ℤ) < (e.sample rtt).rto ↔
      (e.sample rtt).AboveFloor := by
  have hsmoothed : (e.sample rtt).smoothed = (e.sample rtt).srtt := by
    rw [RttEstimator.smoothed, if_pos (hasData_sample e hrtt)]
  obtain ⟨srtt, hsrtt⟩ := Int.eq_ofNat_of_zero_le hpos.le
  rw [rto_sample e hrtt, hsmoothed, hsrtt, Int.toNat_natCast]
  simp only [ackCoalesceInterval, ackMaxCoalesce, RttEstimator.AboveFloor, rttMinRTO, rttMaxRTO,
    hsrtt]
  omega

theorem suppression_ends_before_timeout_iff (samples : List ℤ)
    (hpos : ∀ r ∈ samples, 0 < r) (hsmall : ∀ r ∈ samples, r < 2 ^ 60) :
    ((ackCoalesceInterval (fed samples).smoothed.toNat : ℤ) < (fed samples).rto ↔
      samples = [] ∨ (fed samples).AboveFloor) ∧
    ((∀ r ∈ samples, rttMinRTO < 2 * r) →
      (ackCoalesceInterval (fed samples).smoothed.toNat : ℤ) < (fed samples).rto) := by
  rcases List.eq_nil_or_concat samples with rfl | ⟨earlier, r, rfl⟩
  · have hlt : (ackCoalesceInterval (fed []).smoothed.toNat : ℤ) < (fed []).rto := by decide
    exact ⟨iff_of_true hlt (.inl rfl), fun _ => hlt⟩
  · have hr : 0 < r := hpos r (by simp)
    have hlast : fed (earlier.concat r) = (fed earlier).sample r := by simp [fed]
    have hwithin := within_fed le_rfl fun r hr => ⟨hpos r hr, hsmall r hr⟩
    rw [hlast] at hwithin ⊢
    have hiff := interval_lt_rto_iff hr (hwithin.srtt (hasData_sample _ hr)).1
    refine ⟨hiff.trans ⟨.inr, fun h => h.resolve_left (by simp)⟩, fun hslow => hiff.2 (.inr ?_)⟩
    -- the smoothed RTT stays above half the floor if every sample is
    have hhalf : (fed (earlier.concat r)).Within 500000 (2 ^ 60) := by
      refine within_fed (by decide) fun q hq => ⟨?_, hsmall q hq⟩
      have := hslow q hq
      unfold rttMinRTO at this
      omega
    rw [hlast] at hhalf
    have := (hhalf.srtt (hasData_sample _ hr)).1
    unfold rttMinRTO
    omega

theorem suppression_ends_at_two_ms :
    (∀ r ∈ [(2000000 : ℤ), 3000000], 0 < r) ∧ (∀ r ∈ [(2000000 : ℤ), 3000000], r < 2 ^ 60) ∧
      (ackCoalesceInterval (fed [2000000, 3000000]).smoothed.toNat : ℤ) <
        (fed [2000000, 3000000]).rto :=
  ⟨by decide, by decide,
    (suppression_ends_before_timeout_iff _ (by decide) (by decide)).2 (by decide)⟩

-- One sample of 100 microseconds: the floor of the interval meets the floor of
-- the timeout.
theorem suppression_lasts_to_timeout :
    (ackCoalesceInterval (fed [100000]).smoothed.toNat : ℤ) = 10 ^ 6 ∧
      (fed [100000]).rto = 10 ^ 6 := by
  decide

end UdpCustom.Rtt
