import UdpCustom.Rtt.Theorems
import Mathlib.Data.List.Induction

-- The estimator on the machine integers of the code: every sum, difference, product
-- and quotient is reduced to an `int64`.
namespace UdpCustom.Rtt

def wrapInt64 (n : ℤ) : ℤ :=
  n.bmod (2 ^ 64)

theorem wrapInt64_of_fits {n : ℤ} (h : FitsInt64 n) : wrapInt64 n = n := by
  obtain ⟨hlow, hhigh⟩ := h
  apply Int.bmod_eq_of_le_mul_two
  · push_cast
    omega
  · push_cast
    omega

def absDuration (d : ℤ) : ℤ :=
  if d < 0 then wrapInt64 (-d) else d

theorem absDuration_of_fits {d : ℤ} (h : FitsInt64 (-d)) : absDuration d = |d| := by
  unfold absDuration
  split
  · rw [wrapInt64_of_fits h, abs_of_neg ‹_›]
  · rw [abs_of_nonneg (not_lt.1 ‹_›)]

def RttEstimator.srttInt64 (e : RttEstimator) (rtt : ℤ) : ℤ :=
  if e.hasData then wrapInt64 (e.srtt + wrapInt64 ((wrapInt64 (rtt - e.srtt)).tdiv 8)) else rtt

def RttEstimator.rttvarInt64 (e : RttEstimator) (rtt : ℤ) : ℤ :=
  if e.hasData then
    let errVal := wrapInt64 (rtt - e.srtt)
    wrapInt64 (e.rttvar + wrapInt64 ((wrapInt64 (absDuration errVal - e.rttvar)).tdiv 4))
  else wrapInt64 (rtt.tdiv 2)

-- What the code makes of the two averages, clamp after clamp.
def timeoutInt64 (srtt rttvar : ℤ) : ℤ :=
  let rto := wrapInt64 (srtt + wrapInt64 (4 * rttvar))
  let rto := if rto < wrapInt64 (srtt * 2) then wrapInt64 (srtt * 2) else rto
  let rto := if rto < rttMinRTO then rttMinRTO else rto
  if rttMaxRTO < rto then rttMaxRTO else rto

def RttEstimator.sampleInt64 (e : RttEstimator) (rtt : ℤ) : RttEstimator :=
  if rtt ≤ 0 then e
  else
    { srtt := e.srttInt64 rtt
      rttvar := e.rttvarInt64 rtt
      rto := timeoutInt64 (e.srttInt64 rtt) (e.rttvarInt64 rtt)
      hasData := true }

def fedInt64 (samples : List ℤ) : RttEstimator :=
  samples.foldl RttEstimator.sampleInt64 newDefaultRTTEstimator

theorem sample_of_pos (e : RttEstimator) {rtt : ℤ} (hrtt : 0 < rtt) :
    e.sample rtt =
      { srtt := if e.hasData then e.srtt + (rtt - e.srtt).tdiv 8 else rtt
        rttvar := if e.hasData then e.rttvar + (|rtt - e.srtt| - e.rttvar).tdiv 4 else rtt.tdiv 2
        rto := (e.sample rtt).rto
        hasData := true } := by
  unfold RttEstimator.sample
  rw [if_neg (by omega)]

section
variable {e : RttEstimator} {rtt : ℤ}

theorem srttInt64_eq (he : e.Within 0 (2 ^ 60)) (hpos : 0 < rtt) (hrtt : rtt < 2 ^ 60) :
    e.srttInt64 rtt = (e.sample rtt).srtt := by
  obtain ⟨hs, hs'⟩ := (he.sample le_rfl hpos hrtt).srtt (hasData_sample e hpos)
  rw [sample_of_pos e hpos] at hs hs' ⊢
  dsimp only at hs hs' ⊢
  unfold RttEstimator.srttInt64
  split
  · rename_i hdata
    obtain ⟨hold, hold'⟩ := he.srtt hdata
    rw [if_pos hdata] at hs hs'
    have herr : wrapInt64 (rtt - e.srtt) = rtt - e.srtt := wrapInt64_of_fits ⟨by omega, by omega⟩
    have hstep : wrapInt64 ((rtt - e.srtt).tdiv 8) = (rtt - e.srtt).tdiv 8 :=
      wrapInt64_of_fits ⟨by omega, by omega⟩
    rw [herr, hstep]
    exact wrapInt64_of_fits ⟨by omega, by omega⟩
  · rfl

theorem rttvarInt64_eq (he : e.Within 0 (2 ^ 60)) (hpos : 0 < rtt) (hrtt : rtt < 2 ^ 60) :
    e.rttvarInt64 rtt = (e.sample rtt).rttvar := by
  obtain ⟨hv, hv'⟩ := (he.sample le_rfl hpos hrtt).rttvar (hasData_sample e hpos)
  rw [sample_of_pos e hpos] at hv hv' ⊢
  dsimp only at hv hv' ⊢
  unfold RttEstimator.rttvarInt64
  split
  · rename_i hdata
    obtain ⟨hsold, hsold'⟩ := he.srtt hdata
    obtain ⟨hold, hold'⟩ := he.rttvar hdata
    rw [if_pos hdata] at hv hv'
    have herr : wrapInt64 (rtt - e.srtt) = rtt - e.srtt := wrapInt64_of_fits ⟨by omega, by omega⟩
    have habs : absDuration (rtt - e.srtt) = |rtt - e.srtt| := absDuration_of_fits ⟨by omega, by omega⟩
    have hbound : 0 ≤ |rtt - e.srtt| ∧ |rtt - e.srtt| < 2 ^ 60 :=
      ⟨abs_nonneg _, abs_lt.2 ⟨by omega, by omega⟩⟩
    have hdiff : wrapInt64 (|rtt - e.srtt| - e.rttvar) = |rtt - e.srtt| - e.rttvar :=
      wrapInt64_of_fits ⟨by omega, by omega⟩
    have hstep : wrapInt64 ((|rtt - e.srtt| - e.rttvar).tdiv 4) = (|rtt - e.srtt| - e.rttvar).tdiv 4 :=
      wrapInt64_of_fits ⟨by omega, by omega⟩
    dsimp only
    rw [herr, habs, hdiff, hstep]
    exact wrapInt64_of_fits ⟨by omega, by omega⟩
  · rename_i hdata
    rw [if_neg hdata] at hv hv'
    exact wrapInt64_of_fits ⟨by omega, by omega⟩

theorem timeoutInt64_eq {srtt rttvar : ℤ} (hs : 0 < srtt) (hs' : srtt < 2 ^ 60) (hv : 0 ≤ rttvar)
    (hv' : rttvar < 2 ^ 60) :
    timeoutInt64 srtt rttvar =
      min (max (max (srtt + 4 * rttvar) (srtt * 2)) rttMinRTO) rttMaxRTO := by
  have hfour : wrapInt64 (4 * rttvar) = 4 * rttvar := wrapInt64_of_fits ⟨by omega, by omega⟩
  have hsum : wrapInt64 (srtt + 4 * rttvar) = srtt + 4 * rttvar :=
    wrapInt64_of_fits ⟨by omega, by omega⟩
  have htwo : wrapInt64 (srtt * 2) = srtt * 2 := wrapInt64_of_fits ⟨by omega, by omega⟩
  unfold timeoutInt64
  rw [hfour, hsum, htwo]
  dsimp only
  split_ifs <;> omega

-- Samples below 2^60 never leave the range of the machine integers.
theorem sampleInt64_eq (he : e.Within 0 (2 ^ 60)) (hrtt : rtt < 2 ^ 60) :
    e.sampleInt64 rtt = e.sample rtt := by
  by_cases hpos : rtt ≤ 0
  · rw [RttEstimator.sampleInt64, RttEstimator.sample, if_pos hpos, if_pos hpos]
  · have hpos' := not_le.1 hpos
    have hnext := he.sample le_rfl hpos' hrtt
    obtain ⟨hs, hs'⟩ := hnext.srtt (hasData_sample e hpos')
    obtain ⟨hv, hv'⟩ := hnext.rttvar (hasData_sample e hpos')
    rw [RttEstimator.sampleInt64, if_neg hpos, srttInt64_eq he hpos' hrtt, rttvarInt64_eq he hpos' hrtt,
      timeoutInt64_eq hs hs' hv hv', ← rto_sample e hpos', ← hasData_sample e hpos']

theorem sampleInt64_of_nonpos (e : RttEstimator) (h : rtt ≤ 0) : e.sampleInt64 rtt = e :=
  if_pos h

end

-- Feeding samples, those that are not positive left out.
theorem fedInt64_eq {samples : List ℤ} {low high : ℤ} (hlow : 0 ≤ low) (hhigh : high ≤ 2 ^ 60)
    (h : ∀ r ∈ samples, 0 < r → low < r ∧ r < high) :
    fedInt64 samples = fed samples ∧ (fed samples).Within low high := by
  induction samples using List.reverseRecOn with
  | nil => exact ⟨rfl, within_new low high⟩
  | append_singleton earlier r ih =>
      obtain ⟨heq, hwithin⟩ := ih fun q hq => h q (List.mem_append_left _ hq)
      have hr := h r (List.mem_append_right _ (List.mem_singleton.2 rfl))
      have hlast : fed (earlier ++ [r]) = (fed earlier).sample r := by simp [fed]
      have hlast64 : fedInt64 (earlier ++ [r]) = (fed earlier).sampleInt64 r := by
        rw [fedInt64, List.foldl_append, ← fedInt64, heq]
        rfl
      rw [hlast, hlast64]
      by_cases hpos : 0 < r
      · obtain ⟨hr, hr'⟩ := hr hpos
        have hwide : (fed earlier).Within 0 (2 ^ 60) :=
          ⟨fun hd => ⟨hlow.trans_lt (hwithin.srtt hd).1, (hwithin.srtt hd).2.trans_le hhigh⟩,
            fun hd => ⟨(hwithin.rttvar hd).1, (hwithin.rttvar hd).2.trans_le hhigh⟩⟩
        exact ⟨sampleInt64_eq hwide (hr'.trans_le hhigh), hwithin.sample hlow hr hr'⟩
      · have hsame : (fed earlier).sample r = fed earlier := if_pos (not_lt.1 hpos)
        exact ⟨(sampleInt64_of_nonpos _ (not_lt.1 hpos)).trans hsame.symm, hsame.symm ▸ hwithin⟩

-- The timeout is the clamp of the averages once there is a sample.
theorem rto_fed {samples : List ℤ} (h : ∃ r ∈ samples, 0 < r) :
    (fed samples).hasData = true ∧
      (fed samples).rto = min (max (max ((fed samples).srtt + 4 * (fed samples).rttvar)
        ((fed samples).srtt * 2)) rttMinRTO) rttMaxRTO := by
  induction samples using List.reverseRecOn with
  | nil => exact absurd h nofun
  | append_singleton earlier r ih =>
      have hlast : fed (earlier ++ [r]) = (fed earlier).sample r := by simp [fed]
      rw [hlast]
      by_cases hpos : 0 < r
      · exact ⟨hasData_sample _ hpos, rto_sample _ hpos⟩
      · have hsame : (fed earlier).sample r = fed earlier := if_pos (not_lt.1 hpos)
        rw [hsame]
        refine ih ?_
        obtain ⟨q, hq, hqpos⟩ := h
        rcases List.mem_append.1 hq with hold | hnew
        · exact ⟨q, hold, hqpos⟩
        · rw [List.mem_singleton.1 hnew] at hqpos
          exact absurd hqpos hpos

-- Samples that are not positive may stand anywhere in the sequence.
theorem estimator_bounds {samples : List ℤ} {lo hi : ℤ} (hne : ∃ r ∈ samples, 0 < r)
    (hin : ∀ r ∈ samples, 0 < r → lo ≤ r ∧ r ≤ hi) (hhi : hi < 2 ^ 60) :
    (lo ≤ (fedInt64 samples).srtt ∧ (fedInt64 samples).srtt ≤ hi) ∧
    (0 ≤ (fedInt64 samples).rttvar ∧ (fedInt64 samples).rttvar ≤ hi) ∧
    (rttMinRTO ≤ (fedInt64 samples).rto ∧ (fedInt64 samples).rto ≤ rttMaxRTO) ∧
    min (2 * (fedInt64 samples).srtt) rttMaxRTO ≤ (fedInt64 samples).rto ∧
    fedInt64 samples = fed samples ∧
    ∀ e : RttEstimator, ∀ r ≤ 0, e.sampleInt64 r = e := by
  have hbounds : ∀ r ∈ samples, 0 < r → max (lo - 1) 0 < r ∧ r < hi + 1 := by
    intro r hr hpos
    obtain ⟨hlow, hhigh⟩ := hin r hr hpos
    exact ⟨by omega, by omega⟩
  obtain ⟨heq, hwithin⟩ := fedInt64_eq (le_max_right _ _) (by omega) hbounds
  obtain ⟨hdata, hrto⟩ := rto_fed hne
  obtain ⟨hs, hs'⟩ := hwithin.srtt hdata
  obtain ⟨hv, hv'⟩ := hwithin.rttvar hdata
  rw [heq]
  refine ⟨⟨by omega, by omega⟩, ⟨hv, by omega⟩, ⟨?_, ?_⟩, ?_, rfl, fun e r hr => ?_⟩
  · rw [hrto]
    exact le_min (le_max_right _ _) (by decide)
  · rw [hrto]
    exact min_le_right _ _
  · rw [hrto]
    refine min_le_min_right _ (le_trans ?_ (le_max_left _ _))
    rw [mul_comm]
    exact le_max_right _ _
  · exact sampleInt64_of_nonpos e hr

theorem estimator_bounds_four_samples :
    (fedInt64 [30000001, -5, 50000000, 40000003]).rttvar ≤ 50000000 ∧
      fedInt64 [30000001, -5, 50000000, 40000003] = fed [30000001, 50000000, 40000003] :=
  have h := @estimator_bounds [30000001, -5, 50000000, 40000003] 30000001 50000000 (by decide)
    (by decide) (by decide)
  ⟨h.2.1.2, h.2.2.2.2.1.trans (by decide)⟩

end UdpCustom.Rtt
