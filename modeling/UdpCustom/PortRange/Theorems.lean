import UdpCustom.PortRange.Token
import Mathlib.Data.Finset.Sort

-- A range is the set of the listed ports, in every way the code looks at it.
namespace UdpCustom.Ports

open WhiteSpace

-- The set of the listed ports in increasing order.
def sortedSet (ports : List ℤ) : List ℤ :=
  ports.toFinset.sort (· ≤ ·)

theorem headD_getLastD_bounds {l : List ℤ} (hne : l ≠ []) (h : ∀ p ∈ l, 1 ≤ p ∧ p ≤ 65535) :
    ¬(l.headD 0 < 1 ∨ 65535 < l.getLastD 0) := by
  rintro (hlow | hhigh)
  · cases l with
    | nil => exact hne rfl
    | cons p rest => exact absurd (h p List.mem_cons_self).1 (not_le.2 hlow)
  · rcases List.eq_nil_or_concat l with rfl | ⟨front, q, rfl⟩
    · exact hne rfl
    · have hq : 65535 < q := by simpa using hhigh
      exact absurd (h q (by simp)).2 (not_le.2 hq)

theorem exists_newPortRange {ports : List ℤ} (hne : ports ≠ [])
    (hports : ∀ p ∈ ports, 1 ≤ p ∧ p ≤ 65535) :
    ∃ pr, newPortRange ports = .ok pr ∧ pr.intervals = merge (ports.insertionSort (· ≤ ·)) := by
  have hbounds : ¬((ports.insertionSort (· ≤ ·)).headD 0 < 1 ∨
      65535 < (ports.insertionSort (· ≤ ·)).getLastD 0) := by
    refine headD_getLastD_bounds (fun hnil => ?_) fun p hp => hports p ((List.mem_insertionSort _).1 hp)
    exact hne (List.perm_nil.1 (hnil ▸ (List.perm_insertionSort _ _).symm))
  unfold newPortRange
  rw [dif_neg hne]
  dsimp only
  rw [dif_neg hbounds]
  exact ⟨_, rfl, rfl⟩

theorem elements_eq_sortedSet (ports : List ℤ) :
    Intervals.elements (merge (ports.insertionSort (· ≤ ·))) = sortedSet ports := by
  have hsorted : (ports.insertionSort (· ≤ ·)).Pairwise (· ≤ ·) := List.pairwise_insertionSort _ _
  have helements := (separated_merge hsorted).pairwise_elements
  have hset : (sortedSet ports).Pairwise (· < ·) := (ports.toFinset.sortedLT_sort).pairwise
  refine List.Perm.eq_of_pairwise' (r := (· < ·)) helements hset ?_
  refine (List.perm_ext_iff_of_nodup (helements.imp ne_of_lt) (hset.imp ne_of_lt)).2 fun p => ?_
  rw [mem_elements_merge hsorted, List.mem_insertionSort, sortedSet, Finset.mem_sort, List.mem_toFinset]

section
variable (pr : PortRange)

theorem contains_iff (p : ℤ) : pr.contains p = true ↔ p ∈ Intervals.elements pr.intervals :=
  pr.separated.search_iff p

theorem portAt_eq {k : ℕ} (hk : (k : ℤ) < pr.total) :
    (Intervals.elements pr.intervals)[k]? = some (pr.portAt k) := by
  have hlt : k < (Intervals.elements pr.intervals).length := by
    have htotal := total_eq_length pr
    omega
  have hpos := pr.total_pos
  unfold PortRange.portAt
  rw [if_neg hpos.ne']
  dsimp only
  rw [if_neg (by omega), if_neg (by omega), pr.separated.nth_eq, List.getElem?_eq_getElem hlt,
    Option.getD_some]

theorem map_portAt :
    (List.range pr.total.toNat).map (fun k : ℕ => pr.portAt k) = Intervals.elements pr.intervals := by
  have htotal := total_eq_length pr
  refine List.ext_getElem? fun k => ?_
  rw [List.getElem?_map]
  by_cases hk : k < pr.total.toNat
  · rw [List.getElem?_range hk, Option.map_some, portAt_eq pr (by omega)]
  · rw [List.getElem?_eq_none (by rw [List.length_range]; omega),
      List.getElem?_eq_none (by omega), Option.map_none]

end

theorem foldl_addPort {l acc : List ℤ} (h : (acc ++ l).Nodup) : l.foldl addPort acc = acc ++ l := by
  induction l generalizing acc with
  | nil => simp
  | cons p rest ih =>
      have hnew : p ∉ acc := fun hp => (List.nodup_append.1 h).2.2 p hp p List.mem_cons_self rfl
      rw [List.foldl_cons, addPort, if_neg hnew, ih (by simpa using h)]
      simp

theorem parsePort_itoa {ports : List ℤ} {n : ℤ} (hn : 1 ≤ n ∧ n ≤ 65535) :
    parsePort ports (Decimal.itoa n) = .ok (addPort ports n) := by
  unfold parsePort
  rw [Decimal.atoi_itoa (by omega) (by omega)]
  dsimp only
  rw [if_neg (by omega)]

theorem parseRange_itoa {ports : List ℤ} {lo hi : ℤ} (hlo : 1 ≤ lo) (hle : lo ≤ hi) (hhi : hi ≤ 65535) :
    parseRange ports (Decimal.itoa lo ++ [dash] ++ Decimal.itoa hi) (Decimal.itoa lo).length =
      .ok ((Intervals.Interval.elements ⟨lo, hi⟩).foldl addPort ports) := by
  unfold parseRange
  rw [take_pair, drop_pair, trimSpace_of_graphic (Decimal.all_graphic_itoa lo),
    trimSpace_of_graphic (Decimal.all_graphic_itoa hi), Decimal.atoi_itoa (by omega) (by omega),
    Decimal.atoi_itoa (by omega) (by omega)]
  dsimp only
  rw [if_neg (by omega), if_neg (by omega)]

-- What is written for an interval reads back as its ports.
theorem parseSegment_intervalToken (spec : Text) (ports : List ℤ) {iv : PortInterval} (hlo : 1 ≤ iv.lo)
    (hle : iv.lo ≤ iv.hi) (hhi : iv.hi ≤ 65535) :
    parseSegment spec ports (intervalToken [dash] iv) = .ok (iv.elements.foldl addPort ports) := by
  have hlo0 : 0 ≤ iv.lo := by omega
  have hhi0 : 0 ≤ iv.hi := by omega
  unfold parseSegment
  rw [trimSpace_of_graphic (all_graphic_intervalToken (by decide) hlo0 hhi0)]
  dsimp only
  rw [if_neg (intervalToken_ne_nil hlo0)]
  by_cases hsame : iv.lo = iv.hi
  · have helements : iv.elements = [iv.lo] := by
      simp [Intervals.Interval.elements, Intervals.Interval.width, ← hsame]
    rw [intervalToken, if_pos hsame, findIdx?_itoa (by decide) hlo0, helements]
    exact parsePort_itoa ⟨hlo, by omega⟩
  · rw [intervalToken, if_neg hsame, findIdx?_pair (by decide) hlo0]
    exact parseRange_itoa hlo hle hhi

theorem foldlM_parseSegment (spec : Text) {ivs : List PortInterval}
    (h : ∀ iv ∈ ivs, 1 ≤ iv.lo ∧ iv.lo ≤ iv.hi ∧ iv.hi ≤ 65535) (ports : List ℤ) :
    (ivs.map (intervalToken [dash])).foldlM (parseSegment spec) ports =
      .ok ((Intervals.elements ivs).foldl addPort ports) := by
  induction ivs generalizing ports with
  | nil => rfl
  | cons iv rest ih =>
      obtain ⟨hlo, hle, hhi⟩ := h iv List.mem_cons_self
      rw [List.map_cons, List.foldlM_cons, parseSegment_intervalToken spec ports hlo hle hhi,
        Intervals.elements, List.flatMap_cons, List.foldl_append, ← Intervals.elements]
      exact ih (fun iv' hiv' => h iv' (List.mem_cons_of_mem _ hiv')) _

theorem splitOn_string (pr : PortRange) :
    pr.string.splitOn comma = pr.intervals.map (intervalToken [dash]) := by
  rw [string_eq]
  refine List.splitOn_intercalate comma (fun token htoken hmem => ?_) (by simpa using intervals_ne_nil pr)
  obtain ⟨iv, hiv, rfl⟩ := List.mem_map.1 htoken
  have hbounds := interval_bounds pr hiv
  exact comma_notMem_intervalToken (by omega) (by omega) (by decide) hmem

theorem string_ne_nil (pr : PortRange) : pr.string ≠ [] := by
  intro hnil
  have hsplit := splitOn_string pr
  rw [hnil] at hsplit
  have hmem : [] ∈ pr.intervals.map (intervalToken [dash]) := hsplit ▸ List.mem_singleton.2 rfl
  obtain ⟨iv, hiv, htoken⟩ := List.mem_map.1 hmem
  have hbounds := interval_bounds pr hiv
  exact intervalToken_ne_nil (by omega) htoken

-- Parsing the text of a range gives its ports back.
theorem parsePortRangeSpec_string (pr : PortRange) :
    parsePortRangeSpec pr.string = .ok (Intervals.elements pr.intervals) := by
  have hsorted := pr.separated.pairwise_elements
  have hnodup : ([] ++ Intervals.elements pr.intervals).Nodup := hsorted.imp ne_of_lt
  unfold parsePortRangeSpec
  rw [trimSpace_of_graphic (all_graphic_string pr)]
  dsimp only
  rw [if_neg (string_ne_nil pr), splitOn_string,
    foldlM_parseSegment _ (fun iv hiv => interval_bounds pr hiv),
    foldl_addPort hnodup, List.nil_append]
  dsimp only
  rw [if_neg (elements_ne_nil pr), List.Pairwise.insertionSort_eq (hsorted.imp le_of_lt)]

theorem port_range_algebra {ports : List ℤ} (hne : ports ≠ []) (hports : ∀ p ∈ ports, 1 ≤ p ∧ p ≤ 65535) :
    ∃ pr, newPortRange ports = .ok pr ∧ Intervals.Separated pr.intervals ∧
      (∀ p, (∃ iv ∈ pr.intervals, iv.Contains p) ↔ p ∈ ports) ∧
      pr.total = ports.toFinset.card ∧ (∀ p, pr.contains p = true ↔ p ∈ ports) ∧
      (List.range pr.total.toNat).map (fun i : ℕ => pr.portAt i) = sortedSet ports ∧
      parsePortRangeSpec (formatPortList ports) = .ok (sortedSet ports) := by
  obtain ⟨pr, hnew, hintervals⟩ := exists_newPortRange hne hports
  have helements : Intervals.elements pr.intervals = sortedSet ports := by
    rw [hintervals, elements_eq_sortedSet]
  have hmem : ∀ p, p ∈ Intervals.elements pr.intervals ↔ p ∈ ports := by
    intro p
    rw [helements, sortedSet, Finset.mem_sort, List.mem_toFinset]
  refine ⟨pr, hnew, pr.separated, fun p => ?_, ?_, fun p => ?_, ?_, ?_⟩
  · rw [← Intervals.mem_elements, hmem]
  · rw [total_eq_length, helements, sortedSet, Finset.length_sort]
  · rw [contains_iff, hmem]
  · rw [map_portAt, helements]
  · rw [formatPortList, hnew, ← helements]
    exact parsePortRangeSpec_string pr

theorem port_range_algebra_three_intervals :
    ∃ pr, newPortRange [80, 7, 6, 81, 80, 5, 443] = .ok pr ∧ pr.total = 6 ∧
      parsePortRangeSpec (formatPortList [80, 7, 6, 81, 80, 5, 443]) = .ok [5, 6, 7, 80, 81, 443] := by
  obtain ⟨pr, hnew, -, -, htotal, -, -, hparse⟩ :=
    @port_range_algebra [80, 7, 6, 81, 80, 5, 443] (by decide) (by decide)
  have hset : sortedSet [80, 7, 6, 81, 80, 5, 443] = [5, 6, 7, 80, 81, 443] := by
    rw [← elements_eq_sortedSet]
    decide
  exact ⟨pr, hnew, htotal, hset ▸ hparse⟩

end UdpCustom.Ports
