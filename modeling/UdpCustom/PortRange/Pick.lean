import UdpCustom.PortRange.Theorems
import UdpCustom.Lib.FisherYates
import UdpCustom.Lib.SeqMap

-- A random selection of ports: a partial Fisher-Yates shuffle that stores only the places
-- it has written.
namespace UdpCustom.Ports

-- What stands at a place of the array.
def placeValue (swaps : SeqMap ℕ) (k : ℕ) : ℕ :=
  (swaps.lookup k).getD k

-- The loop from turn `i` on, with what rng.Intn(total-i) returns in each.
def pickLoop (pr : PortRange) (i : ℕ) (swaps : SeqMap ℕ) : List ℕ → List ℤ
  | [] => []
  | d :: draws =>
      let j := i + d
      let vi := placeValue swaps i
      let vj := placeValue swaps j
      pr.portAt vj :: pickLoop pr (i + 1) ((swaps.insert i vj).insert j vi) draws

def pickPortsFromRange (pr : PortRange) (n : ℤ) (draws : List ℕ) : List ℤ :=
  if n ≤ 0 ∨ pr.total = 0 then []
  else if pr.total ≤ n then (List.range pr.total.toNat).map fun i : ℕ => pr.portAt i
  else pickLoop pr 0 ∅ draws

-- The numbers that a call draws: one in each turn of the loop, below the bound it asks for.
structure Draws (pr : PortRange) (n : ℤ) (draws : List ℕ) : Prop where
  length : draws.length = if 0 < n ∧ n < pr.total then n.toNat else 0
  bounded : ∀ (i d : ℕ), draws[i]? = some d → (d : ℤ) < pr.total - i

-- The map is read and written as the array would be.
theorem placeValue_insert (swaps : SeqMap ℕ) (i j : ℕ) :
    placeValue ((swaps.insert i (placeValue swaps j)).insert j (placeValue swaps i)) =
      placeValue swaps ∘ Equiv.swap i j := by
  funext k
  rw [Function.comp_apply]
  by_cases hj : k = j
  · subst hj
    rw [Equiv.swap_apply_right]
    nth_rewrite 1 [placeValue]
    rw [Finmap.lookup_insert, Option.getD_some]
  · nth_rewrite 1 [placeValue]
    rw [Finmap.lookup_insert_of_ne _ hj]
    by_cases hi : k = i
    · subst hi
      rw [Equiv.swap_apply_left, Finmap.lookup_insert, Option.getD_some]
    · rw [Equiv.swap_apply_of_ne_of_ne hi hj, Finmap.lookup_insert_of_ne _ hi, placeValue]

section
variable (pr : PortRange)

theorem pickLoop_eq_deal (i : ℕ) (swaps : SeqMap ℕ) (draws : List ℕ) :
    pickLoop pr i swaps draws =
      FisherYates.deal (fun k => pr.portAt (placeValue swaps k)) i draws := by
  induction draws generalizing i swaps with
  | nil => rfl
  | cons d draws ih =>
      rw [pickLoop, FisherYates.deal, ih, placeValue_insert]
      rfl

theorem pickLoop_start (draws : List ℕ) :
    pickLoop pr 0 ∅ draws = FisherYates.deal (fun k : ℕ => pr.portAt k) 0 draws := by
  rw [pickLoop_eq_deal]
  congr 1

-- The ports in order are an array without repetitions.
theorem injOn_portAt : Set.InjOn (fun k : ℕ => pr.portAt k) (Set.Ico 0 pr.total.toNat) := by
  rintro k ⟨-, hk⟩ l ⟨-, hl⟩ heq
  have hnodup : (Intervals.elements pr.intervals).Nodup := pr.separated.pairwise_elements.imp ne_of_lt
  have hkeq := portAt_eq pr (k := k) (by omega)
  have hleq := portAt_eq pr (k := l) (by omega)
  have hlt : k < (Intervals.elements pr.intervals).length := (List.getElem?_eq_some_iff.1 hkeq).1
  refine (List.getElem?_inj hlt hnodup).1 ?_
  rw [hkeq, hleq]
  exact congrArg some heq

theorem mem_image_portAt (p : ℤ) :
    p ∈ (fun k : ℕ => pr.portAt k) '' Set.Ico 0 pr.total.toNat ↔ pr.contains p = true := by
  rw [contains_iff, ← map_portAt, List.mem_map]
  simp

end

theorem Draws.bounded_deal {pr : PortRange} {n : ℤ} {draws : List ℕ} (h : Draws pr n draws) :
    FisherYates.Bounded pr.total.toNat 0 draws := by
  rw [FisherYates.bounded_iff]
  intro k d hk
  have hlt := h.bounded k d hk
  omega

-- A selection has the size asked for, and every other selection of that size is as likely.
theorem pick_ports_from_range (pr : PortRange) (n : ℤ) :
    (∀ draws, Draws pr n draws →
      ((pickPortsFromRange pr n draws).length : ℤ) = max 0 (min n pr.total) ∧
      (pickPortsFromRange pr n draws).Nodup ∧
      ∀ p ∈ pickPortsFromRange pr n draws, pr.contains p = true) ∧
    (0 < n → n < pr.total → ∀ selection : List ℤ, selection.length = n → selection.Nodup →
      (∀ p ∈ selection, pr.contains p = true) →
      ∃! draws, Draws pr n draws ∧ pickPortsFromRange pr n draws = selection) := by
  have hpos := pr.total_pos
  have hinj := injOn_portAt pr
  constructor
  · intro draws hdraws
    unfold pickPortsFromRange
    split_ifs with hnone hall
    · refine ⟨?_, List.nodup_nil, nofun⟩
      rw [List.length_nil]
      omega
    · rw [map_portAt, ← total_eq_length]
      refine ⟨by omega, pr.separated.pairwise_elements.imp ne_of_lt, fun p hp => ?_⟩
      exact (contains_iff pr p).2 hp
    · have hbounded := hdraws.bounded_deal
      have hlength := hdraws.length
      rw [if_pos ⟨by omega, by omega⟩] at hlength
      rw [pickLoop_start, FisherYates.length_deal]
      refine ⟨by omega, FisherYates.nodup_deal hinj hbounded, fun p hp => ?_⟩
      exact (mem_image_portAt pr p).1 (FisherYates.mem_of_mem_deal hinj hbounded hp)
  · intro hn hlt selection hlength hnodup hmem
    have hpick : ∀ draws, pickPortsFromRange pr n draws =
        FisherYates.deal (fun k : ℕ => pr.portAt k) 0 draws := by
      intro draws
      rw [pickPortsFromRange, if_neg (by omega), if_neg (by omega), pickLoop_start]
    obtain ⟨draws, ⟨hbounded, hdeal⟩, hunique⟩ :=
      FisherYates.existsUnique_deal hinj hnodup fun p hp => (mem_image_portAt pr p).2 (hmem p hp)
    have hdraws : Draws pr n draws := by
      refine ⟨?_, fun i d hi => ?_⟩
      · rw [if_pos ⟨hn, hlt⟩, ← FisherYates.length_deal (fun k : ℕ => pr.portAt k) 0, hdeal]
        omega
      · have hlt := FisherYates.bounded_iff.1 hbounded i d hi
        omega
    refine ⟨draws, ⟨hdraws, by rw [hpick, hdeal]⟩, ?_⟩
    rintro others ⟨hothers, hsame⟩
    rw [hpick] at hsame
    exact hunique others ⟨hothers.bounded_deal, hsame⟩

theorem two_of_four_ports :
    ∃ pr, newPortRange [5, 6, 7, 9] = .ok pr ∧
      ∃! draws, Draws pr 2 draws ∧ pickPortsFromRange pr 2 draws = [9, 5] := by
  obtain ⟨pr, hnew, hintervals⟩ := @exists_newPortRange [5, 6, 7, 9] (by decide) (by decide)
  have htotal : pr.total = 4 := by
    rw [pr.total_eq, hintervals]
    decide
  have hcontains : ∀ p ∈ [9, 5], pr.contains p = true := by
    unfold PortRange.contains
    rw [hintervals]
    decide
  exact ⟨pr, hnew, (pick_ports_from_range pr 2).2 (by decide) (by omega) [9, 5] rfl (by decide) hcontains⟩

end UdpCustom.Ports
