import UdpCustom.PortRange.Selector
import UdpCustom.PortRange.Theorems
import UdpCustom.Lib.Rounds
import UdpCustom.Lib.Threads

-- Every port of the range is drawn once in each round of the bag, however the calls mix.
namespace UdpCustom.Ports.Selector

open Transition Chunks Rounds

theorem perm_shuffle (swaps : List (ℕ × ℕ)) (bag : Array UInt16) :
    (shuffle swaps bag).toList.Perm bag.toList := by
  unfold shuffle
  induction swaps generalizing bag with
  | nil => exact List.Perm.refl _
  | cons ij rest ih =>
      refine (ih _).trans ?_
      dsimp only
      rw [Array.swapIfInBounds_def]
      split_ifs with hi hj
      · exact (Array.swap_perm hi hj).toList
      · exact List.Perm.refl _
      · exact List.Perm.refl _

-- The ports in a bag.
def bagPorts (bag : Array UInt16) : List ℤ :=
  bag.toList.map fun p => (p.toNat : ℤ)

theorem bagPorts_fillBag (pr : PortRange) (swaps : List (ℕ × ℕ)) :
    (bagPorts (fillBag pr swaps)).Perm (Intervals.elements pr.intervals) := by
  refine ((perm_shuffle swaps _).map _).trans (List.Perm.of_eq ?_)
  rw [List.toList_toArray, List.map_map]
  refine (List.map_congr_left fun p hp => ?_).trans (List.map_id _)
  obtain ⟨hlow, hhigh⟩ := pr.ports p hp
  rw [Function.comp_apply, UInt16.toNat_ofNat', Nat.mod_eq_of_lt (by omega)]
  exact Int.toNat_of_nonneg (by omega)

-- A selector with a bag: what is left in it completes the round.
structure Dealing (pr : PortRange) (s : PortSelector) : Prop where
  range : s.pr = some pr
  mode : s.mode = .random
  bag : ∃ bag, s.bag = some bag ∧ (bagPorts bag).Perm (Intervals.elements pr.intervals) ∧
    Dealt (Intervals.elements pr.intervals) s.drawn ((bagPorts bag).drop s.bagPos)

section
variable {pr : PortRange} {s : PortSelector}

theorem dealing_newPortSelector (hsmall : pr.total ≤ shuffleBagMaxPorts) (swaps : List (ℕ × ℕ)) :
    Dealing pr (newPortSelector (some pr) .random swaps) := by
  have hfill := bagPorts_fillBag pr swaps
  exact ⟨rfl, rfl, fillBag pr swaps, if_pos ⟨rfl, pr.total_pos, hsmall⟩, hfill, Dealt.start hfill⟩

-- Where the bag is used up the next round begins.
theorem dealt_reshuffle {bag : Array UInt16} (swaps : List (ℕ × ℕ))
    (hbag : (bagPorts bag).Perm (Intervals.elements pr.intervals))
    (h : Dealt (Intervals.elements pr.intervals) s.drawn ((bagPorts bag).drop s.bagPos)) :
    (bagPorts (s.reshuffle bag swaps).1).Perm (Intervals.elements pr.intervals) ∧
      (s.reshuffle bag swaps).2 < (s.reshuffle bag swaps).1.size ∧
      Dealt (Intervals.elements pr.intervals) s.drawn
        ((bagPorts (s.reshuffle bag swaps).1).drop (s.reshuffle bag swaps).2) := by
  have hlength : ∀ bag' : Array UInt16, (bagPorts bag').length = bag'.size := fun bag' => by
    simp [bagPorts]
  unfold PortSelector.reshuffle
  split_ifs with hend
  · have hnew : (bagPorts (shuffle swaps bag)).Perm (Intervals.elements pr.intervals) :=
      ((perm_shuffle swaps bag).map _).trans hbag
    rw [List.drop_eq_nil_of_le (by rw [hlength]; exact hend)] at h
    refine ⟨hnew, ?_, h.refill hnew⟩
    rw [← hlength, hnew.length_eq]
    exact List.length_pos_of_ne_nil (elements_ne_nil pr)
  · exact ⟨hbag, not_le.1 hend, h⟩

-- A draw takes the next port of the round.
theorem Dealing.nextUniform (h : Dealing pr s) (r : Rand) :
    Dealing pr (s.nextUniform r).2 ∧ (s.nextUniform r).1 ∈ Intervals.elements pr.intervals := by
  obtain ⟨bag, hbag, hperm, hdealt⟩ := h.bag
  obtain ⟨hperm', hpos, hdealt'⟩ := dealt_reshuffle r.swaps hperm hdealt
  unfold PortSelector.nextUniform
  rw [hbag]
  dsimp only
  generalize s.reshuffle bag r.swaps = drawFrom at hperm' hpos hdealt' ⊢
  obtain ⟨bag', pos⟩ := drawFrom
  dsimp only at hperm' hpos hdealt' ⊢
  have hlt : pos < (bagPorts bag').length := by simpa [bagPorts] using hpos
  have hport : (bagPorts bag')[pos] = ((bag'.getD pos 0).toNat : ℤ) := by
    simp [bagPorts, Array.getD, hpos]
  rw [← List.getElem_cons_drop hlt, hport] at hdealt'
  refine ⟨⟨h.range, h.mode, bag', rfl, hperm', hdealt'.draw⟩, ?_⟩
  exact hdealt'.draw.mem (List.mem_append_right _ (List.mem_singleton.2 rfl))

theorem Dealing.next (h : Dealing pr s) (r : Rand) :
    Dealing pr (s.next r).2 ∧ (s.next r).1 ∈ Intervals.elements pr.intervals := by
  unfold PortSelector.next
  rw [h.range]
  dsimp only
  rw [if_neg pr.total_pos.ne', h.mode]
  exact h.nextUniform r

end

section
variable {W : Type}

-- The port a call has in hand.
def Call.port? : Call W → Option ℤ
  | .testing _ port _ => some port
  | .drawing _ => none
  | .returned port => some port

structure Sound (pr : PortRange) (s : State W) : Prop where
  dealing : Dealing pr s.selector
  calls : ∀ call ∈ s.calls, ∀ port ∈ call.port?, port ∈ Intervals.elements pr.intervals

variable {pr : PortRange} {s s' : State W}

theorem Sound.push (h : Sound pr s) {selector : PortSelector} (hselector : Dealing pr selector)
    {call : Call W} (hcall : ∀ port ∈ call.port?, port ∈ Intervals.elements pr.intervals) :
    Sound pr ⟨selector, s.calls ++ [call]⟩ := by
  refine ⟨hselector, fun call' hmem => ?_⟩
  rcases List.mem_append.1 hmem with hold | hnew
  · exact h.calls call' hold
  · rwa [List.mem_singleton.1 hnew]

theorem Sound.set (h : Sound pr s) {selector : PortSelector} (hselector : Dealing pr selector) (c : ℕ)
    {call : Call W} (hcall : ∀ port ∈ call.port?, port ∈ Intervals.elements pr.intervals) :
    Sound pr ⟨selector, s.calls.set c call⟩ := by
  refine ⟨hselector, fun call' hmem => ?_⟩
  rcases List.mem_or_eq_of_mem_set hmem with hold | rfl
  · exact h.calls call' hold
  · exact hcall

variable [One W] [LE W] [DecidableLE W]

theorem Sound.nextWeighted (h : Sound pr s) (r : Rand) (w : W) : Sound pr (s.nextWeighted r w) := by
  obtain ⟨hdealing, hport⟩ := h.dealing.nextUniform r
  unfold State.nextWeighted
  rw [h.dealing.range]
  dsimp only
  rw [if_neg pr.total_pos.ne']
  refine h.push hdealing fun port hmem => ?_
  split at hmem <;> exact Option.some.inj hmem ▸ hport

variable [LT W] [DecidableLT W]

theorem Sound.step (h : Sound pr s) {l : Label W} (hst : next s l = some s') : Sound pr s' := by
  cases l with
  | next r =>
      obtain ⟨hdealing, hport⟩ := h.dealing.next r
      obtain rfl := Option.some.inj hst
      exact h.push hdealing fun port hmem => Option.some.inj hmem ▸ hport
  | nextWeighted r w =>
      obtain rfl := Option.some.inj hst
      exact h.nextWeighted r w
  | test c u =>
      simp only [next] at hst
      split at hst
      · rename_i i port w hc
        obtain rfl := Option.some.inj hst
        refine h.set h.dealing c fun port' hmem => ?_
        split at hmem
        · exact h.calls _ (List.mem_of_getElem? hc) port' hmem
        · cases hmem
      · cases hst
  | draw c r w =>
      obtain ⟨hdealing, hport⟩ := h.dealing.nextUniform r
      simp only [next] at hst
      split at hst
      · obtain rfl := Option.some.inj hst
        refine h.set hdealing c fun port hmem => ?_
        split at hmem <;> exact Option.some.inj hmem ▸ hport
      · cases hst

theorem sound_of_reachable (hsmall : pr.total ≤ shuffleBagMaxPorts)
    (h : Reachable (system (some pr) .random) s) : Sound pr s := by
  refine ReachableBy.invariant (I := Sound pr) ?_ (fun _ _ _ hs _ hst => hs.step hst) h
  rintro _ ⟨swaps, rfl⟩
  exact ⟨dealing_newPortSelector hsmall swaps, nofun⟩

theorem shuffle_bag_fair (hsmall : pr.total ≤ shuffleBagMaxPorts)
    (h : Reachable (system (some pr) .random) s) :
    (∀ k : ℕ, pr.total * (k + 1) ≤ s.selector.drawn.length →
      (chunk pr.total.toNat s.selector.drawn k).Perm (Intervals.elements pr.intervals)) ∧
    (∀ k, ∃ rest, (chunk pr.total.toNat s.selector.drawn k ++ rest).Perm (Intervals.elements pr.intervals)) ∧
    (∀ (i j : ℕ) port, s.selector.drawn[i]? = some port → s.selector.drawn[j]? = some port →
      (∀ m : ℕ, i < m → m < j → s.selector.drawn[m]? ≠ some port) →
      ((j - i - 1 : ℕ) : ℤ) ≤ 2 * (pr.total - 1)) ∧
    ∀ port, .returned port ∈ s.calls → pr.contains port = true := by
  have hsound := sound_of_reachable hsmall h
  obtain ⟨bag, -, -, hdealt⟩ := hsound.dealing.bag
  have htotal := total_eq_length pr
  have hdeck : pr.total.toNat = (Intervals.elements pr.intervals).length := by omega
  rw [hdeck]
  refine ⟨fun k hk => hdealt.perm ?_, hdealt.perm_append, fun i j port hi hj hnone => ?_, fun port hmem => ?_⟩
  · rw [htotal] at hk
    exact_mod_cast hk
  · have hmem := hdealt.mem (List.mem_of_getElem? hi)
    have hle := (List.getElem?_eq_some_iff.1 hj).1.le
    have hgap := hdealt.gap hmem hle hnone
    have hpos := pr.total_pos
    omega
  · exact (contains_iff pr port).2 (hsound.calls _ hmem port rfl)

end

def threePorts : PortRange where
  intervals := [⟨5, 6⟩, ⟨9, 9⟩]
  total := 3
  separated := ⟨by decide, by decide⟩
  ports := by decide
  total_eq := rfl
  total_pos := by decide

-- A call of Next between the draws of a weighted one, and a new round inside that.
theorem three_ports_in_rounds :
    ∃ s : State ℕ, Reachable (system (some threePorts) .random) s ∧
      s.selector.drawn = [9, 6, 5, 6] ∧ s.calls = [.returned 6, .returned 5] ∧
      (chunk 3 s.selector.drawn 0).Perm (Intervals.elements threePorts.intervals) ∧
      threePorts.contains 6 = true := by
  obtain ⟨s, hs, hdrawn, hcalls⟩ := System.exists_run (system (some threePorts) .random)
    (P := fun s : State ℕ => s.selector.drawn = [9, 6, 5, 6] ∧ s.calls = [.returned 6, .returned 5])
    ⟨[(2, 0), (1, 1)], rfl⟩
    [.nextWeighted ⟨[], 0⟩ 0, .test 0 0, .draw 0 ⟨[], 0⟩ 0, .next ⟨[], 0⟩, .test 0 0,
      .draw 0 ⟨[(2, 0), (1, 0)], 0⟩ 1, .test 0 0] (by decide +kernel)
  have hfair := shuffle_bag_fair (by decide) hs
  refine ⟨s, hs, hdrawn, hcalls, hfair.1 0 ?_, hfair.2.2.2 6 ?_⟩
  · rw [hdrawn]
    decide
  · rw [hcalls]
    decide

end UdpCustom.Ports.Selector
