import UdpCustom.Probe
import Mathlib.Order.Bounds.Basic

-- The rungs of the ladder, the walk down it, and what one tick does to a session.
namespace UdpCustom.Probe

open UdpCustom.Frame UdpCustom.Mtu UdpCustom.Outgoing Transition

section Ladder

variable (cfg : Config)

theorem floor_le_maxPkt : cfg.floor ≤ cfg.maxPkt.size := by
  unfold Config.floor mtuInitialCap
  dsimp only
  split <;> omega

theorem floor_pos : 0 < cfg.floor := by
  have hlow := (mtuInitialCap cfg.maxPkt).floor_le
  have hmin : 0 < maxPktFloor := by decide
  exact lt_of_lt_of_le hmin hlow

theorem ladder_descends : cfg.ladder.Pairwise (· > ·) := by
  unfold Config.ladder mtuLadderFor
  refine List.pairwise_cons.2 ⟨fun v hv => ?_, List.Pairwise.filter _ (by decide)⟩
  exact of_decide_eq_true (List.mem_filter.1 hv).2

theorem floor_mem_ladder : cfg.floor ∈ cfg.ladder := by
  unfold Config.ladder mtuLadderFor
  by_cases hsmall : cfg.maxPkt.size ≤ mtuProbeFloor
  · have hfloor : cfg.floor = cfg.maxPkt.size := if_pos hsmall
    rw [hfloor]
    exact List.mem_cons_self
  · have hfloor : cfg.floor = mtuProbeFloor := if_neg hsmall
    rw [hfloor]
    refine List.mem_cons_of_mem _ (List.mem_filter.2 ⟨by decide, ?_⟩)
    exact decide_eq_true (not_le.1 hsmall)

variable {cfg}

theorem ladder_bounds {v : ℤ} (h : v ∈ cfg.ladder) : cfg.floor ≤ v ∧ v ≤ cfg.maxPkt.size := by
  rcases List.mem_cons.1 h with rfl | hrung
  · exact ⟨floor_le_maxPkt cfg, le_refl _⟩
  · obtain ⟨hmem, hbelow⟩ := List.mem_filter.1 hrung
    have hbelow := of_decide_eq_true hbelow
    have hlow : ∀ v ∈ mtuProbeLadder, mtuProbeFloor ≤ v := by decide
    have hv := hlow v hmem
    have hfloor : cfg.floor = mtuProbeFloor := if_neg (by omega)
    omega

-- The first rung below a size is the largest one below it.
theorem largestRungBelow_spec {cur : ℤ} (hcur : cfg.floor < cur) :
    IsGreatest {v | v ∈ cfg.ladder ∧ v < cur} (largestRungBelow cfg.ladder cur) := by
  unfold largestRungBelow
  cases hfind : cfg.ladder.find? (· < cur) with
  | none =>
      have hnone := List.find?_eq_none.1 hfind cfg.floor (floor_mem_ladder cfg)
      exact absurd (decide_eq_true hcur) hnone
  | some below =>
      rw [Option.getD_some]
      obtain ⟨hbelow, before, after, hladder, hbefore⟩ := List.find?_eq_some_iff_append.1 hfind
      refine ⟨⟨List.mem_of_find?_eq_some hfind, of_decide_eq_true hbelow⟩, ?_⟩
      rintro v ⟨hv, hlt⟩
      have hdesc := ladder_descends cfg
      rw [hladder] at hv hdesc
      rcases List.mem_append.1 hv with hlarge | hsmall
      · have hge := hbefore v hlarge
        rw [decide_eq_true hlt] at hge
        cases hge
      · rcases List.mem_cons.1 hsmall with rfl | hafter
        · exact le_refl _
        · have htail := (List.pairwise_append.1 hdesc).2.1
          exact le_of_lt ((List.pairwise_cons.1 htail).1 v hafter)

theorem nextRungAbove_spec (cur : ℤ) (rungs : List ℤ) (prev : ℤ) :
    nextRungAbove cur prev rungs = prev ∨
      nextRungAbove cur prev rungs ∈ rungs ∧ cur < nextRungAbove cur prev rungs := by
  induction rungs generalizing prev with
  | nil => exact .inl rfl
  | cons v rest ih =>
      unfold nextRungAbove
      split
      · exact .inl rfl
      · rename_i habove
        rcases ih v with he | ⟨hmem, hlt⟩
        · rw [he]
          exact .inr ⟨List.mem_cons_self, not_le.1 habove⟩
        · exact .inr ⟨List.mem_cons_of_mem _ hmem, hlt⟩

theorem nextLadderRungAbove_spec {cur : ℤ} (hpos : ¬nextLadderRungAbove cfg.ladder cur ≤ 0) :
    nextLadderRungAbove cfg.ladder cur ∈ cfg.ladder ∧ cur < nextLadderRungAbove cfg.ladder cur := by
  rcases nextRungAbove_spec cur cfg.ladder 0 with hzero | habove
  · exact absurd (le_of_eq hzero) hpos
  · exact habove

theorem probeLadder_spec {attempts : ℕ} {closed : ℤ → Bool} {echo : ℤ → ℕ → Bool} (rungs : List ℤ) :
    probeLadder attempts closed echo rungs = 0 ∨
      probeLadder attempts closed echo rungs ∈ rungs := by
  induction rungs with
  | nil => exact .inl rfl
  | cons size rest ih =>
      unfold probeLadder
      split
      · exact .inl rfl
      · split
        · exact .inr List.mem_cons_self
        · exact ih.imp id (List.mem_cons_of_mem _)

end Ladder

section WalkDown

variable {cfg : Config} {echo : ℤ → Bool}

-- The rungs above the floor and below a size, as far as their probes come back.
def Config.carried (cfg : Config) (echo : ℤ → Bool) (cur : ℤ) : Set ℤ :=
  {v | v ∈ cfg.ladder ∧ cfg.floor < v ∧ v < cur ∧ probeOnce v (echo v) = true}

-- With more fuel than rungs below the size, the walk stops at the largest rung that is
-- carried, or at the floor if none is.
theorem walkDown_spec {fuel : ℕ} {cur : ℤ} (hcur : cfg.floor < cur)
    (hfuel : (cfg.ladder.filter (· < cur)).length < fuel) :
    ∃ target, (walkDown cfg.ladder cfg.floor echo fuel (largestRungBelow cfg.ladder cur) =
          some (target, true) ∧ IsGreatest (cfg.carried echo cur) target) ∨
      (walkDown cfg.ladder cfg.floor echo fuel (largestRungBelow cfg.ladder cur) =
          some (target, false) ∧ target = cfg.floor ∧ cfg.carried echo cur = ∅) := by
  induction fuel generalizing cur with
  | zero => exact absurd hfuel (Nat.not_lt_zero _)
  | succ fuel ih =>
      obtain ⟨⟨hmem, hlt⟩, hmax⟩ := largestRungBelow_spec hcur
      generalize hbelow : largestRungBelow cfg.ladder cur = below at hmem hlt hmax ⊢
      unfold walkDown
      by_cases habove : cfg.floor < below
      · rw [if_pos ⟨(floor_pos cfg).trans habove, habove⟩]
        cases hprobe : probeOnce below (echo below) with
        | true =>
            refine ⟨below, .inl ⟨rfl, ⟨hmem, habove, hlt, hprobe⟩, ?_⟩⟩
            exact fun v hv => hmax ⟨hv.1, hv.2.2.1⟩
        | false =>
            have hshorter : (cfg.ladder.filter (· < below)).length < fuel := by
              have hsub : cfg.ladder.filter (· < below) =
                  (cfg.ladder.filter (· < cur)).filter (· < below) := by
                rw [List.filter_filter]
                refine List.filter_congr fun v _ => ?_
                by_cases hv : v < below
                · rw [decide_eq_true hv, decide_eq_true (hv.trans hlt)]
                  rfl
                · rw [decide_eq_false hv]
                  rfl
              have hfewer : ((cfg.ladder.filter (· < cur)).filter (· < below)).length <
                  (cfg.ladder.filter (· < cur)).length :=
                List.length_filter_lt_length_iff_exists.2
                  ⟨below, List.mem_filter.2 ⟨hmem, decide_eq_true hlt⟩, by simp⟩
              rw [hsub]
              omega
            have hsame : cfg.carried echo cur = cfg.carried echo below := by
              ext v
              constructor
              · rintro ⟨hv, hlow, hv', hback⟩
                refine ⟨hv, hlow, lt_of_le_of_ne (hmax ⟨hv, hv'⟩) ?_, hback⟩
                rintro rfl
                rw [hprobe] at hback
                cases hback
              · rintro ⟨hv, hlow, hv', hback⟩
                exact ⟨hv, hlow, hv'.trans hlt, hback⟩
            rw [hsame]
            exact ih habove hshorter
      · rw [if_neg fun h => habove h.2]
        have hfloor : below = cfg.floor := le_antisymm (not_lt.1 habove) (ladder_bounds hmem).1
        refine ⟨below, .inr ⟨rfl, hfloor, ?_⟩⟩
        refine Set.eq_empty_of_forall_notMem fun v hv => ?_
        exact absurd (hmax ⟨hv.1, hv.2.2.1⟩) (not_le.2 (hfloor ▸ hv.2.1))

theorem walkDown_of_le {ladder : List ℤ} {floor below : ℤ} {fuel more : ℕ} {r : ℤ × Bool}
    (h : walkDown ladder floor echo fuel below = some r) (hle : fuel ≤ more) :
    walkDown ladder floor echo more below = some r := by
  induction fuel generalizing below more with
  | zero => cases h
  | succ fuel ih =>
      cases more with
      | zero => exact absurd hle (Nat.not_succ_le_zero _)
      | succ more =>
          unfold walkDown at h ⊢
          split
          · rename_i habove
            rw [if_pos habove] at h
            split
            · rename_i hback
              rw [if_pos hback] at h
              exact h
            · rename_i hback
              rw [if_neg hback] at h
              exact ih h (Nat.le_of_succ_le_succ hle)
          · rename_i hstop
            rw [if_neg hstop] at h
            exact h

end WalkDown

section Session

variable {cfg : Config} {s s' : Session}

theorem sendMtuCommit_eq {n : ℤ} (h : n ∈ cfg.ladder) (ok : Bool) :
    ∃ k, sendMtuCommit n ok = List.replicate (k + 1) n := by
  obtain ⟨hlow, hhigh⟩ := ladder_bounds h
  have hpos := floor_pos cfg
  have hceiling := cfg.maxPkt.le_ceiling
  unfold sendMtuCommit
  rw [if_neg (by omega)]
  cases ok with
  | true => exact ⟨1, rfl⟩
  | false => exact ⟨0, rfl⟩

theorem tryRaiseOneRung_spec (cfg : Config) (s : Session) (echo : ℤ → Bool) (ok : Bool) :
    s.tryRaiseOneRung cfg s.sendCap echo ok = s ∨
      ∃ n, n ∈ cfg.ladder ∧ s.tryRaiseOneRung cfg s.sendCap echo ok =
        { s with sendCap := n, answered := s.answered ++ [n], commits := s.commits ++ sendMtuCommit n ok } := by
  unfold Session.tryRaiseOneRung
  dsimp only
  split
  · exact .inl rfl
  · rename_i hrange
    obtain ⟨hpos, -⟩ := not_or.1 hrange
    obtain ⟨hmem, habove⟩ := nextLadderRungAbove_spec hpos
    split
    · exact .inl rfl
    · refine .inr ⟨_, hmem, ?_⟩
      unfold Session.raiseSendCap Session.hears Session.commit
      rw [if_neg (not_le.2 habove)]

-- What a tick can do to a session.
inductive Ticked (cfg : Config) (ok : Bool) (s : Session) : Session → Prop
  | keep (heard : List ℤ) : Ticked cfg ok s { s with answered := s.answered ++ heard }
  | change (n : ℤ) (heard : List ℤ) : n ∈ cfg.ladder → n = cfg.floor ∨ n ∈ heard →
      Ticked cfg ok s { s with
        sendCap := n
        answered := s.answered ++ heard
        commits := s.commits ++ sendMtuCommit n ok }

theorem ticked_same (ok : Bool) : Ticked cfg ok s s := by
  have hkeep : Ticked cfg ok s { s with answered := s.answered ++ [] } := .keep []
  rw [List.append_nil] at hkeep
  exact hkeep

theorem ticked_lower {target : ℤ} (hmem : target ∈ cfg.ladder) (hlt : target < s.sendCap)
    (heard : List ℤ) (hheard : target = cfg.floor ∨ target ∈ heard) (ok : Bool) :
    Ticked cfg ok s (({ s with answered := s.answered ++ heard } : Session).lowerSendCap target
      |>.commit target ok) := by
  unfold Session.lowerSendCap Session.commit
  rw [if_neg (not_le.2 hlt)]
  exact .change target heard hmem hheard

-- A tick that finds its size no longer carried: what it drops to.
theorem tick_lowers {fuel : ℕ} (hfuel : cfg.ladder.length < fuel) (hcap : cfg.floor < s.sendCap)
    (echo : ℤ → Bool) (ok : Bool) (hlost : probeOnce s.sendCap (echo s.sendCap) = false) :
    ∃ s', s.reprobeIdleTick cfg fuel true echo ok = some s' ∧ Ticked cfg ok s s' ∧
      (IsGreatest (cfg.carried echo s.sendCap) s'.sendCap ∨
        s'.sendCap = cfg.floor ∧ cfg.carried echo s.sendCap = ∅) := by
  have henough : (cfg.ladder.filter (· < s.sendCap)).length < fuel :=
    Nat.lt_of_le_of_lt (List.length_filter_le _ _) hfuel
  unfold Session.reprobeIdleTick
  rw [if_neg (by decide), if_pos hcap, hlost]
  obtain ⟨target, ⟨hwalk, hgreatest⟩ | ⟨hwalk, hfloor, hnone⟩⟩ := walkDown_spec hcap henough
  · obtain ⟨hmem, habove, hlt, -⟩ := hgreatest.1
    have htarget : ¬target ≤ 0 := not_le.2 ((floor_pos cfg).trans habove)
    have hlower := ticked_lower hmem hlt [target] (.inr List.mem_cons_self) ok
    refine ⟨_, ?_, hlower, .inl ?_⟩
    · rw [if_neg Bool.false_ne_true, hwalk]
      dsimp only
      rw [if_neg htarget, if_pos rfl]
      exact if_pos hlt
    · unfold Session.lowerSendCap Session.commit
      rw [if_neg (not_le.2 hlt)]
      exact hgreatest
  · subst hfloor
    have hlower := ticked_lower (floor_mem_ladder cfg) hcap [] (.inl rfl) ok
    rw [List.append_nil] at hlower
    refine ⟨_, ?_, hlower, .inr ⟨?_, hnone⟩⟩
    · rw [if_neg Bool.false_ne_true, hwalk]
      dsimp only
      rw [if_neg (not_le.2 (floor_pos cfg)), if_neg Bool.false_ne_true]
      exact if_pos hcap
    · unfold Session.lowerSendCap Session.commit
      rw [if_neg (not_le.2 hcap)]

theorem reprobeIdleTick_of_le {fuel more : ℕ} {quiet : Bool} {echo : ℤ → Bool} {ok : Bool}
    (h : s.reprobeIdleTick cfg fuel quiet echo ok = some s') (hle : fuel ≤ more) :
    s.reprobeIdleTick cfg more quiet echo ok = some s' := by
  unfold Session.reprobeIdleTick at h ⊢
  split
  · rename_i hquiet
    rw [if_pos hquiet] at h
    exact h
  · rename_i hquiet
    rw [if_neg hquiet] at h
    split
    · rename_i hcap
      rw [if_pos hcap] at h
      split
      · rename_i hprobe
        rw [if_pos hprobe] at h
        exact h
      · rename_i hprobe
        rw [if_neg hprobe] at h
        cases hwalk : walkDown cfg.ladder cfg.floor echo fuel
            (largestRungBelow cfg.ladder s.sendCap) with
        | none =>
            rw [hwalk] at h
            cases h
        | some r =>
            rw [hwalk] at h
            rw [walkDown_of_le hwalk hle]
            exact h
    · rename_i hcap
      rw [if_neg hcap] at h
      exact h

-- Every tick ends, whatever is lost.
theorem exists_ticked {fuel : ℕ} (hfuel : cfg.ladder.length < fuel) (s : Session) (quiet : Bool)
    (echo : ℤ → Bool) (ok : Bool) :
    ∃ s', s.reprobeIdleTick cfg fuel quiet echo ok = some s' ∧ Ticked cfg ok s s' := by
  cases quiet with
  | false => exact ⟨s, rfl, ticked_same ok⟩
  | true =>
      by_cases hcap : cfg.floor < s.sendCap
      · cases hprobe : probeOnce s.sendCap (echo s.sendCap) with
        | true =>
            have htick : s.reprobeIdleTick cfg fuel true echo ok =
                some ((s.hears s.sendCap).tryRaiseOneRung cfg s.sendCap echo ok) := by
              unfold Session.reprobeIdleTick
              rw [if_neg (by decide), if_pos hcap, if_pos hprobe]
            refine ⟨_, htick, ?_⟩
            rcases tryRaiseOneRung_spec cfg (s.hears s.sendCap) echo ok with he | ⟨n, hn, he⟩
            · rw [show (s.hears s.sendCap).sendCap = s.sendCap from rfl] at he
              rw [he]
              exact .keep _
            · rw [show (s.hears s.sendCap).sendCap = s.sendCap from rfl] at he
              rw [he]
              have hchange : Ticked cfg ok s { s with
                  sendCap := n
                  answered := s.answered ++ ([s.sendCap] ++ [n])
                  commits := s.commits ++ sendMtuCommit n ok } :=
                .change n _ hn (.inr (List.mem_append_right _ List.mem_cons_self))
              rw [← List.append_assoc] at hchange
              exact hchange
        | false =>
            obtain ⟨s', hs', hticked, -⟩ := tick_lowers hfuel hcap echo ok hprobe
            exact ⟨s', hs', hticked⟩
      · have htick : s.reprobeIdleTick cfg fuel true echo ok =
            some (s.tryRaiseOneRung cfg s.sendCap echo ok) := by
          unfold Session.reprobeIdleTick
          rw [if_neg (by decide), if_neg hcap]
        refine ⟨_, htick, ?_⟩
        rcases tryRaiseOneRung_spec cfg s echo ok with he | ⟨n, hn, he⟩
        · rw [he]
          exact ticked_same ok
        · rw [he]
          exact .change n [n] hn (.inr List.mem_cons_self)

end Session

end UdpCustom.Probe
