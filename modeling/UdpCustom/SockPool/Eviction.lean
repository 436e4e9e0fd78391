import UdpCustom.SockPool.Accounting

-- Which socket an eviction closes.
namespace UdpCustom.SockPool

open Transition

-- The victim of an eviction is unpinned when it is closed, and when it is removed it
-- is the oldest of the unpinned entries.
def Place.EvictsRightly (s : State) : Place → Prop
  | .take _ port victim =>
      s.conns.lookup port = some victim → s.refs victim = 0 ∧
        ∀ k ∈ s.conns.keys, ∀ pc ∈ s.conns.lookup k, s.refs pc = 0 → s.lastUse victim ≤ s.lastUse pc
  | .closeVictim _ victim => ¬0 < s.refs victim
  | _ => True

instance (s : State) (pl : Place) : Decidable (pl.EvictsRightly s) := by
  apply Place.casesOn (motive := fun pl => Decidable (pl.EvictsRightly s)) pl <;> intros <;>
    unfold Place.EvictsRightly <;> infer_instance

-- From the first candidate looked at to the Close of the victim.
def Place.inWindow : Place → Bool
  | .scan _ _ _ | .visit _ _ _ _ _ | .sort _ _ _ | .check _ _ _ | .take _ _ _ => true
  | .uncountVictim _ _ | .closeVictim _ _ => true
  | _ => false

-- What other goroutines do to the sockets an eviction looks at.
inductive Interference
  | pin
  | unpin
  | stamp
  | publish
  deriving DecidableEq

def Place.interference : Place → Option Interference
  | .pin _ _ | .pinNew _ _ => some .pin
  | .unpin _ _ | .unpinNew _ _ => some .unpin
  | .touch _ _ | .retouch _ _ | .touchVictim _ _ _ => some .stamp
  | .publish _ _ _ => some .publish
  | _ => none

-- Runs in which only some of that happens during an eviction.
def Admits (allowed : Interference → Bool) (s : State) : Label → Prop
  | .run i _ => ∀ pl ∈ s.calls[i]?, ∀ k ∈ pl.interference,
      (∃ q ∈ s.calls, q.inWindow = true) → allowed k = true
  | .call _ => True

instance (allowed : Interference → Bool) (s : State) : (l : Label) → Decidable (Admits allowed s l)
  | .run i _ => inferInstanceAs (Decidable (∀ pl ∈ s.calls[i]?, ∀ k ∈ pl.interference,
      (∃ q ∈ s.calls, q.inWindow = true) → allowed k = true))
  | .call _ => inferInstanceAs (Decidable True)

-- Every unpinned entry is still to be met, or among the candidates.
def Collecting (s : State) (due : Finset ℕ) (cands : List (ℕ × PooledConn)) : Prop :=
  (∀ c ∈ cands, s.refs c.2 = 0) ∧
    ∀ k pc, s.conns.lookup k = some pc → s.refs pc = 0 → k ∈ due ∨ (k, pc) ∈ cands

def Oldest (s : State) (victim : PooledConn) : Prop :=
  ∀ k pc, s.conns.lookup k = some pc → s.refs pc = 0 → s.lastUse victim ≤ s.lastUse pc

-- What an eviction that nobody interferes with knows at each place.
def Place.Chosen (s : State) : Place → Prop
  | .scan _ w cands => Collecting s w.due cands
  | .visit _ w cands port pc =>
      (∀ c ∈ cands, s.refs c.2 = 0) ∧
        ∀ k pc', s.conns.lookup k = some pc' → s.refs pc' = 0 →
          k ∈ w.due ∨ (k, pc') ∈ cands ∨ (k, pc') = (port, pc)
  | .sort _ cands stamps => Collecting s ∅ cands ∧ cands.map (fun c => s.lastUse c.2) = stamps
  | .check _ _ victim | .take _ _ victim => s.refs victim = 0 ∧ Oldest s victim
  | .uncountVictim _ victim | .closeVictim _ victim => s.refs victim = 0
  | _ => True

theorem Place.Free.inWindow {pl : Place} (h : pl.Free) : pl.inWindow = false := by
  cases h <;> rfl

@[simp] theorem inWindow_onWalk (f : Walk → Walk) (pl : Place) : (pl.onWalk f).inWindow = pl.inWindow := by
  cases pl <;> rfl

theorem chosen_of_not_inWindow {pl : Place} (h : pl.inWindow = false) (s : State) : pl.Chosen s := by
  cases pl <;> trivial

-- Effects that change neither a count nor a stamp and publish nothing.
def Effect.Calm : Effect → Prop
  | .use _ _ | .ref _ _ | .put _ _ => False
  | _ => True

section
variable {limit : ℤ} {s s' : State} {i : ℕ} {l : Label} {pl pl' : Place} {eff : Effect}

theorem Act.calm (h : Act limit s pl eff pl') (hnone : pl.interference = none) : eff.Calm := by
  cases h <;> trivial

theorem Act.inWindow (h : Act limit s pl eff pl') (hin : pl'.inWindow = true) :
    pl.interference = none := by
  cases h <;> first
    | rfl
    | cases hin
    | (rw [Place.Free.inWindow (by simp)] at hin; cases hin)

theorem Act.chosen (h : Act limit s pl eff pl') (hwalk : ∀ w ∈ pl.walk, w.Agrees s.conns)
    (hc : pl.Chosen s) : pl'.Chosen s := by
  cases h
  case evict | loop =>
    refine ⟨nofun, fun k pc hk _ => .inl ?_⟩
    exact Finmap.mem_keys.2 (Finmap.mem_of_lookup_eq_some hk)
  case meet w cands port pc hseen =>
    refine ⟨hc.1, fun k pc' hk hrefs => ?_⟩
    rcases hc.2 k pc' hk hrefs with hdue | hcand
    · by_cases hport : k = port
      · subst hport
        have hentry := (hwalk w rfl k hdue).2 pc hseen
        rw [hk] at hentry
        cases hentry
        exact .inr (.inr rfl)
      · exact .inl (Finset.mem_erase.2 ⟨hport, hdue⟩)
    · exact .inr (.inl hcand)
  case collect hrefs =>
    refine ⟨fun c hmem => ?_, fun k pc' hk hpc' => ?_⟩
    · rcases List.mem_append.1 hmem with hold | hnew
      · exact hc.1 c hold
      · rw [List.mem_singleton.1 hnew]
        exact hrefs
    · rcases hc.2 k pc' hk hpc' with hdue | hcand | heq
      · exact .inl hdue
      · exact .inr (List.mem_append_left _ hcand)
      · exact .inr (List.mem_append_right _ (List.mem_singleton.2 heq))
  case pass hrefs =>
    refine ⟨hc.1, fun k pc' hk hpc' => ?_⟩
    rcases hc.2 k pc' hk hpc' with hdue | hcand | heq
    · exact .inl hdue
    · exact .inr hcand
    · cases heq
      exact absurd hpc' hrefs
  case scanned w cands hdue =>
    refine ⟨⟨hc.1, fun k pc hk hrefs => ?_⟩, rfl⟩
    exact hdue ▸ hc.2 k pc hk hrefs
  case sort cands stamps port pc hmem hfirst =>
    obtain ⟨⟨hrefs, hall⟩, hstamps⟩ := hc
    refine ⟨hrefs _ hmem, fun k pc' hk hpc' => ?_⟩
    rcases hall k pc' hk hpc' with hnone | hcand
    · cases hnone
    · exact hfirst hstamps _ hcand
  case check => exact hc
  case take => exact hc.1
  case uncountVictim => exact hc
  all_goals first
    | trivial
    | exact chosen_of_not_inWindow (Place.Free.inWindow (by simp)) s

-- A calm effect can only take entries away.
theorem Effect.Calm.affect (hcalm : eff.Calm) (s : State) :
    (s.affect eff).refs = s.refs ∧ (s.affect eff).lastUse = s.lastUse ∧
      ∀ k pc, (s.affect eff).conns.lookup k = some pc → s.conns.lookup k = some pc ∧ eff ≠ .cut k := by
  cases eff
  case use | ref | put => cases hcalm
  case cut port =>
    refine ⟨rfl, rfl, fun k pc hk => ⟨SeqMap.of_lookup_erase hk, ?_⟩⟩
    rintro ⟨⟩
    exact absurd ((Finmap.lookup_erase _ _).symm.trans hk) nofun
  all_goals exact ⟨rfl, rfl, fun k pc hk => ⟨hk, nofun⟩⟩

theorem mem_due_onWalk {w : Walk} {k : ℕ} (hk : k ∈ w.due) (hne : eff ≠ .cut k) :
    k ∈ (eff.onWalk w).due := by
  cases eff
  case cut port => exact Finset.mem_erase.2 ⟨fun heq => hne (heq ▸ rfl), hk⟩
  all_goals exact hk

theorem Place.Chosen.affect (hc : pl.Chosen s) (hcalm : eff.Calm) :
    (pl.onWalk eff.onWalk).Chosen (s.affect eff) := by
  obtain ⟨hrefs, hstamps, hconns⟩ := hcalm.affect s
  cases pl
  case scan after w cands =>
    refine ⟨?_, fun k pc hk hpc => ?_⟩
    · rw [hrefs]
      exact hc.1
    · rw [hrefs] at hpc
      obtain ⟨hold, hne⟩ := hconns k pc hk
      exact (hc.2 k pc hold hpc).imp_left fun hdue => mem_due_onWalk hdue hne
  case visit after w cands port pc =>
    refine ⟨?_, fun k pc' hk hpc => ?_⟩
    · rw [hrefs]
      exact hc.1
    · rw [hrefs] at hpc
      obtain ⟨hold, hne⟩ := hconns k pc' hk
      exact (hc.2 k pc' hold hpc).imp_left fun hdue => mem_due_onWalk hdue hne
  case sort after cands stamps =>
    refine ⟨⟨?_, fun k pc hk hpc => ?_⟩, ?_⟩
    · rw [hrefs]
      exact hc.1.1
    · rw [hrefs] at hpc
      exact hc.1.2 k pc (hconns k pc hk).1 hpc
    · rw [hstamps]
      exact hc.2
  case check | take =>
    refine ⟨?_, fun k pc hk hpc => ?_⟩
    · rw [hrefs]
      exact hc.1
    · rw [hrefs] at hpc
      rw [hstamps]
      exact hc.2 k pc (hconns k pc hk).1 hpc
  case uncountVictim | closeVictim =>
    change (s.affect eff).refs _ = 0
    rw [hrefs]
    exact hc
  all_goals trivial

def State.Evicting (s : State) : Prop :=
  ∀ pl ∈ s.calls, pl.Chosen s

theorem State.Evicting.step (he : s.Evicting) (hs : Sound s) (hok : Admits (fun _ => false) s l)
    (h : Step limit s l s') : s'.Evicting := by
  cases h with
  | call op =>
      intro pl hpl
      rcases List.mem_append.1 hpl with hold | hnew
      · have hc := he pl hold
        cases pl <;> exact hc
      · rw [List.mem_singleton.1 hnew]
        apply chosen_of_not_inWindow
        cases op <;> rfl
  | @run i ch pl pl' eff hi h =>
      -- While an eviction is going on, the step is none of those that interfere.
      have hcalm : (∃ q ∈ s.calls, q.inWindow = true) → eff.Calm := by
        intro hwindow
        refine h.calm (Option.eq_none_iff_forall_ne_some.2 fun k hk => ?_)
        exact Bool.noConfusion (hok pl hi k hk hwindow)
      -- Where a goroutine stands says nothing about the state it shares.
      have hmoved : ∀ {q : Place}, q.Chosen s → q.Chosen (s.move i pl') := by
        intro q hq
        cases q <;> exact hq
      intro pl₀ hpl₀
      rcases mem_calls_run hpl₀ with rfl | ⟨j, q, -, hj, rfl⟩
      · by_cases hin : pl'.inWindow = true
        · have hchosen := h.chosen (hs.walk pl (List.mem_of_getElem? hi)) (he pl (List.mem_of_getElem? hi))
          exact (hmoved hchosen).affect (h.calm (h.inWindow hin))
        · exact chosen_of_not_inWindow (by simpa using hin) _
      · have hq := List.mem_of_getElem? hj
        by_cases hin : q.inWindow = true
        · exact (hmoved (he q hq)).affect (hcalm ⟨q, hq, hin⟩)
        · exact chosen_of_not_inWindow (by simpa using hin) _

end

theorem evicting_of_reachable {limit : ℤ} {s : State}
    (h : ReachableBy (system limit) (Admits fun _ => false) s) : s.Evicting := by
  have hboth : Sound s ∧ s.Evicting := by
    refine h.invariant (I := fun s => Sound s ∧ s.Evicting) (fun s hs => ?_) fun s l s' hs hok hst => ?_
    · rw [hs]
      exact ⟨sound_init, nofun⟩
    · have hstep := step_of_next hst
      exact ⟨hs.1.step hstep, hs.2.step hs.1 hok hstep⟩
  exact hboth.2

theorem Place.Chosen.evictsRightly {s : State} {pl : Place} (h : pl.Chosen s) : pl.EvictsRightly s := by
  cases pl
  case take after port victim =>
    intro _
    exact ⟨h.1, fun k _ pc hpc hrefs => h.2 k pc hpc hrefs⟩
  case closeVictim after victim => exact fun hpos => hpos.ne' h
  all_goals trivial

theorem Admits.mono {a b : Interference → Bool} (hab : ∀ k, a k = true → b k = true) (s : State)
    (l : Label) (h : Admits a s l) : Admits b s l := by
  cases l with
  | run i ch => exact fun pl hpl k hk hwindow => hab k (h pl hpl k hk hwindow)
  | call op => trivial

-- The scan of a pool with a socket for each of some ports, up to the removal.
def evictFirst (i : ℕ) (met : List PooledConn) : List Label :=
  (met.flatMap fun pc => [.run i (.meet pc.port pc), .run i .go]) ++
    [.run i .finish, .run i (.first 0), .run i .go]

-- In each run the eviction has chosen the socket of port 1 or 2 and is about to
-- remove or close it, when the other goroutine does what the run is named after.
def interferingRun : Interference → List Label
  | .pin =>
      getToCount 0 1 ++ steps 0 2 ++ getToCount 1 2 ++ steps 1 3 ++ evictFirst 1 [⟨1, 0⟩, ⟨2, 1⟩] ++
      steps 1 2 ++ [.call (.write ⟨1, 0⟩), .run 2 .go]
  | .unpin =>
      getToCount 0 1 ++ steps 0 2 ++ getToCount 1 2 ++ steps 1 2 ++
      [.call (.write ⟨1, 0⟩), .run 2 .go] ++
      getToCount 3 3 ++ steps 3 3 ++ evictFirst 3 [⟨1, 0⟩, ⟨2, 1⟩, ⟨3, 2⟩] ++
      [.run 2 (.wrote false), .run 2 .go]
  | .stamp =>
      getToCount 0 1 ++ steps 0 2 ++ getToCount 1 2 ++ steps 1 2 ++
      getToCount 2 3 ++ steps 2 3 ++ evictFirst 2 [⟨1, 0⟩, ⟨2, 1⟩, ⟨3, 2⟩] ++
      .call (.get 1) :: steps 3 4
  | .publish =>
      getToCount 0 1 ++ steps 0 2 ++ getToCount 1 2 ++
      .call (.get 3) :: steps 2 4 ++ [.run 2 (.bound true), .run 2 .go] ++
      .call (.get 1) :: steps 3 4 ++
      steps 1 3 ++ evictFirst 1 [⟨1, 0⟩, ⟨2, 1⟩] ++ [.run 2 .go]

def interferingLimit : Interference → ℤ
  | .pin | .publish => 1
  | .unpin | .stamp => 2

theorem exists_interference (k : Interference) :
    ∃ s, ReachableBy (system (interferingLimit k)) (Admits fun k' => k' = k) s ∧
      ∃ pl ∈ s.calls, ¬pl.EvictsRightly s :=
  (system (interferingLimit k)).exists_runBy (Admits fun k' => k' = k)
    (P := fun s => ∃ pl ∈ s.calls, ¬pl.EvictsRightly s) (s := init) rfl (interferingRun k)
    (by cases k <;> decide +kernel)

-- Every kind of interference can make an eviction go wrong, and nothing else can.
theorem evicts_rightly_iff (allowed : Interference → Bool) :
    (∀ limit s, ReachableBy (system limit) (Admits allowed) s → ∀ pl ∈ s.calls, pl.EvictsRightly s) ↔
      ∀ k, allowed k = false := by
  constructor
  · intro h k
    refine Bool.eq_false_iff.2 fun hk => ?_
    obtain ⟨s, hreach, pl, hpl, hwrong⟩ := exists_interference k
    refine hwrong (h _ s (hreach.mono (Admits.mono fun k' hk' => ?_)) pl hpl)
    rw [of_decide_eq_true hk']
    exact hk
  · intro hnone limit s hreach pl hpl
    obtain rfl : allowed = fun _ => false := funext hnone
    exact (evicting_of_reachable hreach pl hpl).evictsRightly

-- Get(2) evicts the socket of port 1 while a writer has it pinned.
theorem pinned_socket_closed : ∃ s after, Reachable (system 1) s ∧
    .closeVictim after ⟨1, 0⟩ ∈ s.calls ∧ s.refs ⟨1, 0⟩ = 1 ∧ .write ⟨1, 0⟩ true ∈ s.calls := by
  have hrun := (system 1).exists_run
    (P := fun s => .closeVictim (.made .get ⟨2, 1⟩) ⟨1, 0⟩ ∈ s.calls ∧ s.refs ⟨1, 0⟩ = 1 ∧
      .write ⟨1, 0⟩ true ∈ s.calls)
    (s := init) rfl (interferingRun .pin) (by decide +kernel)
  obtain ⟨s, hreach, hs⟩ := hrun
  exact ⟨s, _, hreach, hs⟩

end UdpCustom.SockPool
