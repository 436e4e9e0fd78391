import UdpCustom.Registry

-- Nothing outlives the server: whoever closes it comes to every session that is not
-- closed otherwise.
namespace UdpCustom.Registry

open Transition Function

inductive Act (limit : ℤ) (s : Server) (t : ℕ) : Place → Server → Place → Prop
  | admitted (h : 0 < limit → s.liveSessions < limit) : Act limit s t .admission s .draw
  | again : Act limit s t .draw s .draw
  | drew {id} : Act limit s t .draw { s with sessionID := update s.sessionID t id } .dial
  | dialed : Act limit s t .dial { s with upstream := update s.upstream t true } .recheck
  | rechecked : Act limit s t .recheck s .store
  | dropped {pl} (h : pl = .admission ∨ pl = .draw ∨ pl = .dial) : Act limit s t pl s .done
  | hungUp : Act limit s t .recheck (s.hangUp t) .done
  | stored (h : ¬s.taken (s.sessionID t)) :
      Act limit s t .store
        { s with sessions := insert t s.sessions, stored := insert t s.stored } .confirm
  | confirmed (h : s.closed = false) : Act limit s t .confirm s .register
  | refused {pl} (h : pl = .store ∨ pl = .confirm) : Act limit s t pl (s.hangUp t) (.enter t .back)
  | registered :
      Act limit s t .register { s with registered := update s.registered t true } .count
  | counted : Act limit s t .count { s with liveSessions := s.liveSessions + 1 } .established
  | entered {i after} (h : s.closeOnce i = .idle) :
      Act limit s t (.enter i after) { s with closeOnce := update s.closeOnce i (.running t) }
        (.body i .swap after)
  | returned {i after} (h : s.closeOnce i = .done) : Act limit s t (.enter i after) s after.place
  | swapped {i after step} (h : step = .uncount ∧ s.registered i = true ∨ step = .stop false) :
      Act limit s t (.body i .swap after) { s with registered := update s.registered i false }
        (.body i step after)
  | uncounted {i after} :
      Act limit s t (.body i .uncount after) { s with liveSessions := s.liveSessions - 1 }
        (.body i (.stop true) after)
  | stopped {i b after} :
      Act limit s t (.body i (.stop b) after) (s.hangUp i) (.body i (.leave b) after)
  | left {i after} :
      Act limit s t (.body i (.leave false) after)
        { s with closeOnce := update s.closeOnce i .done } after.place
  | deleted {i after} :
      Act limit s t (.body i (.leave true) after)
        { s with
          sessions := s.sessions.filter fun j => s.sessionID j ≠ s.sessionID i
          closeOnce := update s.closeOnce i .done } after.place
  | closedAgain : Act limit s t .shutdown s .done
  | closed : Act limit s t .shutdown { s with closed := true, closer := t } .range
  | range : Act limit s t .range s (.sweep s.sessions)
  | met {i due} (h : i ∈ s.stored) :
      Act limit s t (.sweep due) s (.enter i (.sweep (due.erase i)))
  | swept {due} (h : ∀ i ∈ due, i ∉ s.sessions) : Act limit s t (.sweep due) s .done

variable {limit : ℤ} {s s' : Server} {tasks : ℕ → Place} {calls t : ℕ} {pl pl' : Place}

theorem act_eq_some {ch : Choice} (h : act limit s t pl ch = some (s', pl')) :
    Act limit s t pl s' pl' := by
  unfold act at h
  split at h
  all_goals repeat' split at h
  all_goals cases h
  all_goals first
    | exact .entered ‹_›
    | exact .returned ‹_›
    | exact .deleted
    | exact .left
    | exact .closedAgain
    | exact .met ‹_›
    | exact .swept ‹_›
    | (constructor <;> grind)

-- A session that is not in the map yet, and one that its handshake will not take back.
def Place.early : Place → Bool
  | .admission | .draw | .dial | .recheck | .store => true
  | _ => false

def Place.made : Place → Bool
  | .register | .count | .established => true
  | _ => false

-- The swap has found the session registered.
def CloseStep.found : CloseStep → Bool
  | .uncount | .stop true | .leave true => true
  | _ => false

def Place.left : Place → Bool
  | .body _ (.leave _) _ => true
  | _ => false

-- Server.Close is on its way to a session.
def Place.reaches (i : ℕ) : Place → Prop
  | .range => True
  | .enter j after => j = i ∨ i ∈ after.due
  | .body _ _ after => i ∈ after.due
  | .sweep due => i ∈ due
  | _ => False

structure Sound (s : Server) (tasks : ℕ → Place) (calls : ℕ) : Prop where
  future : ∀ i, calls ≤ i → tasks i = .done ∧ s.upstream i = false
  early : ∀ i, calls ≤ i ∨ (tasks i).early → i ∉ s.stored ∧ s.closeOnce i = .idle ∧ ¬s.registered i
  stored : ∀ i, i ∈ s.sessions ∨ s.registered i ∨ tasks i = .confirm ∨ (tasks i).made → i ∈ s.stored
  enters : ∀ t i after, tasks t = .enter i after → i ∈ s.stored ∨ i = t
  found : ∀ t i step after, tasks t = .body i step after → step.found → i ∈ s.stored
  -- one goroutine runs the body of `closeOnce`
  body : ∀ t i step after, tasks t = .body i step after → s.closeOnce i = .running t
  runs : ∀ t i, s.closeOnce i = .running t → ∃ step after, tasks t = .body i step after
  -- an entry of the map is taken out by its own session
  listed : ∀ i ∈ s.stored, s.closeOnce i ≠ .done → i ∈ s.sessions
  distinct : ∀ i ∈ s.sessions, ∀ j ∈ s.sessions, s.sessionID i = s.sessionID j → i = j

-- Who will close a session that is taken back, an upstream, and a session of a closed server.
structure Watched (s : Server) (tasks : ℕ → Place) (calls : ℕ) : Prop extends Sound s tasks calls where
  kept : ∀ i ∈ s.stored, s.closeOnce i = .idle →
    tasks i = .confirm ∨ (tasks i).made ∨ tasks i = .enter i .back
  held : ∀ i, s.upstream i → tasks i = .recheck ∨ tasks i = .store ∨
    (tasks i = .confirm ∨ (tasks i).made) ∧ s.closeOnce i ≠ .done ∧
      ∀ t, s.closeOnce i = .running t → ¬(tasks t).left
  reached : s.closed → ∀ i, (tasks i).made → s.closeOnce i = .idle → (tasks s.closer).reaches i

theorem place_cases (after : After) :
    after.place = .done ∧ after.due = ∅ ∨ after.place = .sweep after.due := by
  cases after
  · exact .inl ⟨rfl, rfl⟩
  · exact .inr rfl

theorem of_update {α : Type} {f : ℕ → α} {i j : ℕ} {v x : α}
    (h : update f j v i = x) (hv : v ≠ x) : i ≠ j ∧ f i = x := by
  have hij : i ≠ j := by
    rintro rfl
    exact hv ((update_self ..).symm.trans h)
  rw [update_of_ne hij] at h
  exact ⟨hij, h⟩

-- Two goroutines in the body of one `closeOnce` are the same.
theorem Sound.alone (h : Sound s tasks calls) {u i : ℕ} {step step' : CloseStep} {after after' : After}
    (ht : tasks t = .body i step after) (hu : tasks u = .body i step' after') : u = t := by
  have hrunning := (h.body t i step after ht).symm.trans (h.body u i step' after' hu)
  cases hrunning
  rfl

-- The body of a `closeOnce` begins: nobody was in it.
theorem Sound.entering (h : Sound s tasks calls) {i : ℕ} {after : After}
    (hpl : tasks t = .enter i after) (hidle : s.closeOnce i = .idle) :
    (∀ u j step after', update tasks t (.body i .swap after) u = .body j step after' →
      update s.closeOnce i (.running t) j = .running u) ∧
    ∀ u j, update s.closeOnce i (.running t) j = .running u →
      ∃ step after', update tasks t (.body i .swap after) u = .body j step after' := by
  constructor
  · intro u j step after' hu
    by_cases hut : u = t
    · subst hut
      rw [update_self] at hu
      cases hu
      exact update_self ..
    · rw [update_of_ne hut] at hu
      have hrunning := h.body u j step after' hu
      have hji : j ≠ i := by
        rintro rfl
        rw [hidle] at hrunning
        cases hrunning
      exact (update_of_ne hji ..).trans hrunning
  · intro u j hu
    by_cases hji : j = i
    · subst hji
      have hut : t = u := by simpa using hu
      exact ⟨.swap, after, by simp [hut]⟩
    · rw [update_of_ne hji] at hu
      obtain ⟨step, after', hbody⟩ := h.runs u j hu
      have hut : u ≠ t := by
        rintro rfl
        rw [hpl] at hbody
        cases hbody
      exact ⟨step, after', by rw [update_of_ne hut, hbody]⟩

-- The body of a `closeOnce` ends: nobody else is in it.
theorem Sound.ended (h : Sound s tasks calls) {i : ℕ} {step : CloseStep} {after : After}
    (hpl : tasks t = .body i step after) :
    (∀ u j step' after', update tasks t after.place u = .body j step' after' →
      update s.closeOnce i .done j = .running u) ∧
    ∀ u j, update s.closeOnce i .done j = .running u →
      ∃ step' after', update tasks t after.place u = .body j step' after' := by
  constructor
  · intro u j step' after' hu
    obtain ⟨hut, hu⟩ := of_update hu (by cases after <;> nofun)
    have hji : j ≠ i := by
      rintro rfl
      exact hut (h.alone hpl hu)
    rw [update_of_ne hji]
    exact h.body u j step' after' hu
  · intro u j hu
    obtain ⟨hji, hu⟩ := of_update hu nofun
    obtain ⟨step', after', hbody⟩ := h.runs u j hu
    have hut : u ≠ t := by
      rintro rfl
      rw [hpl] at hbody
      cases hbody
      exact hji rfl
    exact ⟨step', after', by rw [update_of_ne hut, hbody]⟩

theorem Sound.run (h : Sound s tasks calls) (hlt : t < calls) (hact : Act limit s t (tasks t) s' pl') :
    Sound s' (update tasks t pl') calls := by
  have hbody := h.body
  generalize hpl : tasks t = pl at hact
  constructor
  · have := h.future
    cases hact <;> grind -linarith [update_apply]
  · have := h.early
    have := h.enters
    cases hact <;> grind -linarith [update_apply, Place.early, place_cases]
  · have := h.stored
    cases hact <;> grind -linarith [update_apply, Place.made, place_cases]
  · have := h.enters
    cases hact <;> grind -linarith [update_apply, place_cases]
  · have := h.found
    have := h.stored
    cases hact <;> grind -linarith [update_apply, CloseStep.found, place_cases]
  · cases hact with
    | entered hidle => exact (h.entering hpl hidle).1
    | left | deleted => exact (h.ended hpl).1
    | _ => grind -linarith [update_apply, place_cases]
  · cases hact with
    | entered hidle => exact (h.entering hpl hidle).2
    | left | deleted => exact (h.ended hpl).2
    | _ =>
        have := h.runs
        grind -linarith [update_apply, place_cases]
  · cases hact with
    | @deleted i after =>
        -- the sessions that leave the map have the number of this one
        intro j hj hopen
        dsimp only at hj hopen
        have hji : j ≠ i := by
          rintro rfl
          exact hopen (update_self ..)
        rw [update_of_ne hji] at hopen
        have hi := h.listed i (h.found t i _ _ hpl rfl) (by simp [hbody t i _ _ hpl])
        have hin := h.listed j hj hopen
        exact Finset.mem_filter.2 ⟨hin, fun hid => hji (h.distinct j hin i hi hid)⟩
    | _ =>
        have := h.listed
        grind -linarith [update_apply]
  · cases hact with
    | stored hfree =>
        have hnew : ∀ j ∈ s.sessions, s.sessionID j ≠ s.sessionID t := fun j hj hid =>
          hfree ⟨j, hj, hid⟩
        intro i hi j hj hid
        dsimp only at hi hj hid
        rcases Finset.mem_insert.1 hi with rfl | hiold
        · exact (Finset.mem_insert.1 hj).elim Eq.symm fun hjold => absurd hid.symm (hnew j hjold)
        · rcases Finset.mem_insert.1 hj with rfl | hjold
          · exact absurd hid (hnew i hiold)
          · exact h.distinct i hiold j hjold hid
    | _ =>
        have := h.distinct
        have := h.early
        have := h.stored
        grind -linarith [update_apply, Place.early]

theorem made_of_update {i : ℕ} (hpl : pl.made = false) (h : (update tasks t pl i).made = true) :
    (tasks i).made = true := by
  by_cases hit : i = t
  · subst hit
    rw [update_self, hpl] at h
    cases h
  · rwa [update_of_ne hit] at h

-- A step of the closing goroutine that leaves it on its way.
theorem reaches_update {i closer : ℕ} (h : (tasks closer).reaches i)
    (hstep : closer = t → (tasks t).reaches i → pl.reaches i) :
    (update tasks t pl closer).reaches i := by
  by_cases hct : closer = t
  · subst hct
    rw [update_self]
    exact hstep rfl h
  · rwa [update_of_ne hct]

theorem reaches_place {i : ℕ} {after : After} (h : i ∈ after.due) : after.place.reaches i := by
  rcases place_cases after with ⟨-, hnone⟩ | hplace
  · rw [hnone] at h
    cases h
  · rwa [hplace]

-- Server.Close does not lose a session it is on its way to.
theorem Watched.reached_run (h : Watched s tasks calls) (hact : Act limit s t (tasks t) s' pl') :
    s'.closed → ∀ i, (update tasks t pl' i).made → s'.closeOnce i = .idle →
      (update tasks t pl' s'.closer).reaches i := by
  generalize hpl : tasks t = pl at hact
  cases hact with
  | @entered j after hidle =>
      intro hclosed i hmade hon
      obtain ⟨hij, hon⟩ := of_update hon nofun
      refine reaches_update (h.reached hclosed i (made_of_update rfl hmade) hon) fun _ hreach => ?_
      rw [hpl] at hreach
      exact hreach.resolve_left (Ne.symm hij)
  | @returned j after hdone =>
      intro hclosed i hmade hon
      have hplace : after.place.made = false := by cases after <;> rfl
      refine reaches_update (h.reached hclosed i (made_of_update hplace hmade) hon) fun _ hreach => ?_
      rw [hpl] at hreach
      refine reaches_place (hreach.resolve_left ?_)
      rintro rfl
      rw [hdone] at hon
      cases hon
  | @left j after | @deleted j after =>
      intro hclosed i hmade hon
      have hplace : after.place.made = false := by cases after <;> rfl
      obtain ⟨hij, hon⟩ := of_update hon nofun
      refine reaches_update (h.reached hclosed i (made_of_update hplace hmade) hon) fun _ hreach => ?_
      rw [hpl] at hreach
      exact reaches_place hreach
  | range =>
      intro hclosed i hmade hon
      have hmade := made_of_update rfl hmade
      refine reaches_update (h.reached hclosed i hmade hon) fun _ _ => ?_
      exact h.listed i (h.stored i (.inr (.inr (.inr hmade)))) (by simp [hon])
  | @met j due hin =>
      intro hclosed i hmade hon
      refine reaches_update (h.reached hclosed i (made_of_update rfl hmade) hon) fun _ hreach => ?_
      rw [hpl] at hreach
      by_cases hij : i = j
      · exact .inl hij.symm
      · exact .inr (Finset.mem_erase.2 ⟨hij, hreach⟩)
  | @swept due hgone =>
      -- a session that is due and not closed is still in the map
      intro hclosed i hmade hon
      have hmade := made_of_update rfl hmade
      refine reaches_update (h.reached hclosed i hmade hon) fun _ hreach => ?_
      rw [hpl] at hreach
      exact hgone i hreach (h.listed i (h.stored i (.inr (.inr (.inr hmade)))) (by simp [hon]))
  | _ =>
      have := h.reached
      grind -linarith [update_apply, Place.made, Place.reaches]

theorem Watched.run (h : Watched s tasks calls) (hlt : t < calls)
    (hact : Act limit s t (tasks t) s' pl') : Watched s' (update tasks t pl') calls := by
  refine ⟨h.toSound.run hlt hact, ?_, ?_, h.reached_run hact⟩
  all_goals have := h.body
  all_goals have := h.early
  all_goals generalize hpl : tasks t = pl at hact
  · have := h.kept
    cases hact <;> grind -linarith [update_apply, Place.made, Place.early, place_cases]
  · have := h.held
    have := h.runs
    have := h.future
    cases hact <;> grind -linarith [update_apply, place_cases, Place.made, Place.early, Place.left]

theorem Watched.call (h : Watched s tasks calls) (hpl : s.calls pl) :
    Watched s (update tasks calls pl) (calls + 1) := by
  obtain ⟨⟨hfuture, hearly, hstored, henters, hfound, hbody, hruns, hlisted, hdistinct⟩, hkept, hheld,
    hreached⟩ := h
  have hnew := hfuture calls le_rfl
  have hquiet : pl.made = false := by
    unfold Server.calls at hpl
    split at hpl <;> first | rfl | cases hpl
  refine ⟨⟨?future, ?early, ?stored, ?enters, ?found, ?body, ?runs, hlisted, hdistinct⟩, ?kept, ?held,
    ?reached⟩
  case enters =>
    intro t i after ht
    by_cases htc : t = calls
    · subst htc
      rw [update_self] at ht
      subst ht
      cases after with
      | back => exact .inl (of_decide_eq_true hpl)
      | sweep due => cases hpl
    · rw [update_of_ne htc] at ht
      exact henters t i after ht
  case kept =>
    -- the session of the new goroutine is not in the map yet
    intro i hi hon
    have hic : i ≠ calls := by
      rintro rfl
      exact (hearly i (.inl le_rfl)).1 hi
    rw [update_of_ne hic]
    exact hkept i hi hon
  case reached =>
    intro hclosed i hmade hon
    refine reaches_update (hreached hclosed i (made_of_update hquiet hmade) hon) fun _ hreach => ?_
    rw [hnew.1] at hreach
    cases hreach
  all_goals
    unfold Server.calls at hpl
    split at hpl <;> grind -linarith [update_apply, Place.early, Place.made, Place.left]

theorem watched_of_reachable {st : State} (h : Reachable (system limit) st) :
    Watched st.server st.tasks st.calls := by
  refine h.invariant (I := fun st => Watched st.server st.tasks st.calls) ?_ ?_
  · rintro _ rfl
    refine ⟨⟨?_, ?_, ?_, ?_, ?_, ?_, ?_, ?_, ?_⟩, ?_, ?_, ?_⟩ <;>
      simp [newServer, Place.early, Place.made]
  · intro st l st' ih _ hst
    cases l <;> obtain ⟨hok, hst⟩ := Option.ite_none_right_eq_some.1 hst
    · cases hst
      exact ih.call hok
    · obtain ⟨⟨s', pl'⟩, hact, rfl⟩ := Option.map_eq_some_iff.1 hst
      exact ih.run hok (act_eq_some hact)

-- Once the server is closed and no call is in progress, every session that was ever in the
-- map is closed and no upstream connection is open.
theorem nothing_outlives_server {st : State} (h : Reachable (system limit) st)
    (hclosed : st.server.closed = true) (hidle : st.Idle) :
    (∀ i ∈ st.server.stored, st.server.closeOnce i = .done) ∧ ∀ i, st.server.upstream i = false := by
  have hw := watched_of_reachable h
  have hrest : ∀ t, st.tasks t = .done ∨ st.tasks t = .established := fun t =>
    (lt_or_ge t st.calls).elim (hidle t) fun hge => .inl (hw.future t hge).1
  have hdone : ∀ i, i ∈ st.server.stored → st.server.closeOnce i = .done := by
    intro i hi
    have := hrest i
    have := hrest st.server.closer
    cases hon : st.server.closeOnce i with
    | done => rfl
    | running t =>
        obtain ⟨step, after, ht⟩ := hw.runs t i hon
        have := hrest t
        grind
    | idle =>
        have := hw.kept i hi hon
        have := hw.reached hclosed i
        grind [Place.reaches]
  refine ⟨hdone, fun i => ?_⟩
  have := hrest i
  have := hw.held i
  have := hw.stored i
  grind

theorem nothing_outlives_server_one : ∃ st, Reachable (system 0) st ∧ 0 ∈ st.server.stored ∧
    st.server.closeOnce 0 = .done ∧ st.server.upstream 0 = false := by
  have hrun := (system 0).exists_run
    (P := fun st => st.server.closed = true ∧ st.Idle ∧ 0 ∈ st.server.stored) (s := ⟨newServer, _, 0⟩) rfl
    ([.call .admission, .call .shutdown, .run 0 .go, .run 0 (.drew 7)] ++ List.replicate 4 (.run 0 .go) ++
      [.run 1 .go, .run 1 .go, .run 1 (.meet 0), .run 0 .go, .run 0 .go] ++
      List.replicate 6 (.run 1 .go))
    (by decide +kernel)
  obtain ⟨st, hr, hclosed, hidle, hin⟩ := hrun
  have h := nothing_outlives_server hr hclosed hidle
  exact ⟨st, hr, hin, h.1 0 hin, h.2 0⟩

-- The number of a session that is not closed leads to it and to no other.
theorem number_leads_to_session {st : State} (h : Reachable (system limit) st) {i : ℕ}
    (hi : i ∈ st.server.stored) (hopen : st.server.closeOnce i ≠ .done) :
    i ∈ st.server.sessions ∧
      ∀ j ∈ st.server.sessions, st.server.sessionID j = st.server.sessionID i → j = i := by
  have hw := watched_of_reachable h
  have hlisted := hw.listed i hi hopen
  exact ⟨hlisted, fun j hj hid => hw.distinct j hj i hlisted hid⟩

-- Two handshakes draw the number 7, the first to store it keeps it, and the Close of the
-- session 8 takes its own entry only.
theorem number_leads_to_session_first : ∃ st, Reachable (system 0) st ∧
    (st.server.sessionID 1 = 7 ∧ st.server.closeOnce 1 = .done ∧ st.server.closeOnce 2 = .done) ∧
    0 ∈ st.server.sessions ∧ ∀ j ∈ st.server.sessions, st.server.sessionID j = 7 → j = 0 := by
  have hrun := (system 0).exists_run
    (P := fun st => (0 ∈ st.server.stored ∧ st.server.closeOnce 0 ≠ .done ∧ st.server.sessionID 0 = 7) ∧
      st.server.sessionID 1 = 7 ∧ st.server.closeOnce 1 = .done ∧ st.server.closeOnce 2 = .done)
    (s := ⟨newServer, _, 0⟩) rfl
    (List.replicate 3 (.call .admission) ++ [.run 0 .go, .run 1 .go, .run 2 .go, .run 0 (.drew 7),
      .run 1 (.drew 7), .run 2 (.drew 8)] ++ List.replicate 6 (.run 0 .go) ++
      List.replicate 7 (.run 1 .go) ++ List.replicate 6 (.run 2 .go) ++ [.call (.enter 2 .back)] ++
      List.replicate 5 (.run 3 .go))
    (by decide +kernel)
  obtain ⟨st, hr, ⟨hi, hopen, hid⟩, hothers⟩ := hrun
  have h := number_leads_to_session hr hi hopen
  rw [hid] at h
  exact ⟨st, hr, hothers, h⟩

end UdpCustom.Registry
