import UdpCustom.Probe.Ladder

-- A session sends at the floor or at a size that some probe brought back.
namespace UdpCustom.Probe

open UdpCustom.Frame UdpCustom.Mtu UdpCustom.Outgoing Transition

variable {cfg : Config} {s s' : State} {l : Label} {i : ℕ} {sess sess' : Session} {a : Action}
  {cache : ProbeCache}

-- A probe of this size came back to a session of this socket generation.
def State.Proven (s : State) (generation : ℕ) (n : ℤ) : Prop :=
  ∃ sess ∈ s.sessions, sess.generation = generation ∧ n ∈ sess.answered

structure Session.Sound (cfg : Config) (s : State) (sess : Session) : Prop where
  cap : sess.sendCap = cfg.floor ∨ sess.sendCap ∈ cfg.ladder ∧ s.Proven sess.generation sess.sendCap
  fresh : sess.phase = .opened ∨ sess.phase = .begun →
    sess.answered = [] ∧ sess.sendCap = cfg.floor
  committed : sess.phase ≠ .opened → sess.commits.getLast? = some sess.sendCap
  storing : ∀ n, sess.phase = .storing n → n ∈ cfg.ladder ∧ n ∈ sess.answered
  found : ∀ n, sess.phase = .found n →
    n = cfg.floor ∨ n ∈ cfg.ladder ∧ s.Proven sess.generation n

structure State.Sound (cfg : Config) (s : State) : Prop where
  cache : 0 < s.cache.n → s.cache.n ∈ cfg.ladder ∧ s.Proven s.cache.generation s.cache.n
  sessions : ∀ sess ∈ s.sessions, sess.Sound cfg s

-- What an action keeps of a session, and that a new size is committed.
structure Advance (sess sess' : Session) : Prop where
  answered : sess.answered ⊆ sess'.answered
  generation : sess'.generation = sess.generation ∨ sess.answered = []
  commits : sess'.sendCap = sess.sendCap ∧ sess'.commits = sess.commits ∨
    ∃ k, sess'.commits = sess.commits ++ List.replicate (k + 1) sess'.sendCap

theorem Advance.quiet (hanswered : sess.answered ⊆ sess'.answered)
    (hgeneration : sess'.generation = sess.generation ∨ sess.answered = [])
    (hcap : sess'.sendCap = sess.sendCap) (hcommits : sess'.commits = sess.commits) :
    Advance sess sess' :=
  ⟨hanswered, hgeneration, .inl ⟨hcap, hcommits⟩⟩

theorem Advance.changed {n : ℤ} (hn : n ∈ cfg.ladder) {ok : Bool}
    (hanswered : sess.answered ⊆ sess'.answered) (hgeneration : sess'.generation = sess.generation)
    (hcap : sess'.sendCap = n) (hcommits : sess'.commits = sess.commits ++ sendMtuCommit n ok) :
    Advance sess sess' := by
  obtain ⟨k, hk⟩ := sendMtuCommit_eq hn ok
  refine ⟨hanswered, .inl hgeneration, .inr ⟨k, ?_⟩⟩
  rw [hcommits, hk, hcap]

theorem Advance.committed (h : Advance sess sess')
    (hlast : sess.commits.getLast? = some sess.sendCap) :
    sess'.commits.getLast? = some sess'.sendCap := by
  rcases h.commits with ⟨hcap, hcommits⟩ | ⟨k, hcommits⟩
  · rw [hcommits, hcap, hlast]
  · rw [hcommits, List.replicate_succ', ← List.append_assoc, List.getLast?_concat]

theorem clamp_of_mem {n : ℤ} (hn : n ∈ cfg.ladder) : (clampMtuCap n cfg.maxPkt).size = n := by
  obtain ⟨hlow, hhigh⟩ := ladder_bounds hn
  unfold Config.floor at hlow
  unfold clampMtuCap
  dsimp only
  rw [if_neg (not_lt.2 hlow), if_neg (not_lt.2 hhigh)]

-- What a session can do, with probing enabled.
inductive Acted (cfg : Config) (s : State) (sess : Session) : Session → ProbeCache → Prop
  | start (ok : Bool) : sess.phase = .opened →
      Acted cfg s sess ({ sess with sendCap := cfg.floor, phase := .begun }.commit cfg.floor ok) s.cache
  | readGeneration : sess.phase = .begun →
      Acted cfg s sess { sess with generation := s.generation, phase := .reading } s.cache
  | miss : sess.phase = .reading → Acted cfg s sess { sess with phase := .probing } s.cache
  | hit : sess.phase = .reading → 0 < s.cache.n → s.cache.generation = sess.generation →
      Acted cfg s sess { sess with phase := .found s.cache.n } s.cache
  | answer (n : ℤ) : sess.phase = .probing → n ∈ cfg.ladder →
      Acted cfg s sess { sess.hears n with phase := .storing n } s.cache
  | silent : sess.phase = .probing → Acted cfg s sess { sess with phase := .found cfg.floor } s.cache
  | store (n : ℤ) : sess.phase = .storing n →
      Acted cfg s sess { sess with phase := .found n } (.storeFor n sess.generation s.now)
  | settle (n : ℤ) (ok : Bool) : sess.phase = .found n → n ∈ cfg.ladder →
      Acted cfg s sess ({ sess with sendCap := n, phase := .running }.commit n ok) s.cache
  | keep (n : ℤ) : sess.phase = .found n → Acted cfg s sess { sess with phase := .running } s.cache
  | tick (ok : Bool) {sess' : Session} : sess.phase = .running → Ticked cfg ok sess sess' →
      Acted cfg s sess sess' s.cache

theorem acted_of_act (hprobe : cfg.mtuProbe = true) (hsess : sess.Sound cfg s)
    (h : sess.act cfg s.generation s.now s.cache a = some (sess', cache)) :
    Acted cfg s sess sess' cache := by
  cases a with
  | start ok =>
      unfold Session.act at h
      dsimp only at h
      rw [hprobe] at h
      obtain ⟨hphase, ⟨⟩⟩ := Option.ite_none_left_eq_some.1 h
      exact .start ok (not_not.1 hphase)
  | readGeneration =>
      obtain ⟨hphase, ⟨⟩⟩ := Option.ite_none_left_eq_some.1 h
      exact .readGeneration (not_not.1 hphase)
  | lookup =>
      obtain ⟨hphase, ⟨⟩⟩ := Option.ite_none_left_eq_some.1 h
      have hphase := not_not.1 hphase
      unfold ProbeCache.getFor
      by_cases hgeneration : s.cache.generation = sess.generation
      · rw [if_neg (not_not.2 hgeneration)]
        by_cases hlive : 0 < s.cache.n ∧ s.now - s.cache.storedAt < mtuProbeCacheTTL
        · rw [if_pos hlive, if_neg (ne_of_gt hlive.1)]
          exact .hit hphase hlive.1 hgeneration
        · rw [if_neg hlive, if_pos rfl]
          exact .miss hphase
      · rw [if_pos hgeneration, if_pos rfl]
        exact .miss hphase
  | probe attempts closed echo =>
      obtain ⟨hphase, hact⟩ := Option.ite_none_left_eq_some.1 h
      have hphase := not_not.1 hphase
      dsimp only at hact
      split at hact
      · rename_i hpos
        cases hact
        rcases probeLadder_spec cfg.ladder with hzero | hmem
        · exact absurd hzero (ne_of_gt hpos)
        · exact .answer _ hphase hmem
      · cases hact
        exact .silent hphase
  | store =>
      unfold Session.act at h
      dsimp only at h
      split at h
      · rename_i n hphase
        cases h
        exact .store n hphase
      · cases h
  | settle ok =>
      unfold Session.act at h
      dsimp only at h
      split at h
      · rename_i n hphase
        have hmem : n ∈ cfg.ladder := by
          rcases hsess.found n hphase with rfl | ⟨hmem, -⟩
          · exact floor_mem_ladder cfg
          · exact hmem
        rw [clamp_of_mem hmem] at h
        split at h
        · cases h
          exact .settle n ok hphase hmem
        · cases h
          exact .keep n hphase
      · cases h
  | tick quiet echo ok =>
      obtain ⟨hphase, hact⟩ := Option.ite_none_left_eq_some.1 h
      obtain ⟨sess₁, htick, hticked⟩ := exists_ticked (Nat.lt_succ_self cfg.ladder.length) sess quiet echo ok
      rw [Config.fuel, htick] at hact
      cases hact
      exact .tick ok (not_not.1 hphase) hticked

theorem Acted.advance (hsess : sess.Sound cfg s) (h : Acted cfg s sess sess' cache) :
    Advance sess sess' := by
  cases h with
  | start ok hphase =>
      exact .changed (floor_mem_ladder cfg) (List.Subset.refl _) rfl rfl rfl
  | readGeneration hphase =>
      exact .quiet (List.Subset.refl _) (.inr (hsess.fresh (.inr hphase)).1) rfl rfl
  | miss _ | hit _ _ _ | silent _ | store n _ =>
      exact .quiet (List.Subset.refl _) (.inl rfl) rfl rfl
  | answer n _ _ => exact .quiet (List.subset_append_left _ _) (.inl rfl) rfl rfl
  | settle n ok _ hmem => exact .changed hmem (List.Subset.refl _) rfl rfl rfl
  | keep n _ => exact .quiet (List.Subset.refl _) (.inl rfl) rfl rfl
  | tick ok _ hticked =>
      cases hticked with
      | keep heard => exact .quiet (List.subset_append_left _ _) (.inl rfl) rfl rfl
      | change n heard hmem _ => exact .changed hmem (List.subset_append_left _ _) rfl rfl rfl

theorem mem_set_or {sessions : List Session} {other : Session} (hother : other ∈ sessions)
    (hsess : sessions[i]? = some sess) (sess' : Session) :
    other = sess ∨ other ∈ sessions.set i sess' := by
  obtain ⟨j, hj⟩ := List.mem_iff_getElem?.1 hother
  by_cases hij : i = j
  · subst hij
    exact .inl (Option.some.inj (hj.symm.trans hsess))
  · exact .inr (List.mem_of_getElem? ((List.getElem?_set_ne hij).trans hj))

-- What is proven stays proven.
theorem Advance.proven (h : Advance sess sess') (hsess : s.sessions[i]? = some sess)
    (hsessions : s'.sessions = s.sessions.set i sess') {generation : ℕ} {n : ℤ}
    (hn : s.Proven generation n) : s'.Proven generation n := by
  obtain ⟨other, hother, hgeneration, hmem⟩ := hn
  rcases mem_set_or hother hsess sess' with rfl | hkept
  · refine ⟨sess', ?_, ?_, h.answered hmem⟩
    · rw [hsessions]
      exact List.mem_of_getElem? (List.getElem?_set_self (List.getElem?_eq_some_iff.1 hsess).1)
    · rcases h.generation with hsame | hnone
      · exact hsame.trans hgeneration
      · rw [hnone] at hmem
        cases hmem
  · exact ⟨other, hsessions ▸ hkept, hgeneration, hmem⟩

theorem Session.Sound.mono (h : sess.Sound cfg s)
    (hproven : ∀ generation n, s.Proven generation n → s'.Proven generation n) : sess.Sound cfg s' where
  cap := h.cap.imp id fun hcap => ⟨hcap.1, hproven _ _ hcap.2⟩
  fresh := h.fresh
  committed := h.committed
  storing := h.storing
  found := fun n hn => (h.found n hn).imp id fun hfound => ⟨hfound.1, hproven _ _ hfound.2⟩

theorem getLast?_commit {n : ℤ} (hn : n ∈ cfg.ladder) (commits : List ℤ) (ok : Bool) :
    (commits ++ sendMtuCommit n ok).getLast? = some n := by
  obtain ⟨k, hk⟩ := sendMtuCommit_eq hn ok
  rw [hk, List.replicate_succ', ← List.append_assoc, List.getLast?_concat]

-- A session that is past its first commit, after a step that leaves its size proven.
theorem Session.Sound.past (hphase : sess.phase ≠ .opened) (hold : sess.Sound cfg s)
    (h : Advance sess sess')
    (hcap : sess'.sendCap = cfg.floor ∨
      sess'.sendCap ∈ cfg.ladder ∧ s'.Proven sess'.generation sess'.sendCap)
    (hfresh : sess'.phase ≠ .opened ∧ sess'.phase ≠ .begun)
    (hstoring : ∀ n, sess'.phase = .storing n → n ∈ cfg.ladder ∧ n ∈ sess'.answered)
    (hfound : ∀ n, sess'.phase = .found n →
      n = cfg.floor ∨ n ∈ cfg.ladder ∧ s'.Proven sess'.generation n) : sess'.Sound cfg s' where
  cap := hcap
  fresh := fun hphase' => absurd hphase' (not_or.2 hfresh)
  committed := fun _ => h.committed (hold.committed hphase)
  storing := hstoring
  found := hfound

theorem Session.Sound.running (hphase : sess.phase ≠ .opened) (hold : sess.Sound cfg s)
    (h : Advance sess sess')
    (hcap : sess'.sendCap = cfg.floor ∨
      sess'.sendCap ∈ cfg.ladder ∧ s'.Proven sess'.generation sess'.sendCap)
    (hrunning : sess'.phase = .running) : sess'.Sound cfg s' := by
  refine hold.past hphase h hcap ?_ ?_ ?_
  · rw [hrunning]
    exact ⟨nofun, nofun⟩
  · rw [hrunning]
    exact fun _ => nofun
  · rw [hrunning]
    exact fun _ => nofun

theorem Acted.sound (hs : s.Sound cfg) (hsess : s.sessions[i]? = some sess)
    (h : Acted cfg s sess sess' cache)
    (hproven : ∀ generation n, s.Proven generation n → s'.Proven generation n)
    (hself : ∀ n ∈ sess'.answered, s'.Proven sess'.generation n) : sess'.Sound cfg s' := by
  have hold := hs.sessions sess (List.mem_of_getElem? hsess)
  have hnew := hold.mono hproven
  have hadvance := h.advance hold
  cases h with
  | start ok hphase =>
      refine ⟨.inl rfl, fun _ => ⟨(hold.fresh (.inl hphase)).1, rfl⟩, fun _ => ?_, fun _ => nofun,
        fun _ => nofun⟩
      exact getLast?_commit (floor_mem_ladder cfg) _ ok
  | readGeneration hphase =>
      exact hold.past (by rw [hphase]; nofun) hadvance (.inl (hold.fresh (.inr hphase)).2)
        ⟨nofun, nofun⟩ (fun _ => nofun) fun _ => nofun
  | miss hphase =>
      exact hold.past (by rw [hphase]; nofun) hadvance hnew.cap ⟨nofun, nofun⟩ (fun _ => nofun)
        fun _ => nofun
  | hit hphase hpos hgeneration =>
      obtain ⟨hmem, hcached⟩ := hs.cache hpos
      refine hold.past (by rw [hphase]; nofun) hadvance hnew.cap ⟨nofun, nofun⟩ (fun _ => nofun) ?_
      intro n hn
      cases hn
      exact .inr ⟨hmem, hproven _ _ (hgeneration ▸ hcached)⟩
  | answer n hphase hmem =>
      refine hold.past (by rw [hphase]; nofun) hadvance hnew.cap ⟨nofun, nofun⟩ ?_ fun _ => nofun
      intro m hm
      cases hm
      exact ⟨hmem, List.mem_append_right _ List.mem_cons_self⟩
  | silent hphase =>
      refine hold.past (by rw [hphase]; nofun) hadvance hnew.cap ⟨nofun, nofun⟩ (fun _ => nofun) ?_
      intro n hn
      cases hn
      exact .inl rfl
  | store n hphase =>
      obtain ⟨hmem, hanswered⟩ := hold.storing n hphase
      refine hold.past (by rw [hphase]; nofun) hadvance hnew.cap ⟨nofun, nofun⟩ (fun _ => nofun) ?_
      intro m hm
      cases hm
      exact .inr ⟨hmem, hself n hanswered⟩
  | settle n ok hphase hmem =>
      exact hold.running (by rw [hphase]; nofun) hadvance (hnew.found n hphase) rfl
  | keep n hphase => exact hold.running (by rw [hphase]; nofun) hadvance hnew.cap rfl
  | tick ok hphase hticked =>
      cases hticked with
      | keep heard => exact hold.running (by rw [hphase]; nofun) hadvance hnew.cap hphase
      | change n heard hmem hn =>
          refine hold.running (by rw [hphase]; nofun) hadvance ?_ hphase
          rcases hn with rfl | hheard
          · exact .inl rfl
          · exact .inr ⟨hmem, hself n (List.mem_append_right _ hheard)⟩

theorem Acted.cached (hs : s.Sound cfg) (hsess : s.sessions[i]? = some sess)
    (h : Acted cfg s sess sess' cache)
    (hproven : ∀ generation n, s.Proven generation n → s'.Proven generation n)
    (hself : ∀ n ∈ sess'.answered, s'.Proven sess'.generation n) (hpos : 0 < cache.n) :
    cache.n ∈ cfg.ladder ∧ s'.Proven cache.generation cache.n := by
  have hold := hs.sessions sess (List.mem_of_getElem? hsess)
  cases h with
  | store n hphase =>
      obtain ⟨hmem, hanswered⟩ := hold.storing n hphase
      exact ⟨hmem, hself n hanswered⟩
  | _ =>
      obtain ⟨hmem, hcached⟩ := hs.cache hpos
      exact ⟨hmem, hproven _ _ hcached⟩

theorem act_of_next (hst : next cfg s (.act i a) = some s') :
    ∃ sess sess' cache, s.sessions[i]? = some sess ∧
      sess.act cfg s.generation s.now s.cache a = some (sess', cache) ∧
      s' = { s with sessions := s.sessions.set i sess', cache := cache } := by
  unfold next at hst
  dsimp only at hst
  split at hst
  · cases hst
  · rename_i sess hsess
    obtain ⟨⟨sess', cache⟩, hact, rfl⟩ := Option.map_eq_some_iff.1 hst
    exact ⟨sess, sess', cache, hsess, hact, rfl⟩

theorem sound_next (hprobe : cfg.mtuProbe = true) (hs : s.Sound cfg)
    (hst : next cfg s l = some s') : s'.Sound cfg := by
  cases l with
  | dial =>
      cases hst
      have hproven : ∀ generation n, s.Proven generation n →
          ({ s with sessions := s.sessions ++ [newSession cfg] } : State).Proven generation n := by
        rintro generation n ⟨other, hother, hrest⟩
        exact ⟨other, List.mem_append_left _ hother, hrest⟩
      refine ⟨fun hpos => ⟨(hs.cache hpos).1, hproven _ _ (hs.cache hpos).2⟩, fun sess hsess => ?_⟩
      rcases List.mem_append.1 hsess with hold | hnew
      · exact (hs.sessions sess hold).mono hproven
      · cases List.mem_singleton.1 hnew
        have hstart : (newSession cfg).sendCap = cfg.floor := by
          unfold newSession mtuStartCap
          rw [hprobe]
          rfl
        exact ⟨.inl hstart, fun _ => ⟨rfl, hstart⟩, fun hphase => absurd rfl hphase, fun _ => nofun,
          fun _ => nofun⟩
  | act i a =>
      obtain ⟨sess, sess', cache, hsess, hact, rfl⟩ := act_of_next hst
      have hold := hs.sessions sess (List.mem_of_getElem? hsess)
      have hacted := acted_of_act hprobe hold hact
      have hproven : ∀ generation n, s.Proven generation n →
          ({ s with sessions := s.sessions.set i sess', cache := cache } : State).Proven generation n :=
        fun generation n => (hacted.advance hold).proven hsess rfl
      have hself : ∀ n ∈ sess'.answered, ({ s with
          sessions := s.sessions.set i sess', cache := cache } : State).Proven sess'.generation n :=
        fun n hn => ⟨sess', List.mem_of_getElem?
          (List.getElem?_set_self (List.getElem?_eq_some_iff.1 hsess).1), rfl, hn⟩
      refine ⟨hacted.cached hs hsess hproven hself, fun other hother => ?_⟩
      rcases List.mem_or_eq_of_mem_set hother with hkept | rfl
      · exact (hs.sessions other hkept).mono hproven
      · exact hacted.sound hs hsess hproven hself
  | rebuild | pass d =>
      cases hst
      exact ⟨hs.cache, fun sess hsess => (hs.sessions sess hsess).mono fun _ _ => id⟩

theorem sound_of_reachable (hprobe : cfg.mtuProbe = true) (h : Reachable (system cfg) s) :
    s.Sound cfg := by
  refine h.invariant (I := State.Sound cfg) ?_ fun _ _ _ hs _ hst => sound_next hprobe hs hst
  rintro _ rfl
  exact ⟨fun hpos => absurd hpos (lt_irrefl _), fun _ => nofun⟩

theorem commit_of_change (hprobe : cfg.mtuProbe = true) (hs : s.Sound cfg)
    (hst : next cfg s l = some s') (hsess : s.sessions[i]? = some sess)
    (hsess' : s'.sessions[i]? = some sess') (hchanged : sess'.sendCap ≠ sess.sendCap) :
    ∃ k, sess'.commits = sess.commits ++ List.replicate (k + 1) sess'.sendCap := by
  have hsame : s'.sessions[i]? = s.sessions[i]? → False := fun he =>
    hchanged (congrArg Session.sendCap (Option.some.inj (hsess'.symm.trans (he.trans hsess))))
  cases l with
  | dial =>
      cases hst
      exact (hsame (List.getElem?_append_left (List.getElem?_eq_some_iff.1 hsess).1)).elim
  | rebuild | pass d =>
      cases hst
      exact (hsame rfl).elim
  | act j a =>
      obtain ⟨old, new, cache, hold, hact, rfl⟩ := act_of_next hst
      by_cases hij : j = i
      · subst hij
        cases hold.symm.trans hsess
        have hnew : (s.sessions.set j new)[j]? = some new :=
          List.getElem?_set_self (List.getElem?_eq_some_iff.1 hsess).1
        cases hnew.symm.trans hsess'
        have hsound := hs.sessions sess (List.mem_of_getElem? hsess)
        exact ((acted_of_act hprobe hsound hact).advance hsound).commits.resolve_left
          fun hkept => hchanged hkept.1
      · exact (hsame (List.getElem?_set_ne hij)).elim

-- Every session sends at the floor or at a size that came back to a session of its socket
-- generation; a new size is committed at once; a tick always ends, and one that loses its
-- size ends at the largest rung below that still carries, or at the floor.
theorem cap_floor_or_proven (cfg : Config) (hprobe : cfg.mtuProbe = true) (s : State)
    (h : Reachable (system cfg) s) :
    (∀ sess ∈ s.sessions, cfg.floor ≤ sess.sendCap ∧ sess.sendCap ≤ cfg.maxPkt.size ∧
      (sess.sendCap = cfg.floor ∨ s.Proven sess.generation sess.sendCap) ∧
      (sess.phase ≠ .opened → sess.commits.getLast? = some sess.sendCap)) ∧
    (∀ (l : Label) (s' : State) (i : ℕ) (sess sess' : Session), next cfg s l = some s' → s.sessions[i]? = some sess →
      s'.sessions[i]? = some sess' → sess'.sendCap ≠ sess.sendCap →
      ∃ k, sess'.commits = sess.commits ++ List.replicate (k + 1) sess'.sendCap) ∧
    ∀ (i : ℕ) (sess : Session), s.sessions[i]? = some sess → sess.phase = .running →
      ∀ fuel quiet echo ok, cfg.ladder.length < fuel →
      ∃ sess', sess.reprobeIdleTick cfg fuel quiet echo ok = some sess' ∧
        next cfg s (.act i (.tick quiet echo ok)) =
          some { s with sessions := s.sessions.set i sess' } ∧
        (quiet = true → cfg.floor < sess.sendCap →
          probeOnce sess.sendCap (echo sess.sendCap) = false →
          IsGreatest (cfg.carried echo sess.sendCap) sess'.sendCap ∨
            sess'.sendCap = cfg.floor ∧ cfg.carried echo sess.sendCap = ∅) := by
  have hs := sound_of_reachable hprobe h
  refine ⟨fun sess hsess => ?_, ?_, ?_⟩
  · have hsound := hs.sessions sess hsess
    rcases hsound.cap with hfloor | ⟨hmem, hproven⟩
    · exact ⟨ge_of_eq hfloor, hfloor ▸ floor_le_maxPkt cfg, .inl hfloor, hsound.committed⟩
    · exact ⟨(ladder_bounds hmem).1, (ladder_bounds hmem).2, .inr hproven, hsound.committed⟩
  · intro l s' i sess sess' hst hsess hsess' hchanged
    exact commit_of_change hprobe hs hst hsess hsess' hchanged
  · intro i sess hsess hphase fuel quiet echo ok hfuel
    obtain ⟨sess', htick, -⟩ := exists_ticked (Nat.lt_succ_self cfg.ladder.length) sess quiet echo ok
    have hsame := reprobeIdleTick_of_le htick (Nat.succ_le_of_lt hfuel)
    refine ⟨sess', hsame, ?_, ?_⟩
    · unfold next Session.act
      dsimp only
      rw [hsess]
      dsimp only
      rw [if_neg (not_not.2 hphase), Config.fuel, htick]
      rfl
    · rintro rfl hcap hlost
      obtain ⟨sess₁, htick₁, -, hends⟩ := tick_lowers hfuel hcap echo ok hlost
      cases hsame.symm.trans htick₁
      exact hends

-- A path that carries 1200 bytes, then only 1000: the probe and one tick.
def narrowing : List Label :=
  [.dial, .act 0 (.start true), .act 0 .readGeneration, .act 0 .lookup,
    .act 0 (.probe 2 (fun _ => false) fun size _ => size ≤ 1200), .act 0 .store,
    .act 0 (.settle true), .act 0 (.tick true (fun size => size ≤ 1000) true)]

theorem narrowed_to_carried_rung : ∃ s, Reachable (system ⟨1400, true⟩) s ∧
    s.sessions = [⟨1000, 0, .running, [548, 548, 1200, 1200, 1000, 1000], [1200, 1000]⟩] ∧
    (1000 = (⟨1400, true⟩ : Config).floor ∨ s.Proven 0 1000) := by
  obtain ⟨s, hs, hsessions⟩ := (system ⟨1400, true⟩).exists_run (P := fun s => s.sessions =
    [⟨1000, 0, .running, [548, 548, 1200, 1200, 1000, 1000], [1200, 1000]⟩]) rfl narrowing
    (by decide +kernel)
  refine ⟨s, hs, hsessions, ?_⟩
  exact ((cap_floor_or_proven ⟨1400, true⟩ rfl s hs).1 _ (hsessions ▸ List.mem_cons_self)).2.2.1

end UdpCustom.Probe
