import UdpCustom.Handshake
import UdpCustom.SynCache.Theorems

namespace UdpCustom.Handshake

open UdpCustom.Frame UdpCustom.Path UdpCustom.SynCache Transition

variable {Addr : Type} [DecidableEq Addr] {cfg : Config} {q : SynRecord SynCacheKey Addr Ack → Bool}

-- The server takes the SYN of this attempt.
def Config.Accepts (cfg : Config) (attempt : ℕ) : Prop :=
  (matchSynPSK cfg (cfg.syn attempt)).isSome = true ∧
    ∃ target, cfg.requestedTarget = some target ∧ (target = "" ∨ cfg.targetAllowed target = true)

def Config.key (cfg : Config) (attempt : ℕ) : SynCacheKey :=
  makeSynCacheKey cfg.nonce (cfg.syn attempt).macKey

-- All attempts of the call that the server takes lead to the same key.
def OneKey (cfg : Config) : Prop :=
  ∀ i < clientMaxHandshakeAttempts, ∀ j < clientMaxHandshakeAttempts,
    cfg.Accepts i → cfg.Accepts j → cfg.key i = cfg.key j

-- The session a goroutine with a connection is about to register.
def Stage.connected : Stage → Option ℕ
  | .dialed sessionID => some sessionID
  | _ => none

-- The run stays within the life of the call's record and the size of the cache,
-- and no dial for the call fails or is rolled back.
def Steady (cfg : Config) (s : State Addr) : Label Addr → Prop
  | .receiveOther key _ => (insert key s.others).card < synCacheMax
  | .acquire _ now => ∀ rec ∈ s.synCache.entries, rec.key.nonce = cfg.nonce → rec.fresh now = true
  | .dialed t ok => t.key.nonce = cfg.nonce → ok = true ∧ s.closed = false
  | .register t ok => t.key.nonce = cfg.nonce → ok = true ∧ s.closed = false ∧
      ∀ sessionID ∈ t.stage.connected, sessionID ∉ s.sessions
  | _ => True

instance (cfg : Config) (s : State Addr) (l : Label Addr) : Decidable (Steady cfg s l) := by
  cases l <;> simp only [Steady] <;> infer_instance

def State.dialsOf (cfg : Config) (s : State Addr) : ℕ :=
  s.dials.countP (·.nonce = cfg.nonce)

def State.sessionsOf (cfg : Config) (s : State Addr) : ℕ :=
  s.established.countP (·.nonce = cfg.nonce)

theorem admitSyn_some {syn : Syn} {now : ℤ} {live : ℕ} {key : SynCacheKey}
    (h : admitSyn cfg syn now live = some key) :
    key = makeSynCacheKey cfg.nonce syn.macKey ∧ (matchSynPSK cfg syn).isSome = true ∧
      ∃ target, cfg.requestedTarget = some target ∧ (target = "" ∨ cfg.targetAllowed target = true) := by
  unfold admitSyn at h
  split at h
  · cases h
  · rename_i psk hpsk
    have hmac : cfg.synMAC psk cfg.nonce = syn.macKey := of_decide_eq_true (List.find?_some hpsk :)
    split at h
    · cases h
    · split at h
      · cases h
      · rename_i target htarget
        obtain ⟨hallowed, h⟩ := Option.ite_none_left_eq_some.1 h
        split at h
        · cases h
        · cases h
          refine ⟨by rw [hmac], by rw [hpsk]; rfl, target, htarget, ?_⟩
          by_cases hempty : target = ""
          · exact .inl hempty
          · exact .inr (by simpa [hempty] using hallowed)

-- Where a goroutine stands: it owns the key, waits for its dial or holds the
-- connection, or has registered the session.
def Stage.owns : Stage → Bool
  | .owner | .failed => true
  | _ => false

def Stage.dials : Stage → Bool
  | .dialing _ | .dialed _ => true
  | _ => false

def Stage.serves : Stage → Bool
  | .registered _ => true
  | _ => false

-- The goroutines of the call at these stages, and its records.
def State.count (cfg : Config) (s : State Addr) (p : Stage → Bool) : ℕ :=
  s.tasks.countP fun t => t.key.nonce = cfg.nonce ∧ p t.stage

def State.held (cfg : Config) (s : State Addr) : ℕ :=
  s.synCache.entries.countP (·.key.nonce = cfg.nonce)

def State.answered (cfg : Config) (s : State Addr) : ℕ :=
  s.synCache.entries.countP fun rec => rec.key.nonce = cfg.nonce ∧ rec.ackFrame.isSome

-- A key of the call, or one that another handshake used.
def KnownKey (cfg : Config) (s : State Addr) (key : SynCacheKey) : Prop :=
  (key.nonce = cfg.nonce ∧ ∃ i < clientMaxHandshakeAttempts, cfg.Accepts i ∧ key = cfg.key i) ∨
    (key.nonce ≠ cfg.nonce ∧ key ∈ s.others)

structure Known (cfg : Config) (s : State Addr) : Prop where
  attempts : s.attempts ≤ clientMaxHandshakeAttempts
  syns : ∀ syn ∈ s.syns, ∃ i < clientMaxHandshakeAttempts, syn = cfg.syn i
  tasks : ∀ t ∈ s.tasks, KnownKey cfg s t.key
  entries : ∀ rec ∈ s.synCache.entries, KnownKey cfg s rec.key
  unique : (s.synCache.entries.map (·.key)).Nodup
  others : s.others.card < synCacheMax

-- One record, and behind it one goroutine that owns the key, or one dial that a
-- goroutine waits for or has turned into a session.
structure Balanced (cfg : Config) (s : State Addr) : Prop where
  held : s.count cfg Stage.owns + s.dialsOf cfg = s.held cfg
  one : s.held cfg ≤ 1
  dials : s.count cfg Stage.dials + s.sessionsOf cfg = s.dialsOf cfg
  serves : s.count cfg Stage.serves ≤ s.sessionsOf cfg
  answered : s.answered cfg ≤ s.sessionsOf cfg

-- The goroutine at the stage it comes to, if it does not end.
def Task.moved (t : Task Addr) (stage : Option Stage) : List (Task Addr) :=
  stage.toList.map fun stage => { t with stage := stage }

theorem count_moved (cfg : Config) {s s' : State Addr} {t : Task Addr} (ht : t ∈ s.tasks) (stage : Option Stage)
    (htasks : s'.tasks = t.moved stage ++ s.tasks.erase t) (p : Stage → Bool) :
    s'.count cfg p + (if t.key.nonce = cfg.nonce then (p t.stage).toNat else 0) =
      s.count cfg p + if t.key.nonce = cfg.nonce then (stage.any p).toNat else 0 := by
  rw [State.count, State.count, htasks, (List.perm_cons_erase ht).countP_eq, List.countP_append,
    List.countP_cons]
  by_cases hours : t.key.nonce = cfg.nonce
  · cases stage with
    | none => simp [Task.moved, hours, Bool.toNat, Bool.cond_eq_ite]
    | some stage =>
        simp [Task.moved, hours, Bool.toNat, Bool.cond_eq_ite, List.countP_cons]
        omega
  · cases stage <;> simp [Task.moved, hours]

section Acquire

variable {s : State Addr} {t : Task Addr} {now : ℕ}

omit [DecidableEq Addr] in
theorem Known.key_eq (h : Known cfg s) (hone : OneKey cfg) {rec : SynRecord SynCacheKey Addr Ack}
    (hrec : rec ∈ s.synCache.entries) (hnonce : rec.key.nonce = cfg.nonce) (ht : t ∈ s.tasks)
    (hours : t.key.nonce = cfg.nonce) : rec.key = t.key := by
  rcases h.entries rec hrec with ⟨-, i, hi, hacc, hkey⟩ | ⟨hno, -⟩
  · rcases h.tasks t ht with ⟨-, j, hj, hacc', hkey'⟩ | ⟨hno, -⟩
    · rw [hkey, hkey']
      exact hone i hi j hj hacc hacc'
    · exact absurd hours hno
  · exact absurd hnonce hno

-- Whoever asks for a key finds room for its record.
omit [DecidableEq Addr] in
theorem Known.room (h : Known cfg s) (hb : Balanced cfg s) (hone : OneKey cfg) (ht : t ∈ s.tasks) :
    (s.synCache.entries.filter (·.key ≠ t.key)).length < synCacheMax := by
  set kept := s.synCache.entries.filter (·.key ≠ t.key) with hkept
  have hsub : kept.Sublist s.synCache.entries := List.filter_sublist
  -- the records of other handshakes have distinct keys among those used
  have hothers : (kept.filter (·.key.nonce ≠ cfg.nonce)).length ≤ (s.others.erase t.key).card := by
    rw [← List.length_map (·.key), ← List.toFinset_card_of_nodup]
    · apply Finset.card_le_card
      intro key hkey
      obtain ⟨rec, hrec, rfl⟩ := List.mem_map.1 (List.mem_toFinset.1 hkey)
      obtain ⟨hrec, hno⟩ := List.mem_filter.1 hrec
      have hne := (List.mem_filter.1 hrec).2
      simp only [decide_eq_true_eq] at hno hne
      rcases h.entries rec (hsub.subset hrec) with ⟨hyes, -⟩ | ⟨-, hmem⟩
      · exact absurd hyes hno
      · exact Finset.mem_erase.2 ⟨hne, hmem⟩
    · exact h.unique.sublist ((List.filter_sublist.trans hsub).map _)
  have hsplit := List.length_eq_countP_add_countP (l := kept) (·.key.nonce = cfg.nonce)
  have hrest : kept.countP (fun rec => decide ¬decide (rec.key.nonce = cfg.nonce) = true) ≤
      (s.others.erase t.key).card := by
    rw [List.countP_eq_length_filter]
    simpa using hothers
  rcases h.tasks t ht with ⟨hours, -⟩ | ⟨hforeign, hmem⟩
  · have hnone : kept.countP (·.key.nonce = cfg.nonce) = 0 := by
      refine List.countP_eq_zero.2 fun rec hrec hnonce => ?_
      obtain ⟨hmem, hne⟩ := List.mem_filter.1 hrec
      simp only [decide_eq_true_eq] at hnonce hne
      exact hne (h.key_eq hone hmem hnonce ht hours)
    have hle := Finset.card_erase_le (s := s.others) (a := t.key)
    have hcard := h.others
    omega
  · have hle : kept.countP (·.key.nonce = cfg.nonce) ≤ s.held cfg := hsub.countP_le
    have hcard := Finset.card_erase_of_mem hmem
    have hpos := Finset.card_pos.2 ⟨t.key, hmem⟩
    have hlt := h.others
    have hheld := hb.one
    omega

-- The record of the goroutine that comes to own its key.
def Task.reservation (t : Task Addr) (now : ℕ) : SynRecord SynCacheKey Addr Ack where
  key := t.key
  ackFrame := none
  createdAt := now
  ownerIP := t.remoteAddr.addr

-- The call's records are fresh, so a key is free only if it has no record.
theorem acquire_cases (h : Known cfg s) (hb : Balanced cfg s) (hone : OneKey cfg) (ht : t ∈ s.tasks)
    (hfresh : ∀ rec ∈ s.synCache.entries, rec.key.nonce = cfg.nonce → rec.fresh now = true) :
    (∃ acks, s.acquire t now = { s.drop t with acks := acks }) ∨
      ((t.key.nonce = cfg.nonce → s.held cfg = 0) ∧ ∃ synCache,
        s.acquire t now = { s.advance t .owner with synCache := synCache } ∧
        synCache.entries = t.reservation now ::
          s.synCache.entries.filter fun rec => rec.key ≠ t.key ∧ rec.fresh now) := by
  by_cases hheld : ∃ rec, s.synCache.entries.find? (·.key = t.key) = some rec ∧ rec.fresh now = true
  · obtain ⟨rec, hfind, hrec⟩ := hheld
    obtain ⟨howner, hsame⟩ := acquire_held hfind hrec t.remoteAddr.addr
    left
    unfold State.acquire
    dsimp only
    rw [hsame]
    split
    · exact ⟨_, rfl⟩
    · exact ⟨s.acks, rfl⟩
    · rename_i hyes
      rw [hyes] at howner
      cases howner
  · have hfind : ∀ rec, s.synCache.entries.find? (·.key = t.key) = some rec →
        rec.fresh now = false := fun rec hrec => by
      simpa using fun hyes => hheld ⟨rec, hrec, hyes⟩
    obtain ⟨howner, hentries⟩ := acquire_free hfind (h.room hb hone ht) t.remoteAddr.addr
    refine .inr ⟨fun hours => ?_, (s.synCache.acquire t.key now t.remoteAddr.addr).2, ?_, hentries⟩
    · refine List.countP_eq_zero.2 fun rec hrec hnonce => ?_
      have hnonce := of_decide_eq_true hnonce
      have hkey := h.key_eq hone hrec hnonce ht hours
      have hsome : (s.synCache.entries.find? (·.key = t.key)).isSome = true :=
        List.find?_isSome.2 ⟨rec, hrec, decide_eq_true hkey⟩
      obtain ⟨found, hfound⟩ := Option.isSome_iff_exists.1 hsome
      obtain ⟨hmem, hfoundKey⟩ := of_find hfound
      have hstale := hfind found hfound
      rw [hfresh found hmem (hfoundKey ▸ hours)] at hstale
      cases hstale
    · unfold State.acquire
      dsimp only
      rw [howner]
      rfl

end Acquire

section Steps

variable {s s' : State Addr} {t : Task Addr}

-- A step that neither starts a goroutine nor adds a record.
omit [DecidableEq Addr] in
theorem Known.step (h : Known cfg s) (hattempts : s'.attempts = s.attempts) (hsyns : s'.syns = s.syns)
    (hothers : s'.others = s.others) (htasks : ∀ u ∈ s'.tasks, ∃ v ∈ s.tasks, u.key = v.key)
    (hentries : (s'.synCache.entries.map (·.key)).Sublist (s.synCache.entries.map (·.key))) :
    Known cfg s' := by
  have hkey : ∀ key, KnownKey cfg s key → KnownKey cfg s' key := by
    intro key hknown
    unfold KnownKey
    rwa [hothers]
  refine ⟨hattempts ▸ h.attempts, hsyns ▸ h.syns, ?_, ?_, h.unique.sublist hentries, hothers ▸ h.others⟩
  · intro u hu
    obtain ⟨v, hv, he⟩ := htasks u hu
    rw [he]
    exact hkey _ (h.tasks v hv)
  · intro rec hrec
    obtain ⟨old, hold, he⟩ := List.mem_map.1 (hentries.subset (List.mem_map_of_mem hrec))
    rw [← he]
    exact hkey _ (h.entries old hold)

theorem mem_drop {u : Task Addr} (hu : u ∈ (s.drop t).tasks) : ∃ v ∈ s.tasks, u.key = v.key :=
  ⟨u, List.mem_of_mem_erase hu, rfl⟩

theorem mem_advance (ht : t ∈ s.tasks) {stage : Stage} {u : Task Addr}
    (hu : u ∈ (s.advance t stage).tasks) : ∃ v ∈ s.tasks, u.key = v.key := by
  rcases List.mem_cons.1 hu with rfl | hu
  · exact ⟨t, ht, rfl⟩
  · exact ⟨u, List.mem_of_mem_erase hu, rfl⟩

omit [DecidableEq Addr] in
theorem entries_abort_sublist (c : Cache SynCacheKey Addr Ack) (key : SynCacheKey) :
    ((c.abort key).entries.map (·.key)).Sublist (c.entries.map (·.key)) :=
  List.filter_sublist.map _

omit [DecidableEq Addr] in
theorem keys_complete (c : Cache SynCacheKey Addr Ack) (key : SynCacheKey) (ack : Ack) :
    (c.complete key ack).entries.map (·.key) = c.entries.map (·.key) := by
  rw [Cache.complete, List.map_map]
  refine List.map_congr_left fun rec _ => ?_
  dsimp only [Function.comp]
  split <;> rfl

-- What another handshake does to its own record leaves the call's alone.
omit [DecidableEq Addr] in
theorem countP_abort_foreign (c : Cache SynCacheKey Addr Ack) {key : SynCacheKey}
    (hforeign : key.nonce ≠ cfg.nonce)
    (hq : ∀ rec, q rec = true → rec.key.nonce = cfg.nonce) :
    (c.abort key).entries.countP q = c.entries.countP q := by
  rw [Cache.abort, List.countP_filter]
  refine List.countP_congr fun rec _ => ?_
  simp only [Bool.and_eq_true, decide_eq_true_eq, and_iff_left_iff_imp]
  rintro hrec ⟨rfl, -⟩
  exact hforeign (hq rec hrec)

omit [DecidableEq Addr] in
theorem countP_complete_foreign (c : Cache SynCacheKey Addr Ack) {key : SynCacheKey}
    (hforeign : key.nonce ≠ cfg.nonce) (ack : Ack)
    (hq : ∀ rec, q rec = true → rec.key.nonce = cfg.nonce) :
    (c.complete key ack).entries.countP q = c.entries.countP q := by
  rw [Cache.complete, List.countP_map]
  refine List.countP_congr fun rec _ => ?_
  dsimp only [Function.comp]
  split
  · rename_i hkey
    have hno : rec.key.nonce ≠ cfg.nonce := hkey ▸ hforeign
    exact iff_of_false (fun h => hno (hq (rec.publish ack) h)) fun h => hno (hq rec h)
  · rfl

omit [DecidableEq Addr] in
theorem held_complete (s : State Addr) (key : SynCacheKey) (ack : Ack) :
    (s.synCache.complete key ack).entries.countP (·.key.nonce = cfg.nonce) = s.held cfg := by
  have hmap : ∀ l : List (SynRecord SynCacheKey Addr Ack), l.countP (·.key.nonce = cfg.nonce) =
      (l.map (·.key)).countP (·.nonce = cfg.nonce) := fun l => by
    rw [List.countP_map]
    rfl
  rw [State.held, hmap, hmap, keys_complete]

-- A goroutine of another handshake, whatever stage it comes to.
theorem Balanced.foreign (h : Balanced cfg s) (ht : t ∈ s.tasks) (hforeign : t.key.nonce ≠ cfg.nonce)
    (stage : Option Stage) (htasks : s'.tasks = t.moved stage ++ s.tasks.erase t)
    (hdials : s'.dialsOf cfg = s.dialsOf cfg) (hsessions : s'.sessionsOf cfg = s.sessionsOf cfg)
    (hheld : s'.held cfg = s.held cfg) (hanswered : s'.answered cfg = s.answered cfg) :
    Balanced cfg s' := by
  have hcount : ∀ p, s'.count cfg p = s.count cfg p := fun p => by
    simpa only [if_neg hforeign, Nat.add_zero] using count_moved cfg ht stage htasks p
  obtain ⟨h1, h2, h3, h4, h5⟩ := h
  constructor <;> simp only [hcount, hdials, hsessions, hheld, hanswered] <;> assumption

-- One of the call's own, with the `a` dials and `b` sessions it adds.
theorem Balanced.moved (h : Balanced cfg s) (ht : t ∈ s.tasks) (hours : t.key.nonce = cfg.nonce)
    {old : Stage} (hstage : t.stage = old) (stage : Option Stage)
    (htasks : s'.tasks = t.moved stage ++ s.tasks.erase t) {a b : ℕ}
    (hdials : s'.dialsOf cfg = s.dialsOf cfg + a)
    (hsessions : s'.sessionsOf cfg = s.sessionsOf cfg + b)
    (hheld : s'.held cfg + old.owns.toNat = s.held cfg + (stage.any Stage.owns).toNat + a)
    (hone : s'.held cfg ≤ 1) (hkind : (stage.any Stage.dials).toNat + b = old.dials.toNat + a)
    (hserves : (stage.any Stage.serves).toNat ≤ old.serves.toNat + b)
    (hanswered : s'.answered cfg ≤ s'.sessionsOf cfg) : Balanced cfg s' := by
  have hcount : ∀ p : Stage → Bool,
      s'.count cfg p + (p old).toNat = s.count cfg p + (stage.any p).toNat := fun p => by
    simpa only [if_pos hours, hstage] using count_moved cfg ht stage htasks p
  have howns := hcount Stage.owns
  have hwaits := hcount Stage.dials
  have hserving := hcount Stage.serves
  obtain ⟨h1, h2, h3, h4, h5⟩ := h
  constructor <;> omega

-- A new record counts for the call if the key is the call's, and displaces none.
omit [DecidableEq Addr] in
theorem countP_acquired {now : ℕ} {synCache : Cache SynCacheKey Addr Ack}
    (hentries : synCache.entries = t.reservation now ::
      s.synCache.entries.filter fun rec => rec.key ≠ t.key ∧ rec.fresh now)
    (hfresh : ∀ rec ∈ s.synCache.entries, rec.key.nonce = cfg.nonce → rec.fresh now = true)
    (hnone : t.key.nonce = cfg.nonce → s.held cfg = 0)
   
    (hq : ∀ rec, q rec = true → rec.key.nonce = cfg.nonce) :
    synCache.entries.countP q =
      s.synCache.entries.countP q + if q (t.reservation now) then 1 else 0 := by
  rw [hentries, List.countP_cons, List.countP_filter]
  congr 1
  refine List.countP_congr fun rec hrec => ?_
  simp only [Bool.and_eq_true, decide_eq_true_eq, and_iff_left_iff_imp]
  intro hyes
  refine ⟨fun hkey => ?_, hfresh rec hrec (hq rec hyes)⟩
  have hzero := hnone (hkey ▸ hq rec hyes)
  exact List.countP_eq_zero.1 hzero rec hrec (decide_eq_true (hq rec hyes))

theorem Known.acquire {now : ℕ} (h : Known cfg s) (hb : Balanced cfg s) (hone : OneKey cfg)
    (ht : t ∈ s.tasks)
    (hfresh : ∀ rec ∈ s.synCache.entries, rec.key.nonce = cfg.nonce → rec.fresh now = true) :
    Known cfg (s.acquire t now) := by
  rcases acquire_cases h hb hone ht hfresh with ⟨acks, he⟩ | ⟨-, synCache, he, hentries⟩
  · rw [he]
    exact h.step rfl rfl rfl (fun _ => mem_drop) (.refl _)
  · rw [he]
    -- a goroutine that moves on, then the new record
    have hmoved : Known cfg (s.advance t .owner) :=
      h.step rfl rfl rfl (fun _ => mem_advance ht) (.refl _)
    refine { hmoved with entries := fun rec hrec => ?_, unique := ?_ }
    · rw [hentries] at hrec
      rcases List.mem_cons.1 hrec with rfl | hrec
      · exact h.tasks t ht
      · exact h.entries rec (List.mem_of_mem_filter hrec)
    · rw [hentries, List.map_cons]
      refine List.nodup_cons.2 ⟨fun hmem => ?_, h.unique.sublist (List.filter_sublist.map _)⟩
      obtain ⟨rec, hrec, hkey⟩ := List.mem_map.1 hmem
      have hne := (List.mem_filter.1 hrec).2
      simp only [decide_eq_true_eq] at hne
      exact hne.1 hkey

theorem Balanced.dropVerified (h : Balanced cfg s) (ht : t ∈ s.tasks) (hstage : t.stage = .verified)
    (acks : List Ack) : Balanced cfg { s.drop t with acks := acks } := by
  by_cases hours : t.key.nonce = cfg.nonce
  · exact h.moved ht hours hstage none rfl (a := 0) (b := 0) rfl rfl rfl h.one rfl (by decide) h.answered
  · exact h.foreign ht hours none rfl rfl rfl rfl rfl

theorem Balanced.acquire {now : ℕ} (hb : Balanced cfg s) (h : Known cfg s) (hone : OneKey cfg)
    (ht : t ∈ s.tasks) (hstage : t.stage = .verified)
    (hfresh : ∀ rec ∈ s.synCache.entries, rec.key.nonce = cfg.nonce → rec.fresh now = true) :
    Balanced cfg (s.acquire t now) := by
  rcases acquire_cases h hb hone ht hfresh with ⟨acks, he⟩ | ⟨hnone, synCache, he, hentries⟩
  · rw [he]
    exact hb.dropVerified ht hstage acks
  · have hheld := countP_acquired hentries hfresh hnone (q := (·.key.nonce = cfg.nonce))
      fun _ => of_decide_eq_true
    have hanswered := countP_acquired hentries hfresh hnone
      (q := fun rec => rec.key.nonce = cfg.nonce ∧ rec.ackFrame.isSome)
      fun _ hyes => (of_decide_eq_true hyes).1
    simp only [Task.reservation, Option.isSome_none, Bool.false_eq_true, and_false, decide_false,
      if_false, Nat.add_zero] at hheld hanswered
    rw [he]
    by_cases hours : t.key.nonce = cfg.nonce
    · simp only [hours, decide_true, if_true] at hheld
      have hzero : s.synCache.entries.countP (·.key.nonce = cfg.nonce) = 0 := hnone hours
      exact hb.moved ht hours hstage (some .owner) rfl (a := 0) (b := 0) rfl rfl hheld
        (hheld.trans (congrArg (· + 1) hzero)).le rfl (by decide) (hanswered.le.trans hb.answered)
    · simp only [hours, decide_false, Bool.false_eq_true, if_false, Nat.add_zero] at hheld
      exact hb.foreign ht hours (some .owner) rfl rfl rfl hheld hanswered

omit [DecidableEq Addr] in
theorem count_spawn (s : State Addr) (key : SynCacheKey) (remoteAddr : AddrPort Addr)
    {p : Stage → Bool} (hp : p .verified = false) :
    (s.spawn key remoteAddr).count cfg p = s.count cfg p := by
  rw [State.count, State.spawn, List.countP_cons]
  simp [hp, State.count]

omit [DecidableEq Addr] in
theorem Balanced.spawn (h : Balanced cfg s) (key : SynCacheKey) (remoteAddr : AddrPort Addr)
    (others : Finset SynCacheKey) : Balanced cfg { s.spawn key remoteAddr with others := others } := by
  obtain ⟨h1, h2, h3, h4, h5⟩ := h
  refine ⟨?_, h2, ?_, ?_, h5⟩
  · exact (congrArg (· + _) (count_spawn s key remoteAddr rfl)).trans h1
  · exact (congrArg (· + _) (count_spawn s key remoteAddr rfl)).trans h3
  · exact (count_spawn s key remoteAddr rfl).le.trans h4

omit [DecidableEq Addr] in
theorem answered_le_held (cfg : Config) (s : State Addr) : s.answered cfg ≤ s.held cfg :=
  List.countP_mono_left fun _ _ hyes => decide_eq_true (of_decide_eq_true hyes).1

omit [DecidableEq Addr] in
theorem count_pos (ht : t ∈ s.tasks) (hours : t.key.nonce = cfg.nonce) {p : Stage → Bool}
    (hp : p t.stage = true) : 0 < s.count cfg p :=
  List.countP_pos_iff.2 ⟨t, ht, decide_eq_true ⟨hours, hp⟩⟩

section Own

variable (h : Balanced cfg s) (ht : t ∈ s.tasks)
include h ht

theorem Balanced.dial (hstage : t.stage = .owner) (sessionID : ℕ) :
    Balanced cfg { s.advance t (.dialing sessionID) with dials := t.key :: s.dials } := by
  by_cases hours : t.key.nonce = cfg.nonce
  · exact h.moved ht hours hstage (some (.dialing sessionID)) rfl (a := 1) (b := 0)
      (List.countP_cons_of_pos (decide_eq_true hours)) rfl rfl h.one rfl (Nat.le_refl _) h.answered
  · exact h.foreign ht hours (some (.dialing sessionID)) rfl
      (List.countP_cons_of_neg (by simpa using hours)) rfl rfl rfl

theorem Balanced.refuse (hstage : t.stage = .owner) : Balanced cfg (s.advance t .failed) := by
  by_cases hours : t.key.nonce = cfg.nonce
  · exact h.moved ht hours hstage (some .failed) rfl (a := 0) (b := 0) rfl rfl rfl h.one rfl
      (Nat.le_refl _) h.answered
  · exact h.foreign ht hours (some .failed) rfl rfl rfl rfl rfl

theorem Balanced.rollback (hforeign : t.key.nonce ≠ cfg.nonce) : Balanced cfg (s.rollback t) :=
  h.foreign ht hforeign (some .failed) rfl rfl rfl
    (countP_abort_foreign _ hforeign fun _ => of_decide_eq_true)
    (countP_abort_foreign _ hforeign fun _ hyes => (of_decide_eq_true hyes).1)

theorem Balanced.dialed {sessionID : ℕ} (hstage : t.stage = .dialing sessionID) {ok : Bool}
    (hok : t.key.nonce = cfg.nonce → ok = true ∧ s.closed = false) :
    Balanced cfg (s.dialed t sessionID ok) := by
  unfold State.dialed
  by_cases hours : t.key.nonce = cfg.nonce
  · obtain ⟨rfl, hopen⟩ := hok hours
    rw [if_neg (by simp), if_neg (by simp [hopen])]
    exact h.moved ht hours hstage (some (.dialed sessionID)) rfl (a := 0) (b := 0) rfl rfl rfl h.one rfl
      (Nat.le_refl _) h.answered
  · split
    · exact h.foreign ht hours (some .failed) rfl rfl rfl rfl rfl
    · split
      · exact h.rollback ht hours
      · exact h.foreign ht hours (some (.dialed sessionID)) rfl rfl rfl rfl rfl

theorem Balanced.register {sessionID : ℕ} (hstage : t.stage = .dialed sessionID) {ok : Bool}
    (hok : t.key.nonce = cfg.nonce → ok = true ∧ s.closed = false ∧ sessionID ∉ s.sessions) :
    Balanced cfg (s.register t sessionID ok) := by
  unfold State.register
  by_cases hours : t.key.nonce = cfg.nonce
  · obtain ⟨rfl, hopen, hnew⟩ := hok hours
    rw [if_neg (by simp), if_neg (by simp [hopen, hnew])]
    have hsessions : (t.key :: s.established).countP (·.nonce = cfg.nonce) = s.sessionsOf cfg + 1 :=
      List.countP_cons_of_pos (decide_eq_true hours)
    exact h.moved ht hours hstage (some (.registered sessionID)) rfl (a := 0) (b := 1) rfl hsessions rfl
      h.one rfl (Nat.le_refl _) (h.answered.trans ((Nat.le_succ _).trans hsessions.ge))
  · split
    · exact h.foreign ht hours (some .failed) rfl rfl rfl rfl rfl
    · split
      · exact h.rollback ht hours
      · exact h.foreign ht hours (some (.registered sessionID)) rfl rfl
          (List.countP_cons_of_neg (by simpa using hours)) rfl rfl

theorem Balanced.complete {sessionID : ℕ} (hstage : t.stage = .registered sessionID) :
    Balanced cfg (s.complete t sessionID) := by
  by_cases hours : t.key.nonce = cfg.nonce
  · have hheld : (s.complete t sessionID).held cfg = s.held cfg := held_complete s _ _
    have hserving := count_pos ht hours (p := Stage.serves) (by rw [hstage]; rfl)
    -- there is one record at most
    refine h.moved ht hours hstage none rfl (a := 0) (b := 0) rfl rfl hheld (hheld.le.trans h.one) rfl
      (Nat.zero_le _) ?_
    exact (answered_le_held cfg _).trans ((hheld.le.trans h.one).trans (hserving.trans_le h.serves))
  · exact h.foreign ht hours none rfl rfl rfl
      (countP_complete_foreign _ hours _ fun _ => of_decide_eq_true)
      (countP_complete_foreign _ hours _ fun _ hyes => (of_decide_eq_true hyes).1)

-- The owner of the key gives its record back: nothing was dialed, so it is not
-- completed.
theorem Balanced.abort (hk : Known cfg s) (hone : OneKey cfg) (hstage : t.stage = .failed) :
    Balanced cfg { s.drop t with synCache := s.synCache.abort t.key } := by
  by_cases hours : t.key.nonce = cfg.nonce
  · have howning := count_pos ht hours (p := Stage.owns) (by rw [hstage]; rfl)
    obtain ⟨hheld, hunanswered⟩ : s.held cfg = 1 ∧ s.answered cfg = 0 := by
      obtain ⟨h1, h2, h3, h4, h5⟩ := h
      omega
    have hnone : (s.synCache.abort t.key).entries.countP (·.key.nonce = cfg.nonce) = 0 := by
      refine List.countP_eq_zero.2 fun rec hrec hnonce => ?_
      obtain ⟨hmem, hkept⟩ := List.mem_filter.1 hrec
      have hanswer := List.countP_eq_zero.1 hunanswered rec hmem
      simp only [decide_eq_true_eq] at hkept hanswer hnonce
      refine hkept ⟨hk.key_eq hone hmem hnonce ht hours, ?_⟩
      simpa [hnonce] using hanswer
    exact h.moved ht hours hstage none rfl (a := 0) (b := 0) rfl rfl
      ((congrArg (· + 1) hnone).trans hheld.symm) (hnone.le.trans (Nat.zero_le 1)) rfl (by decide)
      ((answered_le_held cfg _).trans (hnone.le.trans (Nat.zero_le _)))
  · exact h.foreign ht hours none rfl rfl rfl
      (countP_abort_foreign _ hours fun _ => of_decide_eq_true)
      (countP_abort_foreign _ hours fun _ hyes => (of_decide_eq_true hyes).1)

end Own

theorem Known.rollback (h : Known cfg s) (ht : t ∈ s.tasks) : Known cfg (s.rollback t) :=
  h.step rfl rfl rfl (fun _ => mem_advance ht) (entries_abort_sublist _ _)

theorem Known.advance (h : Known cfg s) (ht : t ∈ s.tasks) (stage : Stage) :
    Known cfg (s.advance t stage) :=
  h.step rfl rfl rfl (fun _ => mem_advance ht) (.refl _)

end Steps

-- The ways a step can go.
inductive Step (cfg : Config) (s : State Addr) : Label Addr → State Addr → Prop
  | attempt (more : s.attempts < clientMaxHandshakeAttempts) (waiting : s.finished = false) :
      Step cfg s .attempt { s with attempts := s.attempts + 1, syns := cfg.syn s.attempts :: s.syns }
  | giveUp : Step cfg s .giveUp { s with finished := true }
  | receiveAck (ack : Ack) (mem : ack ∈ s.acks) (ours : ack.key.nonce = cfg.nonce) :
      Step cfg s (.receiveAck ack) { s with finished := true }
  | ignore (syn : Syn) (remoteAddr : AddrPort Addr) (now : ℤ) (live : ℕ) :
      Step cfg s (.receive syn remoteAddr now live) s
  | receive {syn : Syn} (remoteAddr : AddrPort Addr) {now : ℤ} {live : ℕ} {key : SynCacheKey}
      (mem : syn ∈ s.syns) (admitted : admitSyn cfg syn now live = some key) :
      Step cfg s (.receive syn remoteAddr now live) (s.spawn key remoteAddr)
  | receiveOther {key : SynCacheKey} (remoteAddr : AddrPort Addr) (foreign : key.nonce ≠ cfg.nonce) :
      Step cfg s (.receiveOther key remoteAddr)
        { s.spawn key remoteAddr with others := insert key s.others }
  | acquire {t : Task Addr} (now : ℕ) (mem : t ∈ s.tasks) (stage : t.stage = .verified) :
      Step cfg s (.acquire t now) (s.acquire t now)
  | dial {t : Task Addr} {sessionID : ℕ} (mem : t ∈ s.tasks) (stage : t.stage = .owner)
      (nonzero : sessionID ≠ 0) (unused : sessionID ∉ s.sessions) :
      Step cfg s (.dial t sessionID) { s.advance t (.dialing sessionID) with dials := t.key :: s.dials }
  | refuse {t : Task Addr} (mem : t ∈ s.tasks) (stage : t.stage = .owner) :
      Step cfg s (.refuse t) (s.advance t .failed)
  | dialed {t : Task Addr} {sessionID : ℕ} (ok : Bool) (mem : t ∈ s.tasks)
      (stage : t.stage = .dialing sessionID) : Step cfg s (.dialed t ok) (s.dialed t sessionID ok)
  | register {t : Task Addr} {sessionID : ℕ} (ok : Bool) (mem : t ∈ s.tasks)
      (stage : t.stage = .dialed sessionID) : Step cfg s (.register t ok) (s.register t sessionID ok)
  | complete {t : Task Addr} {sessionID : ℕ} (mem : t ∈ s.tasks)
      (stage : t.stage = .registered sessionID) : Step cfg s (.complete t) (s.complete t sessionID)
  | abort {t : Task Addr} (mem : t ∈ s.tasks) (stage : t.stage = .failed) :
      Step cfg s (.abort t) { s.drop t with synCache := s.synCache.abort t.key }
  | closeSession (sessionID : ℕ) :
      Step cfg s (.closeSession sessionID) { s with sessions := s.sessions.erase sessionID }
  | close : Step cfg s .close { s with closed := true }

theorem step_of_next {s s' : State Addr} {l : Label Addr} (hst : next cfg s l = some s') :
    Step cfg s l s' := by
  cases l with
  | attempt =>
      obtain ⟨hguard, ⟨⟩⟩ := Option.ite_none_right_eq_some.1 hst
      exact .attempt hguard.2 hguard.1
  | giveUp =>
      cases hst
      exact .giveUp
  | receiveAck ack =>
      obtain ⟨hguard, ⟨⟩⟩ := Option.ite_none_right_eq_some.1 hst
      exact .receiveAck ack hguard.1 hguard.2
  | receive syn remoteAddr now live =>
      obtain ⟨hsyn, hst⟩ := Option.ite_none_right_eq_some.1 hst
      split at hst
      · cases hst
        exact .ignore syn remoteAddr now live
      · rename_i key hadmit
        cases hst
        exact .receive remoteAddr hsyn hadmit
  | receiveOther key remoteAddr =>
      obtain ⟨hforeign, ⟨⟩⟩ := Option.ite_none_right_eq_some.1 hst
      exact .receiveOther remoteAddr hforeign
  | acquire t now =>
      obtain ⟨hguard, ⟨⟩⟩ := Option.ite_none_right_eq_some.1 hst
      exact .acquire now hguard.1 hguard.2
  | dial t sessionID =>
      obtain ⟨⟨hmem, hstage, hnonzero, hunused⟩, ⟨⟩⟩ := Option.ite_none_right_eq_some.1 hst
      exact .dial hmem hstage hnonzero hunused
  | refuse t =>
      obtain ⟨hguard, ⟨⟩⟩ := Option.ite_none_right_eq_some.1 hst
      exact .refuse hguard.1 hguard.2
  | dialed t ok =>
      simp only [next] at hst
      split at hst
      · rename_i hstage
        obtain ⟨hmem, ⟨⟩⟩ := Option.ite_none_right_eq_some.1 hst
        exact .dialed ok hmem hstage
      · cases hst
  | register t ok =>
      simp only [next] at hst
      split at hst
      · rename_i hstage
        obtain ⟨hmem, ⟨⟩⟩ := Option.ite_none_right_eq_some.1 hst
        exact .register ok hmem hstage
      · cases hst
  | complete t =>
      simp only [next] at hst
      split at hst
      · rename_i hstage
        obtain ⟨hmem, ⟨⟩⟩ := Option.ite_none_right_eq_some.1 hst
        exact .complete hmem hstage
      · cases hst
  | abort t =>
      obtain ⟨hguard, ⟨⟩⟩ := Option.ite_none_right_eq_some.1 hst
      exact .abort hguard.1 hguard.2
  | closeSession sessionID =>
      cases hst
      exact .closeSession sessionID
  | close =>
      cases hst
      exact .close

-- Every step of a steady run keeps the account of the call.
theorem known_step (hone : OneKey cfg) {s s' : State Addr} {l : Label Addr} (h : Known cfg s)
    (hb : Balanced cfg s) (hsteady : Steady cfg s l) (hst : Step cfg s l s') : Known cfg s' := by
  cases hst with
  | attempt hmore _ =>
      refine { h with attempts := hmore, syns := fun syn hsyn => ?_ }
      rcases List.mem_cons.1 hsyn with rfl | hsyn
      · exact ⟨s.attempts, hmore, rfl⟩
      · exact h.syns syn hsyn
  | giveUp => exact { h with }
  | receiveAck ack _ _ => exact { h with }
  | ignore syn remoteAddr now live => exact h
  | receive remoteAddr hsyn hadmit =>
      refine { h with tasks := fun t ht => ?_ }
      rcases List.mem_cons.1 ht with rfl | ht
      · obtain ⟨hkey, hmatch, htarget⟩ := admitSyn_some hadmit
        obtain ⟨i, hi, rfl⟩ := h.syns _ hsyn
        exact .inl ⟨by rw [hkey]; rfl, i, hi, ⟨hmatch, htarget⟩, hkey⟩
      · exact h.tasks t ht
  | @receiveOther key remoteAddr hforeign =>
      have hmono : ∀ k, KnownKey cfg s k → k.nonce = cfg.nonce ∧
          (∃ i < clientMaxHandshakeAttempts, cfg.Accepts i ∧ k = cfg.key i) ∨
            (k.nonce ≠ cfg.nonce ∧ k ∈ insert key s.others) := fun k hk =>
        hk.imp_right fun hno => ⟨hno.1, Finset.mem_insert_of_mem hno.2⟩
      refine ⟨h.attempts, h.syns, fun t ht => ?_, fun rec hrec => hmono _ (h.entries rec hrec),
        h.unique, hsteady⟩
      rcases List.mem_cons.1 ht with rfl | ht
      · exact .inr ⟨hforeign, Finset.mem_insert_self _ _⟩
      · exact hmono _ (h.tasks t ht)
  | acquire now ht _ => exact h.acquire hb hone ht hsteady
  | @dial t sessionID ht _ _ _ => exact { h.advance ht (.dialing sessionID) with }
  | refuse ht _ => exact h.advance ht .failed
  | dialed ok ht _ =>
      unfold State.dialed
      split
      · exact h.advance ht _
      · split
        · exact h.rollback ht
        · exact h.advance ht _
  | @register t sessionID ok ht _ =>
      unfold State.register
      split
      · exact h.advance ht _
      · split
        · exact h.rollback ht
        · exact { h.advance ht (.registered sessionID) with }
  | complete _ _ =>
      refine h.step rfl rfl rfl (fun _ => mem_drop) ?_
      simp only [State.complete, keys_complete]
      exact .refl _
  | abort _ _ => exact h.step rfl rfl rfl (fun _ => mem_drop) (entries_abort_sublist _ _)
  | closeSession sessionID => exact { h with }
  | close => exact { h with }

theorem balanced_step (hone : OneKey cfg) {s s' : State Addr} {l : Label Addr} (h : Known cfg s)
    (hb : Balanced cfg s) (hsteady : Steady cfg s l) (hst : Step cfg s l s') : Balanced cfg s' := by
  cases hst with
  | attempt _ _ => exact { hb with }
  | giveUp => exact { hb with }
  | receiveAck ack _ _ => exact { hb with }
  | ignore syn remoteAddr now live => exact hb
  | receive remoteAddr _ _ => exact hb.spawn _ remoteAddr s.others
  | receiveOther remoteAddr _ => exact hb.spawn _ remoteAddr _
  | acquire now ht hstage => exact hb.acquire h hone ht hstage hsteady
  | dial ht hstage _ _ => exact hb.dial ht hstage _
  | refuse ht hstage => exact hb.refuse ht hstage
  | dialed ok ht hstage => exact hb.dialed ht hstage hsteady
  | register ok ht hstage =>
      refine hb.register ht hstage fun hours => ?_
      obtain ⟨hok, hopen, hnew⟩ := hsteady hours
      exact ⟨hok, hopen, hnew _ (by rw [hstage]; rfl)⟩
  | complete ht hstage => exact hb.complete ht hstage
  | abort ht hstage => exact hb.abort ht h hone hstage
  | closeSession sessionID => exact { hb with }
  | close => exact { hb with }

theorem balanced_of_steady (hone : OneKey cfg) {s : State Addr}
    (h : ReachableBy (system Addr cfg) (Steady cfg) s) : Known cfg s ∧ Balanced cfg s := by
  apply h.invariant
  · rintro s rfl
    refine ⟨⟨Nat.zero_le _, nofun, nofun, nofun, List.nodup_nil, ?_⟩, rfl, Nat.zero_le _, rfl, ?_, ?_⟩
    · exact Nat.succ_pos _
    · exact Nat.zero_le _
    · exact Nat.zero_le _
  · intro s l s' hinv hsteady hst
    have hstep := step_of_next hst
    exact ⟨known_step hone hinv.1 hinv.2 hsteady hstep, balanced_step hone hinv.1 hinv.2 hsteady hstep⟩

section TwoKeys

variable {s : State Addr} {i : ℕ}

theorem admitSyn_accepts (h : cfg.Accepts i) : admitSyn cfg (cfg.syn i) cfg.timestamp 0 = some (cfg.key i) := by
  obtain ⟨hmatch, target, htarget, hallowed⟩ := h
  obtain ⟨psk, hpsk⟩ := Option.isSome_iff_exists.1 hmatch
  have hmac : cfg.synMAC psk cfg.nonce = (cfg.syn i).macKey := of_decide_eq_true (List.find?_some hpsk :)
  unfold admitSyn
  rw [hpsk]
  dsimp only
  rw [if_neg (by simp [synTimestampWindow]), htarget]
  dsimp only
  rw [if_neg (by rcases hallowed with h | h <;> simp [h]), if_neg (by omega), hmac]
  rfl

-- All SYNs of the call leave before any ACK comes back.
theorem reach_attempts (Addr : Type) [DecidableEq Addr] (cfg : Config) {n : ℕ}
    (hn : n ≤ clientMaxHandshakeAttempts) : ReachableBy (system Addr cfg) (Steady cfg)
      { initial with attempts := n, syns := ((List.range n).map cfg.syn).reverse } := by
  induction n with
  | zero => exact .init rfl
  | succ n ih =>
      refine .step (ih (Nat.le_of_succ_le hn)) (l := .attempt) trivial ?_
      refine (if_pos ⟨rfl, hn⟩).trans ?_
      rw [List.range_succ, List.map_append, List.reverse_append]
      rfl

-- A SYN under a key the cache does not know gets the target dialed.
theorem reach_dial (h : ReachableBy (system Addr cfg) (Steady cfg) s) (hsyn : cfg.syn i ∈ s.syns)
    (hacc : cfg.Accepts i) (hnew : ∀ rec ∈ s.synCache.entries, rec.key ≠ cfg.key i)
    (hroom : s.synCache.entries.length < synCacheMax) (hsessions : s.sessions = [])
    (remoteAddr : AddrPort Addr) :
    ∃ s', ReachableBy (system Addr cfg) (Steady cfg) s' ∧ s'.syns = s.syns ∧ s'.sessions = [] ∧
      s'.dials = cfg.key i :: s.dials ∧
      s'.synCache.entries.map (·.key) = cfg.key i :: s.synCache.entries.map (·.key) := by
  set t : Task Addr := { key := cfg.key i, remoteAddr := remoteAddr, stage := .verified } with ht
  set s₁ := s.spawn (cfg.key i) remoteAddr with hs₁
  have hspawn : next cfg s (.receive (cfg.syn i) remoteAddr cfg.timestamp 0) = some s₁ := by
    simp only [next]
    rw [if_pos hsyn, admitSyn_accepts hacc]
  have hspawned : ReachableBy (system Addr cfg) (Steady cfg) s₁ :=
    .step h (l := .receive (cfg.syn i) remoteAddr cfg.timestamp 0) trivial hspawn
  -- the key is free
  have hfree : ∀ rec, s₁.synCache.entries.find? (·.key = t.key) = some rec → rec.fresh 0 = false := by
    intro rec hrec
    obtain ⟨hmem, hkey⟩ := of_find hrec
    exact absurd hkey (hnew rec hmem)
  have hfresh : ∀ rec : SynRecord SynCacheKey Addr Ack, rec.fresh 0 = true := fun rec => by
    simp [SynRecord.fresh]
  obtain ⟨howner, hentries⟩ := acquire_free hfree ((List.length_filter_le _ _).trans_lt hroom)
    t.remoteAddr.addr
  set s₂ : State Addr := { s₁.advance t .owner with
    synCache := (s₁.synCache.acquire t.key 0 t.remoteAddr.addr).2 } with hs₂
  have hacquire : next cfg s₁ (.acquire t 0) = some s₂ := by
    simp only [next]
    rw [if_pos ⟨List.mem_cons_self, rfl⟩, State.acquire]
    dsimp only
    rw [howner]
    rfl
  have hacquired : ReachableBy (system Addr cfg) (Steady cfg) s₂ :=
    .step hspawned (l := .acquire t 0) (fun rec _ _ => hfresh rec) hacquire
  have hunused : 1 ∉ s₂.sessions := by
    change 1 ∉ s.sessions
    rw [hsessions]
    exact List.not_mem_nil
  have hdial : next cfg s₂ (.dial { t with stage := .owner } 1) =
      some { s₂.advance { t with stage := .owner } (.dialing 1) with dials := t.key :: s₂.dials } :=
    if_pos ⟨List.mem_cons_self, rfl, Nat.one_ne_zero, hunused⟩
  refine ⟨_, .step hacquired (l := .dial { t with stage := .owner } 1) trivial hdial, rfl, hsessions,
    rfl, ?_⟩
  change (s₁.synCache.acquire t.key 0 t.remoteAddr.addr).2.entries.map (·.key) = _
  rw [hentries, List.map_cons, List.filter_eq_self.2]
  · rfl
  · intro rec hrec
    exact decide_eq_true ⟨hnew rec hrec, hfresh rec⟩

end TwoKeys

-- The call leads to one dial and one session at most, in every steady run, exactly
-- if the passwords the server takes all lead to one key.
theorem one_session_iff [Nonempty Addr] (cfg : Config) :
    (∀ s, ReachableBy (system Addr cfg) (Steady cfg) s → s.dialsOf cfg ≤ 1 ∧ s.sessionsOf cfg ≤ 1) ↔
      OneKey cfg := by
  constructor
  · intro honce i hi j hj hacci haccj
    by_contra hkey
    obtain ⟨addr⟩ := ‹Nonempty Addr›
    have hsent := reach_attempts Addr cfg (Nat.le_refl _)
    have hmem : ∀ k < clientMaxHandshakeAttempts,
        cfg.syn k ∈ ((List.range clientMaxHandshakeAttempts).map cfg.syn).reverse := fun k hk =>
      List.mem_reverse.2 (List.mem_map_of_mem (List.mem_range.2 hk))
    obtain ⟨s₁, hs₁, hsyns, hsessions, hdials, hkeys⟩ :=
      reach_dial hsent (hmem i hi) hacci nofun (show 0 < synCacheMax by decide) rfl ⟨addr, 0⟩
    obtain ⟨s₂, hs₂, -, -, hdials', -⟩ := reach_dial hs₁ (hsyns ▸ hmem j hj) haccj
      (by
        intro rec hrec he
        have hone : rec.key ∈ s₁.synCache.entries.map (·.key) := List.mem_map_of_mem hrec
        rw [hkeys, he] at hone
        exact hkey (List.mem_singleton.1 hone).symm)
      (by
        rw [← List.length_map (·.key), hkeys]
        exact show 1 < synCacheMax by decide) hsessions ⟨addr, 0⟩
    have htwo := (honce s₂ hs₂).1
    rw [State.dialsOf, hdials', hdials] at htwo
    have hcount : [cfg.key j, cfg.key i].countP (·.nonce = cfg.nonce) = 2 := by
      simp [Config.key, makeSynCacheKey]
    exact absurd (hcount ▸ htwo) (by decide)
  · intro hone s hs
    obtain ⟨-, hheld, hlimit, hdials, -, -⟩ := balanced_of_steady hone hs
    omega

-- Both ends list the same two passwords.
def sampleConfig : Config where
  synMAC := fun psk nonce => if psk = "old" then 1 :: nonce else 2 :: nonce
  clientPasswords := ["old", "new"]
  serverPasswords := ["old", "new"]
  nonce := [7]
  timestamp := 0
  requestedTarget := some ""
  targetAllowed := fun _ => false
  maxSessions := 0

def commonConfig : Config := { sampleConfig with serverPasswords := ["new"] }

def sampleTask (attempt : ℕ) (stage : Stage) : Task ℕ where
  key := sampleConfig.key attempt
  remoteAddr := ⟨1, 4000⟩
  stage := stage

-- A repeated SYN finds the key held.
theorem common_password_dials_once : ∃ s : State ℕ,
    ReachableBy (system ℕ commonConfig) (Steady commonConfig) s ∧
      s.dialsOf commonConfig = 1 ∧ s.sessionsOf commonConfig = 1 := by
  have hkeys : ∀ i < clientMaxHandshakeAttempts, ∀ j < clientMaxHandshakeAttempts,
      (matchSynPSK commonConfig (commonConfig.syn i)).isSome = true →
      (matchSynPSK commonConfig (commonConfig.syn j)).isSome = true →
        commonConfig.key i = commonConfig.key j := by decide +kernel
  obtain ⟨s, hs, hdialed, hregistered⟩ := (system ℕ commonConfig).exists_runBy (Steady commonConfig)
    (P := fun s => 1 ≤ s.dialsOf commonConfig ∧ 1 ≤ s.sessionsOf commonConfig) rfl
    [.attempt, .attempt, .receive (commonConfig.syn 1) ⟨1, 4000⟩ 0 0,
      .acquire (sampleTask 1 .verified) 0, .dial (sampleTask 1 .owner) 1,
      .receive (commonConfig.syn 1) ⟨1, 4000⟩ 0 0, .acquire (sampleTask 1 .verified) 300000000,
      .dialed (sampleTask 1 (.dialing 1)) true, .register (sampleTask 1 (.dialed 1)) true]
    (by decide +kernel)
  obtain ⟨hdials, hsessions⟩ := (one_session_iff commonConfig).2
    (fun i hi j hj hacci haccj => hkeys i hi j hj hacci.1 haccj.1) s hs
  exact ⟨s, hs, hdials.antisymm hdialed, hsessions.antisymm hregistered⟩

-- A slow dial: the second attempt arrives while the first still waits for it.
theorem rotated_password_dials_twice : ∃ s : State ℕ,
    ReachableBy (system ℕ sampleConfig) (Steady sampleConfig) s ∧
      s.dialsOf sampleConfig = 2 ∧ s.sessionsOf sampleConfig = 2 :=
  (system ℕ sampleConfig).exists_runBy (Steady sampleConfig) rfl
    [.attempt, .receive (sampleConfig.syn 0) ⟨1, 4000⟩ 0 0, .acquire (sampleTask 0 .verified) 0,
      .dial (sampleTask 0 .owner) 1, .attempt, .receive (sampleConfig.syn 1) ⟨1, 4000⟩ 0 0,
      .acquire (sampleTask 1 .verified) 300000000, .dial (sampleTask 1 .owner) 2,
      .dialed (sampleTask 0 (.dialing 1)) true, .register (sampleTask 0 (.dialed 1)) true,
      .dialed (sampleTask 1 (.dialing 2)) true, .register (sampleTask 1 (.dialed 2)) true]
    (by decide +kernel)

end UdpCustom.Handshake
