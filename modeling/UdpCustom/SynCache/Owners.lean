import UdpCustom.Lib.Transition
import UdpCustom.SynCache.Bounds
import Mathlib.Data.List.Nodup

-- The goroutines of `handleHandshake` as the cache sees them. A reservation carries
-- no owner, so who made it is kept beside the cache.
namespace UdpCustom.SynCache.Owners

open Transition

-- From owner = true to the first Complete or Abort; a goroutine that has aborted by
-- itself (the server closes, the session ID is taken) still runs the deferred Abort.
inductive Phase
  | holding
  | rolledBack
  deriving DecidableEq

structure Goroutine (Key : Type) where
  id : ℕ
  key : Key
  phase : Phase
  deriving DecidableEq

structure State (Key Addr Ack : Type) where
  cache : Cache Key Addr Ack
  running : List (Goroutine Key)
  started : ℕ
  -- history: the goroutine that reserved a key last
  reservedBy : Key → Option ℕ

inductive Label (Key Addr Ack : Type)
  | acquire (key : Key) (now : ℕ) (ip : Addr)
  | complete (g : Goroutine Key) (ackFrame : Ack)
  | abort (g : Goroutine Key)
  | rollback (g : Goroutine Key)
  | deferred (g : Goroutine Key)

variable {Key Addr Ack : Type} [DecidableEq Key] [DecidableEq Addr]

def State.acquire (s : State Key Addr Ack) (key : Key) (now : ℕ) (ip : Addr) : State Key Addr Ack :=
  let acquired := s.cache.acquire key now ip
  if acquired.1.2 then
    { cache := acquired.2
      running := { id := s.started, key := key, phase := .holding } :: s.running
      started := s.started + 1
      reservedBy := Function.update s.reservedBy key (some s.started) }
  else { s with cache := acquired.2, started := s.started + 1 }

def next (s : State Key Addr Ack) : Label Key Addr Ack → Option (State Key Addr Ack)
  | .acquire key now ip => some (s.acquire key now ip)
  | .complete g ackFrame =>
    if g ∈ s.running ∧ g.phase = .holding then
      some { s with cache := s.cache.complete g.key ackFrame, running := s.running.erase g }
    else none
  -- an exit that leaves it to the deferred Abort
  | .abort g =>
    if g ∈ s.running ∧ g.phase = .holding then
      some { s with cache := s.cache.abort g.key, running := s.running.erase g }
    else none
  | .rollback g =>
    if g ∈ s.running ∧ g.phase = .holding then
      some { s with
        cache := s.cache.abort g.key
        running := { g with phase := .rolledBack } :: s.running.erase g }
    else none
  | .deferred g =>
    if g ∈ s.running ∧ g.phase = .rolledBack then
      some { s with cache := s.cache.abort g.key, running := s.running.erase g }
    else none

def initial : State Key Addr Ack where
  cache := newSynCache
  running := []
  started := 0
  reservedBy := fun _ => none

def system (Key Addr Ack : Type) [DecidableEq Key] [DecidableEq Addr] :
    System (State Key Addr Ack) (Label Key Addr Ack) where
  init := fun s => s = initial
  next := next

def State.holders (s : State Key Addr Ack) : List (Goroutine Key) :=
  s.running.filter (·.phase = .holding)

def State.OneOwner (s : State Key Addr Ack) : Prop :=
  (s.holders.map (·.key)).Nodup

def Label.settler : Label Key Addr Ack → Option (Goroutine Key)
  | .acquire _ _ _ => none
  | .complete g _ => some g
  | .abort g => some g
  | .rollback g => some g
  | .deferred g => some g

-- A Complete or Abort leaves the records of other goroutines as they are.
def Respects (s : State Key Addr Ack) (l : Label Key Addr Ack) (s' : State Key Addr Ack) : Prop :=
  ∀ g, l.settler = some g → ∀ rec ∈ s.cache.entries, s.reservedBy rec.key ≠ some g.id →
    rec ∈ s'.cache.entries

-- The record of the key that is acquired has not expired.
def Timely (s : State Key Addr Ack) : Label Key Addr Ack → Prop
  | .acquire key now _ => ∀ rec ∈ s.cache.entries, rec.key = key → rec.fresh now = true
  | _ => True

-- A key somebody holds still has its record, and a second Abort finds no
-- reservation.
def Careful (s : State Key Addr Ack) : Label Key Addr Ack → Prop
  | .acquire key _ _ => key ∈ s.holders.map (·.key) → ∃ rec ∈ s.cache.entries, rec.key = key
  | .deferred g => ∀ rec ∈ s.cache.entries, rec.key = g.key → rec.ackFrame ≠ none
  | _ => True

structure State.Inv (s : State Key Addr Ack) : Prop where
  ids : (s.running.map (·.id)).Nodup
  below : ∀ g ∈ s.running, g.id < s.started
  reserved : ∀ rec ∈ s.cache.entries, rec.ackFrame = none →
    ∃ g ∈ s.running, g.phase = .holding ∧ g.key = rec.key ∧ s.reservedBy rec.key = some g.id

variable {s s' : State Key Addr Ack} {l : Label Key Addr Ack} {key : Key}
  {rec : SynRecord Key Addr Ack} {c : Cache Key Addr Ack} {g : Goroutine Key}

theorem acquire_next (s : State Key Addr Ack) (key : Key) (now : ℕ) (ip : Addr) :
    ((∃ rec ∈ s.cache.entries, rec.key = key) ∧
      s.acquire key now ip = { s with started := s.started + 1 }) ∨
    ((∀ rec, s.cache.entries.find? (·.key = key) = some rec → rec.fresh now = false) ∧
      s.acquire key now ip =
        { cache := (s.cache.vacate key).reserve key now ip
          running := { id := s.started, key := key, phase := .holding } :: s.running
          started := s.started + 1
          reservedBy := Function.update s.reservedBy key (some s.started) }) := by
  unfold State.acquire
  rcases acquire_cases s.cache key now ip with ⟨rec, hfind, -, he⟩ | ⟨hfree, he⟩
  · rw [he]
    exact .inl ⟨⟨rec, of_find hfind⟩, rfl⟩
  · rw [he]
    exact .inr ⟨hfree, rfl⟩

omit [DecidableEq Addr] in
-- Whoever leaves a key alone keeps its goroutine.
theorem State.Inv.settle (h : s.Inv) (hg : g ∈ s.running)
    {cache : Cache Key Addr Ack} {running : List (Goroutine Key)}
    (hentries : ∀ rec ∈ cache.entries, rec.ackFrame = none → rec ∈ s.cache.entries ∧ rec.key ≠ g.key)
    (hkept : ∀ g' ∈ s.running, g' ≠ g → g' ∈ running)
    (hids : (running.map (·.id)).Sublist ((g :: s.running.erase g).map (·.id))) :
    ({ s with cache := cache, running := running } : State Key Addr Ack).Inv where
  ids := by
    have hperm := (List.perm_cons_erase hg).map (·.id)
    exact (hperm.nodup_iff.1 h.ids).sublist hids
  below := by
    intro g' hg'
    have hperm := (List.perm_cons_erase hg).map (·.id)
    obtain ⟨g'', hg'', he⟩ := List.mem_map.1 (hperm.mem_iff.2 (hids.subset (List.mem_map_of_mem hg')))
    exact he ▸ h.below g'' hg''
  reserved := by
    intro rec hrec hnone
    obtain ⟨hold, hkey⟩ := hentries rec hrec hnone
    obtain ⟨g', hg', hphase, hsame, hby⟩ := h.reserved rec hold hnone
    refine ⟨g', hkept g' hg' ?_, hphase, hsame, hby⟩
    rintro rfl
    exact hkey hsame.symm

omit [DecidableEq Addr] in
theorem pending_complete {ackFrame : Ack} (h : rec ∈ (c.complete key ackFrame).entries)
    (hnone : rec.ackFrame = none) : rec ∈ c.entries ∧ rec.key ≠ key := by
  obtain ⟨old, hold, rfl⟩ := List.mem_map.1 h
  split at hnone
  · cases hnone
  · rename_i hkey
    rw [if_neg hkey]
    exact ⟨hold, hkey⟩

omit [DecidableEq Addr] in
theorem pending_abort (h : rec ∈ (c.abort key).entries) (hnone : rec.ackFrame = none) :
    rec ∈ c.entries ∧ rec.key ≠ key := by
  obtain ⟨hold, hkept⟩ := List.mem_filter.1 h
  refine ⟨hold, fun hkey => of_decide_eq_true hkept ⟨hkey, ?_⟩⟩
  rw [hnone]
  rfl

theorem State.Inv.acquire (h : s.Inv) (key : Key) (now : ℕ) (ip : Addr) :
    (s.acquire key now ip).Inv := by
  rcases acquire_next s key now ip with ⟨-, he⟩ | ⟨-, he⟩
  · rw [he]
    exact ⟨h.ids, fun g hg => Nat.lt_succ_of_lt (h.below g hg), h.reserved⟩
  · rw [he]
    constructor
    · refine List.nodup_cons.2 ⟨fun hmem => ?_, h.ids⟩
      obtain ⟨g, hg, hid⟩ := List.mem_map.1 hmem
      exact (h.below g hg).ne hid
    · intro g hg
      rcases List.mem_cons.1 hg with rfl | hg
      · exact Nat.lt_succ_self _
      · exact Nat.lt_succ_of_lt (h.below g hg)
    · intro rec hrec hnone
      rcases mem_reserve hrec with rfl | ⟨hold, hkey⟩
      · exact ⟨_, List.mem_cons_self, rfl, rfl, Function.update_self _ _ _⟩
      · obtain ⟨g, hg, hphase, hsame, hby⟩ := h.reserved rec hold hnone
        refine ⟨g, List.mem_cons_of_mem _ hg, hphase, hsame, ?_⟩
        exact (Function.update_of_ne hkey _ _).trans hby

theorem State.Inv.next (h : s.Inv) (hst : Owners.next s l = some s') : s'.Inv := by
  have herase : ∀ g : Goroutine Key, ∀ g' ∈ s.running, g' ≠ g → g' ∈ s.running.erase g :=
    fun g g' hg' hne => (List.mem_erase_of_ne hne).2 hg'
  cases l with
  | acquire key now ip =>
      cases hst
      exact h.acquire key now ip
  | complete g ackFrame =>
      obtain ⟨⟨hg, -⟩, ⟨⟩⟩ := Option.ite_none_right_eq_some.1 hst
      exact h.settle hg (fun rec => pending_complete) (herase g) ((List.sublist_cons_self _ _).map _)
  | abort g | deferred g =>
      obtain ⟨⟨hg, -⟩, ⟨⟩⟩ := Option.ite_none_right_eq_some.1 hst
      exact h.settle hg (fun rec => pending_abort) (herase g) ((List.sublist_cons_self _ _).map _)
  | rollback g =>
      obtain ⟨⟨hg, -⟩, ⟨⟩⟩ := Option.ite_none_right_eq_some.1 hst
      exact h.settle hg (fun rec => pending_abort)
        (fun g' hg' hne => List.mem_cons_of_mem _ (herase g g' hg' hne)) (List.Sublist.refl _)

theorem inv_of_reachable {ok : State Key Addr Ack → Label Key Addr Ack → Prop}
    (h : ReachableBy (system Key Addr Ack) ok s) : s.Inv := by
  refine h.invariant (I := State.Inv) ?_ fun s l s' hinv _ hst => hinv.next hst
  rintro s rfl
  exact ⟨List.nodup_nil, fun _ => nofun, fun _ => nofun⟩

omit [DecidableEq Addr] in
theorem not_filed_of_free {now : ℕ} (ht : ∀ rec ∈ c.entries, rec.key = key → rec.fresh now = true)
    (hfree : ∀ rec, c.entries.find? (·.key = key) = some rec → rec.fresh now = false) :
    ∀ rec ∈ c.entries, rec.key ≠ key := by
  intro rec hrec hkey
  have hsome : (c.entries.find? (·.key = key)).isSome = true :=
    List.find?_isSome.2 ⟨rec, hrec, decide_eq_true hkey⟩
  obtain ⟨found, hfound⟩ := Option.isSome_iff_exists.1 hsome
  obtain ⟨hin, hsame⟩ := of_find hfound
  have hfresh := ht found hin hsame
  rw [hfree found hfound] at hfresh
  cases hfresh

theorem holders_acquire_iff (hone : s.OneOwner) {now : ℕ} {ip : Addr}
    (ht : Timely s (.acquire key now ip)) :
    (s.acquire key now ip).OneOwner ↔ Careful s (.acquire key now ip) := by
  rcases acquire_next s key now ip with ⟨hrec, he⟩ | ⟨hfree, he⟩
  · rw [he]
    exact iff_of_true hone fun _ => hrec
  · -- no record of the key is there, so it is free only if nobody holds it
    have hgone := not_filed_of_free ht hfree
    rw [he]
    refine (List.nodup_cons.trans (and_iff_left hone)).trans ?_
    refine ⟨fun hnot hheld => absurd hheld hnot, fun hcareful hheld => ?_⟩
    obtain ⟨rec, hrec, hkey⟩ := hcareful hheld
    exact hgone rec hrec hkey

-- Somebody else's reservation of the key would have a second holder.
omit [DecidableEq Key] [DecidableEq Addr] in
theorem completed_of_holding (hinv : s.Inv) (hone : s.OneOwner) (hg : g ∈ s.running)
    (hphase : g.phase = .holding) (hrec : rec ∈ s.cache.entries)
    (hkey : rec.key = g.key) (hother : s.reservedBy rec.key ≠ some g.id) : rec.ackFrame ≠ none := by
  intro hnone
  obtain ⟨g', hg', hphase', hsame, hby⟩ := hinv.reserved rec hrec hnone
  have heq : g' = g := List.inj_on_of_nodup_map hone
    (List.mem_filter.2 ⟨hg', decide_eq_true hphase'⟩) (List.mem_filter.2 ⟨hg, decide_eq_true hphase⟩)
    (hsame.trans hkey)
  exact hother (heq ▸ hby)

omit [DecidableEq Addr] in
theorem mem_complete (h : rec ∈ c.entries) (hkept : rec.key = key → rec.ackFrame ≠ none)
    (ackFrame : Ack) : rec ∈ (c.complete key ackFrame).entries := by
  refine List.mem_map.2 ⟨rec, h, ?_⟩
  split
  · rename_i hkey
    obtain ⟨ack, hack⟩ := Option.ne_none_iff_exists'.1 (hkept hkey)
    rw [SynRecord.publish, hack, Option.getD_some, ← hack]
  · rfl

omit [DecidableEq Addr] in
theorem mem_abort (h : rec ∈ c.entries) (hkept : rec.key = key → rec.ackFrame ≠ none) :
    rec ∈ (c.abort key).entries := by
  refine List.mem_filter.2 ⟨h, decide_eq_true fun ⟨hkey, hnone⟩ => ?_⟩
  exact hkept hkey (Option.isNone_iff_eq_none.1 hnone)

omit [DecidableEq Addr] in
theorem deferred_respects_iff (hinv : s.Inv) (hg : g ∈ s.running)
    (hphase : g.phase = .rolledBack) (running : List (Goroutine Key)) :
    Respects s (.deferred g) { s with cache := s.cache.abort g.key, running := running } ↔
      Careful s (.deferred g) := by
  constructor
  · intro hresp rec hrec hkey hnone
    obtain ⟨g', hg', hphase', hsame, hby⟩ := hinv.reserved rec hrec hnone
    have hne : s.reservedBy rec.key ≠ some g.id := by
      intro hmine
      have hid : g'.id = g.id := Option.some.inj (hby.symm.trans hmine)
      have heq : g' = g := List.inj_on_of_nodup_map hinv.ids hg' hg hid
      rw [heq, hphase] at hphase'
      cases hphase'
    exact (pending_abort (hresp g rfl rec hrec hne) hnone).2 hkey
  · rintro hcareful _ ⟨⟩ rec hrec -
    exact mem_abort hrec (hcareful rec hrec)

-- A reservation has one owner up to the next step exactly if that step is careful.
theorem one_owner_next_iff (hinv : s.Inv) (hone : s.OneOwner) (ht : Timely s l)
    (hst : Owners.next s l = some s') : s'.OneOwner ∧ Respects s l s' ↔ Careful s l := by
  have herase : ∀ g : Goroutine Key, ((s.running.erase g).filter (·.phase = .holding)).map (·.key)
      |>.Nodup := fun g => hone.sublist ((List.erase_sublist.filter _).map _)
  cases l with
  | acquire key now ip =>
      cases hst
      exact (and_iff_left (fun _ => nofun)).trans (holders_acquire_iff hone ht)
  | complete g ackFrame =>
      obtain ⟨⟨hg, hphase⟩, ⟨⟩⟩ := Option.ite_none_right_eq_some.1 hst
      refine iff_of_true ⟨herase g, ?_⟩ trivial
      rintro _ ⟨⟩ rec hrec hother
      exact mem_complete hrec (completed_of_holding hinv hone hg hphase hrec · hother) ackFrame
  | abort g | rollback g =>
      obtain ⟨⟨hg, hphase⟩, ⟨⟩⟩ := Option.ite_none_right_eq_some.1 hst
      refine iff_of_true ⟨herase g, ?_⟩ trivial
      rintro _ ⟨⟩ rec hrec hother
      exact mem_abort hrec (completed_of_holding hinv hone hg hphase hrec · hother)
  | deferred g =>
      obtain ⟨⟨hg, hphase⟩, ⟨⟩⟩ := Option.ite_none_right_eq_some.1 hst
      exact (and_iff_right (herase g)).trans (deferred_respects_iff hinv hg hphase _)

theorem oneOwner_of_careful
    (h : ReachableBy (system Key Addr Ack) (fun s l => Timely s l ∧ Careful s l) s) : s.OneOwner := by
  induction h with
  | init hs =>
      cases hs
      exact List.nodup_nil
  | step hreach hok hst ih => exact ((one_owner_next_iff (inv_of_reachable hreach) ih hok.1 hst).2 hok.2).1

theorem one_owner_iff
    (h : ReachableBy (system Key Addr Ack) (fun s l => Timely s l ∧ Careful s l) s) (ht : Timely s l)
    (hst : (system Key Addr Ack).next s l = some s') :
    s.OneOwner ∧ (s'.OneOwner ∧ Respects s l s' ↔ Careful s l) :=
  ⟨oneOwner_of_careful h, one_owner_next_iff (inv_of_reachable h) (oneOwner_of_careful h) ht hst⟩

def opener : Goroutine ℕ where
  id := 0
  key := 1
  phase := .holding

instance (s : State Key Addr Ack) (l : Label Key Addr Ack) : Decidable (Timely s l) := by
  cases l <;> simp only [Timely] <;> infer_instance

instance (s : State Key Addr Ack) (l : Label Key Addr Ack) : Decidable (Careful s l) := by
  cases l <;> simp only [Careful] <;> infer_instance

-- Two handshakes, and a SYN of the first that comes again.
def twoHandshakes : List (Label ℕ ℕ ℕ) :=
  [.acquire 1 0 7, .acquire 2 0 8, .acquire 1 1 7]

theorem opener_completes_alone : ∃ s s' : State ℕ ℕ ℕ,
    (s.running.map (·.key) = [2, 1] ∧ s.started = 3 ∧ next s (.complete opener 99) = some s') ∧
      s.OneOwner ∧ s'.OneOwner ∧ Respects s (.complete opener 99) s' := by
  obtain ⟨s, hs, hkeys, hstarted, hin⟩ := (system ℕ ℕ ℕ).exists_runBy
    (fun s l => Timely s l ∧ Careful s l)
    (P := fun s => s.running.map (·.key) = [2, 1] ∧ s.started = 3 ∧ opener ∈ s.running)
    (s := initial) rfl twoHandshakes (by decide +kernel)
  have hiff := one_owner_iff hs (l := .complete opener 99) trivial (if_pos ⟨hin, rfl⟩)
  exact ⟨s, _, ⟨hkeys, hstarted, if_pos ⟨hin, rfl⟩⟩, hiff.1, hiff.2.2 trivial⟩

-- The server closes: the first goroutine aborts, a retransmitted SYN reserves the key
-- anew, and the deferred Abort of the first takes that reservation away. The next SYN
-- makes a second owner.
theorem deferred_abort_takes_reservation : ∃ s : State ℕ ℕ ℕ,
    ReachableBy (system ℕ ℕ ℕ) Timely s ∧
      s.holders = [{ id := 2, key := 1, phase := .holding }, { id := 1, key := 1, phase := .holding }] :=
  (system ℕ ℕ ℕ).exists_runBy Timely (s := initial) rfl
    [.acquire 1 0 7, .rollback opener, .acquire 1 1 7, .deferred { opener with phase := .rolledBack },
      .acquire 1 2 7]
    (by decide +kernel)

-- A reservation finds room and no expired record, and nobody is rolled back.
def Roomy (s : State Key Addr Ack) : Label Key Addr Ack → Prop
  | .acquire _ now _ =>
    s.cache.entries.length < synCacheMax ∧ ∀ rec ∈ s.cache.entries, rec.fresh now = true
  | .rollback _ => False
  | _ => True

omit [DecidableEq Key] [DecidableEq Addr] in
theorem timely_of_roomy (h : Roomy s l) : Timely s l := by
  cases l with
  | acquire key now ip => exact fun rec hrec _ => h.2 rec hrec
  | _ => trivial

def State.Kept (s : State Key Addr Ack) : Prop :=
  ∀ g ∈ s.running, g.phase = .holding ∧ ∃ rec ∈ s.cache.entries, rec.key = g.key ∧ rec.ackFrame = none

omit [DecidableEq Addr] in
theorem State.Kept.settle (h : s.Kept) (hinv : s.Inv) (hone : s.OneOwner)
    (hg : g ∈ s.running) {cache : Cache Key Addr Ack}
    (hcache : ∀ rec ∈ s.cache.entries, rec.key ≠ g.key → rec ∈ cache.entries) :
    ({ s with cache := cache, running := s.running.erase g } : State Key Addr Ack).Kept := by
  intro g' hg'
  obtain ⟨hne, hg'⟩ := (List.Nodup.of_map _ hinv.ids).mem_erase_iff.1 hg'
  obtain ⟨hphase, rec, hrec, hkey, hnone⟩ := h g' hg'
  refine ⟨hphase, rec, hcache rec hrec fun hsame => hne ?_, hkey, hnone⟩
  exact List.inj_on_of_nodup_map hone (List.mem_filter.2 ⟨hg', decide_eq_true hphase⟩)
    (List.mem_filter.2 ⟨hg, decide_eq_true (h g hg).1⟩) (hkey.symm.trans hsame)

theorem State.Kept.acquire (h : s.Kept) {now : ℕ} {ip : Addr}
    (hroomy : Roomy s (.acquire key now ip)) : (s.acquire key now ip).Kept := by
  rcases acquire_next s key now ip with ⟨-, he⟩ | ⟨hfree, he⟩
  · rw [he]
    exact h
  · have hgone := not_filed_of_free (timely_of_roomy hroomy) hfree
    have hvacated : (s.cache.vacate key).entries.length < synCacheMax :=
      (List.length_filter_le _ _).trans_lt hroomy.1
    rw [he]
    intro g hg
    dsimp only
    rw [entries_reserve hvacated]
    rcases List.mem_cons.1 hg with rfl | hg
    · exact ⟨rfl, _, List.mem_cons_self, rfl, rfl⟩
    · obtain ⟨hphase, rec, hrec, hkey, hnone⟩ := h g hg
      have hstays : rec ∈ (s.cache.vacate key).entries :=
        List.mem_filter.2 ⟨hrec, decide_eq_true (hgone rec hrec)⟩
      exact ⟨hphase, rec, List.mem_cons_of_mem _ (List.mem_filter.2 ⟨hstays, hroomy.2 rec hrec⟩), hkey,
        hnone⟩

theorem State.Kept.next (h : s.Kept) (hinv : s.Inv) (hone : s.OneOwner) (hroomy : Roomy s l)
    (hst : Owners.next s l = some s') : Careful s l ∧ s'.Kept := by
  cases l with
  | acquire key now ip =>
      refine ⟨fun hheld => ?_, ?_⟩
      · obtain ⟨g, hg, rfl⟩ := List.mem_map.1 hheld
        obtain ⟨-, rec, hrec, hkey, -⟩ := h g (List.mem_filter.1 hg).1
        exact ⟨rec, hrec, hkey⟩
      · cases hst
        exact h.acquire hroomy
  | complete g ackFrame =>
      obtain ⟨⟨hg, -⟩, ⟨⟩⟩ := Option.ite_none_right_eq_some.1 hst
      exact ⟨trivial, h.settle hinv hone hg fun rec hrec hkey =>
        mem_complete hrec (fun hsame => absurd hsame hkey) ackFrame⟩
  | abort g =>
      obtain ⟨⟨hg, -⟩, ⟨⟩⟩ := Option.ite_none_right_eq_some.1 hst
      exact ⟨trivial, h.settle hinv hone hg fun rec hrec hkey =>
        mem_abort hrec fun hsame => absurd hsame hkey⟩
  | rollback g => exact hroomy.elim
  | deferred g =>
      obtain ⟨⟨hg, hphase⟩, -⟩ := Option.ite_none_right_eq_some.1 hst
      cases hphase.symm.trans (h g hg).1

theorem kept_of_roomy (h : ReachableBy (system Key Addr Ack) Roomy s) :
    ReachableBy (system Key Addr Ack) (fun s l => Timely s l ∧ Careful s l) s ∧ s.Kept := by
  induction h with
  | init hs =>
      refine ⟨.init hs, ?_⟩
      cases hs
      exact fun _ => nofun
  | step _ hroomy hst ih =>
      obtain ⟨hcareful, hkept⟩ :=
        ih.2.next (inv_of_reachable ih.1) (oneOwner_of_careful ih.1) hroomy hst
      exact ⟨.step ih.1 ⟨timely_of_roomy hroomy, hcareful⟩ hst, hkept⟩

-- With room and nobody rolled back, every owner keeps its record to itself.
theorem careful_of_roomy (h : ReachableBy (system Key Addr Ack) Roomy s) :
    ReachableBy (system Key Addr Ack) (fun s l => Timely s l ∧ Careful s l) s ∧ s.Kept ∧ s.OneOwner ∧
      ∀ l s', Roomy s l → (system Key Addr Ack).next s l = some s' → Respects s l s' := by
  obtain ⟨hreach, hkept⟩ := kept_of_roomy h
  have hinv := inv_of_reachable hreach
  have hone := oneOwner_of_careful hreach
  refine ⟨hreach, hkept, hone, fun l s' hroomy hst => ?_⟩
  have hcareful := (hkept.next hinv hone hroomy hst).1
  exact ((one_owner_next_iff hinv hone (timely_of_roomy hroomy) hst).2 hcareful).2

instance (s : State Key Addr Ack) (l : Label Key Addr Ack) : Decidable (Roomy s l) := by
  cases l <;> simp only [Roomy] <;> infer_instance

theorem careful_of_roomy_two : ∃ s s' : State ℕ ℕ ℕ,
    (s.running.map (·.key) = [2, 1] ∧ s.started = 3 ∧ next s (.complete opener 99) = some s') ∧
      s.Kept ∧ s.OneOwner ∧ Respects s (.complete opener 99) s' := by
  obtain ⟨s, hs, hkeys, hstarted, hin⟩ := (system ℕ ℕ ℕ).exists_runBy Roomy
    (P := fun s => s.running.map (·.key) = [2, 1] ∧ s.started = 3 ∧ opener ∈ s.running)
    (s := initial) rfl twoHandshakes (by decide +kernel)
  obtain ⟨-, hkept, hone, hrespects⟩ := careful_of_roomy hs
  exact ⟨s, _, ⟨hkeys, hstarted, if_pos ⟨hin, rfl⟩⟩, hkept, hone,
    hrespects (.complete opener 99) _ trivial (if_pos ⟨hin, rfl⟩)⟩

end UdpCustom.SynCache.Owners
