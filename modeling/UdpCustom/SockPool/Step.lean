import UdpCustom.SockPool
import UdpCustom.Lib.Threads
import Mathlib.Data.Finset.Basic

-- What one operation can do, and what holds in every reachable state: the locks
-- exclude, an entry stands under its socket's port, nobody else has published the
-- port that is being bound, and a Range that is still to meet a key meets its entry.
namespace UdpCustom.SockPool

open Transition

inductive Act (limit : ℤ) (s : State) : Place → Effect → Place → Prop
  | refused {port} : Act limit s (.get port) .quiet .done
  | admitted {port} : Act limit s (.get port) .quiet (.load port.toNat)
  | hit {port pc} (h : s.conns.lookup port = some pc) : Act limit s (.load port) .quiet (.stamp pc)
  | miss {port} : Act limit s (.load port) .quiet (.lock port)
  | stamp {pc} : Act limit s (.stamp pc) .draw (.touch pc (s.clock + 1))
  | touch {pc stamp} : Act limit s (.touch pc stamp) (.use pc stamp) (.back pc)
  | back {pc} : Act limit s (.back pc) (.hand pc) .done
  | lateHit {port pc} (h : s.conns.lookup port = some pc) : Act limit s (.lock port) .quiet (.stamp pc)
  | lock {port} (hfree : s.bindFree) (h : s.conns.lookup port = none) :
      Act limit s (.lock port) .quiet (.checkClosed port)
  | closed {port} : Act limit s (.checkClosed port) .quiet .done
  | opened {port} (h : s.closed = false) : Act limit s (.checkClosed port) .quiet (.listen .get port)
  | listen {why port} (h : ∀ pc ∈ s.sockets, pc.port ≠ port) :
      Act limit s (.listen why port) (.listen ⟨port, s.made⟩) (.stampNew why ⟨port, s.made⟩)
  | unbound {why port} : Act limit s (.listen why port) .quiet .done
  | stampNew {why pc} : Act limit s (.stampNew why pc) .draw (.publish why pc (s.clock + 1))
  | publish {why pc stamp} : Act limit s (.publish why pc stamp) (.put pc stamp) (.count why pc)
  | over {why pc} : Act limit s (.count why pc) (.add 1) (.pinNew why pc)
  | within {why pc} : Act limit s (.count why pc) (.add 1) (.made pc why)
  | pinNew {why pc} : Act limit s (.pinNew why pc) (.ref pc 1) (.evict (.made why pc))
  | unpinNew {why pc} : Act limit s (.unpinNew why pc) (.ref pc (-1)) (.made pc why)
  | pin {pc first} : Act limit s (.pin pc first) (.ref pc 1) (.write pc first)
  | write {pc first again} : Act limit s (.write pc first) .quiet (.unpin pc again)
  | unpinLast {pc again} : Act limit s (.unpin pc again) (.ref pc (-1)) (.overflow pc again)
  | unpin {pc again} : Act limit s (.unpin pc again) (.ref pc (-1)) (.wrote pc again)
  | overflow {pc again} : Act limit s (.overflow pc again) .quiet (.evict (.wrote pc again))
  | fits {pc again} : Act limit s (.overflow pc again) .quiet (.wrote pc again)
  | noRepair {broken} : Act limit s (.repair broken) .quiet .done
  | repair {broken} : Act limit s (.repair broken) .quiet (.relock broken)
  | closedRepair {broken} : Act limit s (.relock broken) .quiet .done
  | relock {broken} (hfree : s.bindFree) : Act limit s (.relock broken) .quiet (.reload broken)
  | replaced {broken other} (h : s.conns.lookup broken.port = some other) :
      Act limit s (.reload broken) .quiet (.restamp other)
  | reload {broken} (h : ∀ other, s.conns.lookup broken.port = some other → other = broken) :
      Act limit s (.reload broken) .quiet (.unlink broken)
  | restamp {other} : Act limit s (.restamp other) .draw (.retouch other (s.clock + 1))
  | retouch {other stamp} : Act limit s (.retouch other stamp) (.use other stamp) (.pin other true)
  | unlink {broken} (h : s.conns.lookup broken.port = some broken) :
      Act limit s (.unlink broken) (.cut broken.port) (.uncount broken)
  | unlinkOther {broken other} (h : s.conns.lookup broken.port = some other) (hne : other ≠ broken) :
      Act limit s (.unlink broken) (.cut broken.port) (.discard broken)
  | unlinked {broken} (h : s.conns.lookup broken.port = none) :
      Act limit s (.unlink broken) .quiet (.discard broken)
  | uncount {broken} : Act limit s (.uncount broken) (.add (-1)) (.discard broken)
  | discard {broken} : Act limit s (.discard broken) (.shut broken) (.listen .repair broken.port)
  | evictDone {after} : Act limit s (.evict after) .quiet after.place
  | evict {after} (hfree : s.evictFree) : Act limit s (.evict after) .quiet (.scan after s.range [])
  | loopDone {after} : Act limit s (.loop after) .quiet after.place
  | loop {after} : Act limit s (.loop after) .quiet (.scan after s.range [])
  | meet {after w cands port pc} (h : (port, pc) ∈ w.seen) :
      Act limit s (.scan after w cands) .quiet (.visit after (w.meet port) cands port pc)
  | allPinned {after w} (hdue : w.due = ∅) : Act limit s (.scan after w []) .quiet after.place
  | scanned {after w cands} (hdue : w.due = ∅) :
      Act limit s (.scan after w cands) .quiet (.sort after cands (cands.map fun c => s.lastUse c.2))
  | collect {after w cands port pc} (h : s.refs pc = 0) :
      Act limit s (.visit after w cands port pc) .quiet (.scan after w (cands ++ [(port, pc)]))
  | pass {after w cands port pc} (h : s.refs pc ≠ 0) :
      Act limit s (.visit after w cands port pc) .quiet (.scan after w cands)
  | sort {after cands stamps port pc} (hmem : (port, pc) ∈ cands) (h : s.maySortFirst cands stamps pc) :
      Act limit s (.sort after cands stamps) .quiet (.check after port pc)
  | check {after port victim} (h : s.refs victim = 0) :
      Act limit s (.check after port victim) .quiet (.take after port victim)
  | pinned {after port victim} : Act limit s (.check after port victim) .quiet (.stampVictim after victim)
  | stampVictim {after victim} :
      Act limit s (.stampVictim after victim) .draw (.touchVictim after victim (s.clock + 1))
  | touchVictim {after victim stamp} :
      Act limit s (.touchVictim after victim stamp) (.use victim stamp) after.place
  | take {after port victim} (h : s.conns.lookup port = some victim) :
      Act limit s (.take after port victim) (.cut port) (.uncountVictim after victim)
  | takeOther {after port victim other} (h : s.conns.lookup port = some other) (hne : other ≠ victim) :
      Act limit s (.take after port victim) (.cut port) after.place
  | gone {after port victim} : Act limit s (.take after port victim) .quiet after.place
  | uncountVictim {after victim} :
      Act limit s (.uncountVictim after victim) (.add (-1)) (.closeVictim after victim)
  | closeVictim {after victim} : Act limit s (.closeVictim after victim) (.shut victim) (.loop after)
  | close : Act limit s .close .close .closeWalk
  | closeWalk : Act limit s .closeWalk .quiet (.closing s.range)
  | closeMeet {w port pc} (h : (port, pc) ∈ w.seen) :
      Act limit s (.closing w) .quiet (.comparing (w.meet port) port pc)
  | closeDone {w} (hdue : w.due = ∅) : Act limit s (.closing w) .quiet .done
  | compared {w port pc} (h : s.conns.lookup port = some pc) :
      Act limit s (.comparing w port pc) (.cut port) (.uncounting w pc)
  | differs {w port pc} (h : s.conns.lookup port ≠ some pc) :
      Act limit s (.comparing w port pc) .quiet (.shutting w pc)
  | uncounting {w pc} : Act limit s (.uncounting w pc) (.add (-1)) (.shutting w pc)
  | shutting {w pc} : Act limit s (.shutting w pc) (.shut pc) (.closing w)

theorem act_eq_some {limit : ℤ} {s : State} {pl pl' : Place} {ch : Choice} {eff : Effect}
    (h : act limit s pl ch = some (eff, pl')) : Act limit s pl eff pl' := by
  unfold act at h
  split at h
  all_goals try unfold State.reclaim at h
  all_goals repeat' split at h
  all_goals cases h
  -- Most operations are the one constructor of their place and effect.
  all_goals first
    | exact .unlinkOther ‹_› ‹_›
    | exact .takeOther ‹_› ‹_›
    | exact .sort (List.mem_of_getElem? ‹_›) ‹_›
    | (subst_vars; exact .allPinned ‹_›)
    | (constructor <;> simp_all)

inductive Step (limit : ℤ) (s : State) : Label → State → Prop
  | call (op : Op) : Step limit s (.call op) { s with calls := s.calls ++ [op.place] }
  | run {i : ℕ} {ch : Choice} {pl pl' : Place} {eff : Effect} (hi : s.calls[i]? = some pl)
      (h : Act limit s pl eff pl') : Step limit s (.run i ch) ((s.move i pl').affect eff)

theorem step_of_next {limit : ℤ} {s s' : State} {l : Label} (h : next limit s l = some s') :
    Step limit s l s' := by
  cases l with
  | call op =>
      obtain ⟨-, ⟨⟩⟩ := Option.ite_none_right_eq_some.1 h
      exact .call op
  | run i ch =>
      unfold next at h
      dsimp only at h
      split at h
      · cases h
      · rename_i pl hi
        obtain ⟨⟨eff, pl'⟩, hact, rfl⟩ := Option.map_eq_some_iff.1 h
        exact .run hi (act_eq_some hact)

-- The places a goroutine goes back to from a shared part of the code.
inductive Place.Free : Place → Prop
  | back {pc} : Place.Free (.back pc)
  | pin {pc first} : Place.Free (.pin pc first)
  | unpinNew {why pc} : Place.Free (.unpinNew why pc)
  | repair {broken} : Place.Free (.repair broken)
  | done : Place.Free .done

@[simp] theorem free_made (pc : PooledConn) (why : Purpose) : (Place.made pc why).Free := by
  cases why
  · exact .back
  · exact .pin

@[simp] theorem free_wrote (pc : PooledConn) (again : Bool) : (Place.wrote pc again).Free := by
  cases again
  · exact .done
  · exact .repair

@[simp] theorem free_place (after : After) : after.place.Free := by
  cases after with
  | made why pc => exact .unpinNew
  | wrote pc again => exact free_wrote pc again

-- The ways an effect changes the map, and the Ranges in progress.
def Effect.onConns (conns : SeqMap PooledConn) : Effect → SeqMap PooledConn
  | .put pc _ => conns.insert pc.port pc
  | .cut port => conns.erase port
  | _ => conns

def Effect.onWalk : Effect → Walk → Walk
  | .put pc _, w => w.store pc
  | .cut port, w => w.delete port
  | _, w => w

def Place.walk : Place → Option Walk
  | .scan _ w _ | .visit _ w _ _ _ | .closing w => some w
  | .comparing w _ _ | .uncounting w _ | .shutting w _ => some w
  | _ => none

@[simp] theorem onWalk_id (pl : Place) : pl.onWalk (fun w => w) = pl := by
  cases pl <;> rfl

@[simp] theorem walk_onWalk (f : Walk → Walk) (pl : Place) : (pl.onWalk f).walk = pl.walk.map f := by
  cases pl <;> rfl

@[simp] theorem holdsBindMu_onWalk (f : Walk → Walk) (pl : Place) :
    (pl.onWalk f).holdsBindMu = pl.holdsBindMu := by
  cases pl <;> rfl

@[simp] theorem conns_affect (s : State) (eff : Effect) :
    (s.affect eff).conns = eff.onConns s.conns := by
  cases eff <;> rfl

@[simp] theorem calls_affect (s : State) (eff : Effect) :
    (s.affect eff).calls = s.calls.map (Place.onWalk eff.onWalk) := by
  cases eff
  case put | cut => rfl
  all_goals exact ((List.map_congr_left fun pl _ => onWalk_id pl).trans (List.map_id _)).symm

-- A place after the step is that of the goroutine that moved, or an old one.
theorem mem_calls_run {s : State} {i : ℕ} {pl' pl₀ : Place} {eff : Effect}
    (h : pl₀ ∈ ((s.move i pl').affect eff).calls) :
    pl₀ = pl'.onWalk eff.onWalk ∨
      ∃ j q, j ≠ i ∧ s.calls[j]? = some q ∧ pl₀ = q.onWalk eff.onWalk := by
  rw [calls_affect] at h
  obtain ⟨q, hq, rfl⟩ := List.mem_map.1 h
  rcases Threads.of_mem_set hq with rfl | ⟨j, hj, hold⟩
  · exact .inl rfl
  · exact .inr ⟨j, q, hj, hold, rfl⟩

theorem Place.Free.holdsBindMu {pl : Place} (h : pl.Free) : pl.holdsBindMu = false := by
  cases h <;> rfl

theorem Place.Free.walk {pl : Place} (h : pl.Free) : pl.walk = none := by
  cases h <;> rfl

-- Nobody has published the port that is being bound, and until the entry of a broken
-- socket is removed there is no other in its place.
def Place.Clear (conns : SeqMap PooledConn) : Place → Prop
  | .checkClosed port | .listen _ port => conns.lookup port = none
  | .stampNew _ pc | .publish _ pc _ | .uncount pc | .discard pc => conns.lookup pc.port = none
  | .unlink broken => ∀ other, conns.lookup broken.port = some other → other = broken
  | _ => True

theorem Place.Free.clear {pl : Place} (h : pl.Free) (conns : SeqMap PooledConn) : pl.Clear conns := by
  cases h <;> trivial

@[simp] theorem clear_onWalk (f : Walk → Walk) (conns : SeqMap PooledConn) (pl : Place) :
    (pl.onWalk f).Clear conns ↔ pl.Clear conns := by
  cases pl <;> rfl

theorem clear_of_not_holdsBindMu {pl : Place} (h : pl.holdsBindMu = false)
    (conns : SeqMap PooledConn) : pl.Clear conns := by
  cases pl <;> trivial

-- The keys a Range is still to meet have kept the entries they had.
def Walk.Agrees (conns : SeqMap PooledConn) (w : Walk) : Prop :=
  ∀ k ∈ w.due, k ∈ conns ∧ ∀ pc, (k, pc) ∈ w.seen → conns.lookup k = some pc

structure Sound (s : State) : Prop where
  bindMu : Threads.Exclusive Place.holdsBindMu s.calls
  port : ∀ port pc, s.conns.lookup port = some pc → pc.port = port
  clear : ∀ pl ∈ s.calls, pl.Clear s.conns
  walk : ∀ pl ∈ s.calls, ∀ w ∈ pl.walk, w.Agrees s.conns

theorem agrees_range (s : State) : s.range.Agrees s.conns := by
  intro k hk
  refine ⟨Finmap.mem_keys.1 hk, fun pc hpc => ?_⟩
  obtain ⟨port, -, hpc⟩ := Finset.mem_biUnion.1 hpc
  obtain ⟨pc', hpc', heq⟩ := Finset.mem_image.1 hpc
  obtain ⟨rfl, rfl⟩ := Prod.mk.inj heq
  exact Option.mem_toFinset.1 hpc'

theorem Walk.Agrees.meet {conns : SeqMap PooledConn} {w : Walk} (h : w.Agrees conns) (port : ℕ) :
    (w.meet port).Agrees conns :=
  fun k hk => h k (Finset.mem_of_mem_erase hk)

section
variable {limit : ℤ} {s s' : State} {i : ℕ} {l : Label} {pl pl' : Place} {eff : Effect}

theorem Act.holdsBindMu (h : Act limit s pl eff pl') (hin : pl'.holdsBindMu = true) :
    pl.holdsBindMu = true ∨ s.bindFree := by
  cases h <;> first
    | exact .inl rfl
    | exact .inr ‹_›
    | (rw [Place.Free.holdsBindMu (by simp)] at hin; cases hin)
    | cases hin

theorem Act.holdsBindMu_of_put {pc : PooledConn} {stamp : ℕ} (h : Act limit s pl (.put pc stamp) pl') :
    pl.holdsBindMu = true := by
  cases h
  rfl

theorem Act.clear (h : Act limit s pl eff pl') (hc : pl.Clear s.conns) :
    pl'.Clear (eff.onConns s.conns) := by
  cases h <;> first
    | exact hc
    | exact Finmap.lookup_erase _ _
    | exact Place.Free.clear (by simp) _
    | assumption
    | trivial

theorem Act.walk (h : Act limit s pl eff pl') (hw : ∀ w ∈ pl.walk, w.Agrees s.conns) :
    ∀ w ∈ pl'.walk, w.Agrees s.conns := by
  cases h
  case evict | loop | closeWalk =>
    rintro _ ⟨⟩
    exact agrees_range s
  case meet | closeMeet =>
    rintro _ ⟨⟩
    exact (hw _ rfl).meet _
  all_goals first
    | exact hw
    | (rw [Place.Free.walk (by simp)]; nofun)
    | nofun

-- An entry that goes leaves the places of the others clear.
theorem Place.Clear.cut {conns : SeqMap PooledConn} (h : pl.Clear conns) (port : ℕ) :
    pl.Clear (conns.erase port) := by
  have hnone : ∀ {k}, conns.lookup k = none → (conns.erase port).lookup k = none := by
    intro k hk
    refine Option.eq_none_iff_forall_ne_some.2 fun pc hpc => ?_
    rw [SeqMap.of_lookup_erase hpc] at hk
    cases hk
  cases pl <;> first
    | exact hnone h
    | exact fun other hother => h other (SeqMap.of_lookup_erase hother)
    | trivial

theorem Walk.Agrees.affect {conns : SeqMap PooledConn} {w : Walk} (h : w.Agrees conns)
    (hput : ∀ pc stamp, eff = .put pc stamp → conns.lookup pc.port = none) :
    (eff.onWalk w).Agrees (eff.onConns conns) := by
  cases eff
  case put pc stamp =>
    -- The port of a new entry had none, so the Range is not waiting for it.
    intro k hk
    obtain ⟨hmem, hseen⟩ := h k hk
    have hne : k ≠ pc.port := by
      rintro rfl
      exact Finmap.lookup_eq_none.1 (hput pc stamp rfl) hmem
    refine ⟨Finmap.mem_insert.2 (.inr hmem), fun pc' hpc' => ?_⟩
    refine (Finmap.lookup_insert_of_ne _ hne).trans (hseen pc' ?_)
    rcases Finset.mem_insert.1 hpc' with heq | hold
    · exact absurd (Prod.mk.inj heq).1 hne
    · exact hold
  case cut port =>
    intro k hk
    obtain ⟨hne, hk⟩ := Finset.mem_erase.1 hk
    obtain ⟨hmem, hseen⟩ := h k hk
    refine ⟨Finmap.mem_erase.2 ⟨hne, hmem⟩, fun pc hpc => ?_⟩
    exact (Finmap.lookup_erase_ne hne).trans (hseen pc hpc)
  all_goals exact h

theorem Sound.clear_put (hs : Sound s) (hi : s.calls[i]? = some pl) (h : Act limit s pl eff pl') :
    ∀ pc stamp, eff = .put pc stamp → s.conns.lookup pc.port = none := by
  rintro pc stamp rfl
  have hclear := hs.clear pl (List.mem_of_getElem? hi)
  cases h
  exact hclear

theorem Sound.clear_other (hs : Sound s) (hi : s.calls[i]? = some pl) (h : Act limit s pl eff pl')
    {j : ℕ} {q : Place} (hne : j ≠ i) (hj : s.calls[j]? = some q) : q.Clear (eff.onConns s.conns) := by
  have hq := hs.clear q (List.mem_of_getElem? hj)
  cases eff
  case put pc stamp =>
    apply clear_of_not_holdsBindMu
    by_contra hheld
    exact hne (hs.bindMu j i q pl hj hi (by simpa using hheld) h.holdsBindMu_of_put)
  case cut port => exact hq.cut port
  all_goals exact hq

theorem Sound.run (hs : Sound s) (hi : s.calls[i]? = some pl) (h : Act limit s pl eff pl') :
    Sound ((s.move i pl').affect eff) where
  bindMu := by
    rw [calls_affect]
    exact (hs.bindMu.set hi h.holdsBindMu).map (holdsBindMu_onWalk _)
  port := by
    rw [conns_affect]
    intro port pc hpc
    cases eff
    case put pc' stamp =>
      rcases SeqMap.of_lookup_insert hpc with ⟨hport, rfl⟩ | ⟨-, hold⟩
      · exact hport.symm
      · exact hs.port port pc hold
    case cut port' => exact hs.port port pc (SeqMap.of_lookup_erase hpc)
    all_goals exact hs.port port pc hpc
  clear := by
    intro pl₀ hpl₀
    rw [conns_affect]
    rcases mem_calls_run hpl₀ with rfl | ⟨j, q, hne, hj, rfl⟩
    · exact (clear_onWalk _ _ _).2 (h.clear (hs.clear pl (List.mem_of_getElem? hi)))
    · exact (clear_onWalk _ _ _).2 (hs.clear_other hi h hne hj)
  walk := by
    intro pl₀ hpl₀ w hw
    rw [conns_affect]
    have hput := hs.clear_put hi h
    rcases mem_calls_run hpl₀ with rfl | ⟨j, q, -, hj, rfl⟩
    all_goals
      rw [walk_onWalk] at hw
      obtain ⟨w, hold, rfl⟩ := Option.map_eq_some_iff.1 hw
    · exact (h.walk (hs.walk pl (List.mem_of_getElem? hi)) w hold).affect hput
    · exact (hs.walk q (List.mem_of_getElem? hj) w hold).affect hput

theorem Sound.step (hs : Sound s) (h : Step limit s l s') : Sound s' := by
  cases h with
  | run hi h => exact hs.run hi h
  | call op =>
      have hnew : op.place.holdsBindMu = false ∧ op.place.walk = none := by
        cases op <;> exact ⟨rfl, rfl⟩
      have hcases : ∀ {pl₀}, pl₀ ∈ s.calls ++ [op.place] → pl₀ ∈ s.calls ∨ pl₀ = op.place :=
        fun hpl₀ => (List.mem_append.1 hpl₀).imp_right List.mem_singleton.1
      refine ⟨hs.bindMu.push hnew.1, hs.port, fun pl₀ hpl₀ => ?_, fun pl₀ hpl₀ w hw => ?_⟩
      · rcases hcases hpl₀ with hold | rfl
        · exact hs.clear pl₀ hold
        · exact clear_of_not_holdsBindMu hnew.1 _
      · rcases hcases hpl₀ with hold | rfl
        · exact hs.walk pl₀ hold w hw
        · rw [hnew.2] at hw
          cases hw

end

theorem sound_init : Sound init where
  bindMu := .nil
  port := by
    intro port pc h
    cases h
  clear := nofun
  walk := nofun

-- In any interleaving a port is bound by one goroutine at a time, and only while it has no entry.
theorem pool_sound {limit : ℤ} {ok : State → Label → Prop} {s : State}
    (h : ReachableBy (system limit) ok s) : Sound s := by
  refine h.invariant (fun s hs => ?_) fun s l s' hs _ hst => hs.step (step_of_next hst)
  rw [hs]
  exact sound_init

-- One of two Gets for a port is about to bind it.
theorem pool_sound_bind : ∃ s, .listen .get 5 ∈ s.calls ∧ .lock 5 ∈ s.calls ∧ Sound s := by
  have hrun := (system 1).exists_run (P := fun s => .listen .get 5 ∈ s.calls ∧ .lock 5 ∈ s.calls)
    (s := init) rfl
    [.call (.get 5), .call (.get 5), .run 0 .go, .run 0 .go, .run 1 .go, .run 1 .go, .run 0 .go, .run 0 .go]
    (by decide +kernel)
  obtain ⟨s, hr, hlisten, hlock⟩ := hrun
  exact ⟨s, hlisten, hlock, pool_sound hr⟩

end UdpCustom.SockPool
