import UdpCustom.SockPool.Step

-- The counter, the map and the open sockets of the pool between calls.
namespace UdpCustom.SockPool

open Transition

variable {pc : PooledConn}

-- An eviction that removes the entry of its victim's port, while the entry is no
-- longer the victim's: it returns without counting it or closing it.
def Place.Crosses (s : State) : Place → Prop
  | .take _ port victim => s.conns.lookup port ≠ none ∧ s.conns.lookup port ≠ some victim
  | _ => False

instance (s : State) (pl : Place) : Decidable (pl.Crosses s) := by
  apply Place.casesOn (motive := fun pl => Decidable (pl.Crosses s)) pl <;> intros <;>
    unfold Place.Crosses <;> infer_instance

-- A socket published in a pool that every Close has already begun to walk.
def Place.Late (s : State) : Place → Prop
  | .publish _ _ _ => s.closed = true ∧ .closeWalk ∉ s.calls
  | _ => False

instance (s : State) (pl : Place) : Decidable (pl.Late s) := by
  apply Place.casesOn (motive := fun pl => Decidable (pl.Late s)) pl <;> intros <;>
    unfold Place.Late <;> infer_instance

-- Which of the two may happen in a run.
structure Rules where
  crossing : Bool
  late : Bool
  deriving DecidableEq

def Rules.Allows (r : Rules) (s : State) : Label → Prop
  | .run i _ => ∀ pl ∈ s.calls[i]?, (pl.Crosses s → r.crossing = true) ∧ (pl.Late s → r.late = true)
  | .call _ => True

instance (r : Rules) (s : State) : (l : Label) → Decidable (r.Allows s l)
  | .run i _ => inferInstanceAs (Decidable (∀ pl ∈ s.calls[i]?,
      (pl.Crosses s → r.crossing = true) ∧ (pl.Late s → r.late = true)))
  | .call _ => inferInstanceAs (Decidable True)

structure State.Settled (s : State) : Prop where
  total : s.total = s.conns.size
  entry : ∀ pc ∈ s.sockets, s.conns.lookup pc.port = some pc
  ports : ∀ a ∈ s.sockets, ∀ b ∈ s.sockets, a.port = b.port → a = b
  closed : s.closed = true → s.sockets = ∅

-- Entries published and not counted yet, less those removed and still counted.
def Place.owed : Place → ℤ
  | .count _ _ => 1
  | .uncount _ | .uncountVictim _ _ | .uncounting _ _ => -1
  | _ => 0

-- A socket that its goroutine will publish, or close.
def Place.holds : Place → Option PooledConn
  | .stampNew _ pc | .publish _ pc _ | .uncount pc | .discard pc => some pc
  | .uncountVictim _ pc | .closeVictim _ pc | .uncounting _ pc | .shutting _ pc => some pc
  | _ => none

-- A Close that will still remove the entry.
def Place.Covers (conns : SeqMap PooledConn) (k : ℕ) : Place → Prop
  | .closeWalk => True
  | .closing w | .uncounting w _ | .shutting w _ => k ∈ w.due
  | .comparing w port pc => k ∈ w.due ∨ port = k ∧ conns.lookup k = some pc
  | _ => False

@[simp] theorem owed_onWalk (f : Walk → Walk) (pl : Place) : (pl.onWalk f).owed = pl.owed := by
  cases pl <;> rfl

@[simp] theorem holds_onWalk (f : Walk → Walk) (pl : Place) : (pl.onWalk f).holds = pl.holds := by
  cases pl <;> rfl

theorem Place.Free.owed {pl : Place} (h : pl.Free) : pl.owed = 0 := by
  cases h <;> rfl

def Effect.added : Effect → ℤ
  | .add d => d
  | _ => 0

theorem total_affect (s : State) (eff : Effect) : (s.affect eff).total = s.total + eff.added := by
  cases eff
  case add d => rfl
  all_goals exact (Int.add_zero _).symm

-- What holds during the calls.
structure Accounted (s : State) : Prop where
  total : s.conns.size = s.total + (s.calls.map Place.owed).sum
  held : ∀ pc ∈ s.sockets, s.conns.lookup pc.port = some pc ∨ ∃ pl ∈ s.calls, pl.holds = some pc
  ports : ∀ a ∈ s.sockets, ∀ b ∈ s.sockets, a.port = b.port → a = b
  covered : s.closed = true → ∀ k ∈ s.conns, ∃ pl ∈ s.calls, pl.Covers s.conns k

section
variable {limit : ℤ} {s s' : State} {i : ℕ} {l : Label} {pl pl' : Place} {eff : Effect}

theorem size_erase_of_lookup {conns : SeqMap PooledConn} {port : ℕ}
    (h : conns.lookup port = some pc) : (SeqMap.size (conns.erase port) : ℤ) = conns.size - 1 := by
  have hsize := SeqMap.size_erase_of_mem (Finmap.mem_of_lookup_eq_some h)
  omega

theorem crosses_of_other {after : After} {port : ℕ} {victim other : PooledConn}
    (h : s.conns.lookup port = some other) (hne : other ≠ victim) :
    (Place.take after port victim).Crosses s := by
  refine ⟨?_, ?_⟩
  · rw [h]
    nofun
  · rw [h]
    exact fun heq => hne (Option.some.inj heq)

theorem Act.owed (h : Act limit s pl eff pl') (hclear : pl.Clear s.conns) (hcross : ¬pl.Crosses s) :
    ((eff.onConns s.conns).size : ℤ) = s.conns.size + eff.added + pl'.owed - pl.owed := by
  cases h
  case publish why pc stamp =>
    have hsize := SeqMap.size_insert_of_notMem (Finmap.lookup_eq_none.1 hclear) pc
    simp only [Effect.onConns, Effect.added, Place.owed, hsize]
    omega
  case unlink hlookup | take hlookup | compared hlookup =>
    simp only [Effect.onConns, Effect.added, Place.owed, size_erase_of_lookup hlookup]
    omega
  case unlinkOther hlookup hne => exact absurd (hclear _ hlookup) hne
  case takeOther => exact absurd (crosses_of_other ‹_› ‹_›) hcross
  all_goals
    simp only [Effect.onConns, Effect.added, (free_made _ _).owed, (free_wrote _ _).owed,
      (free_place _).owed]
    simp [Place.owed]

theorem Act.holds (h : Act limit s pl eff pl') (hpc : pl.holds = some pc) :
    pl'.holds = some pc ∨ (∃ stamp, eff = .put pc stamp) ∨ eff = .shut pc := by
  cases h
  case publish stamp =>
    cases hpc
    exact .inr (.inl ⟨stamp, rfl⟩)
  case discard | closeVictim | shutting =>
    cases hpc
    exact .inr (.inr rfl)
  all_goals first
    | exact .inl hpc
    | cases hpc

-- Whoever removes an entry has its socket.
theorem Act.holds_of_cut {port : ℕ} (h : Act limit s pl (.cut port) pl') (hclear : pl.Clear s.conns)
    (hcross : ¬pl.Crosses s) (hpc : s.conns.lookup port = some pc) :
    pl'.holds = some pc := by
  cases h
  case unlink hlookup | take hlookup | compared hlookup => exact hlookup.symm.trans hpc
  case unlinkOther hlookup hne => exact absurd (hclear _ hlookup) hne
  case takeOther => exact absurd (crosses_of_other ‹_› ‹_›) hcross

theorem Act.of_listen (h : Act limit s pl (.listen pc) pl') :
    pl'.holds = some pc ∧ ∀ other ∈ s.sockets, other.port ≠ pc.port := by
  cases h
  exact ⟨rfl, ‹_›⟩

-- An entry stays covered until it goes.
theorem Act.covers (h : Act limit s pl eff pl') (hwalk : ∀ w ∈ pl.walk, w.Agrees s.conns) {k : ℕ}
    (hk : k ∈ s.conns) (hc : pl.Covers s.conns k) : pl'.Covers s.conns k ∨ eff = .cut k := by
  cases h
  case closeWalk => exact .inl (Finmap.mem_keys.2 hk)
  case closeMeet w port pc hseen =>
    by_cases hport : k = port
    · subst hport
      exact .inl (.inr ⟨rfl, (hwalk w rfl k hc).2 pc hseen⟩)
    · exact .inl (.inl (Finset.mem_erase.2 ⟨hport, hc⟩))
  case closeDone hdue =>
    have hnone : k ∈ (∅ : Finset ℕ) := hdue ▸ hc
    cases hnone
  case compared =>
    rcases hc with hdue | ⟨rfl, -⟩
    · exact .inl hdue
    · exact .inr rfl
  case differs hne =>
    rcases hc with hdue | ⟨rfl, heq⟩
    · exact .inl hdue
    · exact absurd heq hne
  case uncounting | shutting => exact .inl hc
  all_goals cases hc

theorem Place.Covers.affect {conns : SeqMap PooledConn} {k : ℕ} (h : pl.Covers conns k)
    (hput : ∀ pc stamp, eff = .put pc stamp → conns.lookup pc.port = none)
    (hk : k ∈ eff.onConns conns) : (pl.onWalk eff.onWalk).Covers (eff.onConns conns) k := by
  cases eff
  case put pc stamp =>
    cases pl
    case comparing w port pc' =>
      rcases h with hdue | ⟨hport, hlookup⟩
      · exact .inl hdue
      · have hne : k ≠ pc.port := by
          rintro rfl
          rw [hput pc stamp rfl] at hlookup
          cases hlookup
        exact .inr ⟨hport, (Finmap.lookup_insert_of_ne _ hne).trans hlookup⟩
    all_goals exact h
  case cut gone =>
    have hne : k ≠ gone := (Finmap.mem_erase.1 hk).1
    cases pl
    case comparing w port pc =>
      rcases h with hdue | ⟨hport, hlookup⟩
      · exact .inl (Finset.mem_erase.2 ⟨hne, hdue⟩)
      · exact .inr ⟨hport, (Finmap.lookup_erase_ne hne).trans hlookup⟩
    case closing | uncounting | shutting => exact Finset.mem_erase.2 ⟨hne, h⟩
    all_goals exact h
  all_goals exact (onWalk_id pl).symm ▸ h

-- A goroutine that does not move keeps what it has, the Ranges apart.
theorem mem_calls_of_ne {q : Place} {j : ℕ} (hj : s.calls[j]? = some q) (hne : j ≠ i) :
    q.onWalk eff.onWalk ∈ ((s.move i pl').affect eff).calls := by
  rw [calls_affect]
  exact List.mem_map_of_mem (Threads.mem_set_of_ne hj hne pl')

theorem mem_calls_self (hi : s.calls[i]? = some pl) :
    pl'.onWalk eff.onWalk ∈ ((s.move i pl').affect eff).calls := by
  rw [calls_affect]
  exact List.mem_map_of_mem (Threads.mem_set_self hi pl')

-- Steps that neither cross nor publish late.
def careful : Rules := ⟨false, false⟩

theorem Accounted.held_run (ha : Accounted s) (hs : Sound s) (hi : s.calls[i]? = some pl)
    (h : Act limit s pl eff pl') (hcross : ¬pl.Crosses s) :
    ∀ pc ∈ ((s.move i pl').affect eff).sockets,
      ((s.move i pl').affect eff).conns.lookup pc.port = some pc ∨
        ∃ q ∈ ((s.move i pl').affect eff).calls, q.holds = some pc := by
  have hclear := hs.clear pl (List.mem_of_getElem? hi)
  have hput := hs.clear_put hi h
  intro pc hpc
  rw [conns_affect]
  have hown : pl'.holds = some pc → ∃ q ∈ ((s.move i pl').affect eff).calls, q.holds = some pc :=
    fun hholds => ⟨_, mem_calls_self hi, (holds_onWalk _ _).trans hholds⟩
  -- A socket that was open before the step.
  have hold : pc ∈ s.sockets → eff ≠ .shut pc →
      (eff.onConns s.conns).lookup pc.port = some pc ∨
        ∃ q ∈ ((s.move i pl').affect eff).calls, q.holds = some pc := by
    intro hopen hshut
    rcases ha.held pc hopen with hentry | ⟨q, hq, hholds⟩
    · cases eff
      case put pc' stamp =>
        have hne : pc.port ≠ pc'.port := by
          intro heq
          rw [heq, hput pc' stamp rfl] at hentry
          cases hentry
        exact .inl ((Finmap.lookup_insert_of_ne _ hne).trans hentry)
      case cut port =>
        by_cases hport : pc.port = port
        · exact .inr (hown (h.holds_of_cut hclear hcross (hport ▸ hentry)))
        · exact .inl ((Finmap.lookup_erase_ne hport).trans hentry)
      all_goals exact .inl hentry
    · obtain ⟨j, hj⟩ := List.mem_iff_getElem?.1 hq
      by_cases hji : j = i
      · obtain rfl : pl = q := Option.some.inj (hi.symm.trans (hji ▸ hj))
        rcases h.holds hholds with hkept | ⟨stamp, rfl⟩ | rfl
        · exact .inr (hown hkept)
        · exact .inl (Finmap.lookup_insert _)
        · exact absurd rfl hshut
      · exact .inr ⟨_, mem_calls_of_ne hj hji, (holds_onWalk _ _).trans hholds⟩
  cases eff
  case listen new =>
    rcases Finset.mem_insert.1 hpc with rfl | hopen
    · exact .inr (hown h.of_listen.1)
    · exact hold hopen nofun
  case shut gone =>
    obtain ⟨hne, hopen⟩ := Finset.mem_erase.1 hpc
    exact hold hopen fun heq => hne (by cases heq; rfl)
  all_goals exact hold hpc nofun

theorem Accounted.covered_run (ha : Accounted s) (hs : Sound s) (hi : s.calls[i]? = some pl)
    (h : Act limit s pl eff pl') (hlate : ¬pl.Late s)
    (hclosed : ((s.move i pl').affect eff).closed = true) :
    ∀ k ∈ ((s.move i pl').affect eff).conns,
      ∃ q ∈ ((s.move i pl').affect eff).calls, q.Covers ((s.move i pl').affect eff).conns k := by
  have hput := hs.clear_put hi h
  intro k hk
  rw [conns_affect] at hk ⊢
  -- An entry that was there before the step.
  have hold : s.closed = true → k ∈ s.conns →
      ∃ q ∈ ((s.move i pl').affect eff).calls, q.Covers (eff.onConns s.conns) k := by
    intro hclosed hmem
    obtain ⟨q, hq, hcovers⟩ := ha.covered hclosed k hmem
    obtain ⟨j, hj⟩ := List.mem_iff_getElem?.1 hq
    by_cases hji : j = i
    · obtain rfl : pl = q := Option.some.inj (hi.symm.trans (hji ▸ hj))
      rcases h.covers (hs.walk pl hq) hmem hcovers with hkept | rfl
      · exact ⟨_, mem_calls_self hi, hkept.affect hput hk⟩
      · exact absurd rfl (Finmap.mem_erase.1 hk).1
    · exact ⟨_, mem_calls_of_ne hj hji, hcovers.affect hput hk⟩
  cases eff
  case close =>
    cases h
    exact ⟨_, mem_calls_self hi, trivial⟩
  case put pc stamp =>
    -- A Close that has not begun its walk will see the new entry too.
    have hwaits : Place.closeWalk ∈ s.calls := by
      by_contra hnone
      cases h
      exact hlate ⟨hclosed, hnone⟩
    obtain ⟨j, hj⟩ := List.mem_iff_getElem?.1 hwaits
    have hji : j ≠ i := by
      rintro rfl
      rw [hi] at hj
      cases hj
      cases h
    exact ⟨_, mem_calls_of_ne hj hji, trivial⟩
  case cut port => exact hold hclosed (Finmap.mem_erase.1 hk).2
  all_goals exact hold hclosed hk

theorem Accounted.run (ha : Accounted s) (hs : Sound s) (hi : s.calls[i]? = some pl)
    (h : Act limit s pl eff pl') (hcross : ¬pl.Crosses s) (hlate : ¬pl.Late s) :
    Accounted ((s.move i pl').affect eff) where
  total := by
    have howed := h.owed (hs.clear pl (List.mem_of_getElem? hi)) hcross
    have hsum := Threads.sum_map_set Place.owed hi pl'
    have hcalls : (((s.move i pl').affect eff).calls.map Place.owed) =
        (s.calls.set i pl').map Place.owed := by
      rw [calls_affect, List.map_map]
      exact List.map_congr_left fun q _ => owed_onWalk _ q
    rw [hcalls, conns_affect, total_affect, hsum]
    have htotal := ha.total
    change ((eff.onConns s.conns).size : ℤ) = s.total + _ + _
    omega
  held := ha.held_run hs hi h hcross
  ports := by
    cases eff
    case listen new =>
      obtain ⟨-, hother⟩ := h.of_listen
      intro a hmemA b hmemB hport
      rcases Finset.mem_insert.1 hmemA with rfl | holdA <;>
        rcases Finset.mem_insert.1 hmemB with rfl | holdB
      · rfl
      · exact absurd hport.symm (hother b holdB)
      · exact absurd hport (hother a holdA)
      · exact ha.ports a holdA b holdB hport
    case shut gone =>
      intro a hmemA b hmemB
      exact ha.ports a (Finset.mem_of_mem_erase hmemA) b (Finset.mem_of_mem_erase hmemB)
    all_goals exact ha.ports
  covered := ha.covered_run hs hi h hlate

theorem Accounted.step (ha : Accounted s) (hs : Sound s) (hok : careful.Allows s l)
    (h : Step limit s l s') : Accounted s' := by
  cases h with
  | run hi h =>
      obtain ⟨hcross, hlate⟩ := hok _ hi
      exact ha.run hs hi h (fun hc => Bool.noConfusion (hcross hc)) fun hl => Bool.noConfusion (hlate hl)
  | call op =>
      have hnew : op.place.owed = 0 := by cases op <;> rfl
      refine ⟨?_, fun pc hpc => ?_, ha.ports, fun hclosed k hk => ?_⟩
      · simpa [hnew] using ha.total
      · exact (ha.held pc hpc).imp_right fun ⟨q, hq, hholds⟩ => ⟨q, List.mem_append_left _ hq, hholds⟩
      · obtain ⟨q, hq, hcovers⟩ := ha.covered hclosed k hk
        exact ⟨q, List.mem_append_left _ hq, hcovers⟩

end

theorem accounted_init : Accounted init where
  total := by simp [init]
  held := nofun
  ports := nofun
  covered := nofun

theorem accounted_of_reachable {limit : ℤ} {s : State}
    (h : ReachableBy (system limit) careful.Allows s) : Accounted s := by
  have hboth : Sound s ∧ Accounted s := by
    refine h.invariant (I := fun s => Sound s ∧ Accounted s) (fun s hs => ?_) fun s l s' hs hok hst => ?_
    · rw [hs]
      exact ⟨sound_init, accounted_init⟩
    · have hstep := step_of_next hst
      exact ⟨hs.1.step hstep, hs.2.step hs.1 hok hstep⟩
  exact hboth.2

theorem Accounted.settled {s : State} (ha : Accounted s) (hidle : s.Idle) : s.Settled where
  total := by
    have hzero : (s.calls.map Place.owed).sum = 0 := by
      refine List.sum_eq_zero fun x hx => ?_
      obtain ⟨pl, hpl, rfl⟩ := List.mem_map.1 hx
      rw [hidle pl hpl]
      rfl
    rw [ha.total, hzero, Int.add_zero]
  entry := by
    intro pc hpc
    refine (ha.held pc hpc).resolve_right ?_
    rintro ⟨pl, hpl, hholds⟩
    rw [hidle pl hpl] at hholds
    cases hholds
  ports := ha.ports
  closed := by
    intro hclosed
    refine Finset.eq_empty_of_forall_notMem fun pc hpc => ?_
    -- An open socket would be an entry that some Close is still to remove.
    rcases ha.held pc hpc with hentry | ⟨pl, hpl, hholds⟩
    · obtain ⟨pl, hpl, hcovers⟩ := ha.covered hclosed pc.port (Finmap.mem_of_lookup_eq_some hentry)
      rw [hidle pl hpl] at hcovers
      cases hcovers
    · rw [hidle pl hpl] at hholds
      cases hholds

theorem Rules.Allows.mono {r r' : Rules} (hcross : r.crossing = true → r'.crossing = true)
    (hlate : r.late = true → r'.late = true) (s : State) (l : Label) (h : r.Allows s l) :
    r'.Allows s l := by
  cases l with
  | run i ch =>
      intro pl hpl
      obtain ⟨hc, hl⟩ := h pl hpl
      exact ⟨fun hx => hcross (hc hx), fun hx => hlate (hl hx)⟩
  | call op => trivial

def steps (i n : ℕ) : List Label :=
  List.replicate n (.run i .go)

-- A Get that binds, up to the point where it counts the new entry.
def getToCount (i : ℕ) (port : ℤ) : List Label :=
  .call (.get port) :: steps i 4 ++ .run i (.bound true) :: steps i 2

-- The eviction for port 2 chooses the socket of port 1. Its writer, whose write failed
-- before, publishes a replacement, and the eviction removes that one.
def crossingRun : List Label :=
  ([getToCount 0 1, steps 0 2, getToCount 1 2,
    .call (.write ⟨1, 0⟩) :: .run 2 .go :: .run 2 (.wrote true) :: steps 2 2,
    steps 1 3,
    [.run 1 (.meet 1 ⟨1, 0⟩), .run 1 .go, .run 1 (.meet 2 ⟨2, 1⟩), .run 1 .go, .run 1 .finish,
      .run 1 (.first 0), .run 1 .go],
    steps 2 6, .run 2 (.bound true) :: steps 2 3,
    steps 1 3, steps 2 2,
    [.run 2 (.meet 2 ⟨2, 1⟩), .run 2 .go, .run 2 .finish, .run 2 (.first 0)], steps 2 7,
    .run 2 (.wrote false) :: steps 2 2] : List (List Label)).flatten

-- Close is called, and returns, while Get is in ListenUDP.
def lateRun : List Label :=
  .call (.get 1) :: steps 0 4 ++
  .call .close :: steps 1 2 ++ [.run 1 .finish] ++
  .run 0 (.bound true) :: steps 0 4

theorem exists_crossing : ∃ s, ReachableBy (system 1) (Rules.Allows ⟨true, false⟩) s ∧
    s.Idle ∧ s.total = 1 ∧ s.conns.size = 0 ∧ s.sockets = {⟨1, 2⟩} :=
  (system 1).exists_runBy (Rules.Allows ⟨true, false⟩)
    (P := fun s => s.Idle ∧ s.total = 1 ∧ s.conns.size = 0 ∧ s.sockets = {⟨1, 2⟩})
    (s := init) rfl crossingRun (by decide +kernel)

theorem exists_late : ∃ s, ReachableBy (system 1) (Rules.Allows ⟨false, true⟩) s ∧
    s.Idle ∧ s.closed = true ∧ s.sockets = {⟨1, 0⟩} :=
  (system 1).exists_runBy (Rules.Allows ⟨false, true⟩)
    (P := fun s => s.Idle ∧ s.closed = true ∧ s.sockets = {⟨1, 0⟩}) (s := init) rfl lateRun
    (by decide +kernel)

-- Without either event the pool is in order whenever it is idle; each of them alone is
-- enough to break it.
theorem settled_when_idle_iff (rules : Rules) :
    (∀ limit s, ReachableBy (system limit) rules.Allows s → s.Idle → s.Settled) ↔
      rules.crossing = false ∧ rules.late = false := by
  constructor
  · intro h
    refine ⟨Bool.eq_false_iff.2 fun hcross => ?_, Bool.eq_false_iff.2 fun hlate => ?_⟩
    · obtain ⟨s, hreach, hidle, htotal, hsize, -⟩ := exists_crossing
      have hsettled := h 1 s (hreach.mono (Rules.Allows.mono (fun _ => hcross) Bool.noConfusion)) hidle
      have hwrong := hsettled.total
      rw [htotal, hsize] at hwrong
      cases hwrong
    · obtain ⟨s, hreach, hidle, hclosed, hopen⟩ := exists_late
      have hsettled := h 1 s (hreach.mono (Rules.Allows.mono Bool.noConfusion fun _ => hlate)) hidle
      rw [hsettled.closed hclosed] at hopen
      exact Finset.singleton_ne_empty _ hopen.symm
  · rintro ⟨hcross, hlate⟩ limit s hreach hidle
    have hcareful : rules = careful := by
      cases rules
      simp_all [careful]
    subst hcareful
    exact (accounted_of_reachable hreach).settled hidle

-- The replacement for port 1 is open, counted and in nobody's hands; the socket of a
-- closed pool stays open.
theorem idle_pool_out_of_order :
    (∃ s, Reachable (system 1) s ∧ s.Idle ∧ s.total = 1 ∧ s.conns.size = 0 ∧ s.sockets = {⟨1, 2⟩}) ∧
      ∃ s, Reachable (system 1) s ∧ s.Idle ∧ s.closed = true ∧ s.sockets = {⟨1, 0⟩} := by
  obtain ⟨s, hcrossing, hs⟩ := exists_crossing
  obtain ⟨t, hlate, ht⟩ := exists_late
  exact ⟨⟨s, hcrossing.reachable, hs⟩, t, hlate.reachable, ht⟩

end UdpCustom.SockPool
