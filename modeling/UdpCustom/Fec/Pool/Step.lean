import UdpCustom.Fec.Pool.Memory

-- What the sections of one sender do: to its records, they do what they do without
-- memory, and no array of anybody else is written to.
namespace UdpCustom.Fec.Pool

open UdpCustom.Frame UdpCustom.Fec.Formation Transition

variable {m m' : Memory} {s s' : Sender} {others : List ℕ} {src : SourceShard} {h h' : Heap SourceShard}
  {loss : Float} {code : ErasureCode UInt8} {a : Action}

-- The part of a sender that only its goroutines change.
structure SameFlow (s s' : Sender) : Prop where
  flushes : s'.flushes = s.flushes
  emitted : s'.emitted = s.emitted
  sent : s'.sent = s.sent

theorem SameFlow.refl (s : Sender) : SameFlow s s :=
  ⟨rfl, rfl, rfl⟩

theorem SameFlow.trans {s'' : Sender} (h : SameFlow s s') (h' : SameFlow s' s'') : SameFlow s s'' :=
  ⟨h'.flushes.trans h.flushes, h'.emitted.trans h.emitted, h'.sent.trans h.sent⟩

theorem flow_detachLocked (h : Heap SourceShard) (s : Sender) : SameFlow s (s.detachLocked h).2 := by
  unfold Sender.detachLocked
  split <;> exact ⟨rfl, rfl, rfl⟩

theorem flow_cut (h : Heap SourceShard) (s : Sender) (src : SourceShard) : SameFlow s (s.cut h src).2 := by
  unfold Sender.cut
  split
  · exact flow_detachLocked h s
  · exact .refl s

theorem flow_cutFull (h : Heap SourceShard) (s : Sender) : SameFlow s (s.cutFull h).2 := by
  unfold Sender.cutFull
  split
  · exact flow_detachLocked h s
  · exact .refl s

theorem flow_take (m : Memory) (s : Sender) (src : SourceShard) (pick : ℕ) (spare : List SourceShard) :
    SameFlow s (s.take m src pick spare).2 := by
  unfold Sender.take
  dsimp only
  split <;> exact ⟨rfl, rfl, rfl⟩

-- The three parts of a section that takes a record, one after another.
theorem flow_taking (m : Memory) (s : Sender) (src : SourceShard) (pick : ℕ) (spare : List SourceShard) :
    let taken := (s.cut m.heap src).2.take m src pick spare
    SameFlow s (taken.2.cutFull taken.1.heap).2 :=
  ((flow_cut _ _ _).trans (flow_take _ _ _ _ _)).trans (flow_cutFull _ _)

-- Blocks leave the open slot and are in hand.
structure Detaches (m : Memory) (s : Sender) (others : List ℕ) (v : Formation.State)
    (out : List Taken × Sender) : Prop where
  view : out.2.view m.heap = v
  own : Own m out.2.pending out.2.flushes (out.1.map (·.block.array) ++ others)
  whole : ∀ t ∈ out.1, t.Whole m.heap
  detached : out.2.detached = s.detached ++ out.1.map (·.records)

theorem detaches_nothing (hown : Own m s.pending s.flushes others) :
    Detaches m s others (s.view m.heap) ([], s) :=
  ⟨rfl, hown, nofun, (List.append_nil _).symm⟩

theorem detaches_detachLocked (hown : Own m s.pending s.flushes others) :
    Detaches m s others (s.view m.heap).detachLocked (s.detachLocked m.heap) := by
  have hlen := hown.intact.length_read
  unfold Sender.detachLocked
  split
  · rename_i hzero
    have hview : (s.view m.heap).detachLocked = s.view m.heap :=
      if_pos (List.length_eq_zero_iff.1 (hlen.trans hzero))
    rw [hview]
    exact detaches_nothing hown
  · rename_i hsome
    have hp : Sized m.heap s.pending :=
      hown.intact.pending.resolve_left fun hnone => hsome (by rw [hnone]; rfl)
    have hne : m.heap.read s.pending ≠ [] := by
      intro hnil
      rw [hnil] at hlen
      exact hsome hlen.symm
    have hview : (s.view m.heap).detachLocked = _ := if_neg hne
    rw [hview]
    refine ⟨?_, hown.detach hp, fun t ht => ?_, rfl⟩
    · unfold Sender.view
      dsimp only
      rw [Heap.read_of_len_eq_zero rfl]
    · rw [List.mem_singleton.1 ht]
      exact ⟨hp, rfl⟩

-- The next sequence does not wrap around while a larger one is still to come.
theorem detaches_cut (hown : Own m s.pending s.flushes others) (horderly : Orderly (s.view m.heap))
    (hlast : ∀ x ∈ s.added, x.seq < src.seq) (hseq : src.seq < 2 ^ 64) :
    Detaches m s others ((s.view m.heap).cut src) (s.cut m.heap src) := by
  have hnext : ∀ last ∈ m.heap.read s.pending, (last.seq + 1) % 2 ^ 64 = last.seq + 1 := by
    intro last hmem
    have hadded : last ∈ s.added := horderly.formed.records.subset (List.mem_append_right _ hmem)
    have := hlast last hadded
    exact Nat.mod_eq_of_lt (by omega)
  have hsame : ((m.heap.read s.pending).getLast?.any fun last => src.seq ≠ (last.seq + 1) % 2 ^ 64) =
      (m.heap.read s.pending).getLast?.any fun last => src.seq ≠ last.seq + 1 := by
    cases hget : (m.heap.read s.pending).getLast? with
    | none => rfl
    | some last =>
        rw [Option.any_some, Option.any_some, hnext last (List.mem_of_getLast? hget)]
  unfold Sender.cut
  rw [hsame]
  split
  · rename_i hbroken
    have hview : (s.view m.heap).cut src = (s.view m.heap).detachLocked := if_pos hbroken
    rw [hview]
    exact detaches_detachLocked hown
  · rename_i hkept
    have hview : (s.view m.heap).cut src = s.view m.heap := if_neg hkept
    rw [hview]
    exact detaches_nothing hown

theorem detaches_cutFull (hown : Own m s.pending s.flushes others) :
    Detaches m s others (s.view m.heap).cutFull (s.cutFull m.heap) := by
  have hlen : (s.view m.heap).sender.pending.length = s.pending.len := hown.intact.length_read
  unfold Sender.cutFull Formation.State.cutFull
  rw [hlen]
  split
  · exact detaches_detachLocked hown
  · exact detaches_nothing hown

-- A record joins the open block, in memory as on the list.
structure Takes (m : Memory) (s : Sender) (others : List ℕ) (v : Formation.State)
    (out : Memory × Sender) : Prop where
  view : out.2.view out.1.heap = v
  own : Own out.1 out.2.pending out.2.flushes others
  agree : m.heap.Agree out.1.heap others
  detached : out.2.detached = s.detached

theorem takes_take (hown : Own m s.pending s.flushes others) (hgen : s.flushGen + 1 < 2 ^ 64)
    (src : SourceShard) (pick : ℕ) (spare : List SourceShard) :
    Takes m s others ((s.view m.heap).take src) (s.take m src pick spare) := by
  obtain ⟨hgot, hvalid, hread, hag⟩ := hown.fetch pick
  unfold Sender.take
  generalize m.fetch s.pending pick = got at hgot hvalid hread hag
  obtain ⟨happ, hagApp⟩ := hgot.append hvalid [src] spare
  have hgrown := Heap.read_append hvalid [src] spare
  have hsized : Sized (got.2.heap.append got.1 [src] spare).2 (got.2.heap.append got.1 [src] spare).1 := by
    refine ⟨?_, Heap.valid_append hvalid _ _⟩
    rw [Heap.len_append _ hvalid]
    exact Nat.zero_lt_succ _
  have hkeep := happ.keep hsized
  have hlen : (m.heap.read s.pending ++ [src]).length = (got.2.heap.append got.1 [src] spare).1.len := by
    rw [Heap.len_append _ hvalid, ← Heap.length_read hvalid, hread, List.length_append]
  rw [hread] at hgrown
  have hview : ∀ gen clock, Sender.view (got.2.heap.append got.1 [src] spare).2
      { s with
        pending := (got.2.heap.append got.1 [src] spare).1
        added := s.added ++ [src]
        flushGen := gen
        clock := clock } =
      { s.view m.heap with
        sender := { (s.view m.heap).sender with
          pending := m.heap.read s.pending ++ [src]
          flushGen := gen }
        clock := clock
        added := s.added ++ [src] } := by
    intro gen clock
    unfold Sender.view
    dsimp only
    rw [hgrown]
  unfold Formation.State.take
  dsimp only
  split
  · rename_i hone
    rw [if_pos (hlen.symm.trans hone), Nat.mod_eq_of_lt hgen]
    exact ⟨hview _ _, hkeep, hag.trans hagApp, rfl⟩
  · rename_i hmore
    rw [if_neg fun hone => hmore (hlen.trans hone)]
    exact ⟨hview _ _, hkeep, hag.trans hagApp, rfl⟩

-- The blocks of a goroutine that have not entered `emitBlock`.
def Flush.waiting (f : Flush) : List (List SourceShard) :=
  match f.place with
  | .check => f.blocks.map (·.records)
  | _ => f.blocks.tail.map (·.records)

-- The local variables of `emitBlock` were computed from the records of the block.
def Place.Right (code : ErasureCode UInt8) (emitted : List (List SourceShard)) (block : List SourceShard) :
    Place → Prop
  | .count size | .parity size _ | .encode size _ => block ∈ emitted ∧ size = shardSize block
  | .send parityShards index left =>
    block ∈ emitted ∧ left = (code.encode block.length parityShards
      (block.map fun src => shard (shardSize block) src.payload)).drop index
  | .check | .clear | .put => True

def FromBlock (code : ErasureCode UInt8) (block : List SourceShard) (p : ParityShard) : Prop :=
  ∃ parityShards, p ∈ parityShardsOf code (baseSeq block) parityShards block

-- Every detached block is emitted once, and parity comes from what was emitted.
structure Emission (code : ErasureCode UInt8) (s : Sender) : Prop where
  blocks : (s.emitted ++ s.flushes.flatMap Flush.waiting).Perm s.detached
  places : ∀ f ∈ s.flushes, ∀ t ∈ f.blocks.head?, f.place.Right code s.emitted t.records
  sent : ∀ p ∈ s.sent, ∃ block ∈ s.emitted, FromBlock code block p

theorem Emission.same (he : Emission code s) (hflow : SameFlow s s') (hdetached : s'.detached = s.detached) :
    Emission code s' := by
  obtain ⟨hflushes, hemitted, hsent⟩ := hflow
  refine ⟨?_, ?_, ?_⟩
  · rw [hemitted, hflushes, hdetached]
    exact he.blocks
  · rw [hemitted, hflushes]
    exact he.places
  · rw [hemitted, hsent]
    exact he.sent

-- The blocks in hand at the end of a section go to a goroutine.
theorem Emission.launch {blocks : List Taken} (he : Emission code s) (hflow : SameFlow s s')
    (hdetached : s'.detached = s.detached ++ blocks.map (·.records)) :
    Emission code (s'.launch blocks) := by
  obtain ⟨hflushes, hemitted, hsent⟩ := hflow
  unfold Sender.launch
  refine ⟨?_, fun f hf t ht => ?_, ?_⟩
  · dsimp only
    rw [hemitted, hflushes, hdetached, List.flatMap_append, List.flatMap_singleton, ← List.append_assoc]
    exact he.blocks.append_right _
  · dsimp only at hf ⊢
    rw [hflushes] at hf
    rw [hemitted]
    rcases List.mem_append.1 hf with hold | hnew
    · exact he.places f hold t ht
    · rw [List.mem_singleton.1 hnew]
      trivial
  · dsimp only
    rw [hemitted, hsent]
    exact he.sent

-- A sender beside everybody else, whose records went the way that blocks are formed.
structure Ok (code : ErasureCode UInt8) (m : Memory) (s : Sender) (others : List ℕ) : Prop where
  own : Own m s.pending s.flushes others
  reached : Reachable Formation.system (s.view m.heap)
  emission : Emission code s

theorem Ok.orderly (hok : Ok code m s others) : Orderly (s.view m.heap) :=
  orderly_of_reachable hok.reached

-- What an action is where the blocks are lists of records.
def Action.Sees : Action → Formation.State → Formation.State → Prop
  | .add src loss _ _, v, v' => Formation.next v (.add src loss) = some v'
  | .fire t, v, v' => Formation.next v (.fire t) = some v'
  | .run _ _, v, v' => v' = v ∨ Formation.next v .count = some v'
  | .close, v, v' => Formation.next v .close = some v'
  | .wait, v, v' => v' = v

theorem Action.Sees.same_or_next {v v' : Formation.State} (hsees : a.Sees v v') :
    v' = v ∨ ∃ l, Formation.next v l = some v' := by
  cases a with
  | add | fire | close => exact .inr ⟨_, hsees⟩
  | run => exact hsees.imp_right fun hnext => ⟨_, hnext⟩
  | wait => exact .inl hsees

-- A step of a sender touches nobody else.
structure Steps (code : ErasureCode UInt8) (m : Memory) (s : Sender) (others : List ℕ) (a : Action)
    (m' : Memory) (s' : Sender) : Prop where
  own : Own m' s'.pending s'.flushes others
  emission : Emission code s'
  agree : m.heap.Agree m'.heap others
  sees : a.Sees (s.view m.heap) (s'.view m'.heap)

theorem Steps.ok (hstep : Steps code m s others a m' s') (hok : Ok code m s others) :
    Ok code m' s' others := by
  refine ⟨hstep.own, ?_, hstep.emission⟩
  rcases hstep.sees.same_or_next with hsame | ⟨l, hnext⟩
  · rw [hsame]
    exact hok.reached
  · exact .step hok.reached trivial hnext

theorem view_launch (h : Heap SourceShard) (s : Sender) (blocks : List Taken) :
    (s.launch blocks).view h = s.view h := rfl

-- A section that cuts off a block, takes a record and cuts off the full block. What was
-- cut off first is still whole in the end.
theorem launched_of_taking {cut full : List Taken × Sender} {taken : Memory × Sender}
    {v₁ v₂ v₃ : Formation.State} (he : Emission code s) (hflow : SameFlow s full.2)
    (hcut : Detaches m s others v₁ cut)
    (htake : Takes m cut.2 (cut.1.map (·.block.array) ++ others) v₂ taken)
    (hfull : Detaches taken.1 taken.2 (cut.1.map (·.block.array) ++ others) v₃ full) :
    Own taken.1 (full.2.launch (cut.1 ++ full.1)).pending (full.2.launch (cut.1 ++ full.1)).flushes others ∧
      Emission code (full.2.launch (cut.1 ++ full.1)) ∧ m.heap.Agree taken.1.heap others := by
  have hwhole : ∀ t ∈ cut.1 ++ full.1, t.Whole taken.1.heap := by
    intro t ht
    rcases List.mem_append.1 ht with hfirst | hsecond
    · refine (hcut.whole t hfirst).agree htake.agree ?_
      exact List.mem_append_left _ (List.mem_map_of_mem hfirst)
    · exact hfull.whole t hsecond
  have hhand : (full.1.map (·.block.array) ++ (cut.1.map (·.block.array) ++ others)).Perm
      ((cut.1 ++ full.1).map (·.block.array) ++ others) := by
    rw [List.map_append, ← List.append_assoc]
    exact List.perm_append_comm.append_right _
  refine ⟨(hfull.own.perm hhand).launch hwhole, ?_, ?_⟩
  · refine he.launch hflow ?_
    rw [hfull.detached, htake.detached, hcut.detached, List.map_append, List.append_assoc]
  · exact htake.agree.mono (List.subset_append_right _ _)

theorem steps_add (hok : Ok code m s others) (hlast : ∀ x ∈ s.added, x.seq < src.seq)
    (hseq : src.seq < 2 ^ 64) (loss : Float) (pick : ℕ) (spare : List SourceShard) :
    Steps code m s others (.add src loss pick spare) (s.add m src loss pick spare).1
      (s.add m src loss pick spare).2 := by
  have hnext : Formation.next (s.view m.heap) (.add src loss) = some ((s.view m.heap).add src loss) :=
    if_pos ⟨hlast, hseq⟩
  have hlen : (s.view m.heap).sender.pending.length = s.pending.len := hok.own.intact.length_read
  unfold Sender.add
  split
  · rename_i hignored
    have hview : (s.view m.heap).add src loss = { s.view m.heap with added := s.added ++ [src] } :=
      if_pos (hlen.symm ▸ hignored)
    rw [hview] at hnext
    exact ⟨hok.own, hok.emission.same ⟨rfl, rfl, rfl⟩ rfl, .refl _ _, hnext⟩
  · rename_i htaken
    have hview : (s.view m.heap).add src loss = (((s.view m.heap).cut src).take src).cutFull :=
      if_neg (hlen.symm ▸ htaken)
    have hpos := (taken_of_not_ignores htaken).1
    have hcut := detaches_cut hok.own hok.orderly hlast hseq
    have hgen : (s.cut m.heap src).2.flushGen < src.seq := by
      have horderly := hok.orderly.cut src
      rw [← hcut.view] at horderly
      refine horderly.formed.gen_lt ?_ hpos
      rw [hcut.view, added_cut]
      exact hlast
    have htake := takes_take hcut.own (by omega) src pick spare
    have hfull := detaches_cutFull htake.own
    rw [htake.view, hcut.view, ← hview] at hfull
    obtain ⟨hown, hemission, hagree⟩ := launched_of_taking hok.emission
      (flow_taking m s src pick spare) hcut htake hfull
    refine ⟨hown, hemission, hagree, hnext.trans ?_⟩
    dsimp only
    rw [view_launch, hfull.view]

theorem view_flushTimer (hown : Own m s.pending s.flushes others) (gen : ℕ) :
    (s.flushTimer m.heap gen).view m.heap = (s.view m.heap).flushTimer gen := by
  unfold Sender.flushTimer
  split
  · rename_i hskip
    exact (if_pos hskip).symm
  · rename_i hcurrent
    have hview : (s.view m.heap).flushTimer gen = (s.view m.heap).detachLocked := if_neg hcurrent
    rw [hview]
    exact (detaches_detachLocked hown).view

theorem view_fire (hown : Own m s.pending s.flushes others) (t gen : ℕ) :
    ({ s with clock := s.clock.begin t }.flushTimer m.heap gen).view m.heap =
      { s.view m.heap with clock := s.clock.begin t }.flushTimer gen :=
  view_flushTimer (s := { s with clock := s.clock.begin t }) hown gen

theorem steps_fire {t : ℕ} {tm : Timer} (hok : Ok code m s others) (ht : s.clock.timers[t]? = some tm)
    (hran : tm.ran = false) :
    Steps code m s others (.fire t) m ({ s with clock := s.clock.begin t }.flushTimer m.heap tm.gen) := by
  have hnext : Formation.next (s.view m.heap) (.fire t) =
      some ({ s.view m.heap with clock := s.clock.begin t }.flushTimer tm.gen) := by
    simp only [Formation.next]
    rw [show (s.view m.heap).clock.timers[t]? = some tm from ht]
    exact if_neg (by simp [hran])
  rw [← view_fire hok.own] at hnext
  have hown : Own m { s with clock := s.clock.begin t }.pending { s with clock := s.clock.begin t }.flushes
      others := hok.own
  have hbegun : Emission code { s with clock := s.clock.begin t } := hok.emission.same ⟨rfl, rfl, rfl⟩ rfl
  refine ⟨?_, ?_, .refl _ _, hnext⟩
  all_goals
    unfold Sender.flushTimer
    have hdet := detaches_detachLocked hown
    split
  · exact hown
  · exact hdet.own.launch hdet.whole
  · exact hbegun
  · exact hbegun.launch (flow_detachLocked _ _) hdet.detached

theorem steps_close (hok : Ok code m s others) :
    Steps code m s others .close (s.close m).1 (s.close m).2 := by
  have hnext : Formation.next (s.view m.heap) .close = some (s.view m.heap).close := rfl
  unfold Sender.close
  split
  · rename_i hclosed
    exact ⟨hok.own, hok.emission, .refl _ _, hnext.trans (congrArg some (if_pos hclosed))⟩
  · rename_i hopen
    have hview : ∀ heap : Heap SourceShard, (s.view m.heap).close =
        Sender.view heap { s with closed := true, clock := s.clock.stop, pending := .none } := by
      intro heap
      have hclose : (s.view m.heap).close = _ := if_neg hopen
      rw [hclose]
      unfold Sender.view
      dsimp only
      rw [Heap.read_of_len_eq_zero rfl]
    have hemission : Emission code { s with closed := true, clock := s.clock.stop, pending := .none } :=
      hok.emission.same ⟨rfl, rfl, rfl⟩ rfl
    have hout : ∀ {m' : Memory}, Own m' .none s.flushes others → m.heap.Agree m'.heap others →
        Steps code m s others .close m' { s with closed := true, clock := s.clock.stop, pending := .none } :=
      fun hown hag => ⟨hown, hemission, hag, hnext.trans (congrArg some (hview _))⟩
    rcases hok.own.intact.pending with hnone | hp
    · -- The nil slice has no capacity.
      have hown : Own m .none s.flushes others := hnone ▸ hok.own
      rw [if_neg (by rw [hnone]; decide)]
      exact hout hown (.refl _ _)
    · have hdet := hok.own.detach hp
      split
      · obtain ⟨hown, hvalid, hag⟩ := hdet.clear hp.valid
        exact hout (hown.put hvalid) (hag.mono (List.subset_append_right _ _))
      · exact hout hdet.forget (.refl _ _)

end UdpCustom.Fec.Pool
