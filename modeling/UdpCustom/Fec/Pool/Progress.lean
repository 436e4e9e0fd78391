import UdpCustom.Fec.Pool.Theorems

-- What must happen to a pending record.
namespace UdpCustom.Fec.Pool

open UdpCustom.Frame UdpCustom.Fec.Formation Transition

variable {code : ErasureCode UInt8} {st st' : State} {m m' : Memory} {s s' : Sender} {i g t : ℕ}
  {others : List ℕ} {a : Action} {src : SourceShard} {block : List SourceShard}
  {ρ : Execution (system code)} {l : ℕ × Action} {out : Memory × Sender}

-- A timer that is not stopped runs its callback in the end, however late, and a goroutine
-- that has something to do goes on.
structure Fair (i : ℕ) (ρ : Execution (system code)) : Prop where
  callbacks : ∀ n t, (∀ k, n ≤ k → ∃ s tm, (ρ.state k).senders[i]? = some s ∧
      s.clock.timers[t]? = some tm ∧ tm.stopped = false ∧ tm.ran = false) →
    ∃ k, n ≤ k ∧ ρ.label k = (i, .fire t)
  goroutines : ∀ n g, (∀ k, n ≤ k → ∃ s f, (ρ.state k).senders[i]? = some s ∧
      s.flushes[g]? = some f ∧ f.blocks ≠ []) →
    ∃ k, n ≤ k ∧ ∃ loss, ρ.label k = (i, .run g loss)

-- One sender along a step of the system.
theorem sender_of_next (hst : next code st l = some st') (hi : st.senders[i]? = some s) :
    ∃ s', st'.senders[i]? = some s' ∧
      (l.1 = i ∧ s.act code st.memory l.2 = some (st'.memory, s') ∨ l.1 ≠ i ∧ s' = s) := by
  obtain ⟨t, t', ht, hact, hsenders⟩ := act_of_next hst
  by_cases hl : l.1 = i
  · subst hl
    cases ht.symm.trans hi
    exact ⟨t', hsenders ▸ Threads.getElem?_set_self hi t', .inl ⟨rfl, hact⟩⟩
  · refine ⟨s, ?_, .inr ⟨hl, rfl⟩⟩
    rw [hsenders, List.getElem?_set_ne hl]
    exact hi

theorem view_of_next (hinv : Inv code st) (hst : next code st l = some st')
    (hi : st.senders[i]? = some s) (hi' : st'.senders[i]? = some s') :
    s'.view st'.memory.heap = s.view st.memory.heap ∨
      ∃ l, Formation.next (s.view st.memory.heap) l = some (s'.view st'.memory.heap) := by
  obtain ⟨t, t', ht, hact, -⟩ := act_of_next hst
  have hsteps := steps_act (hinv.ok ht) hact
  obtain ⟨s'', hs'', hcase⟩ := sender_of_next hst hi
  cases hs''.symm.trans hi'
  rcases hcase with ⟨rfl, hact'⟩ | ⟨hne, rfl⟩
  · exact (steps_act (hinv.ok hi) hact').sees.same_or_next
  · refine .inl ((hinv.intact _ (List.mem_of_getElem? hi)).view ?_)
    exact agree_other hsteps.agree (Ne.symm hne) hi

-- The callback that the pending block waits for takes all of it.
theorem pending_fire {tm : Timer} (hok : Ok code m s others)
    (hopen : s.closed = false) (ht : s.clock.timers[t]? = some tm) (hgen : tm.gen = s.flushGen)
    (hact : s.act code m (.fire t) = some out) : out.1.heap.read out.2.pending = [] := by
  simp only [Sender.act] at hact
  rw [ht] at hact
  obtain ⟨-, ⟨⟩⟩ := Option.ite_none_left_eq_some.1 hact
  have hview := view_fire hok.own t tm.gen
  have hpending : (({ s with clock := s.clock.begin t }.flushTimer m.heap tm.gen).view m.heap).sender.pending
      = [] := by
    rw [hview]
    unfold Formation.State.flushTimer
    rw [if_neg]
    · exact pending_detachLocked _
    · simp [Sender.view, hopen, hgen]
  exact hpending

-- The record keeps its place and its timer, or is in a block, as long as nobody closes.
theorem kept_of_next {timer : Option ℕ} (hinv : Inv code st)
    (hst : next code st l = some st') (hi : st.senders[i]? = some s) (hi' : st'.senders[i]? = some s')
    (hkept : Kept src timer (s.view st.memory.heap)) (hopen : s'.closed = false) :
    Kept src timer (s'.view st'.memory.heap) := by
  rcases view_of_next hinv hst hi hi' with hsame | ⟨l, hnext⟩
  · rw [hsame]
    exact hkept
  · refine (hkept.next hnext).resolve_right fun hclosed => ?_
    exact Bool.false_ne_true (hopen.symm.trans hclosed)

-- The timer in the slot is the one that is still to run.
theorem Ok.awaits_slot (hok : Ok code m s others) (hsrc : src ∈ m.heap.read s.pending)
    (hslot : s.clock.timer = some t) :
    ∃ first, s.clock.timers[t]? = some ⟨s.flushGen, false, false, first⟩ := by
  have hlen := hok.own.intact.length_read
  obtain ⟨t', src', -, hslot', ht'⟩ := hok.awaits (hlen ▸ List.length_pos_of_mem hsrc)
  cases hslot.symm.trans hslot'
  exact ⟨src'.seq, ht'⟩

theorem exists_detached (hreach : Reachable (system code) (ρ.state 0))
    (hfair : Fair i ρ) {n : ℕ} (hs : (ρ.state n).senders[i]? = some s)
    (hsrc : src ∈ (ρ.state n).memory.heap.read s.pending) :
    ∃ k, n ≤ k ∧ ∃ s', (ρ.state k).senders[i]? = some s' ∧
      (s'.closed = true ∨ ∃ block ∈ s'.detached, src ∈ block) := by
  have hinv : ∀ k, Inv code (ρ.state k) := fun k => inv_of_reachable (ρ.reachable hreach k)
  have hlen := ((hinv n).ok hs).own.intact.length_read
  obtain ⟨t, -, -, hslot, -⟩ := ((hinv n).ok hs).awaits (hlen ▸ List.length_pos_of_mem hsrc)
  by_contra hnone
  have hopen : ∀ {k s'}, n ≤ k → (ρ.state k).senders[i]? = some s' → s'.closed = false ∧
      ¬∃ block ∈ s'.detached, src ∈ block := by
    intro k s' hk hs'
    have hnot := fun h => hnone ⟨k, hk, s', hs', h⟩
    exact ⟨by simpa using fun h => hnot (.inl h), fun h => hnot (.inr h)⟩
  have hstay : ∀ k, n ≤ k → ∃ s', (ρ.state k).senders[i]? = some s' ∧
      src ∈ (ρ.state k).memory.heap.read s'.pending ∧ s'.clock.timer = some t := by
    refine ρ.always (I := fun st => ∃ s', st.senders[i]? = some s' ∧
      src ∈ st.memory.heap.read s'.pending ∧ s'.clock.timer = some t) ⟨s, hs, hsrc, hslot⟩ ?_
    rintro k hk ⟨s₁, hs₁, hheld⟩
    obtain ⟨s₂, hs₂, -⟩ := sender_of_next (ρ.step k) hs₁
    obtain ⟨hnotClosed, hnotFlushed⟩ := hopen (Nat.le_succ_of_le hk) hs₂
    have hkept := kept_of_next (hinv k) (ρ.step k) hs₁ hs₂ (.inl hheld) hnotClosed
    exact ⟨s₂, hs₂, hkept.resolve_right hnotFlushed⟩
  obtain ⟨k, hk, hlabel⟩ := hfair.callbacks n t fun k hk => by
    obtain ⟨s₁, hs₁, hmem, hslot₁⟩ := hstay k hk
    obtain ⟨first, ht⟩ := ((hinv k).ok hs₁).awaits_slot hmem hslot₁
    exact ⟨s₁, _, hs₁, ht, rfl, rfl⟩
  -- Its callback runs, and leaves nothing pending.
  obtain ⟨s₁, hs₁, hmem, hslot₁⟩ := hstay k hk
  obtain ⟨s₂, hs₂, hmem', -⟩ := hstay (k + 1) (Nat.le_succ_of_le hk)
  obtain ⟨first, ht⟩ := ((hinv k).ok hs₁).awaits_slot hmem hslot₁
  obtain ⟨s₃, hs₃, hcase⟩ := sender_of_next (ρ.step k) hs₁
  cases hs₃.symm.trans hs₂
  rw [hlabel] at hcase
  obtain ⟨-, hact⟩ := hcase.resolve_right fun h => h.1 rfl
  have hempty := pending_fire ((hinv k).ok hs₁) (hopen hk hs₁).1 ht rfl hact
  rw [hempty] at hmem'
  cases hmem'

-- How many steps a goroutine has left, at most.
def Place.rank : Place → ℕ
  | .put => 0
  | .clear => 1
  | .send _ _ left => 2 + left.length
  | .encode _ parityShards => 3 + parityShards
  | .parity _ _ => 12
  | .count _ => 13
  | .check => 14

def Flush.rank (f : Flush) : ℕ :=
  15 * f.blocks.length + f.place.rank

theorem rank_emit {bl : Slice} {place place' : Place} {out : Memory × Sender × Option Place}
    (hbl : m.heap.Valid bl) (hemit : Emit code m s bl place out) (hplace : place' ∈ out.2.2) :
    place'.rank < place.rank := by
  cases hemit with
  | refused | checked | counted | cleared =>
      cases hplace
      exact Nat.lt_of_sub_ne_zero nofun
  | quits hinside =>
      cases hplace
      cases place with
      | count | parity => exact Nat.lt_of_sub_ne_zero nofun
      | encode | send =>
          dsimp only [Place.rank]
          omega
      | check | clear | put => exact hinside.elim
  | decided hk =>
      cases hplace
      simp only [fecParityShardsExtMax] at hk
      dsimp only [Place.rank]
      omega
  | @encoded size k hsupported =>
      cases hplace
      have hdata : ((m.heap.read bl).map fun src => copied size src.payload).length = bl.len := by
        rw [List.length_map, Heap.length_read hbl]
      dsimp only [Place.rank]
      rw [code.length_encode hsupported hdata]
      omega
  | sent =>
      cases hplace
      dsimp only [Place.rank]
      rw [List.length_cons]
      omega
  | dropped | put => cases hplace

theorem rank_after {cur : Taken} {rest : List Taken} {place : Place} {next : Option Place}
    (hlt : ∀ place' ∈ next, place'.rank < place.rank) :
    (Flush.after cur rest next).rank < Flush.rank ⟨cur :: rest, place⟩ := by
  cases next with
  | none =>
      simp only [Flush.after, Flush.rank, Place.rank, List.length_cons]
      omega
  | some place' =>
      have := hlt place' rfl
      simp only [Flush.after, Flush.rank]
      omega

-- A goroutine that moves comes closer to its end, and loses no block on the way.
theorem flush_run {loss : Float} {f : Flush} (hok : Ok code m s others)
    (hg : s.flushes[g]? = some f) (hrun : s.run code m g loss = some out) :
    ∃ f', out.2.flushes[g]? = some f' ∧ f'.rank < f.rank ∧
      ∀ block ∈ f.waiting, block ∈ out.2.emitted ∨ block ∈ f'.waiting := by
  unfold Sender.run at hrun
  rw [hg] at hrun
  obtain ⟨blocks, place⟩ := f
  cases blocks with
  | nil => cases hrun
  | cons cur rest =>
      cases hrun
      have hemit := emit_emitStep code m s cur.block loss place
      have hcur := hok.own.intact.blocks _ (List.mem_of_getElem? hg) cur List.mem_cons_self
      have hblocks := blocks_emit rest (read_current hok.own hg) hemit
      refine ⟨_, Threads.getElem?_set_self hg _, rank_after fun _ => rank_emit hcur.valid hemit, ?_⟩
      intro block hblock
      exact List.mem_append.1 (hblocks.mem_iff.2 (List.mem_append_right _ hblock))

-- Nobody else moves a goroutine.
theorem flush_kept {f : Flush} (hg : s.flushes[g]? = some f)
    (hact : s.act code m a = some out) (hother : ∀ loss, a ≠ .run g loss) :
    out.2.flushes[g]? = some f := by
  have hlaunch : ∀ {s' : Sender} (blocks : List Taken), SameFlow s s' →
      (s'.launch blocks).flushes[g]? = some f := by
    intro s' blocks hflow
    unfold Sender.launch
    dsimp only
    rw [hflow.flushes, List.getElem?_append_left (List.getElem?_eq_some_iff.1 hg).1]
    exact hg
  cases a with
  | add src loss pick spare =>
      obtain ⟨-, ⟨⟩⟩ := Option.ite_none_right_eq_some.1 hact
      unfold Sender.add
      split
      · exact hg
      · exact hlaunch _ (flow_taking m s src pick spare)
  | fire t =>
      simp only [Sender.act] at hact
      split at hact
      · cases hact
      · obtain ⟨-, ⟨⟩⟩ := Option.ite_none_left_eq_some.1 hact
        unfold Sender.flushTimer
        split
        · exact hg
        · have hbegin : SameFlow s { s with clock := s.clock.begin t } := ⟨rfl, rfl, rfl⟩
          exact hlaunch _ (hbegin.trans (flow_detachLocked _ _))
  | run g' loss =>
      have hne : g' ≠ g := by
        rintro rfl
        exact hother loss rfl
      simp only [Sender.act, Sender.run] at hact
      split at hact
      · cases hact
        dsimp only
        rw [List.getElem?_set_ne hne]
        exact hg
      · cases hact
  | close =>
      cases hact
      unfold Sender.close
      split <;> exact hg
  | wait =>
      cases hact
      exact hg

theorem blocks_ne_nil {f : Flush} (hblock : block ∈ f.waiting) : f.blocks ≠ [] := by
  intro hnil
  unfold Flush.waiting at hblock
  rw [hnil] at hblock
  split at hblock <;> cases hblock

theorem exists_emitted (hreach : Reachable (system code) (ρ.state 0))
    (hfair : Fair i ρ) {n : ℕ} (hs : (ρ.state n).senders[i]? = some s) {f : Flush}
    (hg : s.flushes[g]? = some f) (hblock : block ∈ f.waiting) :
    ∃ k, n ≤ k ∧ ∃ s', (ρ.state k).senders[i]? = some s' ∧ block ∈ s'.emitted := by
  have hinv : ∀ k, Inv code (ρ.state k) := fun k => inv_of_reachable (ρ.reachable hreach k)
  induction hr : f.rank using Nat.strong_induction_on generalizing n s f with
  | _ r ih =>
      -- The goroutine stays where it is until it moves.
      obtain ⟨k, hk, ⟨s₁, hs₁, hg₁⟩, loss, hlabel⟩ := ρ.exists_leaving
        (P := fun st => ∃ s, st.senders[i]? = some s ∧ s.flushes[g]? = some f)
        (fun l => ∃ loss, l = (i, .run g loss)) ⟨s, hs, hg⟩
        (fun k _ ⟨s₁, hs₁, hg₁⟩ hnot => by
          obtain ⟨s₂, hs₂, hcase⟩ := sender_of_next (ρ.step k) hs₁
          rcases hcase with ⟨hl, hact⟩ | ⟨-, rfl⟩
          · refine ⟨s₂, hs₂, flush_kept hg₁ hact fun loss ha => hnot ⟨loss, ?_⟩⟩
            rw [← hl, ← ha]
          · exact ⟨s₂, hs₂, hg₁⟩)
        (fun hall => hfair.goroutines n g fun k hk => by
          obtain ⟨s₁, hs₁, hg₁⟩ := hall k hk
          exact ⟨s₁, f, hs₁, hg₁, blocks_ne_nil hblock⟩)
      obtain ⟨s₂, hs₂, hcase⟩ := sender_of_next (ρ.step k) hs₁
      rw [hlabel] at hcase
      obtain ⟨-, hact⟩ := hcase.resolve_right fun h => h.1 rfl
      obtain ⟨f', hg', hrank, hwaiting⟩ := flush_run ((hinv k).ok hs₁) hg₁ hact
      rcases hwaiting block hblock with hdone | hstill
      · exact ⟨k + 1, Nat.le_succ_of_le hk, s₂, hs₂, hdone⟩
      · obtain ⟨k', hk', hdone⟩ := ih _ (hr ▸ hrank) hs₂ hg' hstill rfl
        exact ⟨k', (Nat.le_succ_of_le hk).trans hk', hdone⟩

theorem exists_flush (hreach : Reachable (system code) (ρ.state 0))
    (hfair : Fair i ρ) (hs : (ρ.state 0).senders[i]? = some s)
    (hsrc : src ∈ (ρ.state 0).memory.heap.read s.pending) :
    ∃ k s', (ρ.state k).senders[i]? = some s' ∧
      (s'.closed = true ∨ ∃ block ∈ s'.emitted, src ∈ block) := by
  obtain ⟨n, -, s₁, hs₁, hclosed | ⟨block, hblock, hmem⟩⟩ := exists_detached hreach hfair hs hsrc
  · exact ⟨n, s₁, hs₁, .inl hclosed⟩
  · have hok := (inv_of_reachable (ρ.reachable hreach n)).ok hs₁
    rcases List.mem_append.1 (hok.emission.blocks.mem_iff.2 hblock) with hdone | hwaiting
    · exact ⟨n, s₁, hs₁, .inr ⟨block, hdone, hmem⟩⟩
    · obtain ⟨f, hf, hwaiting⟩ := List.mem_flatMap.1 hwaiting
      obtain ⟨g, hg⟩ := List.mem_iff_getElem?.1 hf
      obtain ⟨k, -, s₂, hs₂, hdone⟩ := exists_emitted hreach hfair hs₁ hg hwaiting
      exact ⟨k, s₂, hs₂, .inr ⟨block, hdone, hmem⟩⟩

-- Nothing is left to do for this sender.
def State.resting (i : ℕ) (st : State) : Bool :=
  st.senders[i]?.any fun s =>
    s.clock.timers.all (fun tm => tm.stopped || tm.ran) && s.flushes.all (·.blocks.isEmpty)

theorem exists_fair_of_resting (hrest : st.resting i = true) :
    ∃ ρ : Execution (system code), ρ.state 0 = st ∧ Fair i ρ := by
  obtain ⟨s, hs, hdone⟩ := (Option.any_eq_true _ _).1 hrest
  obtain ⟨htimers, hflushes⟩ := Bool.and_eq_true_iff.1 hdone
  have hwait : next code st (i, .wait) = some st := by
    unfold next
    dsimp only
    rw [hs]
    obtain ⟨hlt, rfl⟩ := List.getElem?_eq_some_iff.1 hs
    dsimp only [Sender.act, Option.map_some]
    rw [List.set_getElem_self]
  obtain ⟨ρ, hzero, -, hstays⟩ := Execution.exists_labelled (S := system code) (I := (· = st))
    (fun _ => (i, .wait)) rfl fun _ _ hst => ⟨st, hst ▸ hwait, rfl⟩
  refine ⟨ρ, hzero, fun n t hall => ?_, fun n g hall => ?_⟩
  · obtain ⟨s', tm, hs', ht, hstopped, hran⟩ := hall n (Nat.le_refl n)
    rw [hstays n, hs] at hs'
    cases hs'
    have := List.all_eq_true.1 htimers tm (List.mem_of_getElem? ht)
    rw [hstopped, hran] at this
    cases this
  · obtain ⟨s', f, hs', hf, hne⟩ := hall n (Nat.le_refl n)
    rw [hstays n, hs] at hs'
    cases hs'
    have := List.all_eq_true.1 hflushes f (List.mem_of_getElem? hf)
    exact absurd (List.isEmpty_iff.1 this) hne

theorem Fair.cons (hfair : Fair i ρ)
    (hst : next code st l = some (ρ.state 0)) : Fair i (ρ.cons st l hst) where
  callbacks := fun n t hall => by
    obtain ⟨k, hk, hlabel⟩ := hfair.callbacks n t fun k hk => hall (k + 1) (Nat.le_succ_of_le hk)
    exact ⟨k + 1, Nat.le_succ_of_le hk, hlabel⟩
  goroutines := fun n g hall => by
    obtain ⟨k, hk, hlabel⟩ := hfair.goroutines n g fun k hk => hall (k + 1) (Nat.le_succ_of_le hk)
    exact ⟨k + 1, Nat.le_succ_of_le hk, hlabel⟩

-- A fair run begins with any run that leaves nothing to do.
theorem exists_fair {labels : List (ℕ × Action)}
    (hrun : ((system code).run st labels).any (State.resting i) = true) :
    ∃ ρ : Execution (system code), ρ.state 0 = st ∧ Fair i ρ := by
  induction labels generalizing st with
  | nil => exact exists_fair_of_resting hrun
  | cons l rest ih =>
      unfold System.run System.runBy at hrun
      rw [if_pos trivial] at hrun
      split at hrun
      · cases hrun
      · rename_i st' hst
        obtain ⟨ρ, rfl, hfair⟩ := ih hrun
        exact ⟨ρ.cons st l hst, rfl, hfair.cons hst⟩

-- A callback detaches nothing, or the block it was armed for.
theorem detached_fire {tm : Timer} (hok : Ok code m s others)
    (ht : s.clock.timers[t]? = some tm) (hact : s.act code m (.fire t) = some out) :
    out.2.detached = s.detached ∨
      ∃ src rest, src.seq = tm.first ∧ out.2.detached = s.detached ++ [src :: rest] := by
  simp only [Sender.act] at hact
  rw [ht] at hact
  obtain ⟨-, ⟨⟩⟩ := Option.ite_none_left_eq_some.1 hact
  have hview : ({ s with clock := s.clock.begin t }.flushTimer m.heap tm.gen).detached =
      ({ s.view m.heap with clock := s.clock.begin t }.flushTimer tm.gen).detached :=
    congrArg Formation.State.detached (view_fire hok.own t tm.gen)
  dsimp only
  rw [hview]
  exact hok.orderly.timed.detached_by ht

theorem fec_block_formation (h : Reachable (system code) st) (hs : st.senders[i]? = some s) :
    (s.emitted.flatten.map (·.seq)).Nodup ∧
      (∀ block ∈ s.emitted, IsBlock block ∧ ∀ src ∈ block, src ∈ s.added) ∧
      (∀ p ∈ s.sent, ∃ block ∈ s.emitted, FromBlock code block p) ∧
      (∀ t tm st' s', s.clock.timers[t]? = some tm → next code st (i, .fire t) = some st' →
        st'.senders[i]? = some s' → s'.detached = s.detached ∨
          ∃ src rest, src.seq = tm.first ∧ s'.detached = s.detached ++ [src :: rest]) ∧
      (0 < s.pending.len →
        ∃ t, ∃ src ∈ (st.memory.heap.read s.pending).head?, s.clock.Awaits t s.flushGen src.seq) ∧
      ∀ ρ : Execution (system code), ρ.state 0 = st → Fair i ρ →
        ∀ src ∈ st.memory.heap.read s.pending, ∃ k s', (ρ.state k).senders[i]? = some s' ∧
          (s'.closed = true ∨ ∃ block ∈ s'.emitted, src ∈ block) := by
  have hok := (inv_of_reachable h).ok hs
  refine ⟨hok.nodup, fun block hblock => hok.isBlock hblock, hok.emission.sent, ?_, hok.awaits, ?_⟩
  · intro t tm st' s' ht hst hs'
    obtain ⟨s'', hs'', hcase⟩ := sender_of_next hst hs
    cases hs''.symm.trans hs'
    obtain ⟨-, hact⟩ := hcase.resolve_right fun hne => hne.1 rfl
    exact detached_fire hok ht hact
  · rintro ρ rfl hfair src hsrc
    exact exists_flush h hfair hs hsrc

def sampleCode : ErasureCode UInt8 :=
  .pairParity (· ^^^ ·) UInt8.xor_comm ErasureCode.byte_xor_cancel

-- A gap cuts off the block of 1 and 2, whose callback runs late and does nothing. Its
-- array is back in the pool and in use by another sender when 5 still waits.
def sampleRun : List (ℕ × Action) :=
  [(0, .add ⟨1, [7]⟩ 0 0 []), (0, .add ⟨2, [8]⟩ 0 0 []), (0, .add ⟨5, [9]⟩ 0 0 []), (0, .fire 0)] ++
    List.replicate 8 (0, .run 2 0) ++ [(1, .add ⟨3, [4]⟩ 0 0 [])]

-- The other callback runs, and the goroutine finishes.
def sampleRest : List (ℕ × Action) :=
  (0, .fire 1) :: List.replicate 5 (0, .run 3 0)

theorem late_callback_leaves_block : ∃ st s, Reachable (system sampleCode) st ∧
    st.senders[0]? = some s ∧ s.closed = false ∧ s.emitted = [[⟨1, [7]⟩, ⟨2, [8]⟩]] ∧
    s.clock.timers = [⟨1, true, true, 1⟩, ⟨2, false, false, 5⟩] ∧
    st.memory.heap.read s.pending = [⟨5, [9]⟩] ∧ ∃ ρ : Execution (system sampleCode), ρ.state 0 = st ∧
      Fair 0 ρ ∧ ∃ k s', (ρ.state k).senders[0]? = some s' ∧
        (s'.closed = true ∨ ∃ block ∈ s'.emitted, ⟨5, [9]⟩ ∈ block) := by
  have hrun := (system sampleCode).exists_run
    (P := fun st => (st.senders[0]?.any fun s => s.closed = false ∧ s.emitted = [[⟨1, [7]⟩, ⟨2, [8]⟩]] ∧
        s.clock.timers = [⟨1, true, true, 1⟩, ⟨2, false, false, 5⟩] ∧
        st.memory.heap.read s.pending = [⟨5, [9]⟩]) = true ∧
      ((system sampleCode).run st sampleRest).any (State.resting 0) = true)
    (s := init [(false, true), (false, true)]) ⟨_, rfl⟩ sampleRun (by decide +kernel)
  obtain ⟨st, hreach, hsender, hrest⟩ := hrun
  obtain ⟨s, hs, hfacts⟩ := (Option.any_eq_true _ _).1 hsender
  obtain ⟨hopen, hemitted, htimers, hread⟩ := of_decide_eq_true hfacts
  obtain ⟨ρ, hzero, hfair⟩ := exists_fair hrest
  obtain ⟨-, -, -, -, -, hflush⟩ := fec_block_formation hreach hs
  refine ⟨st, s, hreach, hs, hopen, hemitted, htimers, hread, ρ, hzero, hfair, ?_⟩
  exact hflush ρ hzero hfair _ (hread ▸ List.mem_singleton.2 rfl)

end UdpCustom.Fec.Pool
