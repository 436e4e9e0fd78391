import UdpCustom.Fec.Pool.Emission

-- All senders of a process together.
namespace UdpCustom.Fec.Pool

open UdpCustom.Frame UdpCustom.Fec.Formation Transition

variable {code : ErasureCode UInt8} {st st' : State} {m m' : Memory} {s s' : Sender} {i : ℕ}
  {others : List ℕ} {a : Action}

theorem steps_act {out : Memory × Sender} (hok : Ok code m s others)
    (hact : s.act code m a = some out) : Steps code m s others a out.1 out.2 := by
  cases a with
  | add src loss pick spare =>
      obtain ⟨⟨hlast, hseq⟩, ⟨⟩⟩ := Option.ite_none_right_eq_some.1 hact
      exact steps_add hok hlast hseq loss pick spare
  | fire t =>
      simp only [Sender.act] at hact
      split at hact
      · cases hact
      · rename_i tm ht
        obtain ⟨hran, ⟨⟩⟩ := Option.ite_none_left_eq_some.1 hact
        exact steps_fire hok ht (by simpa using hran)
  | run g loss => exact steps_run hok hact
  | close =>
      cases hact
      exact steps_close hok
  | wait =>
      cases hact
      exact ⟨hok.own, hok.emission, .refl _ _, rfl⟩

def Sender.arrays (s : Sender) : List ℕ :=
  arraysOf s.pending s.flushes

-- Every array is in the pool or belongs to one goroutine or open block.
structure Inv (code : ErasureCode UInt8) (st : State) : Prop where
  pool : ∀ p ∈ st.memory.pool, p.len = 0 ∧ st.memory.heap.Valid p
  intact : ∀ s ∈ st.senders, Intact st.memory.heap s.pending s.flushes
  apart : (st.memory.pool.map (·.array) ++ st.senders.flatMap Sender.arrays).Nodup
  reached : ∀ s ∈ st.senders, Reachable Formation.system (s.view st.memory.heap)
  emission : ∀ s ∈ st.senders, Emission code s

theorem Inv.ok (hinv : Inv code st) (hi : st.senders[i]? = some s) :
    Ok code st.memory s ((st.senders.eraseIdx i).flatMap Sender.arrays) where
  own :=
    { pool := hinv.pool
      intact := hinv.intact s (List.mem_of_getElem? hi)
      lt := fun a ha => by
        obtain ⟨t, ht, ha⟩ := List.mem_flatMap.1 ha
        exact (hinv.intact t (List.mem_of_mem_eraseIdx ht)).lt a ha
      apart := ((Threads.flatMap_perm Sender.arrays hi).append_left _).nodup_iff.1 hinv.apart }
  reached := hinv.reached s (List.mem_of_getElem? hi)
  emission := hinv.emission s (List.mem_of_getElem? hi)

-- The other senders do not notice a step of one of them.
theorem Intact.view (hs : Intact m.heap s.pending s.flushes) (hag : m.heap.Agree m'.heap s.arrays) :
    s.view m'.heap = s.view m.heap := by
  unfold Sender.view
  rw [hs.read_pending hag]

theorem agree_other {j : ℕ}
    (hag : st.memory.heap.Agree m'.heap ((st.senders.eraseIdx i).flatMap Sender.arrays))
    (hne : j ≠ i) (hj : st.senders[j]? = some s) : st.memory.heap.Agree m'.heap s.arrays :=
  hag.mono fun _ ha => List.mem_flatMap.2 ⟨s, List.mem_eraseIdx_iff_getElem?.2 ⟨j, hne, hj⟩, ha⟩

theorem Inv.step (hinv : Inv code st) (hi : st.senders[i]? = some s)
    (hsteps : Steps code st.memory s ((st.senders.eraseIdx i).flatMap Sender.arrays) a m' s') :
    Inv code ⟨m', st.senders.set i s'⟩ := by
  have hok := hsteps.ok (hinv.ok hi)
  -- Everybody is the sender that moved or one whose arrays are as they were.
  have hall : ∀ t ∈ st.senders.set i s', t = s' ∨
      t ∈ st.senders ∧ st.memory.heap.Agree m'.heap t.arrays := by
    intro t ht
    rcases Threads.of_mem_set ht with rfl | ⟨j, hne, hj⟩
    · exact .inl rfl
    · exact .inr ⟨List.mem_of_getElem? hj, agree_other hsteps.agree hne hj⟩
  refine ⟨hok.own.pool, fun t ht => ?_, ?_, fun t ht => ?_, fun t ht => ?_⟩
  · rcases hall t ht with rfl | ⟨hold, hag⟩
    · exact hok.own.intact
    · exact (hinv.intact t hold).agree hag
  · exact ((Threads.flatMap_set_perm Sender.arrays hi s').append_left _).nodup_iff.2 hok.own.apart
  · rcases hall t ht with rfl | ⟨hold, hag⟩
    · exact hok.reached
    · rw [(hinv.intact t hold).view hag]
      exact hinv.reached t hold
  · rcases hall t ht with rfl | ⟨hold, -⟩
    · exact hok.emission
    · exact hinv.emission t hold

-- Everything a step of the system can do.
theorem act_of_next {l : ℕ × Action} (hst : next code st l = some st') :
    ∃ s s', st.senders[l.1]? = some s ∧ s.act code st.memory l.2 = some (st'.memory, s') ∧
      st'.senders = st.senders.set l.1 s' := by
  unfold next at hst
  split at hst
  · cases hst
  · rename_i s hs
    obtain ⟨out, hact, rfl⟩ := Option.map_eq_some_iff.1 hst
    exact ⟨s, out.2, hs, hact, rfl⟩

theorem inv_init (code : ErasureCode UInt8) (senders : List (Bool × Bool)) : Inv code (init senders) := by
  have hnew : ∀ s ∈ (init senders).senders, ∃ extParity emit, s = newSender extParity emit := by
    intro s hs
    obtain ⟨p, -, rfl⟩ := List.mem_map.1 hs
    exact ⟨p.1, p.2, rfl⟩
  refine ⟨nofun, fun s hs => ?_, ?_, fun s hs => ?_, fun s hs => ?_⟩
  · obtain ⟨extParity, emit, rfl⟩ := hnew s hs
    exact ⟨.inl rfl, nofun, nofun⟩
  · have hnone : (init senders).senders.flatMap Sender.arrays = [] := by
      refine List.flatMap_eq_nil_iff.2 fun s hs => ?_
      obtain ⟨extParity, emit, rfl⟩ := hnew s hs
      rfl
    rw [hnone]
    exact List.nodup_nil
  · obtain ⟨extParity, emit, rfl⟩ := hnew s hs
    exact .init ⟨extParity, rfl⟩
  · obtain ⟨extParity, emit, rfl⟩ := hnew s hs
    exact ⟨.refl _, nofun, nofun⟩

theorem inv_of_reachable (h : Reachable (system code) st) : Inv code st := by
  refine h.invariant (I := Inv code) ?_ fun st l st' hinv _ hst => ?_
  · rintro _ ⟨senders, rfl⟩
    exact inv_init code senders
  · obtain ⟨s, s', hs, hact, hsenders⟩ := act_of_next hst
    have hnew := hinv.step hs (steps_act (hinv.ok hs) hact)
    rw [← hsenders] at hnew
    exact hnew

-- What an action does to a sender without memory and timers.
def Action.Does : Action → FecSender → FecSender → Prop
  | .add src loss _ _, f, f' => f' = (f.add src loss).2
  | .fire _, f, f' => ∃ gen, f' = (f.flushTimer gen).2
  | .run _ _, f, f' => f' = f ∨ f' = { f with blocks := f.blocks + 1 }
  | .close, f, f' => f' = f.close
  | .wait, f, f' => f' = f

theorem does_of_sees {v v' : Formation.State} (horderly : Orderly v) (hsees : a.Sees v v') :
    a.Does v.sender v'.sender := by
  cases a with
  | add src loss =>
      obtain ⟨-, ⟨⟩⟩ := Option.ite_none_right_eq_some.1 hsees
      exact (sender_add v src loss).1
  | fire t =>
      simp only [Action.Sees, Formation.next] at hsees
      split at hsees
      · cases hsees
      · rename_i tm _
        obtain ⟨-, ⟨⟩⟩ := Option.ite_none_left_eq_some.1 hsees
        exact ⟨tm.gen, (sender_flushTimer _ tm.gen).1⟩
  | run =>
      rcases hsees with rfl | hnext
      · exact .inl rfl
      · obtain ⟨-, ⟨⟩⟩ := Option.ite_none_left_eq_some.1 hnext
        exact .inr rfl
  | close =>
      cases hsees
      exact sender_close horderly.formed
  | wait =>
      cases hsees
      rfl

-- A sender with memory and timers left out.
def State.sender (st : State) (i : ℕ) : Option FecSender :=
  st.senders[i]?.map fun s => (s.view st.memory.heap).sender

-- The senders are those whose functions are pure: a step is one of the sender that takes it,
-- and leaves what every other sender has pending alone, whatever arrays it recycles.
theorem refines_fecSender {l : ℕ × Action} (h : Reachable (system code) st)
    (hst : next code st l = some st') :
    (∃ f f', st.sender l.1 = some f ∧ st'.sender l.1 = some f' ∧ l.2.Does f f') ∧
      ∀ j, j ≠ l.1 → st'.sender j = st.sender j := by
  obtain ⟨s, s', hs, hact, hsenders⟩ := act_of_next hst
  have hinv := inv_of_reachable h
  have hok := hinv.ok hs
  have hsteps := steps_act hok hact
  refine ⟨⟨(s.view st.memory.heap).sender, (s'.view st'.memory.heap).sender, ?_, ?_, ?_⟩, ?_⟩
  · rw [State.sender, hs]
    rfl
  · have hlt := (List.getElem?_eq_some_iff.1 hs).1
    rw [State.sender, hsenders, List.getElem?_set_self hlt]
    rfl
  · exact does_of_sees hok.orderly hsteps.sees
  · intro j hne
    rw [State.sender, State.sender, hsenders, List.getElem?_set_ne (Ne.symm hne)]
    cases hj : st.senders[j]? with
    | none => rfl
    | some t =>
        have hview := (hinv.intact t (List.mem_of_getElem? hj)).view (agree_other hsteps.agree hne hj)
        exact congrArg (fun v : Formation.State => some v.sender) hview

-- The third sender gets the array that the first one put back, while the second has a
-- record pending.
theorem refines_fecSender_recycled : ∃ st st' : State, ∃ f f' : FecSender,
    (st.memory.pool ≠ [] ∧ st'.memory.pool = [] ∧ st.sender 2 = some f ∧ st'.sender 2 = some f' ∧
      f' = (f.add ⟨3, [8]⟩ 0).2) ∧
    (st.sender 1).map (·.pending) = some [⟨7, [9]⟩] ∧ st'.sender 1 = st.sender 1 := by
  let code := ErasureCode.pairParity (· ^^^ ·) UInt8.xor_comm ErasureCode.byte_xor_cancel
  obtain ⟨st, hr, hpool, hpending, hany⟩ := (system code).exists_run
    (P := fun st => st.memory.pool ≠ [] ∧ (st.sender 1).map (·.pending) = some [⟨7, [9]⟩] ∧
      (next code st (2, .add ⟨3, [8]⟩ 0 0 [])).any (·.memory.pool = []) = true)
    (s := init [(false, true), (false, true), (false, true)]) ⟨_, rfl⟩
    [(0, .add ⟨1, [5]⟩ 0 0 []), (0, .close), (1, .add ⟨7, [9]⟩ 0 1 [])] (by decide +kernel)
  obtain ⟨st', hst, hempty⟩ := (Option.any_eq_true _ _).1 hany
  obtain ⟨⟨f, f', hf, hf', hadd⟩, hothers⟩ := refines_fecSender hr hst
  exact ⟨st, st', f, f', ⟨hpool, of_decide_eq_true hempty, hf, hf', hadd⟩, hpending,
    hothers 1 (by decide)⟩

-- The blocks that entered `emitBlock` are among the detached ones, each once.
theorem Emission.subperm (he : Emission code s) : s.emitted.Subperm s.detached :=
  (List.sublist_append_left _ _).subperm.trans he.blocks.subperm

theorem Ok.nodup (hok : Ok code m s others) : (s.emitted.flatten.map (·.seq)).Nodup := by
  have hall : ((s.emitted ++ s.flushes.flatMap Flush.waiting).flatten.map (·.seq)).Nodup :=
    ((hok.emission.blocks.flatten).map _).nodup_iff.2 hok.orderly.formed.nodup
  rw [List.flatten_append, List.map_append] at hall
  exact (List.nodup_append.1 hall).1

theorem Ok.isBlock (hok : Ok code m s others) {block : List SourceShard} (hblock : block ∈ s.emitted) :
    IsBlock block ∧ ∀ src ∈ block, src ∈ s.added := by
  have hdetached : block ∈ s.detached := hok.emission.subperm.subset hblock
  have hformed := hok.orderly.formed
  exact ⟨hformed.blocks block hdetached, fun _ hsrc => hformed.mem_added hdetached hsrc⟩

-- The pending block waits for a callback of the current generation.
theorem Ok.awaits (hok : Ok code m s others) (hpending : 0 < s.pending.len) :
    ∃ t, ∃ src ∈ (m.heap.read s.pending).head?, s.clock.Awaits t s.flushGen src.seq := by
  have hlen := hok.own.intact.length_read
  have hne : m.heap.read s.pending ≠ [] := List.length_pos_iff.1 (hlen.symm ▸ hpending)
  have hhead : (m.heap.read s.pending).head hne ∈ (m.heap.read s.pending).head? :=
    List.head?_eq_some_head hne
  obtain ⟨t, ht⟩ := hok.orderly.timed.awaits _ hhead
  exact ⟨t, _, hhead, ht⟩

end UdpCustom.Fec.Pool
