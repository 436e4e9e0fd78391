import UdpCustom.ChunkPipe.Step

-- What is written in one direction is what is read there, in order and whole.
namespace UdpCustom.ChunkPipe

open UdpCustom.Frame Transition
open scoped List

-- What a goroutine has decided to return.
def Pc.result : Pc → Option Result
  | .check => none
  | .signal _ result => result
  | .sleep _ => none
  | .done result => some result

structure Call.Sound (c : Call) : Prop where
  read : ∀ size, c.op = .read size → c.written = 0 ∧
    (c.pc.result = none → 0 < size ∧ c.moved = []) ∧
    ∀ r, c.pc.result = some r → r.n = c.moved.length
  write : ∀ b, c.op = .write b → c.moved = b.take c.written ∧ c.written ≤ b.length ∧
    (c.pc.result = none → c.written < b.length) ∧ ∀ r, c.pc.result = some r → r.n = c.written

variable {s s' : State} {l : Label} {i : ℕ} {c : Call}

theorem Call.Sound.ready (h : c.Sound) (hpc : c.pc.result = none) : c.Ready where
  read := fun size hop => ((h.read size hop).2.1 hpc).1
  write := fun b hop => (h.write b hop).2.2.1 hpc

theorem Call.Sound.move (h : c.Sound) {pc : Pc} (hpc : pc.result = c.pc.result) :
    ({ c with pc := pc } : Call).Sound := by
  constructor
  · intro size hop
    obtain ⟨hzero, hnone, hsome⟩ := h.read size hop
    exact ⟨hzero, fun he => hnone (hpc ▸ he), fun r he => hsome r (hpc ▸ he)⟩
  · intro b hop
    obtain ⟨hmoved, hle, hnone, hsome⟩ := h.write b hop
    exact ⟨hmoved, hle, fun he => hnone (hpc ▸ he), fun r he => hsome r (hpc ▸ he)⟩

theorem Call.Sound.stop (h : c.Sound) (hpc : c.pc.result = none) {r : Result}
    (hread : ∀ size, c.op = .read size → r.n = 0) (hwrite : ∀ b, c.op = .write b → r.n = c.written) :
    ({ c with pc := .done r } : Call).Sound := by
  constructor
  · intro size hop
    obtain ⟨hzero, hnone, -⟩ := h.read size hop
    refine ⟨hzero, nofun, fun r' he => ?_⟩
    cases he
    rw [hread size hop, (hnone hpc).2, List.length_nil]
  · intro b hop
    obtain ⟨hmoved, hle, -, -⟩ := h.write b hop
    refine ⟨hmoved, hle, nofun, fun r' he => ?_⟩
    cases he
    exact hwrite b hop

theorem sound_of_kind_eq_none (h : c.op.kind = none) : c.Sound := by
  constructor
  · intro size hop
    rw [hop] at h
    cases h
  · intro b hop
    rw [hop] at h
    cases h

theorem sound_newCall (side : End) (op : Op) : (newCall side op).Sound := by
  constructor
  · rintro size rfl
    cases size with
    | zero =>
        refine ⟨rfl, nofun, fun r he => ?_⟩
        cases he
        rfl
    | succ size => exact ⟨rfl, fun _ => ⟨Nat.succ_pos _, rfl⟩, nofun⟩
  · rintro b rfl
    cases b with
    | nil =>
        refine ⟨rfl, Nat.le_refl _, nofun, fun r he => ?_⟩
        cases he
        rfl
    | cons byte b => exact ⟨rfl, Nat.zero_le _, fun _ => Nat.succ_pos _, nofun⟩

theorem sound_pushed (h : c.Sound) {b : Bytes} (hop : c.op = .write b) :
    ({ c with written := c.written + (c.piece b).length, moved := c.moved ++ c.piece b }.signals
      (if c.written + (c.piece b).length < b.length then none
        else some ⟨c.written + (c.piece b).length, none⟩)).Sound := by
  obtain ⟨hmoved, hle, -, -⟩ := h.write b hop
  constructor
  · intro size hop'
    cases hop.symm.trans hop'
  · intro b' hop'
    cases hop.symm.trans hop'
    have hpiece : c.piece b = (b.drop c.written).take (c.piece b).length :=
      List.prefix_iff_eq_take.1 (List.take_prefix _ _)
    have hlen : c.written + (c.piece b).length ≤ b.length := by
      have hshort : (c.piece b).length ≤ (b.drop c.written).length := (List.take_prefix _ _).length_le
      rw [List.length_drop] at hshort
      omega
    refine ⟨?_, hlen, fun hnone => ?_, fun r hr => ?_⟩
    · calc c.moved ++ c.piece b = b.take c.written ++ (b.drop c.written).take (c.piece b).length := by
            rw [hmoved, ← hpiece]
        _ = b.take (c.written + (c.piece b).length) := (List.take_add).symm
    · by_contra hfull
      have hlast := (if_neg hfull).symm.trans hnone
      cases hlast
    · dsimp only [Call.signals, Pc.result] at hr
      obtain ⟨-, ⟨⟩⟩ := Option.ite_none_left_eq_some.1 hr
      rfl

theorem calls_set {calls : List Call} {j : ℕ} {c' d : Call} (h : (calls.set i c')[j]? = some d) :
    j = i ∧ d = c' ∨ j ≠ i ∧ calls[j]? = some d := by
  rw [List.getElem?_set] at h
  split at h
  · rename_i hj
    obtain ⟨-, ⟨⟩⟩ := Option.ite_none_right_eq_some.1 h
    exact .inl ⟨hj.symm, rfl⟩
  · rename_i hj
    exact .inr ⟨fun he => hj he.symm, h⟩

structure State.Stream (s : State) : Prop where
  solid : ∀ dir, (s.queue dir).Solid
  order : ∀ dir, s.delivered dir ++ (s.queue dir).chunks.flatten = s.accepted dir
  room : ∀ dir, (s.queue dir).bytes < chunkPipeBuffer + chunkPipeChunk
  calls : ∀ (i : ℕ) (c : Call), s.calls[i]? = some c → c.Sound
  copied : ∀ (i : ℕ) (c : Call) (size : ℕ), s.calls[i]? = some c → c.op = .read size →
    c.moved <:+: s.delivered (readDir c.side)
  queued : ∀ (i : ℕ) (c : Call) (b : Bytes), s.calls[i]? = some c → c.op = .write b →
    c.moved <+ s.accepted (writeDir c.side)
  drained : ∀ (i : ℕ) (c : Call) (size n : ℕ), s.calls[i]? = some c → c.op = .read size →
    c.pc.result = some ⟨n, some .eof⟩ → s.closed = true ∧ s.Blocked c.side .read

theorem State.Stream.step (h : s.Stream) (hst : next s l = some s') : Step s l s' :=
  step_of_next h.solid (fun i c hc hpc => (h.calls i c hc).ready (by rw [hpc]; rfl)) hst

-- A step that moves no bytes changes where one call is, and perhaps closes the pipe.
theorem State.Stream.one (h : s.Stream) (hc : s.calls[i]? = some c) (pc : Pc)
    (hsound : ({ c with pc := pc } : Call).Sound) (hqueue : s'.queue = s.queue)
    (haccepted : s'.accepted = s.accepted) (hdelivered : s'.delivered = s.delivered)
    (hclosed : s.closed = true → s'.closed = true)
    (hcalls : s'.calls = s.calls.set i { c with pc := pc })
    (hnew : ∀ size n, c.op = .read size → pc.result = some ⟨n, some .eof⟩ →
      s'.closed = true ∧ s.Blocked c.side .read) : s'.Stream where
  solid := hqueue ▸ h.solid
  order := by
    rw [hqueue, haccepted, hdelivered]
    exact h.order
  room := hqueue ▸ h.room
  calls := by
    intro j d hd
    rw [hcalls] at hd
    rcases calls_set hd with ⟨-, rfl⟩ | ⟨-, hold⟩
    · exact hsound
    · exact h.calls j d hold
  copied := by
    intro j d size hd hop
    rw [hdelivered]
    rw [hcalls] at hd
    rcases calls_set hd with ⟨-, rfl⟩ | ⟨-, hold⟩
    · exact h.copied i c size hc hop
    · exact h.copied j d size hold hop
  queued := by
    intro j d b hd hop
    rw [haccepted]
    rw [hcalls] at hd
    rcases calls_set hd with ⟨-, rfl⟩ | ⟨-, hold⟩
    · exact h.queued i c b hc hop
    · exact h.queued j d b hold hop
  drained := by
    intro j d size n hd hop hres
    rw [blocked_congr hqueue]
    rw [hcalls] at hd
    rcases calls_set hd with ⟨-, rfl⟩ | ⟨-, hold⟩
    · exact hnew size n hop hres
    · obtain ⟨hwas, hempty⟩ := h.drained j d size n hold hop hres
      exact ⟨hclosed hwas, hempty⟩

-- The call goes on, or returns what it had decided to return.
theorem State.Stream.moved (h : s.Stream) (hc : s.calls[i]? = some c) {pc : Pc}
    (hpc : pc.result = c.pc.result) (token : Chan → Bool) :
    ({ s with token := token }.setCall i { c with pc := pc }).Stream :=
  h.one hc _ ((h.calls i c hc).move hpc) rfl rfl rfl id rfl fun size n hop hres =>
    h.drained i c size n hc hop (hpc ▸ hres)

theorem calls_append {calls : List Call} {j : ℕ} {c' d : Call} (h : (calls ++ [c'])[j]? = some d) :
    calls[j]? = some d ∨ d = c' := by
  rw [List.getElem?_append] at h
  split at h
  · exact .inl h
  · rw [List.getElem?_singleton] at h
    obtain ⟨-, ⟨⟩⟩ := Option.ite_none_right_eq_some.1 h
    exact .inr rfl

theorem stream_call (h : s.Stream) (side : End) (op : Op) :
    ({ s with calls := s.calls ++ [newCall side op] } : State).Stream := by
  refine ⟨h.solid, h.order, h.room, ?_, ?_, ?_, ?_⟩
  · intro j d hd
    rcases calls_append hd with hold | rfl
    · exact h.calls j d hold
    · exact sound_newCall side op
  · intro j d size hd hop
    rcases calls_append hd with hold | rfl
    · exact h.copied j d size hold hop
    · exact List.nil_infix
  · intro j d b hd hop
    rcases calls_append hd with hold | rfl
    · exact h.queued j d b hold hop
    · exact List.nil_sublist _
  · intro j d size n hd hop hres
    rcases calls_append hd with hold | rfl
    · exact h.drained j d size n hold hop hres
    · unfold newCall at hop hres
      dsimp only at hop hres
      rw [hop] at hres
      cases size with
      | zero => cases hres
      | succ size => cases hres

theorem stream_taken (h : s.Stream) (hc : s.calls[i]? = some c) {size : ℕ}
    (hop : c.op = .read size) (hsome : 0 < ((s.queue (readDir c.side)).take size).1.length) :
    (s.taken i c size).Stream := by
  have hflat : ((s.queue (readDir c.side)).take size).1 ++
      ((s.queue (readDir c.side)).take size).2.chunks.flatten = (s.queue (readDir c.side)).chunks.flatten :=
    takeChunks_flatten size _
  refine ⟨?_, fun dir => ?_, ?_, ?_, ?_, ?_, ?_⟩
  · exact (Function.forall_update_iff _ fun _ (q : ChunkDir) => q.Solid).2
      ⟨solid_take (h.solid _) size, fun dir _ => h.solid dir⟩
  · by_cases hdir : dir = readDir c.side
    · subst hdir
      dsimp only [State.taken, State.setCall]
      rw [Function.update_self, Function.update_self, List.append_assoc, hflat]
      exact h.order _
    · dsimp only [State.taken, State.setCall]
      rw [Function.update_of_ne hdir, Function.update_of_ne hdir]
      exact h.order dir
  · exact (Function.forall_update_iff _ fun _ (q : ChunkDir) => q.bytes < chunkPipeBuffer + chunkPipeChunk).2
      ⟨Nat.lt_of_le_of_lt (Nat.sub_le _ _) (h.room _), fun dir _ => h.room dir⟩
  · intro j d hd
    rcases calls_set hd with ⟨-, rfl⟩ | ⟨-, hold⟩
    · constructor
      · intro size' hop'
        refine ⟨((h.calls i c hc).read size hop).1, nofun, fun r he => ?_⟩
        cases he
        rfl
      · intro b hop'
        cases hop.symm.trans hop'
    · exact h.calls j d hold
  · intro j d size' hd hop'
    dsimp only [State.taken, State.setCall]
    rcases calls_set hd with ⟨-, rfl⟩ | ⟨-, hold⟩
    · dsimp only [Call.signals]
      rw [Function.update_self]
      exact (List.suffix_append _ _).isInfix
    · by_cases hdir : readDir d.side = readDir c.side
      · rw [hdir, Function.update_self]
        exact (hdir ▸ h.copied j d size' hold hop').trans (List.prefix_append _ _).isInfix
      · rw [Function.update_of_ne hdir]
        exact h.copied j d size' hold hop'
  · intro j d b hd hop'
    rcases calls_set hd with ⟨-, rfl⟩ | ⟨-, hold⟩
    · cases hop.symm.trans hop'
    · exact h.queued j d b hold hop'
  · intro j d size' n hd hop' hres
    rcases calls_set hd with ⟨-, rfl⟩ | ⟨-, hold⟩
    · cases hres
    · obtain ⟨hclosed, hempty⟩ := h.drained j d size' n hold hop' hres
      refine ⟨hclosed, ?_⟩
      by_cases hdir : readDir d.side = readDir c.side
      · -- nothing was queued there, so nothing could be taken
        obtain ⟨chunk, rest, hqueue⟩ := exists_chunk (List.ne_nil_of_length_pos hsome)
        unfold State.Blocked at hempty
        rw [hdir, hqueue] at hempty
        cases hempty
      · dsimp only [State.Blocked, State.taken, State.setCall]
        rw [Function.update_of_ne hdir]
        exact hempty

theorem stream_pushed (h : s.Stream) (hc : s.calls[i]? = some c) (hpc : c.pc = .check) {b : Bytes}
    (hop : c.op = .write b) (hopen : s.closed = false)
    (hroom : (s.queue (writeDir c.side)).bytes < chunkPipeBuffer) : (s.pushed i c b).Stream := by
  have hrest : b.drop c.written ≠ [] :=
    List.drop_eq_nil_iff.not.2 (Nat.not_le.2
      (((h.calls i c hc).ready (by rw [hpc]; rfl)).write b hop))
  refine ⟨?_, fun dir => ?_, ?_, ?_, ?_, ?_, ?_⟩
  · exact (Function.forall_update_iff _ fun _ (q : ChunkDir) => q.Solid).2
      ⟨solid_push (h.solid _) hrest, fun dir _ => h.solid dir⟩
  · by_cases hdir : dir = writeDir c.side
    · subst hdir
      dsimp only [State.pushed, State.setCall]
      rw [Function.update_self, Function.update_self, ← h.order, List.append_assoc]
      dsimp only [ChunkDir.push]
      rw [List.flatten_append, List.flatten_singleton]
      rfl
    · dsimp only [State.pushed, State.setCall]
      rw [Function.update_of_ne hdir, Function.update_of_ne hdir]
      exact h.order dir
  · exact (Function.forall_update_iff _ fun _ (q : ChunkDir) => q.bytes < chunkPipeBuffer + chunkPipeChunk).2
      ⟨Nat.add_lt_add_of_lt_of_le hroom (List.length_take_le _ _), fun dir _ => h.room dir⟩
  · intro j d hd
    rcases calls_set hd with ⟨-, rfl⟩ | ⟨-, hold⟩
    · exact sound_pushed (h.calls i c hc) hop
    · exact h.calls j d hold
  · intro j d size hd hop'
    rcases calls_set hd with ⟨-, rfl⟩ | ⟨-, hold⟩
    · cases hop.symm.trans hop'
    · exact h.copied j d size hold hop'
  · intro j d b' hd hop'
    dsimp only [State.pushed, State.setCall]
    rcases calls_set hd with ⟨-, rfl⟩ | ⟨-, hold⟩
    · dsimp only [Call.signals]
      rw [Function.update_self]
      exact (h.queued i c b hc hop).append (List.Sublist.refl _)
    · by_cases hdir : writeDir d.side = writeDir c.side
      · rw [hdir, Function.update_self]
        exact (hdir ▸ h.queued j d b' hold hop').trans (List.sublist_append_left _ _)
      · rw [Function.update_of_ne hdir]
        exact h.queued j d b' hold hop'
  · intro j d size n hd hop' hres
    rcases calls_set hd with ⟨-, rfl⟩ | ⟨-, hold⟩
    · cases hop.symm.trans hop'
    · -- EOF was returned only once the pipe was closed
      have hclosed := (h.drained j d size n hold hop' hres).1
      rw [hopen] at hclosed
      cases hclosed

theorem stream_step (h : s.Stream) (hst : Step s l s') : s'.Stream := by
  cases hst with
  | call side op => exact stream_call h side op
  | take hc _ hop hsome => exact stream_taken h hc hop hsome
  | push hc hpc hop hopen _ hroom => exact stream_pushed h hc hpc hop hopen hroom
  | @refuse i c r hc hpc hr =>
      have hnone : c.pc.result = none := by rw [hpc]; rfl
      refine h.one hc _ ((h.calls i c hc).stop hnone ?_ ?_) rfl rfl rfl id rfl ?_
      · intro size hop
        cases hr with
        | eof _ _ _ => rfl
        | readLate _ _ _ => rfl
        | closedPipe hop' _ => cases hop.symm.trans hop'
        | writeLate hop' _ _ => cases hop.symm.trans hop'
        | closeAgain hop' _ => cases hop.symm.trans hop'
      · intro b hop
        cases hr with
        | eof hop' _ _ => cases hop.symm.trans hop'
        | readLate hop' _ _ => cases hop.symm.trans hop'
        | closedPipe _ _ => rfl
        | writeLate _ _ _ => rfl
        | closeAgain hop' _ => cases hop.symm.trans hop'
      · intro size n hop hres
        cases hr with
        | eof _ hempty hclosed => exact ⟨hclosed, hempty⟩
        | readLate _ _ _ => cases hres
        | closedPipe hop' _ => cases hop.symm.trans hop'
        | writeLate hop' _ _ => cases hop.symm.trans hop'
        | closeAgain hop' _ => cases hop.symm.trans hop'
  | sleep hc hpc _ _ _ _ | loop hc hpc | finish hc hpc =>
      exact h.moved hc (by rw [hpc]; rfl) s.token
  | @close i c hc hpc hop _ =>
      have hkind : c.op.kind = none := by rw [hop]; rfl
      refine h.one hc (.signal signalOrder (some ⟨0, none⟩)) (sound_of_kind_eq_none hkind) rfl rfl rfl
        (fun _ => rfl) rfl ?_
      intro size n hop'
      cases hop.symm.trans hop'
  | set _ hc hpc hkind =>
      refine h.one hc (.signal signalOrder (some ⟨0, none⟩)) (sound_of_kind_eq_none hkind) rfl rfl rfl
        id rfl ?_
      intro size n hop
      rw [hop] at hkind
      cases hkind
  | send hc hpc | wake hc hpc _ _ => exact h.moved hc (by rw [hpc]; rfl) _
  | @timeout i d c hc hpc _ =>
      have hnone : c.pc.result = none := by rw [hpc]; rfl
      refine h.one hc _ ((h.calls i c hc).stop hnone ?_ fun _ _ => rfl) rfl rfl rfl id rfl fun _ _ _ => nofun
      exact fun size hop => ((h.calls i c hc).read size hop).1
  | tick d => exact ⟨h.solid, h.order, h.room, h.calls, h.copied, h.queued, h.drained⟩

theorem stream_of_reachable (h : Reachable system s) : s.Stream := by
  refine h.invariant (I := State.Stream) ?_ fun _ _ _ hs _ hst => stream_step hs (hs.step hst)
  rintro _ rfl
  refine ⟨fun _ => solid_empty, fun _ => rfl, fun _ => Nat.succ_pos _, ?_, ?_, ?_, ?_⟩
  all_goals
    intro i c
    nofun

-- Whoever reads while something is queued gets some of it.
theorem read_takes (h : s.Stream) (hc : s.calls[i]? = some c) (hpc : c.pc = .check) {size : ℕ}
    (hop : c.op = .read size)
    (hleft : s.delivered (readDir c.side) ≠ s.accepted (readDir c.side)) :
    ∃ s' bytes, next s (.run i) = some s' ∧ bytes ≠ [] ∧
      s'.delivered (readDir c.side) = s.delivered (readDir c.side) ++ bytes ∧
      s'.calls[i]? = some { c with
        moved := bytes
        pc := .signal signalOrder (some ⟨bytes.length, none⟩) } := by
  have hsize : 0 < size := ((h.calls i c hc).ready (by rw [hpc]; rfl)).read size hop
  have hsome : ((s.queue (readDir c.side)).take size).1 ≠ [] := by
    intro hnone
    refine hleft ?_
    rw [← h.order, (take_nothing (h.solid _) hsize hnone).1, List.flatten_nil, List.append_nil]
  have hlock : s.lockStep i c = s.taken i c size := by
    unfold State.lockStep
    rw [hop]
    exact if_pos (List.length_pos_iff.2 hsome)
  have hnext : next s (.run i) = some (s.taken i c size) := by rw [next_check hc hpc, hlock]
  refine ⟨_, _, hnext, hsome, Function.update_self _ _ _, ?_⟩
  exact List.getElem?_set_self (List.getElem?_eq_some_iff.1 hc).1

-- In every direction Reads return a beginning of what Writes queued, and EOF comes after
-- all of it. A call's `moved` is what it took from or added to that stream.
theorem stream_in_order (s : State) (h : Reachable system s) :
    (∀ dir, s.delivered dir <+: s.accepted dir ∧
      (s.queue dir).bytes = ((s.queue dir).chunks.map List.length).sum ∧
      (s.queue dir).bytes < chunkPipeBuffer + chunkPipeChunk) ∧
    (∀ (i : ℕ) (c : Call) (size : ℕ), s.calls[i]? = some c → c.op = .read size →
      c.moved <:+: s.delivered (readDir c.side) ∧
      ∀ r, c.pc = .done r → r.n = c.moved.length ∧
        (r.err = some .eof → s.closed = true ∧
          s.delivered (readDir c.side) = s.accepted (readDir c.side))) ∧
    (∀ (i : ℕ) (c : Call) (b : Bytes), s.calls[i]? = some c → c.op = .write b →
      c.moved <+ s.accepted (writeDir c.side) ∧
      ∀ r, c.pc = .done r → r.n = c.moved.length ∧ c.moved = b.take r.n) ∧
    ∀ (i : ℕ) (c : Call) (size : ℕ), s.calls[i]? = some c → c.op = .read size → c.pc = .check →
      s.delivered (readDir c.side) ≠ s.accepted (readDir c.side) →
      ∃ s' bytes, next s (.run i) = some s' ∧ bytes ≠ [] ∧
        s'.delivered (readDir c.side) = s.delivered (readDir c.side) ++ bytes ∧
        s'.calls[i]? = some { c with
          moved := bytes
          pc := .signal signalOrder (some ⟨bytes.length, none⟩) } := by
  have hs := stream_of_reachable h
  refine ⟨fun dir => ⟨⟨_, hs.order dir⟩, ?_, hs.room dir⟩, ?_, ?_, ?_⟩
  · rw [(s.queue dir).bytes_eq, List.length_flatten]
  · intro i c size hc hop
    refine ⟨hs.copied i c size hc hop, fun r hr => ⟨?_, fun herr => ?_⟩⟩
    · exact ((hs.calls i c hc).read size hop).2.2 r (by rw [hr]; rfl)
    · have hres : c.pc.result = some ⟨r.n, some .eof⟩ := by
        rw [hr, ← herr]
        rfl
      obtain ⟨hclosed, hempty⟩ := hs.drained i c size r.n hc hop hres
      refine ⟨hclosed, ?_⟩
      rw [← hs.order, hempty, List.flatten_nil, List.append_nil]
  · intro i c b hc hop
    obtain ⟨hmoved, hle, -, hcount⟩ := (hs.calls i c hc).write b hop
    refine ⟨hs.queued i c b hc hop, fun r hr => ?_⟩
    rw [hcount r (by rw [hr]; rfl)]
    exact ⟨by rw [hmoved, List.length_take, Nat.min_eq_left hle], hmoved⟩
  · exact fun i c size hc hop hpc hleft => read_takes hs hc hpc hop hleft

-- A Write of three bytes, a Read of two, Close, and two more Reads: the byte left over,
-- then EOF.
def drainAfterClose : List Label :=
  [.call .session (.write [1, 2, 3]), .call .app (.read 2), .call .session .close,
    .call .app (.read 2), .call .app (.read 2), .run 0, .run 1, .run 2, .run 3, .run 4] ++
  List.replicate 5 (.run 3)

theorem drained_before_eof : ∃ s, Reachable system s ∧
    (s.accepted .down = [1, 2, 3] ∧ (s.calls.map Call.pc)[3]? = some (.done ⟨1, none⟩) ∧
      (s.calls.map Call.pc)[4]? = some (.done ⟨0, some .eof⟩)) ∧ s.delivered .down = [1, 2, 3] := by
  obtain ⟨s, hs, hfacts⟩ := system.exists_run (P := fun s => s.accepted .down = [1, 2, 3] ∧
    (s.calls.map Call.pc)[3]? = some (.done ⟨1, none⟩) ∧
    s.calls[4]? = some ⟨.app, .read 2, 0, [], .done ⟨0, some .eof⟩⟩) rfl drainAfterClose
    (by decide +kernel)
  obtain ⟨haccepted, hthird, hfourth⟩ := hfacts
  have heof := ((stream_in_order s hs).2.1 4 _ 2 hfourth rfl).2 _ rfl
  refine ⟨s, hs, ⟨haccepted, hthird, ?_⟩, (heof.2 rfl).2.trans haccepted⟩
  rw [List.getElem?_map, hfourth]
  rfl

end UdpCustom.ChunkPipe
