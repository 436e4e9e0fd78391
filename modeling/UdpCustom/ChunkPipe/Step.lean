import UdpCustom.ChunkPipe.Pipe

-- What a step of the pipe can do, in states as the pipe reaches them.
namespace UdpCustom.ChunkPipe

open UdpCustom.Frame

-- No empty chunk is queued.
def ChunkDir.Solid (q : ChunkDir) : Prop :=
  ∀ chunk ∈ q.chunks, chunk ≠ []

theorem solid_empty : ChunkDir.empty.Solid := fun _ => nofun

theorem solid_push {q : ChunkDir} (h : q.Solid) {b : Bytes} (hb : b ≠ []) : (q.push b).Solid := by
  intro chunk hchunk
  rcases List.mem_append.1 hchunk with hold | hnew
  · exact h chunk hold
  · rw [List.mem_singleton.1 hnew]
    exact fun hnil => hb ((List.take_eq_nil_iff.1 hnil).resolve_left (by decide))

theorem solid_takeChunks {n : ℕ} {chunks : List Bytes} (h : ∀ chunk ∈ chunks, chunk ≠ []) :
    ∀ chunk ∈ (takeChunks n chunks).2, chunk ≠ [] := by
  induction chunks generalizing n with
  | nil => exact fun _ => nofun
  | cons first rest ih =>
      have hrest : ∀ chunk ∈ rest, chunk ≠ [] := fun chunk hc => h chunk (List.mem_cons_of_mem _ hc)
      unfold takeChunks
      split
      · exact h
      · split
        · rename_i hshort
          intro chunk hc
          rcases List.mem_cons.1 hc with rfl | hc
          · exact fun hnil => absurd (List.drop_eq_nil_iff.1 hnil) (Nat.not_le.2 hshort)
          · exact hrest chunk hc
        · exact ih hrest

theorem solid_take {q : ChunkDir} (h : q.Solid) (n : ℕ) : (q.take n).2.Solid :=
  solid_takeChunks h

theorem ChunkDir.ext_chunks {q q' : ChunkDir} (h : q.chunks = q'.chunks) : q = q' := by
  cases q with
  | mk chunks bytes hbytes =>
      cases q' with
      | mk chunks' bytes' hbytes' =>
          cases h
          cases hbytes
          cases hbytes'
          rfl

-- A read with room that gets nothing finds nothing queued and leaves it so.
theorem take_nothing {q : ChunkDir} (h : q.Solid) {n : ℕ} (hn : 0 < n) (hnone : (q.take n).1 = []) :
    q.chunks = [] ∧ (q.take n).2 = q := by
  have hempty : q.chunks = [] := by
    cases hq : q.chunks with
    | nil => rfl
    | cons chunk rest =>
        exfalso
        have hchunk : chunk ≠ [] := h chunk (hq ▸ List.mem_cons_self)
        unfold ChunkDir.take at hnone
        dsimp only at hnone
        rw [hq, takeChunks, if_neg hn.ne'] at hnone
        split at hnone
        · exact hchunk ((List.take_eq_nil_iff.1 hnone).resolve_left hn.ne')
        · exact hchunk (List.append_eq_nil_iff.1 hnone).1
  refine ⟨hempty, ChunkDir.ext_chunks ?_⟩
  unfold ChunkDir.take
  dsimp only
  rw [hempty]
  rfl

-- A call that has not returned yet has something left to do.
structure Call.Ready (c : Call) : Prop where
  read : ∀ size, c.op = .read size → 0 < size
  write : ∀ b, c.op = .write b → c.written < b.length

def State.Blocked (s : State) (side : End) : Kind → Prop
  | .read => (s.queue (readDir side)).chunks = []
  | .write => chunkPipeBuffer ≤ (s.queue (writeDir side)).bytes

theorem blocked_congr {s s' : State} (h : s'.queue = s.queue) (side : End) (kind : Kind) :
    s'.Blocked side kind ↔ s.Blocked side kind := by
  cases kind with
  | read | write =>
      unfold State.Blocked
      rw [h]

-- The ways in which the locked section ends a call, and what it returns.
inductive Refused (s : State) (c : Call) : Result → Prop
  | eof {size : ℕ} : c.op = .read size → s.Blocked c.side .read → s.closed = true →
      Refused s c ⟨0, some .eof⟩
  | readLate {size : ℕ} : c.op = .read size → s.closed = false → s.expired c.side .read = true →
      Refused s c ⟨0, some .deadlineExceeded⟩
  | closedPipe {b : Bytes} : c.op = .write b → s.closed = true →
      Refused s c ⟨c.written, some .closedPipe⟩
  | writeLate {b : Bytes} : c.op = .write b → s.closed = false → s.expired c.side .write = true →
      Refused s c ⟨c.written, some .deadlineExceeded⟩
  | closeAgain : c.op = .close → s.closed = true → Refused s c ⟨0, none⟩

-- The state after a Read has taken something, and after a Write has queued a piece.
def State.taken (s : State) (i : ℕ) (c : Call) (size : ℕ) : State :=
  { s with
    queue := Function.update s.queue (readDir c.side) ((s.queue (readDir c.side)).take size).2
    delivered := Function.update s.delivered (readDir c.side)
      (s.delivered (readDir c.side) ++ ((s.queue (readDir c.side)).take size).1) }.setCall i
    ({ c with moved := ((s.queue (readDir c.side)).take size).1 }.signals
      (some ⟨((s.queue (readDir c.side)).take size).1.length, none⟩))

def Call.piece (c : Call) (b : Bytes) : Bytes :=
  (b.drop c.written).take chunkPipeChunk

def State.pushed (s : State) (i : ℕ) (c : Call) (b : Bytes) : State :=
  { s with
    queue := Function.update s.queue (writeDir c.side)
      ((s.queue (writeDir c.side)).push (b.drop c.written))
    accepted := Function.update s.accepted (writeDir c.side)
      (s.accepted (writeDir c.side) ++ c.piece b) }.setCall i
    ({ c with written := c.written + (c.piece b).length, moved := c.moved ++ c.piece b }.signals
      (if c.written + (c.piece b).length < b.length then none
        else some ⟨c.written + (c.piece b).length, none⟩))

inductive Step (s : State) : Label → State → Prop
  | call (side : End) (op : Op) :
      Step s (.call side op) { s with calls := s.calls ++ [newCall side op] }
  | take {i size : ℕ} {c : Call} : s.calls[i]? = some c → c.pc = .check → c.op = .read size →
      0 < ((s.queue (readDir c.side)).take size).1.length → Step s (.run i) (s.taken i c size)
  | push {i : ℕ} {c : Call} {b : Bytes} : s.calls[i]? = some c → c.pc = .check → c.op = .write b →
      s.closed = false → s.expired c.side .write = false →
      (s.queue (writeDir c.side)).bytes < chunkPipeBuffer → Step s (.run i) (s.pushed i c b)
  | refuse {i : ℕ} {c : Call} {r : Result} : s.calls[i]? = some c → c.pc = .check → Refused s c r →
      Step s (.run i) (s.setCall i { c with pc := .done r })
  | sleep {i : ℕ} {c : Call} {kind : Kind} : s.calls[i]? = some c → c.pc = .check →
      c.op.kind = some kind → s.closed = false → s.expired c.side kind = false →
      s.Blocked c.side kind →
      Step s (.run i) (s.setCall i { c with pc := .sleep (s.deadline c.side kind) })
  | close {i : ℕ} {c : Call} : s.calls[i]? = some c → c.pc = .check → c.op = .close →
      s.closed = false →
      Step s (.run i) ({ s with closed := true }.setCall i (c.signals (some ⟨0, none⟩)))
  | set {i : ℕ} {c : Call} (deadline : End → Kind → Option ℕ) : s.calls[i]? = some c → c.pc = .check →
      c.op.kind = none →
      Step s (.run i) ({ s with deadline := deadline }.setCall i (c.signals (some ⟨0, none⟩)))
  | send {i : ℕ} {c : Call} {ch : Chan} {left : List Chan} {result : Option Result} :
      s.calls[i]? = some c → c.pc = .signal (ch :: left) result →
      Step s (.run i) ({ s with token := Function.update s.token ch true }.setCall i
        { c with pc := .signal left result })
  | loop {i : ℕ} {c : Call} : s.calls[i]? = some c → c.pc = .signal [] none →
      Step s (.run i) (s.setCall i { c with pc := .check })
  | finish {i : ℕ} {c : Call} {r : Result} : s.calls[i]? = some c → c.pc = .signal [] (some r) →
      Step s (.run i) (s.setCall i { c with pc := .done r })
  | wake {i : ℕ} {c : Call} {d : Option ℕ} {kind : Kind} : s.calls[i]? = some c → c.pc = .sleep d →
      c.op.kind = some kind → s.token (wakeChan c.side kind) = true →
      Step s (.run i) ({ s with
        token := Function.update s.token (wakeChan c.side kind) false }.setCall i { c with pc := .check })
  | timeout {i d : ℕ} {c : Call} : s.calls[i]? = some c → c.pc = .sleep (some d) → d ≤ s.now →
      Step s (.timeout i)
        (s.setCall i { c with pc := .done ⟨c.written, some .deadlineExceeded⟩ })
  | tick (d : ℕ) : Step s (.tick d) { s with now := s.now + d }

variable {s s' : State} {l : Label} {i : ℕ} {c : Call}

theorem next_run (hc : s.calls[i]? = some c) : next s (.run i) = s.runStep i c := by
  unfold next
  dsimp only
  rw [hc]

theorem next_check (hc : s.calls[i]? = some c) (hpc : c.pc = .check) :
    next s (.run i) = some (s.lockStep i c) := by
  rw [next_run hc]
  unfold State.runStep
  rw [hpc]

theorem next_wake (hc : s.calls[i]? = some c) {kind : Kind}
    (hkind : c.op.kind = some kind) {d : Option ℕ}
    (hpc : c.pc = .sleep d) (htok : s.token (wakeChan c.side kind) = true) :
    next s (.run i) = some ({ s with
      token := Function.update s.token (wakeChan c.side kind) false }.setCall i
        { c with pc := .check }) := by
  rw [next_run hc]
  unfold State.runStep
  rw [hpc]
  dsimp only
  rw [hkind]
  dsimp only
  rw [if_pos htok]

theorem next_timeout_awake (hc : s.calls[i]? = some c) (hpc : ∀ t, c.pc ≠ .sleep (some t)) :
    next s (.timeout i) = none := by
  unfold next
  dsimp only
  rw [hc]
  dsimp only
  split
  · rename_i t hsleep
    exact absurd hsleep (hpc t)
  · rfl

theorem readStep_step (hq : ∀ dir, (s.queue dir).Solid) (hc : s.calls[i]? = some c)
    (hpc : c.pc = .check) {size : ℕ} (hop : c.op = .read size) (hsize : 0 < size) :
    Step s (.run i) (s.readStep i c size) := by
  unfold State.readStep
  dsimp only
  split
  · rename_i hsome
    exact .take hc hpc hop hsome
  · rename_i hnone
    obtain ⟨hempty, hsame⟩ := take_nothing (hq (readDir c.side)) hsize
      (List.length_eq_zero_iff.1 (Nat.eq_zero_of_not_pos hnone))
    rw [hsame, Function.update_eq_self]
    split
    · rename_i hclosed
      exact .refuse hc hpc (.eof hop hempty hclosed)
    · rename_i hopen
      have hopen := Bool.eq_false_iff.2 hopen
      split
      · rename_i hlate
        exact .refuse hc hpc (.readLate hop hopen hlate)
      · rename_i hearly
        exact .sleep hc hpc (by rw [hop]; rfl) hopen (Bool.eq_false_iff.2 hearly) hempty

theorem writeStep_step (hc : s.calls[i]? = some c) (hpc : c.pc = .check) {b : Bytes}
    (hop : c.op = .write b) : Step s (.run i) (s.writeStep i c b) := by
  unfold State.writeStep
  split
  · rename_i hclosed
    exact .refuse hc hpc (.closedPipe hop hclosed)
  · rename_i hopen
    have hopen := Bool.eq_false_iff.2 hopen
    split
    · rename_i hlate
      exact .refuse hc hpc (.writeLate hop hopen hlate)
    · rename_i hearly
      have hearly := Bool.eq_false_iff.2 hearly
      dsimp only
      split
      · rename_i hroom
        have hpush := Step.push hc hpc hop hopen hearly hroom
        rw [State.pushed, Call.piece, List.length_take] at hpush
        exact hpush
      · rename_i hfull
        exact .sleep hc hpc (by rw [hop]; rfl) hopen hearly (Nat.not_lt.1 hfull)

theorem lockStep_step (hq : ∀ dir, (s.queue dir).Solid) (hc : s.calls[i]? = some c)
    (hpc : c.pc = .check) (hready : c.Ready) : Step s (.run i) (s.lockStep i c) := by
  unfold State.lockStep
  split
  · rename_i size hop
    exact readStep_step hq hc hpc hop (hready.read size hop)
  · rename_i b hop
    exact writeStep_step hc hpc hop
  · rename_i hop
    split
    · rename_i hclosed
      exact .refuse hc hpc (.closeAgain hop hclosed)
    · rename_i hopen
      exact .close hc hpc hop (Bool.eq_false_iff.2 hopen)
  · rename_i t hop
    exact .set _ hc hpc (by rw [hop]; rfl)
  · rename_i t hop
    exact .set _ hc hpc (by rw [hop]; rfl)
  · rename_i t hop
    exact .set _ hc hpc (by rw [hop]; rfl)

theorem step_of_next (hq : ∀ dir, (s.queue dir).Solid)
    (hready : ∀ (i : ℕ) (c : Call), s.calls[i]? = some c → c.pc = .check → c.Ready) (h : next s l = some s') :
    Step s l s' := by
  cases l with
  | call side op =>
      cases h
      exact .call side op
  | tick d =>
      cases h
      exact .tick d
  | run i =>
      unfold next at h
      dsimp only at h
      split at h
      · cases h
      · rename_i c hc
        unfold State.runStep at h
        split at h
        · rename_i hpc
          cases h
          exact lockStep_step hq hc hpc (hready i c hc hpc)
        · rename_i hpc
          cases h
          exact .send hc hpc
        · rename_i hpc
          cases h
          exact .loop hc hpc
        · rename_i hpc
          cases h
          exact .finish hc hpc
        · rename_i hpc
          split at h
          · cases h
          · rename_i hkind
            obtain ⟨htoken, ⟨⟩⟩ := Option.ite_none_right_eq_some.1 h
            exact .wake hc hpc hkind htoken
        · cases h
  | timeout i =>
      unfold next at h
      dsimp only at h
      split at h
      · cases h
      · rename_i c hc
        split at h
        · rename_i d hpc
          obtain ⟨hlate, ⟨⟩⟩ := Option.ite_none_right_eq_some.1 h
          exact .timeout hc hpc hlate
        · cases h

end UdpCustom.ChunkPipe
