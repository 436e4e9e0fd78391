import UdpCustom.ChunkPipe.Wakeups

-- With two Reads, or two Writes, in progress on one end, one of them can be left asleep
-- on a closed pipe.
namespace UdpCustom.ChunkPipe

open UdpCustom.Frame Transition

-- Whoever has something to return for returns, in every fair run with no more calls in
-- progress than `limits` allows.
def NobodyStuck (limits : End → Kind → ℕ) : Prop :=
  ∀ ρ : Execution system, ρ.state 0 = newChunkPipe → Fair ρ → (∀ n, (ρ.state n).Within limits) →
    ∀ (n i : ℕ) (c : Call) (kind : Kind), (ρ.state n).calls[i]? = some c → c.op.kind = some kind →
      (∀ m, n ≤ m → (ρ.state m).Free c.side kind) →
      ∃ m, n ≤ m ∧ ∃ c' r, (ρ.state m).calls[i]? = some c' ∧ c'.pc = .done r

variable {limits : End → Kind → ℕ} {side : End} {kind : Kind} {s s' : State} {i : ℕ} {c : Call}

def State.ops (s : State) : List (End × Op) :=
  s.calls.map fun c => (c.side, c.op)

theorem ops_set {calls : List Call} {c' : Call} (hc : calls[i]? = some c) (hside : c'.side = c.side)
    (hop : c'.op = c.op) :
    (calls.set i c').map (fun c => (c.side, c.op)) = calls.map fun c => (c.side, c.op) := by
  refine List.ext_getElem? fun j => ?_
  rw [List.getElem?_map, List.getElem?_map]
  by_cases hj : j = i
  · subst hj
    rw [List.getElem?_set_self (List.getElem?_eq_some_iff.1 hc).1, hc, Option.map_some,
      Option.map_some, hside, hop]
  · rw [List.getElem?_set_ne (Ne.symm hj)]

-- Nothing but two calls of one kind on one end, and calls that never block.
structure Pair (limits : End → Kind → ℕ) (side : End) (kind : Kind) (s : State) : Prop where
  reached : ReachableBy system (fun s l => ∀ s', next s l = some s' → s'.Within limits) s
  only : ∀ p ∈ s.ops, ∀ k, p.2.kind = some k → p.1 = side ∧ k = kind
  few : s.ops.countP (·.2.kind.isSome) ≤ 2

theorem within_of_few (hlimit : 2 ≤ limits side kind)
    (honly : ∀ p ∈ s.ops, ∀ k, p.2.kind = some k → p.1 = side ∧ k = kind)
    (hfew : s.ops.countP (·.2.kind.isSome) ≤ 2) : s.Within limits := by
  intro side' kind'
  have hpart : s.inProgress side' kind' ≤
      s.ops.countP fun p => p.1 = side' && p.2.kind = some kind' := by
    unfold State.inProgress State.ops
    rw [List.countP_map]
    refine List.countP_mono_left fun c _ hc => ?_
    exact (Bool.and_eq_true _ _ ▸ hc).1
  refine hpart.trans ?_
  by_cases hsame : side' = side ∧ kind' = kind
  · obtain ⟨rfl, rfl⟩ := hsame
    refine (List.countP_mono_left fun p _ hp => ?_).trans (hfew.trans hlimit)
    have hkind := of_decide_eq_true (Bool.and_eq_true _ _ ▸ hp).2
    rw [hkind]
    rfl
  · have hzero : s.ops.countP (fun p => p.1 = side' && p.2.kind = some kind') = 0 := by
      refine List.countP_eq_zero.2 fun p hp hboth => hsame ?_
      obtain ⟨hside, hkind⟩ := (Bool.and_eq_true _ _ ▸ hboth :)
      obtain ⟨hs, hk⟩ := honly p hp kind' (of_decide_eq_true hkind)
      exact ⟨(of_decide_eq_true hside).symm.trans hs, hk⟩
    omega

theorem pair_newChunkPipe : Pair limits side kind newChunkPipe :=
  ⟨.init rfl, fun _ => nofun, Nat.zero_le _⟩

theorem Pair.stream (h : Pair limits side kind s) : s.Stream :=
  stream_of_reachable h.reached.reachable

theorem Pair.run (h : Pair limits side kind s) (hlimit : 2 ≤ limits side kind)
    (hst : next s (.run i) = some s') : Pair limits side kind s' := by
  have hops : s'.ops = s.ops := by
    cases (h.stream.step hst).calls with
    | move _ hc he hside hop =>
        unfold State.ops
        rw [he, ops_set hc hside hop]
  have honly := hops.symm ▸ h.only
  have hfew := hops.symm ▸ h.few
  refine ⟨.step h.reached (l := .run i) (fun s'' hs'' => ?_) hst, honly, hfew⟩
  cases hst.symm.trans hs''
  exact within_of_few hlimit honly hfew

theorem Pair.call (h : Pair limits side kind s) (hlimit : 2 ≤ limits side kind) (op : Op)
    (honly : ∀ k, op.kind = some k → k = kind)
    (hfew : s.ops.countP (·.2.kind.isSome) + [op].countP (·.kind.isSome) ≤ 2) :
    Pair limits side kind { s with calls := s.calls ++ [newCall side op] } := by
  have hops : ({ s with calls := s.calls ++ [newCall side op] } : State).ops = s.ops ++ [(side, op)] :=
    List.map_append
  have honly' : ∀ p ∈ s.ops ++ [(side, op)], ∀ k, p.2.kind = some k → p.1 = side ∧ k = kind := by
    intro p hp k hk
    rcases List.mem_append.1 hp with hold | hnew
    · exact h.only p hold k hk
    · cases List.mem_singleton.1 hnew
      exact ⟨rfl, honly k hk⟩
  have hfew' : (s.ops ++ [(side, op)]).countP (·.2.kind.isSome) ≤ 2 := by
    rw [List.countP_append]
    exact hfew
  refine ⟨.step h.reached (l := .call side op) (fun s'' hs'' => ?_) rfl, hops ▸ honly', hops ▸ hfew'⟩
  cases hs''
  exact within_of_few hlimit (hops ▸ honly') (hops ▸ hfew')

-- The rest of `signal`, when nothing comes in between.
theorem Pair.signal (h : Pair limits side kind s) (hlimit : 2 ≤ limits side kind)
    {left : List Chan} {r : Option Result} (hc : s.calls[i]? = some c) (hpc : c.pc = .signal left r) :
    ∃ token, (∀ ch, s.token ch = true ∨ ch ∈ left → token ch = true) ∧
      Pair limits side kind ({ s with token := token }.setCall i { c with pc := .signal [] r }) := by
  induction left generalizing s c with
  | nil =>
      refine ⟨s.token, fun ch => ?_, ?_⟩
      · rintro (htok | hmem)
        · exact htok
        · cases hmem
      · have hsame : s.calls.set i { c with pc := .signal [] r } = s.calls := by
          obtain ⟨hi, rfl⟩ := List.getElem?_eq_some_iff.1 hc
          rw [← hpc, List.set_getElem_self]
        unfold State.setCall
        dsimp only
        rw [hsame]
        exact h
  | cons first left ih =>
      have hst : next s (.run i) = some ({ s with
          token := Function.update s.token first true }.setCall i { c with pc := .signal left r }) := by
        rw [next_run hc]
        unfold State.runStep
        rw [hpc]
      have hi := (List.getElem?_eq_some_iff.1 hc).1
      obtain ⟨token, htoken, hpair⟩ := ih (h.run hlimit hst) (List.getElem?_set_self hi) rfl
      refine ⟨token, fun ch hch => htoken ch ?_, ?_⟩
      · by_cases hfirst : ch = first
        · exact .inl (hfirst ▸ Function.update_self _ _ _)
        · rcases hch with htok | hmem
          · exact .inl ((Function.update_of_ne hfirst _ _).trans htok)
          · exact .inr ((List.mem_cons.1 hmem).resolve_left hfirst)
      · unfold State.setCall at hpair ⊢
        dsimp only at hpair ⊢
        rw [List.set_set] at hpair
        exact hpair

theorem refused_for (hkind : c.op.kind = some kind) {r : Result} (hr : Refused s c r) :
    s.closed = true ∨ s.expired c.side kind = true := by
  cases hr with
  | eof _ _ hclosed => exact .inl hclosed
  | closedPipe _ hclosed => exact .inl hclosed
  | closeAgain _ hclosed => exact .inl hclosed
  | readLate hop _ hlate | writeLate hop _ hlate =>
      rw [hop] at hkind
      cases hkind
      exact .inr hlate

-- A call that finds nothing to do sleeps or gives up.
theorem next_blocked (hs : s.Stream) (hc : s.calls[i]? = some c) (hpc : c.pc = .check)
    (hkind : c.op.kind = some kind) (hblocked : s.Blocked c.side kind) :
    next s (.run i) = some (s.setCall i { c with pc := .sleep (s.deadline c.side kind) }) ∧
        s.closed = false ∨
      (∃ r, next s (.run i) = some (s.setCall i { c with pc := .done r })) ∧
        (s.closed = true ∨ s.expired c.side kind = true) := by
  have hst := next_check hc hpc
  have hstep := hs.step hst
  generalize s.lockStep i c = s' at hst hstep
  rw [hst]
  cases hstep with
  | sleep he _ hkind' hopen _ _ =>
      cases he.symm.trans hc
      cases hkind.symm.trans hkind'
      exact .inl ⟨rfl, hopen⟩
  | @refuse _ _ r he _ hr =>
      cases he.symm.trans hc
      exact .inr ⟨⟨r, rfl⟩, refused_for hkind hr⟩
  | take he _ hop hsome =>
      cases he.symm.trans hc
      rw [hop] at hkind
      cases hkind
      obtain ⟨chunk, rest, hqueue⟩ := exists_chunk (List.ne_nil_of_length_pos hsome)
      cases hqueue.symm.trans hblocked
  | push he _ hop _ _ hroom =>
      cases he.symm.trans hc
      rw [hop] at hkind
      cases hkind
      exact absurd hblocked (Nat.not_le.2 hroom)
  | close he _ hop _ =>
      cases he.symm.trans hc
      rw [hop] at hkind
      cases hkind
  | set _ he _ hnone =>
      cases he.symm.trans hc
      cases hnone.symm.trans hkind
  | send he hpc' | loop he hpc' | finish he hpc' | wake he hpc' _ _ =>
      cases he.symm.trans hc
      cases hpc.symm.trans hpc'

-- Nothing is left to return for, and no deadline is set.
structure Calm (side : End) (kind : Kind) (s : State) : Prop where
  isOpen : s.closed = false
  deadline : s.deadline side kind = none
  blocked : s.Blocked side kind

theorem next_sleep (h : Calm side kind s) (hs : s.Stream) (hc : s.calls[i]? = some c)
    (hpc : c.pc = .check) (hside : c.side = side) (hkind : c.op.kind = some kind) :
    next s (.run i) = some (s.setCall i { c with pc := .sleep none }) := by
  subst hside
  rcases next_blocked hs hc hpc hkind h.blocked with ⟨hst, -⟩ | ⟨-, hclosed | hlate⟩
  · rw [h.deadline] at hst
    exact hst
  · cases h.isOpen.symm.trans hclosed
  · unfold State.expired at hlate
    rw [h.deadline] at hlate
    cases hlate

-- The first call sleeps, and has taken the token that was left over, if there was one.
theorem Pair.first_sleeps (h : Pair limits side kind s) (hlimit : 2 ≤ limits side kind)
    (hcalm : Calm side kind s) (hcalls : s.calls = [c]) (hpc : c.pc = .check)
    (hside : c.side = side) (hkind : c.op.kind = some kind) :
    ∃ s', Pair limits side kind s' ∧ Calm side kind s' ∧ s'.token (wakeChan side kind) = false ∧
      s'.calls = [{ c with pc := .sleep none }] := by
  have hc : s.calls[0]? = some c := by rw [hcalls]; rfl
  have hset : ∀ c', s.calls.set 0 c' = [c'] := fun c' => by rw [hcalls]; rfl
  have hfirst := h.run hlimit (next_sleep hcalm h.stream hc hpc hside hkind)
  subst hside
  cases htok : s.token (wakeChan c.side kind) with
  | false =>
      exact ⟨_, hfirst, ⟨hcalm.isOpen, hcalm.deadline, hcalm.blocked⟩, htok, hset _⟩
  | true =>
      have hwake := hfirst.run hlimit
        (next_wake (i := 0) (c := { c with pc := .sleep none }) (by rw [State.setCall, hset]; rfl)
          hkind rfl htok)
      unfold State.setCall at hwake
      dsimp only at hwake
      rw [List.set_set, hset] at hwake
      have hagain := hwake.run hlimit (next_sleep (i := 0) (c := { c with pc := .check })
        ⟨hcalm.isOpen, hcalm.deadline, hcalm.blocked⟩ hwake.stream rfl rfl rfl hkind)
      exact ⟨_, hagain, ⟨hcalm.isOpen, hcalm.deadline, hcalm.blocked⟩, Function.update_self _ _ _, rfl⟩

theorem Pair.second_sleeps (h : Pair limits side kind s) (hlimit : 2 ≤ limits side kind)
    (hcalm : Calm side kind s) (htok : s.token (wakeChan side kind) = false)
    (hcalls : s.calls = [c]) (hkind : c.op.kind = some kind) {op : Op}
    (hop : op.kind = some kind) (hstart : startPc op = .check) :
    ∃ s', Pair limits side kind s' ∧ Calm side kind s' ∧ s'.token (wakeChan side kind) = false ∧
      s'.calls = [c, { newCall side op with pc := .sleep none }] := by
  have hone : s.ops.countP (·.2.kind.isSome) = 1 := by
    unfold State.ops
    rw [hcalls, List.map_singleton, List.countP_singleton, hkind]
    rfl
  have hcalled := h.call hlimit op (fun k hk => Option.some.inj (hk.symm.trans hop))
    (by rw [hone, List.countP_singleton, hop]; exact Nat.le_refl 2)
  rw [hcalls] at hcalled
  have hcalm' : Calm side kind { s with calls := [c] ++ [newCall side op] } :=
    ⟨hcalm.isOpen, hcalm.deadline, hcalm.blocked⟩
  have hasleep := hcalled.run hlimit
    (next_sleep (i := 1) (c := newCall side op) hcalm' hcalled.stream rfl hstart rfl hop)
  exact ⟨_, hasleep, ⟨hcalm.isOpen, hcalm.deadline, hcalm.blocked⟩, htok, rfl⟩

-- Close sends one token on each channel.
theorem Pair.closes (h : Pair limits side kind s) (hlimit : 2 ≤ limits side kind)
    (hcalm : Calm side kind s) {c₁ c₂ : Call} (hcalls : s.calls = [c₁, c₂]) :
    ∃ s' c₃ r, Pair limits side kind s' ∧ s'.closed = true ∧ s'.Blocked side kind ∧
      s'.token (wakeChan side kind) = true ∧ s'.calls = [c₁, c₂, c₃] ∧ c₃.pc = .done r := by
  have hcalled := h.call hlimit .close (fun _ => nofun) h.few
  rw [hcalls] at hcalled
  have hclose : next { s with calls := [c₁, c₂] ++ [newCall side .close] } (.run 2) = some { s with
      closed := true
      calls := [c₁, c₂, (newCall side .close).signals (some ⟨0, none⟩)] } := by
    rw [next_check (i := 2) (c := newCall side .close) rfl rfl]
    unfold State.lockStep newCall
    dsimp only
    rw [hcalm.isOpen]
    rfl
  obtain ⟨token, htoken, hsent⟩ := (hcalled.run hlimit hclose).signal hlimit (i := 2)
    (c := (newCall side .close).signals (some ⟨0, none⟩)) rfl rfl
  have hdone := hsent.run (i := 2) hlimit rfl
  exact ⟨_, _, _, hdone, rfl, hcalm.blocked, htoken _ (.inr (mem_signalOrder _)), rfl, rfl⟩

-- The token goes to the first call, which returns without a word to the other.
theorem Pair.first_returns (h : Pair limits side kind s) (hlimit : 2 ≤ limits side kind)
    (hclosed : s.closed = true) (hblocked : s.Blocked side kind)
    (htok : s.token (wakeChan side kind) = true) {c₁ c₂ c₃ : Call} (hcalls : s.calls = [c₁, c₂, c₃])
    (hpc : c₁.pc = .sleep none) (hside : c₁.side = side) (hkind : c₁.op.kind = some kind) :
    ∃ s' c₁' r, Pair limits side kind s' ∧ s'.closed = true ∧
      s'.token (wakeChan side kind) = false ∧ s'.calls = [c₁', c₂, c₃] ∧ c₁'.pc = .done r := by
  subst hside
  have hset : ∀ c', s.calls.set 0 c' = [c', c₂, c₃] := fun c' => by rw [hcalls]; rfl
  have hwake := h.run hlimit (next_wake (i := 0) (by rw [hcalls]; rfl) hkind hpc htok)
  unfold State.setCall at hwake
  dsimp only at hwake
  rw [hset] at hwake
  rcases next_blocked (i := 0) (c := { c₁ with pc := .check }) hwake.stream rfl rfl hkind hblocked with
    ⟨-, hopen⟩ | ⟨⟨r, hst⟩, -⟩
  · cases hclosed.symm.trans hopen
  · exact ⟨_, _, r, hwake.run hlimit hst, hclosed, Function.update_self _ _ _, rfl, rfl⟩

-- A state in which a call sleeps for good on a closed pipe.
structure LeftAsleep (side : End) (kind : Kind) (s : State) : Prop where
  closed : s.closed = true
  still : ∀ i, ¬s.Able i
  asleep : ∃ (i : ℕ) (c : Call), s.calls[i]? = some c ∧ c.side = side ∧ c.op.kind = some kind ∧
    c.pc = .sleep none

theorem not_able_of (hrun : next s (.run i) = none) (htimeout : next s (.timeout i) = none) :
    ¬s.Able i := by
  rintro ⟨l, hl, hsome⟩
  cases l with
  | call side op => cases hl
  | tick d => cases hl
  | run j =>
      cases hl
      rw [hrun] at hsome
      cases hsome
  | timeout j =>
      cases hl
      rw [htimeout] at hsome
      cases hsome

theorem not_able_done (hc : s.calls[i]? = some c) {r : Result} (hpc : c.pc = .done r) :
    ¬s.Able i := by
  refine not_able_of ?_ (next_timeout_awake hc (by rw [hpc]; exact fun _ => nofun))
  rw [next_run hc, State.runStep, hpc]

theorem not_able_asleep (hc : s.calls[i]? = some c) (hkind : c.op.kind = some kind)
    (hpc : c.pc = .sleep none) (htok : s.token (wakeChan c.side kind) = false) : ¬s.Able i := by
  refine not_able_of ?_ (next_timeout_awake hc (by rw [hpc]; exact fun _ => nofun))
  rw [next_run hc, State.runStep, hpc]
  dsimp only
  rw [hkind]
  dsimp only
  rw [if_neg (Bool.eq_false_iff.1 htok)]

theorem not_able_absent (hc : s.calls[i]? = none) : ¬s.Able i := by
  refine not_able_of ?_ ?_
  · unfold next
    dsimp only
    rw [hc]
  · unfold next
    dsimp only
    rw [hc]

theorem Pair.exists_left_asleep (h : Pair limits side kind s) (hlimit : 2 ≤ limits side kind)
    (hcalm : Calm side kind s) (hcalls : s.calls = [c]) (hpc : c.pc = .check)
    (hside : c.side = side) (hkind : c.op.kind = some kind) (op : Op)
    (hop : op.kind = some kind) (hstart : startPc op = .check) :
    ∃ s', Pair limits side kind s' ∧ LeftAsleep side kind s' := by
  obtain ⟨s₁, h₁, hcalm₁, htok₁, hcalls₁⟩ := h.first_sleeps hlimit hcalm hcalls hpc hside hkind
  obtain ⟨s₂, h₂, hcalm₂, htok₂, hcalls₂⟩ := h₁.second_sleeps hlimit hcalm₁ htok₁ hcalls₁ hkind hop hstart
  obtain ⟨s₃, c₃, r₃, h₃, hclosed₃, hblocked₃, htok₃, hcalls₃, hdone₃⟩ := h₂.closes hlimit hcalm₂ hcalls₂
  obtain ⟨s₄, c₁, r₁, h₄, hclosed₄, htok₄, hcalls₄, hdone₁⟩ :=
    h₃.first_returns hlimit hclosed₃ hblocked₃ htok₃ hcalls₃ rfl hside hkind
  refine ⟨s₄, h₄, hclosed₄, fun i => ?_, 1, _, by rw [hcalls₄]; rfl, rfl, hop, rfl⟩
  match i with
  | 0 => exact not_able_done (by rw [hcalls₄]; rfl) hdone₁
  | 1 => exact not_able_asleep (by rw [hcalls₄]; rfl) hop rfl htok₄
  | 2 => exact not_able_done (by rw [hcalls₄]; rfl) hdone₃
  | i + 3 => exact not_able_absent (by rw [hcalls₄]; rfl)

-- A Write of more than the buffer takes fills it.
def wide : Bytes :=
  List.replicate (5 * chunkPipeChunk) 0

structure Filling (side : End) (k : ℕ) (s : State) : Prop where
  isOpen : s.closed = false
  deadline : s.deadline side .write = none
  calls : ∃ moved, s.calls = [⟨side, .write wide, k * chunkPipeChunk, moved, .check⟩]
  bytes : (s.queue (writeDir side)).bytes = k * chunkPipeChunk

theorem next_push (hc : s.calls[i]? = some c) (hpc : c.pc = .check) {b : Bytes}
    (hop : c.op = .write b) (hopen : s.closed = false) (hearly : s.expired c.side .write = false)
    (hroom : (s.queue (writeDir c.side)).bytes < chunkPipeBuffer) :
    next s (.run i) = some (s.pushed i c b) := by
  rw [next_check hc hpc]
  unfold State.lockStep
  rw [hop]
  dsimp only
  unfold State.writeStep
  rw [if_neg (Bool.eq_false_iff.1 hopen), if_neg (Bool.eq_false_iff.1 hearly), State.pushed,
    Call.piece, List.length_take]
  exact congrArg some (if_pos hroom)

theorem Pair.loops (h : Pair limits side kind s) (hlimit : 2 ≤ limits side kind)
    (hcalls : s.calls = [c]) {left : List Chan} (hpc : c.pc = .signal left none) :
    ∃ s', Pair limits side kind s' ∧ s'.calls = [{ c with pc := .check }] ∧ s'.closed = s.closed ∧
      s'.deadline = s.deadline ∧ s'.queue = s.queue := by
  obtain ⟨token, -, hsent⟩ := h.signal hlimit (i := 0) (by rw [hcalls]; rfl) hpc
  unfold State.setCall at hsent
  dsimp only at hsent
  rw [hcalls] at hsent
  exact ⟨_, hsent.run (i := 0) hlimit rfl, rfl, rfl, rfl, rfl⟩

theorem Pair.fill (h : Pair limits side .write s) (hlimit : 2 ≤ limits side .write) {k : ℕ}
    (hfill : Filling side k s) (hk : k < 4) :
    ∃ s', Pair limits side .write s' ∧ Filling side (k + 1) s' := by
  obtain ⟨moved, hcalls⟩ := hfill.calls
  have hc : s.calls[0]? = some ⟨side, .write wide, k * chunkPipeChunk, moved, .check⟩ := by
    rw [hcalls]
    rfl
  have hearly : s.expired side .write = false := by
    unfold State.expired
    rw [hfill.deadline]
    rfl
  have hroom : (s.queue (writeDir side)).bytes < chunkPipeBuffer := by
    rw [hfill.bytes]
    unfold chunkPipeBuffer chunkPipeChunk
    omega
  have hpiece : ((wide.drop (k * chunkPipeChunk)).take chunkPipeChunk).length = chunkPipeChunk := by
    unfold wide
    rw [List.length_take, List.length_drop, List.length_replicate]
    unfold chunkPipeChunk
    omega
  have hmore : k * chunkPipeChunk + chunkPipeChunk < wide.length := by
    unfold wide
    rw [List.length_replicate]
    unfold chunkPipeChunk
    omega
  have hpushed := h.run hlimit (next_push hc rfl rfl hfill.isOpen hearly hroom)
  have hcall : (s.pushed 0 ⟨side, .write wide, k * chunkPipeChunk, moved, .check⟩ wide).calls =
      [⟨side, .write wide, (k + 1) * chunkPipeChunk,
        moved ++ (wide.drop (k * chunkPipeChunk)).take chunkPipeChunk, .signal signalOrder none⟩] := by
    unfold State.pushed State.setCall Call.piece Call.signals
    dsimp only
    rw [hcalls, hpiece, if_pos hmore, Nat.succ_mul]
    rfl
  obtain ⟨s', hs', hcalls', hclosed', hdeadline', hqueue'⟩ := hpushed.loops hlimit hcall rfl
  refine ⟨s', hs', hclosed'.trans hfill.isOpen, ?_, ⟨_, hcalls'⟩, ?_⟩
  · rw [hdeadline']
    exact hfill.deadline
  · rw [hqueue']
    unfold State.pushed State.setCall
    dsimp only
    rw [Function.update_self]
    unfold ChunkDir.push
    dsimp only
    rw [hpiece, hfill.bytes, Nat.succ_mul]

theorem pair_full (hlimit : 2 ≤ limits side .write) :
    ∃ s, Pair limits side .write s ∧ Filling side 4 s := by
  have hcalled := pair_newChunkPipe.call hlimit (.write wide)
    (fun k hk => (Option.some.inj hk).symm) (by decide)
  have hstart : startPc (.write wide) = .check := by
    cases hwide : wide with
    | nil => cases (congrArg List.length hwide).symm.trans List.length_replicate
    | cons byte rest => rfl
  have hzero : Filling side 0 { newChunkPipe with calls := [] ++ [newCall side (.write wide)] } := by
    refine ⟨rfl, rfl, ⟨[], ?_⟩, (Nat.zero_mul _).symm⟩
    rw [Nat.zero_mul, ← hstart]
    rfl
  obtain ⟨s₁, h₁, hfill₁⟩ := hcalled.fill hlimit hzero (by decide)
  obtain ⟨s₂, h₂, hfill₂⟩ := h₁.fill hlimit hfill₁ (by decide)
  obtain ⟨s₃, h₃, hfill₃⟩ := h₂.fill hlimit hfill₂ (by decide)
  exact h₃.fill hlimit hfill₃ (by decide)

theorem exists_left_asleep (hlimit : 2 ≤ limits side kind) :
    ∃ s, Pair limits side kind s ∧ LeftAsleep side kind s := by
  cases kind with
  | read =>
      have hcalled := pair_newChunkPipe.call hlimit (.read 1)
        (fun k hk => (Option.some.inj hk).symm) (by decide)
      exact hcalled.exists_left_asleep hlimit ⟨rfl, rfl, rfl⟩ rfl rfl rfl rfl (.read 1) rfl rfl
  | write =>
      obtain ⟨s, hs, hfull⟩ := pair_full hlimit
      obtain ⟨moved, hcalls⟩ := hfull.calls
      refine hs.exists_left_asleep hlimit ⟨hfull.isOpen, hfull.deadline, ?_⟩ hcalls rfl rfl rfl
        (.write [0]) rfl rfl
      unfold State.Blocked
      dsimp only
      rw [hfull.bytes]
      decide

-- Nothing happens any more but that time passes.
def restAt (s : State) : Execution system where
  state := fun _ => s
  label := fun _ => .tick 0
  step := fun _ => rfl

theorem not_nobodyStuck (hlimit : 2 ≤ limits side kind) : ¬NobodyStuck limits := by
  intro hnobody
  obtain ⟨s, hs, hleft⟩ := exists_left_asleep hlimit
  obtain ⟨i, c, hc, hside, hkind, hpc⟩ := hleft.asleep
  obtain ⟨ρ, n, hinit, hsuffix, hbefore⟩ := Execution.exists_extending hs.reached (restAt s) rfl
  have hrest : ∀ m, n ≤ m → ρ.state m = s := by
    intro m hm
    obtain ⟨k, rfl⟩ := Nat.exists_eq_add_of_le hm
    exact (hsuffix k).1
  have hfair : Fair ρ := by
    intro j m hable
    exact absurd (hrest (max n m) (le_max_left _ _) ▸ hable (max n m) (le_max_right _ _)) (hleft.still j)
  have hwithin : ∀ m, (ρ.state m).Within limits := by
    intro m
    cases m with
    | zero =>
        rw [show ρ.state 0 = newChunkPipe from hinit]
        exact fun _ _ => Nat.zero_le _
    | succ m =>
        rcases Nat.lt_or_ge m n with hlt | hge
        · exact hbefore m hlt _ (ρ.step m)
        · rw [hrest (m + 1) (by omega)]
          exact within_of_few hlimit hs.only hs.few
  obtain ⟨m, hm, c', r, hc', hdone⟩ := hnobody ρ hinit hfair hwithin n i c kind
    (by rw [hrest n (Nat.le_refl n), hc]) hkind
    fun m hm => .inl (by rw [hrest m hm]; exact hleft.closed)
  rw [hrest m hm, hc] at hc'
  cases hc'
  cases hpc.symm.trans hdone

-- Nobody is left asleep exactly if no two Reads, and no two Writes, can be in progress on
-- one end at once: a token wakes one waiter, and a waiter that gives up wakes no other.
theorem nobody_stuck_iff (limits : End → Kind → ℕ) :
    NobodyStuck limits ↔ ∀ side kind, limits side kind ≤ 1 := by
  constructor
  · intro hnobody side kind
    by_contra hmany
    exact not_nobodyStuck (Nat.not_le.1 hmany) hnobody
  · intro hone ρ hinit hfair hwithin n i c kind hc hkind hfree
    exact exists_return hinit hfair (fun m side kind => (hwithin m side kind).trans (hone side kind))
      hc hkind hfree

-- Two Reads sleep on the application's end, Close sends one token for both, and the first
-- Read takes it along with its EOF.
def closeOverTwoReads : List Label :=
  [.call .app (.read 1), .call .app (.read 1), .call .session .close, .run 0, .run 1] ++
  List.replicate 6 (.run 2) ++ [.run 0, .run 0]

theorem second_read_left_asleep : ∃ s, Reachable system s ∧ s.closed = true ∧
    s.calls[1]? = some ⟨.app, .read 1, 0, [], .sleep none⟩ ∧ ∀ i, ¬s.Able i := by
  obtain ⟨s, hs, hclosed, hcalls, htok⟩ := system.exists_run (P := fun s => s.closed = true ∧
    s.calls = [⟨.app, .read 1, 0, [], .done ⟨0, some .eof⟩⟩, ⟨.app, .read 1, 0, [], .sleep none⟩,
      ⟨.session, .close, 0, [], .done ⟨0, none⟩⟩] ∧ s.token .downData = false) rfl closeOverTwoReads
    (by decide +kernel)
  have hasleep : s.calls[1]? = some ⟨.app, .read 1, 0, [], .sleep none⟩ := by rw [hcalls]; rfl
  refine ⟨s, hs, hclosed, hasleep, fun i => ?_⟩
  match i with
  | 0 => exact not_able_done (by rw [hcalls]; rfl) rfl
  | 1 => exact not_able_asleep hasleep rfl rfl htok
  | 2 => exact not_able_done (by rw [hcalls]; rfl) rfl
  | i + 3 => exact not_able_absent (by rw [hcalls]; rfl)

end UdpCustom.ChunkPipe
