import UdpCustom.ChunkPipe.Stream
import UdpCustom.Lib.Execution

-- With at most one Read and one Write in progress on an end, a call that has something
-- to wake up for is woken.
namespace UdpCustom.ChunkPipe

open UdpCustom.Frame Transition

variable {r : Option Result}

-- The goroutine a step is made by.
def Label.mover : Label → Option ℕ
  | .run i => some i
  | .timeout i => some i
  | .call _ _ => none
  | .tick _ => none

def State.Able (s : State) (i : ℕ) : Prop :=
  ∃ l, Label.mover l = some i ∧ (next s l).isSome = true

-- The scheduler leaves out no goroutine that could always go on.
def Fair (ρ : Execution system) : Prop :=
  ∀ i n, (∀ m, n ≤ m → (ρ.state m).Able i) → ∃ m, n ≤ m ∧ (ρ.label m).mover = some i

def Pc.returned : Pc → Bool
  | .done _ => true
  | _ => false

def Call.inProgress (side : End) (kind : Kind) (c : Call) : Bool :=
  c.side = side && c.op.kind = some kind && !c.pc.returned

def State.inProgress (s : State) (side : End) (kind : Kind) : ℕ :=
  s.calls.countP (Call.inProgress side kind)

def State.Within (limits : End → Kind → ℕ) (s : State) : Prop :=
  ∀ side kind, s.inProgress side kind ≤ limits side kind

-- There is something to return for: the end, a deadline, data or room.
def State.Free (s : State) (side : End) (kind : Kind) : Prop :=
  s.closed = true ∨ s.expired side kind = true ∨ ¬s.Blocked side kind

variable {s s' : State} {l : Label} {i j : ℕ} {c c' : Call} {kind : Kind} {left : List Chan}

theorem two_le_countP {α : Type*} {p : α → Bool} {xs : List α} {x y : α} (hij : i < j)
    (hx : xs[i]? = some x) (hy : xs[j]? = some y) (hpx : p x = true) (hpy : p y = true) :
    2 ≤ xs.countP p := by
  have hfront : 0 < (xs.take j).countP p :=
    List.countP_pos_iff.2 ⟨x, List.mem_of_getElem? (by rw [List.getElem?_take_of_lt hij, hx]), hpx⟩
  have hback : 0 < (xs.drop j).countP p :=
    List.countP_pos_iff.2 ⟨y, List.mem_of_getElem? (by rw [List.getElem?_drop, Nat.add_zero, hy]), hpy⟩
  rw [← List.take_append_drop j xs, List.countP_append]
  omega

-- The calls that wait on one channel are of one end and one kind.
theorem wakeChan_injective {side side' : End} {kind' : Kind}
    (h : wakeChan side kind = wakeChan side' kind') : side = side' ∧ kind = kind' := by
  revert h
  cases side <;> cases kind <;> cases side' <;> cases kind' <;> decide

theorem inProgress_of {side : End} (hside : c.side = side) (hkind : c.op.kind = some kind)
    (hpc : c.pc.returned = false) : c.inProgress side kind = true := by
  unfold Call.inProgress
  rw [hpc, decide_eq_true hside, decide_eq_true hkind]
  rfl

theorem alone_on_channel (hone : ∀ side kind, s.inProgress side kind ≤ 1)
    (hi : s.calls[i]? = some c) (hkind : c.op.kind = some kind) (hpc : c.pc.returned = false)
    (hj : s.calls[j]? = some c') {kind' : Kind} (hkind' : c'.op.kind = some kind')
    (hpc' : c'.pc.returned = false)
    (hchan : wakeChan c.side kind = wakeChan c'.side kind') : i = j := by
  obtain ⟨hside, rfl⟩ := wakeChan_injective hchan
  have hfirst := inProgress_of rfl hkind hpc
  have hsecond := inProgress_of hside.symm hkind' hpc'
  by_contra hne
  rcases Nat.lt_or_gt_of_ne hne with hlt | hlt
  · exact absurd (two_le_countP hlt hi hj hfirst hsecond) (Nat.not_le.2 (Nat.lt_succ_of_le (hone _ _)))
  · exact absurd (two_le_countP hlt hj hi hsecond hfirst) (Nat.not_le.2 (Nat.lt_succ_of_le (hone _ _)))

-- What a step does to the list of calls.
inductive Step.Calls (s : State) : Label → State → Prop
  | call {s' : State} (side : End) (op : Op) : s'.calls = s.calls ++ [newCall side op] →
      Calls s (.call side op) s'
  | move {s' : State} {l : Label} {i : ℕ} {c c' : Call} : l.mover = some i → s.calls[i]? = some c →
      s'.calls = s.calls.set i c' → c'.side = c.side → c'.op = c.op → Calls s l s'
  | tick {s' : State} (d : ℕ) : s'.calls = s.calls → Calls s (.tick d) s'

theorem Step.calls (hst : Step s l s') : Step.Calls s l s' := by
  cases hst with
  | call side op => exact .call side op rfl
  | tick d => exact .tick d rfl
  | take hc _ _ _ => exact .move rfl hc rfl rfl rfl
  | push hc _ _ _ _ _ => exact .move rfl hc rfl rfl rfl
  | refuse hc _ _ => exact .move rfl hc rfl rfl rfl
  | sleep hc _ _ _ _ _ => exact .move rfl hc rfl rfl rfl
  | close hc _ _ _ => exact .move rfl hc rfl rfl rfl
  | set _ hc _ _ => exact .move rfl hc rfl rfl rfl
  | send hc _ => exact .move rfl hc rfl rfl rfl
  | loop hc _ => exact .move rfl hc rfl rfl rfl
  | finish hc _ => exact .move rfl hc rfl rfl rfl
  | wake hc _ _ _ => exact .move rfl hc rfl rfl rfl
  | timeout hc _ _ => exact .move rfl hc rfl rfl rfl

-- A goroutine stays where it is while others move.
theorem Step.stays (hst : Step s l s') (hc : s.calls[i]? = some c) (hl : l.mover ≠ some i) :
    s'.calls[i]? = some c := by
  cases hst.calls with
  | call side op he =>
      rw [he, List.getElem?_append_left (List.getElem?_eq_some_iff.1 hc).1, hc]
  | tick d he => rw [he, hc]
  | move hmover _ he _ _ =>
      rw [he, List.getElem?_set_ne fun heq => hl (hmover.trans (congrArg some heq)), hc]

-- A wake-up for the channel is there, or on its way.
def State.Awaited (s : State) (ch : Chan) : Prop :=
  s.token ch = true ∨
    ∃ (j : ℕ) (c : Call) (left : List Chan) (r : Option Result),
      s.calls[j]? = some c ∧ c.pc = .signal left r ∧ ch ∈ left

-- Whoever sleeps has nothing to return for, or is about to be woken.
def State.Woken (s : State) : Prop :=
  ∀ (i : ℕ) (c : Call) (d : Option ℕ) (kind : Kind), s.calls[i]? = some c → c.op.kind = some kind →
    c.pc = .sleep d → s.Awaited (wakeChan c.side kind) ∨
      s.closed = false ∧ s.Blocked c.side kind ∧ s.deadline c.side kind = d

theorem mem_signalOrder (ch : Chan) : ch ∈ signalOrder := by
  cases ch <;> decide

-- After a change of the state the goroutine that made it still has to signal.
theorem woken_of_signals (hi : i < s.calls.length)
    (hcalls : s'.calls = s.calls.set i c) (hpc : c.pc = .signal signalOrder r) : s'.Woken := by
  intro j d _ kind _ _ _
  refine .inl (.inr ⟨i, c, signalOrder, r, ?_, hpc, mem_signalOrder _⟩)
  rw [hcalls, List.getElem?_set_self hi]

-- A step that leaves the queues, the deadlines and the end alone and moves one call: what
-- it had to send is sent or still to be sent, no other sleeper loses its token, and if it
-- falls asleep it is rightly so.
theorem State.Woken.frame (h : s.Woken) {pc : Pc} (hc : s.calls[i]? = some c)
    (hcalls : s'.calls = s.calls.set i { c with pc := pc })
    (hqueue : s'.queue = s.queue) (hclosed : s'.closed = s.closed)
    (hdeadline : s'.deadline = s.deadline)
    (hsent : ∀ left r ch, c.pc = .signal left r → ch ∈ left → s'.Awaited ch)
    (htoken : ∀ (j : ℕ) (e : Call) (d : Option ℕ) (kind : Kind), j ≠ i → s.calls[j]? = some e →
      e.op.kind = some kind → e.pc = .sleep d → s.token (wakeChan e.side kind) = true →
      s'.token (wakeChan e.side kind) = true)
    (hnew : ∀ d kind, pc = .sleep d → c.op.kind = some kind →
      s.closed = false ∧ s.Blocked c.side kind ∧ s.deadline c.side kind = d) : s'.Woken := by
  intro j e d kind hj hkind hsleep
  rw [hclosed, blocked_congr hqueue, hdeadline]
  rw [hcalls] at hj
  rcases calls_set hj with ⟨-, rfl⟩ | ⟨hne, hold⟩
  · exact .inr (hnew d kind hsleep hkind)
  · rcases h j e d kind hold hkind hsleep with (htok | ⟨k, e', left, r, hk, hsig, hmem⟩) | hright
    · exact .inl (.inl (htoken j e d kind hne hold hkind hsleep htok))
    · by_cases hki : k = i
      · subst hki
        cases hk.symm.trans hc
        exact .inl (hsent left r _ hsig hmem)
      · refine .inl (.inr ⟨k, e', left, r, ?_, hsig, hmem⟩)
        rw [hcalls, List.getElem?_set_ne (Ne.symm hki), hk]
    · exact .inr hright

-- As long as the call that moves signals nothing and does not fall asleep.
theorem State.Woken.moved (h : s.Woken) {pc : Pc} (hc : s.calls[i]? = some c)
    (hquiet : ∀ left r, c.pc = .signal left r → left = []) (hpc : ∀ d, pc ≠ .sleep d) :
    (s.setCall i { c with pc := pc }).Woken := by
  refine h.frame hc rfl rfl rfl rfl ?_ (fun _ _ _ _ _ _ _ _ => id) fun d _ he => absurd he (hpc d)
  intro left r ch hsig hmem
  rw [hquiet left r hsig] at hmem
  cases hmem

theorem woken_call (h : s.Woken) (side : End) (op : Op) :
    ({ s with calls := s.calls ++ [newCall side op] } : State).Woken := by
  intro j e d kind hj hkind hsleep
  rcases calls_append hj with hold | rfl
  · rcases h j e d kind hold hkind hsleep with (htok | ⟨k, e', left, r, hk, hsig, hmem⟩) | hright
    · exact .inl (.inl htok)
    · refine .inl (.inr ⟨k, e', left, r, ?_, hsig, hmem⟩)
      exact (List.getElem?_append_left (List.getElem?_eq_some_iff.1 hk).1).trans hk
    · exact .inr hright
  · -- a call does not start asleep
    exfalso
    unfold newCall startPc at hsleep
    dsimp only at hsleep
    split at hsleep <;> cases hsleep

-- A token stays until the call that waits for it takes it.
theorem token_stays (hone : ∀ side kind, s.inProgress side kind ≤ 1) (hc : s.calls[i]? = some c)
    (hkind : c.op.kind = some kind) {d : Option ℕ} (hpc : c.pc = .sleep d)
    (htok : s.token (wakeChan c.side kind) = true) (hl : l.mover ≠ some i) (hst : Step s l s') :
    s'.token (wakeChan c.side kind) = true := by
  cases hst with
  | @send j e ch left result he _ =>
      by_cases hch : wakeChan c.side kind = ch
      · exact hch ▸ Function.update_self _ _ _
      · exact (Function.update_of_ne hch _ _).trans htok
  | @wake j e d' kind' he hsleep hkind' _ =>
      refine (Function.update_of_ne (fun hchan => hl ?_) _ _).trans htok
      exact congrArg some (alone_on_channel hone hc hkind (by rw [hpc]; rfl) he hkind'
        (by rw [hsleep]; rfl) hchan).symm
  | _ => exact htok

theorem woken_step (h : s.Woken) (hone : ∀ side kind, s.inProgress side kind ≤ 1)
    (hst : Step s l s') : s'.Woken := by
  have hkeep : ∀ (j : ℕ) (e : Call) (d : Option ℕ) (kind : Kind), l.mover ≠ some j →
      s.calls[j]? = some e → e.op.kind = some kind → e.pc = .sleep d →
      s.token (wakeChan e.side kind) = true → s'.token (wakeChan e.side kind) = true :=
    fun j e d kind hl hj hkind hsleep htok => token_stays hone hj hkind hsleep htok hl hst
  cases hst with
  | call side op => exact woken_call h side op
  | tick d => exact h
  | take hc _ _ _ | push hc _ _ _ _ _ | close hc _ _ _ | set _ hc _ _ =>
      exact woken_of_signals (List.getElem?_eq_some_iff.1 hc).1 rfl rfl
  | refuse hc hpc _ | timeout hc hpc _ =>
      exact h.moved hc (by rw [hpc]; exact fun _ _ => nofun) fun _ => nofun
  | loop hc hpc | finish hc hpc =>
      refine h.moved hc (fun left r he => ?_) fun _ => nofun
      cases hpc.symm.trans he
      rfl
  | @sleep i c kind hc hpc hkind hopen _ hblocked =>
      refine h.frame hc rfl rfl rfl rfl ?_ (fun _ _ _ _ _ _ _ _ => id) ?_
      · rw [hpc]
        exact fun _ _ _ => nofun
      · intro d kind' he hkind'
        cases he
        cases hkind.symm.trans hkind'
        exact ⟨hopen, hblocked, rfl⟩
  | @send i c ch left result hc hpc =>
      refine h.frame hc rfl rfl rfl rfl ?_
        (fun j e d kind hne => hkeep j e d kind fun hl => hne (Option.some.inj hl).symm) fun _ _ => nofun
      intro left' r x hsig hmem
      cases hpc.symm.trans hsig
      rcases List.mem_cons.1 hmem with rfl | hlater
      · exact .inl (Function.update_self _ _ _)
      · refine .inr ⟨i, { c with pc := .signal left result }, left, result, ?_, rfl, hlater⟩
        exact List.getElem?_set_self (List.getElem?_eq_some_iff.1 hc).1
  | wake hc hpc _ _ =>
      refine h.frame hc rfl rfl rfl rfl ?_
        (fun j e d kind hne => hkeep j e d kind fun hl => hne (Option.some.inj hl).symm) fun _ _ => nofun
      rw [hpc]
      exact fun _ _ _ => nofun

theorem able_run (hc : s.calls[i]? = some c) (hrun : (s.runStep i c).isSome = true) : s.Able i := by
  refine ⟨.run i, rfl, ?_⟩
  rw [next_run hc]
  exact hrun

theorem able_signal (hc : s.calls[i]? = some c) (hpc : c.pc = .signal left r) : s.Able i := by
  refine able_run hc ?_
  unfold State.runStep
  rw [hpc]
  cases left with
  | cons ch left => rfl
  | nil =>
      cases r with
      | none => rfl
      | some r => rfl

theorem able_token (hc : s.calls[i]? = some c) (hkind : c.op.kind = some kind) {d : Option ℕ}
    (hpc : c.pc = .sleep d) (htok : s.token (wakeChan c.side kind) = true) : s.Able i := by
  refine ⟨.run i, rfl, ?_⟩
  rw [next_wake hc hkind hpc htok]
  rfl

theorem able_timeout (hc : s.calls[i]? = some c) {t : ℕ} (hpc : c.pc = .sleep (some t))
    (hlate : t ≤ s.now) : s.Able i := by
  refine ⟨.timeout i, rfl, ?_⟩
  unfold next
  dsimp only
  rw [hc]
  dsimp only
  rw [hpc]
  dsimp only
  rw [if_pos hlate]
  rfl

-- What is left of a call: the bytes it still has to queue, and where it is in its loop.
def Call.todo (c : Call) : ℕ :=
  match c.op with
  | .write b => b.length - c.written
  | _ => 0

def Pc.rank : Pc → ℕ
  | .signal left none => 7 + left.length
  | .sleep _ => 7
  | .check => 6
  | .signal left (some _) => 1 + left.length
  | .done _ => 0

def Call.rank (c : Call) : ℕ :=
  12 * c.todo + c.pc.rank

theorem rank_lt {pc : Pc} (h : pc.rank < c.pc.rank) : ({ c with pc := pc } : Call).rank < c.rank :=
  Nat.add_lt_add_left h _

theorem rank_pushed (hs : s.Stream) (hc : s.calls[i]? = some c) (hpc : c.pc = .check) {b : Bytes}
    (hop : c.op = .write b) :
    ({ c with written := c.written + (c.piece b).length, moved := c.moved ++ c.piece b }.signals
      (if c.written + (c.piece b).length < b.length then none
        else some ⟨c.written + (c.piece b).length, none⟩)).rank < c.rank := by
  have hshort : c.written < b.length := ((hs.calls i c hc).ready (by rw [hpc]; rfl)).write b hop
  have hpiece : 0 < (c.piece b).length := by
    unfold Call.piece
    rw [List.length_take, List.length_drop]
    exact Nat.lt_min.2 ⟨by decide, by omega⟩
  have hsignals : ∀ r, (Pc.signal signalOrder r).rank ≤ 11 := by
    intro r
    cases r with
    | none => exact Nat.le_refl _
    | some r => exact Nat.le_of_ble_eq_true rfl
  unfold Call.rank Call.todo Call.signals
  dsimp only
  rw [hop, hpc]
  dsimp only
  have hlast := hsignals (if c.written + (c.piece b).length < b.length then none
    else some ⟨c.written + (c.piece b).length, none⟩)
  have hcheck : Pc.check.rank = 6 := rfl
  omega

-- With something to return for, every step of the call brings it closer to its return.
theorem rank_falls (hs : s.Stream) (hst : Step s l s') (hl : l.mover = some i)
    (hc : s.calls[i]? = some c) (hkind : c.op.kind = some kind) (hfree : s.Free c.side kind) :
    ∃ c', s'.calls[i]? = some c' ∧ c'.side = c.side ∧ c'.op = c.op ∧ c'.rank < c.rank := by
  have hset : ∀ c', (s.calls.set i c')[i]? = some c' := fun c' =>
    List.getElem?_set_self (List.getElem?_eq_some_iff.1 hc).1
  cases hst with
  | call side op => cases hl
  | tick d => cases hl
  | take he hpc hop _ =>
      cases hl
      cases he.symm.trans hc
      refine ⟨_, hset _, rfl, rfl, ?_⟩
      exact rank_lt (c := { c with moved := _ }) (by rw [hpc]; exact Nat.le_refl _)
  | push he hpc hop _ _ _ =>
      cases hl
      cases he.symm.trans hc
      exact ⟨_, hset _, rfl, rfl, rank_pushed hs hc hpc hop⟩
  | refuse he hpc _ | timeout he hpc _ =>
      cases hl
      cases he.symm.trans hc
      exact ⟨_, hset _, rfl, rfl, rank_lt (by rw [hpc]; exact Nat.succ_pos _)⟩
  | sleep he hpc hkind' hopen hearly hblocked =>
      cases hl
      cases he.symm.trans hc
      cases hkind.symm.trans hkind'
      rcases hfree with hclosed | hlate | hroom
      · rw [hopen] at hclosed
        cases hclosed
      · rw [hearly] at hlate
        cases hlate
      · exact absurd hblocked hroom
  | close he _ hop _ =>
      cases hl
      cases he.symm.trans hc
      rw [hop] at hkind
      cases hkind
  | set _ he _ hnone =>
      cases hl
      cases he.symm.trans hc
      cases hnone.symm.trans hkind
  | @send j e ch left result he hpc =>
      cases hl
      cases he.symm.trans hc
      refine ⟨_, hset _, rfl, rfl, rank_lt ?_⟩
      rw [hpc]
      cases result with
      | none => exact Nat.lt_succ_self _
      | some r => exact Nat.lt_succ_self _
  | loop he hpc | finish he hpc | wake he hpc _ _ =>
      cases hl
      cases he.symm.trans hc
      exact ⟨_, hset _, rfl, rfl, rank_lt (by rw [hpc]; exact Nat.lt_succ_self _)⟩

theorem Step.now_le (hst : Step s l s') : s.now ≤ s'.now := by
  cases hst with
  | tick d => exact Nat.le_add_right _ _
  | _ => exact Nat.le_refl _

-- A goroutine inside `signal` can only send.
theorem sends_of_next {ch : Chan}
    (hst : next s l = some s') (hl : l.mover = some i) (hc : s.calls[i]? = some c)
    (hpc : c.pc = .signal (ch :: left) r) :
    s' = { s with token := Function.update s.token ch true }.setCall i
      { c with pc := .signal left r } := by
  cases l with
  | call side op => cases hl
  | tick d => cases hl
  | run j =>
      cases hl
      rw [next_run hc] at hst
      unfold State.runStep at hst
      rw [hpc] at hst
      exact (Option.some.inj hst).symm
  | timeout j =>
      cases hl
      rw [next_timeout_awake hc (by rw [hpc]; exact fun _ => nofun)] at hst
      cases hst

section Runs

variable {ρ : Execution system} {n : ℕ}

theorem stream_at (hinit : ρ.state 0 = newChunkPipe) (n : ℕ) : (ρ.state n).Stream :=
  stream_of_reachable (ρ.reachable (.init hinit) n)

theorem step_at (hinit : ρ.state 0 = newChunkPipe) (n : ℕ) :
    Step (ρ.state n) (ρ.label n) (ρ.state (n + 1)) :=
  (stream_at hinit n).step (ρ.step n)

theorem woken_at (hinit : ρ.state 0 = newChunkPipe)
    (hone : ∀ n side kind, (ρ.state n).inProgress side kind ≤ 1) (n : ℕ) : (ρ.state n).Woken := by
  induction n with
  | zero =>
      rw [hinit]
      intro i c d kind hc
      cases hc
  | succ n ih => exact woken_step ih (hone n) (step_at hinit n)

-- A goroutine that can always go on from where it is, goes on from there.
theorem exists_move (hinit : ρ.state 0 = newChunkPipe) (hfair : Fair ρ)
    (hc : (ρ.state n).calls[i]? = some c)
    (hable : (∀ m, n ≤ m → (ρ.state m).calls[i]? = some c) →
      ∃ m, n ≤ m ∧ ∀ k, m ≤ k → (ρ.state k).Able i) :
    ∃ m, n ≤ m ∧ (ρ.state m).calls[i]? = some c ∧ (ρ.label m).mover = some i := by
  refine ρ.exists_leaving (P := fun s => s.calls[i]? = some c) (fun l => l.mover = some i) hc
    (fun m _ hm hl => (step_at hinit m).stays hm hl) fun hall => ?_
  obtain ⟨m, hm, hlater⟩ := hable hall
  obtain ⟨k, hk, hl⟩ := hfair i m hlater
  exact ⟨k, hm.trans hk, hl⟩

-- What is still to be sent is sent.
theorem exists_sent (hinit : ρ.state 0 = newChunkPipe) (hfair : Fair ρ)
    {ch : Chan} (hc : (ρ.state n).calls[j]? = some c)
    (hpc : c.pc = .signal left r) (hch : ch ∈ left) :
    ∃ m, n ≤ m ∧ (ρ.state m).token ch = true := by
  induction left generalizing n c with
  | nil => cases hch
  | cons first left ih =>
      obtain ⟨m, hm, hcm, hl⟩ := exists_move hinit hfair hc fun hall =>
        ⟨n, Nat.le_refl n, fun k hk => able_signal (hall k hk) hpc⟩
      have hnext := sends_of_next (ρ.step m) hl hcm hpc
      rcases List.mem_cons.1 hch with rfl | hlater
      · refine ⟨m + 1, hm.trans (Nat.le_succ m), ?_⟩
        rw [hnext]
        exact Function.update_self _ _ _
      · have hcalls : (ρ.state (m + 1)).calls[j]? = some { c with pc := .signal left r } := by
          rw [hnext]
          exact List.getElem?_set_self (List.getElem?_eq_some_iff.1 hcm).1
        obtain ⟨k, hk, htok⟩ := ih hcalls rfl hlater
        exact ⟨k, by omega, htok⟩

-- A sleeper with something to return for can go on, from some point on, if nobody moves it.
theorem able_asleep (hinit : ρ.state 0 = newChunkPipe) (hfair : Fair ρ)
    (hone : ∀ n side kind, (ρ.state n).inProgress side kind ≤ 1)
    (hall : ∀ m, n ≤ m → (ρ.state m).calls[i]? = some c) (hkind : c.op.kind = some kind)
    {d : Option ℕ} (hpc : c.pc = .sleep d) (hfree : (ρ.state n).Free c.side kind)
    (hnever : ∀ m, n ≤ m → (ρ.label m).mover ≠ some i) :
    ∃ m, n ≤ m ∧ ∀ k, m ≤ k → (ρ.state k).Able i := by
  have hfrom : ∀ m, n ≤ m → (ρ.state m).token (wakeChan c.side kind) = true →
      ∃ m, n ≤ m ∧ ∀ k, m ≤ k → (ρ.state k).Able i := by
    intro m hm htok
    have hstays := ρ.always (I := fun s => s.token (wakeChan c.side kind) = true) htok
      fun k hk htk => token_stays (hone k) (hall k (hm.trans hk)) hkind hpc htk
        (hnever k (hm.trans hk)) (step_at hinit k)
    exact ⟨m, hm, fun k hk => able_token (hall k (hm.trans hk)) hkind hpc (hstays k hk)⟩
  rcases woken_at hinit hone n i c d kind (hall n (Nat.le_refl n)) hkind hpc with
    (htok | ⟨j, e, left, r, he, hsig, hmem⟩) | ⟨hopen, hblocked, hdeadline⟩
  · exact hfrom n (Nat.le_refl n) htok
  · obtain ⟨m, hm, htok⟩ := exists_sent hinit hfair he hsig hmem
    exact hfrom m hm htok
  · -- then the deadline it sleeps with is the one that has passed
    rcases hfree with hclosed | hlate | hroom
    · rw [hopen] at hclosed
      cases hclosed
    · unfold State.expired at hlate
      rw [hdeadline] at hlate
      obtain ⟨t, rfl, ht⟩ := (Option.any_eq_true _ _).1 hlate
      refine ⟨n, Nat.le_refl n, fun k hk => able_timeout (hall k hk) hpc ?_⟩
      exact (of_decide_eq_true ht).trans (ρ.monotone (fun j => (step_at hinit j).now_le) hk)
    · exact absurd hblocked hroom

theorem exists_own_step (hinit : ρ.state 0 = newChunkPipe) (hfair : Fair ρ)
    (hone : ∀ n side kind, (ρ.state n).inProgress side kind ≤ 1)
    (hc : (ρ.state n).calls[i]? = some c) (hkind : c.op.kind = some kind)
    (hpc : c.pc.returned = false) (hfree : (ρ.state n).Free c.side kind) :
    ∃ m, n ≤ m ∧ (ρ.state m).calls[i]? = some c ∧ (ρ.label m).mover = some i := by
  by_contra hnone
  have hall := ρ.always (I := fun s => s.calls[i]? = some c) hc fun m hm hcm =>
    (step_at hinit m).stays hcm fun hl => hnone ⟨m, hm, hcm, hl⟩
  refine hnone (exists_move hinit hfair hc fun _ => ?_)
  cases hat : c.pc with
  | check =>
      refine ⟨n, Nat.le_refl n, fun k hk => able_run (hall k hk) ?_⟩
      unfold State.runStep
      rw [hat]
      rfl
  | signal left r => exact ⟨n, Nat.le_refl n, fun k hk => able_signal (hall k hk) hat⟩
  | sleep d =>
      exact able_asleep hinit hfair hone hall hkind hat hfree fun m hm hl =>
        hnone ⟨m, hm, hall m hm, hl⟩
  | done r =>
      rw [hat] at hpc
      cases hpc

-- The run lemma: with one Read and one Write an end, whoever has something to return for
-- returns.
theorem exists_return (hinit : ρ.state 0 = newChunkPipe) (hfair : Fair ρ)
    (hone : ∀ n side kind, (ρ.state n).inProgress side kind ≤ 1)
    (hc : (ρ.state n).calls[i]? = some c) (hkind : c.op.kind = some kind)
    (hfree : ∀ m, n ≤ m → (ρ.state m).Free c.side kind) :
    ∃ m, n ≤ m ∧ ∃ c' r, (ρ.state m).calls[i]? = some c' ∧ c'.pc = .done r := by
  induction hrank : c.rank using Nat.strong_induction_on generalizing n c with
  | _ rank ih =>
      cases hpc : c.pc.returned with
      | true =>
          cases hat : c.pc with
          | done r => exact ⟨n, Nat.le_refl n, c, r, hc, hat⟩
          | check => rw [hat] at hpc; cases hpc
          | signal left r => rw [hat] at hpc; cases hpc
          | sleep d => rw [hat] at hpc; cases hpc
      | false =>
          obtain ⟨m, hm, hcm, hl⟩ :=
            exists_own_step hinit hfair hone hc hkind hpc (hfree n (Nat.le_refl n))
          obtain ⟨c', hc', hside, hop, hlt⟩ :=
            rank_falls (stream_at hinit m) (step_at hinit m) hl hcm hkind (hfree m hm)
          obtain ⟨k, hk, hdone⟩ := ih c'.rank (hrank ▸ hlt) hc' (hop ▸ hkind)
            (fun k hk => hside ▸ hfree k (by omega)) rfl
          exact ⟨k, by omega, hdone⟩

end Runs

end UdpCustom.ChunkPipe
