import UdpCustom.Fec
import UdpCustom.Lib.Transition
import Mathlib.Data.List.Chain

-- How a sender forms its blocks under any interleaving of calls and timer callbacks.
-- One step is one section under the lock. The blocks are lists of records here.
namespace UdpCustom.Fec.Formation

open Transition

-- A stopped timer may have started its callback already, so that it still runs.
structure Timer where
  gen : ℕ
  stopped : Bool
  ran : Bool
  -- history: the sequence of the record that armed it
  first : ℕ
  deriving DecidableEq

-- The slot for the current timer, and every timer ever armed.
structure Clock where
  timer : Option ℕ
  timers : List Timer
  deriving DecidableEq

namespace Clock

def init : Clock := ⟨none, []⟩

def stop (c : Clock) : Clock :=
  match c.timer with
  | none => c
  | some t =>
    { timer := none, timers := c.timers.modify t fun tm => { tm with stopped := true } }

def arm (c : Clock) (gen first : ℕ) : Clock :=
  let c := c.stop
  { timer := some c.timers.length, timers := c.timers ++ [⟨gen, false, false, first⟩] }

-- The callback of a timer begins.
def begin (c : Clock) (t : ℕ) : Clock :=
  { c with timers := c.timers.modify t fun tm => { tm with ran := true } }

-- What the timers were armed for.
def armed (c : Clock) : List (ℕ × ℕ) :=
  c.timers.map fun tm => (tm.gen, tm.first)

-- The callback of this timer is still to come.
def Awaits (c : Clock) (t gen first : ℕ) : Prop :=
  c.timer = some t ∧ c.timers[t]? = some ⟨gen, false, false, first⟩

end Clock

structure State where
  sender : FecSender
  clock : Clock
  -- history: the records of all calls, and the blocks that were detached
  added : List SourceShard
  detached : List (List SourceShard)

def init (extParity : Bool) : State where
  sender := newFECSenderExt extParity
  clock := .init
  added := []
  detached := []

-- The calls of `add` that return without taking the record.
def ignores (closed : Bool) (held blocks : ℕ) (src : SourceShard) (loss : Float) : Bool :=
  src.seq = 0 ∨ src.payload = [] ∨ closed ∨
    held = 0 ∧ fecBootstrapBlocks ≤ blocks ∧ fecParityForLossExt loss false = 0

def State.detachLocked (s : State) : State :=
  if s.sender.pending = [] then s
  else
    { s with
      sender := { s.sender with pending := [] }
      clock := s.clock.stop
      detached := s.detached ++ [s.sender.pending] }

-- The record joins the open block; the first one of a block arms a timer.
def State.take (s : State) (src : SourceShard) : State :=
  let pending := s.sender.pending ++ [src]
  if pending.length = 1 then
    { s with
      sender := { s.sender with pending := pending, flushGen := s.sender.flushGen + 1 }
      clock := s.clock.arm (s.sender.flushGen + 1) src.seq
      added := s.added ++ [src] }
  else { s with sender := { s.sender with pending := pending }, added := s.added ++ [src] }

-- The open block as the record finds it: cut off if the record does not continue it.
def State.cut (s : State) (src : SourceShard) : State :=
  if s.sender.pending.getLast?.any fun last => src.seq ≠ last.seq + 1 then s.detachLocked else s

def State.cutFull (s : State) : State :=
  if fecDataShardsMax ≤ s.sender.pending.length then s.detachLocked else s

def State.add (s : State) (src : SourceShard) (loss : Float) : State :=
  if ignores s.sender.closed s.sender.pending.length s.sender.blocks src loss then
    { s with added := s.added ++ [src] }
  else ((s.cut src).take src).cutFull

def State.flushTimer (s : State) (gen : ℕ) : State :=
  if s.sender.closed ∨ gen ≠ s.sender.flushGen then s else s.detachLocked

def State.close (s : State) : State :=
  if s.sender.closed then s
  else { s with sender := { s.sender with closed := true, pending := [] }, clock := s.clock.stop }

inductive Label
  | add (src : SourceShard) (loss : Float)
  | fire (t : ℕ)
  -- the section of `emitBlock` that counts a block
  | count
  | close

def next (s : State) : Label → Option State
  | .add src loss =>
    if (∀ x ∈ s.added, x.seq < src.seq) ∧ src.seq < 2 ^ 64 then some (s.add src loss) else none
  | .fire t =>
    match s.clock.timers[t]? with
    | none => none
    | some tm =>
      if tm.ran then none else some ({ s with clock := s.clock.begin t }.flushTimer tm.gen)
  | .count =>
    if s.sender.closed then none
    else some { s with sender := { s.sender with blocks := s.sender.blocks + 1 } }
  | .close => some s.close

def system : System State Label where
  init := fun s => ∃ extParity, s = init extParity
  next := next

-- One to eight records, each with the sequence after the one before.
structure IsBlock (block : List SourceShard) : Prop where
  pos : 1 ≤ block.length
  le : block.length ≤ fecDataShardsMax
  consecutive : block.IsChain fun a b => b.seq = a.seq + 1

variable {s s' : State} {c : Clock} {src : SourceShard} {loss : Float} {t gen first : ℕ}

namespace Clock

theorem map_modify {f : Timer → Timer} (hgen : ∀ tm, (f tm).gen = tm.gen)
    (hfirst : ∀ tm, (f tm).first = tm.first) (timers : List Timer) (t : ℕ) :
    (timers.modify t f).map (fun tm => (tm.gen, tm.first)) = timers.map fun tm => (tm.gen, tm.first) := by
  refine List.ext_getElem? fun i => ?_
  rw [List.getElem?_map, List.getElem?_map, List.getElem?_modify]
  cases timers[i]? with
  | none => rfl
  | some tm =>
      refine congrArg some ?_
      dsimp only
      split
      · rw [hgen, hfirst]
      · rfl

@[simp] theorem armed_stop (c : Clock) : c.stop.armed = c.armed := by
  unfold stop armed
  split
  · rfl
  · apply map_modify <;> exact fun _ => rfl

@[simp] theorem armed_begin (c : Clock) (t : ℕ) : (c.begin t).armed = c.armed := by
  apply map_modify <;> exact fun _ => rfl

@[simp] theorem armed_arm (c : Clock) (gen first : ℕ) :
    (c.arm gen first).armed = c.armed ++ [(gen, first)] := by
  rw [← armed_stop c]
  exact List.map_append

theorem awaits_arm (c : Clock) (gen first : ℕ) :
    (c.arm gen first).Awaits c.stop.timers.length gen first :=
  ⟨rfl, List.getElem?_concat_length⟩

-- A callback of another generation is another one.
theorem Awaits.begin {tm : Timer} {current : ℕ} (h : c.Awaits current gen first)
    (ht : c.timers[t]? = some tm) (hgen : tm.gen ≠ gen) : (c.begin t).Awaits current gen first := by
  refine ⟨h.1, ?_⟩
  have hne : t ≠ current := by
    rintro rfl
    cases ht.symm.trans h.2
    exact hgen rfl
  unfold Clock.begin
  dsimp only
  rw [List.getElem?_modify, h.2]
  exact congrArg some (if_neg hne)

end Clock

-- The blocks and the pending records are among the calls, in their order.
structure Formed (s : State) : Prop where
  increasing : s.added.Pairwise (·.seq < ·.seq)
  records : (s.detached.flatten ++ s.sender.pending).Sublist s.added
  blocks : ∀ block ∈ s.detached, IsBlock block
  pending : s.sender.pending.IsChain fun a b => b.seq = a.seq + 1
  le : s.sender.pending.length ≤ fecDataShardsMax
  closed : s.sender.closed = true → s.sender.pending = []
  gens : ∀ n, 0 < n → (∀ x ∈ s.added, x.seq < n) → s.sender.flushGen < n

-- Timers of the current generation are for the pending block, and one is still to run.
structure Timed (s : State) : Prop where
  gens : ∀ a ∈ s.clock.armed, a.1 ≤ s.sender.flushGen
  current : ∀ a ∈ s.clock.armed, a.1 = s.sender.flushGen →
    ∀ src ∈ s.sender.pending.head?, src.seq = a.2
  awaits : ∀ src ∈ s.sender.pending.head?, ∃ t, s.clock.Awaits t s.sender.flushGen src.seq

theorem timed_of_pending_nil (hpending : s.sender.pending = [])
    (hgens : ∀ a ∈ s.clock.armed, a.1 ≤ s.sender.flushGen) : Timed s := by
  refine ⟨hgens, fun a _ _ src hsrc => ?_, fun src hsrc => ?_⟩ <;>
  · rw [hpending] at hsrc
    cases hsrc

theorem pairwise_concat (h : s.added.Pairwise (·.seq < ·.seq))
    (hlast : ∀ x ∈ s.added, x.seq < src.seq) : (s.added ++ [src]).Pairwise (·.seq < ·.seq) := by
  refine List.pairwise_append.2 ⟨h, List.pairwise_singleton _ _, fun x hx y hy => ?_⟩
  rw [List.mem_singleton.1 hy]
  exact hlast x hx

theorem Formed.ignored (h : Formed s) (hlast : ∀ x ∈ s.added, x.seq < src.seq) :
    Formed { s with added := s.added ++ [src] } where
  increasing := pairwise_concat h.increasing hlast
  records := h.records.trans (List.sublist_append_left _ _)
  blocks := h.blocks
  pending := h.pending
  le := h.le
  closed := h.closed
  gens := fun n hn hall => h.gens n hn fun x hx => hall x (List.mem_append_left _ hx)

theorem pending_detachLocked (s : State) : s.detachLocked.sender.pending = [] := by
  unfold State.detachLocked
  split
  · assumption
  · rfl

theorem detached_detachLocked (hpending : s.sender.pending ≠ []) :
    s.detachLocked.detached = s.detached ++ [s.sender.pending] := by
  rw [State.detachLocked, if_neg hpending]

theorem added_detachLocked (s : State) : s.detachLocked.added = s.added := by
  unfold State.detachLocked
  split <;> rfl

theorem Formed.detachLocked (h : Formed s) : Formed s.detachLocked := by
  unfold State.detachLocked
  split
  · exact h
  · rename_i hpending
    have hblock : IsBlock s.sender.pending :=
      ⟨List.length_pos_iff.2 hpending, h.le, h.pending⟩
    refine ⟨h.increasing, ?_, fun block hblock' => ?_, .nil, Nat.zero_le _, fun _ => rfl, h.gens⟩
    · dsimp only
      rw [List.flatten_concat, List.append_nil]
      exact h.records
    · rcases List.mem_append.1 hblock' with hold | hnew
      · exact h.blocks block hold
      · rw [List.mem_singleton.1 hnew]
        exact hblock

theorem timed_detachLocked (hgens : ∀ a ∈ s.clock.armed, a.1 ≤ s.sender.flushGen) :
    Timed s.detachLocked := by
  refine timed_of_pending_nil (pending_detachLocked s) ?_
  unfold State.detachLocked
  split
  · exact hgens
  · dsimp only
    rw [Clock.armed_stop]
    exact hgens

-- The generation stays below every sequence that is still to come.
theorem Formed.gen_lt (h : Formed s) (hlast : ∀ x ∈ s.added, x.seq < src.seq) (hseq : src.seq ≠ 0) :
    s.sender.flushGen < src.seq :=
  h.gens src.seq (Nat.pos_of_ne_zero hseq) hlast

theorem Formed.take (h : Formed s) (hlast : ∀ x ∈ s.added, x.seq < src.seq) (hseq : src.seq ≠ 0)
    (hopen : s.sender.closed = false) (hroom : s.sender.pending.length < fecDataShardsMax)
    (hfollows : ∀ last ∈ s.sender.pending.getLast?, src.seq = last.seq + 1) : Formed (s.take src) := by
  have hrecords : (s.detached.flatten ++ (s.sender.pending ++ [src])).Sublist (s.added ++ [src]) := by
    rw [← List.append_assoc]
    exact h.records.append (List.Sublist.refl _)
  have hchain : (s.sender.pending ++ [src]).IsChain fun a b => b.seq = a.seq + 1 := by
    refine h.pending.append (.singleton _) fun last hlast' x hx => ?_
    cases hx
    exact hfollows last hlast'
  have hle : (s.sender.pending ++ [src]).length ≤ fecDataShardsMax := by
    rw [List.length_append]
    exact hroom
  have hgen : s.sender.flushGen < src.seq := h.gen_lt hlast hseq
  have hnotClosed : ¬s.sender.closed = true := by simp [hopen]
  unfold State.take
  dsimp only
  split
  · refine ⟨pairwise_concat h.increasing hlast, hrecords, h.blocks, hchain, hle,
      fun hc => absurd hc hnotClosed, fun n _ hall => ?_⟩
    have := hall src (List.mem_append_right _ (List.mem_singleton.2 rfl))
    dsimp only
    omega
  · exact ⟨pairwise_concat h.increasing hlast, hrecords, h.blocks, hchain, hle,
      fun hc => absurd hc hnotClosed,
      fun n hn hall => h.gens n hn fun x hx => hall x (List.mem_append_left _ hx)⟩

theorem head?_concat {α : Type} {l : List α} {a b : α} (hne : l ≠ []) (hb : b ∈ (l ++ [a]).head?) :
    b ∈ l.head? := by
  rwa [List.head?_append_of_ne_nil _ hne] at hb

theorem Timed.take (h : Timed s) : Timed (s.take src) := by
  unfold State.take
  dsimp only
  split
  · rename_i hone
    have hempty : s.sender.pending = [] := by
      rw [List.length_append, List.length_singleton] at hone
      exact List.length_eq_zero_iff.1 (by omega)
    have harmed : ∀ a ∈ s.clock.armed ++ [(s.sender.flushGen + 1, src.seq)],
        a.1 ≤ s.sender.flushGen ∨ a = (s.sender.flushGen + 1, src.seq) := by
      intro a ha
      rcases List.mem_append.1 ha with hold | hnew
      · exact .inl (h.gens a hold)
      · exact .inr (List.mem_singleton.1 hnew)
    refine ⟨fun a ha => ?_, fun a ha hgen x hx => ?_, fun x hx => ?_⟩
    · rw [Clock.armed_arm] at ha
      rcases harmed a ha with hold | rfl
      · exact Nat.le_succ_of_le hold
      · exact Nat.le_refl _
    · rw [Clock.armed_arm] at ha
      rw [hempty] at hx
      cases hx
      rcases harmed a ha with hold | rfl
      · dsimp only at hgen
        omega
      · rfl
    · rw [hempty] at hx
      cases hx
      exact ⟨_, Clock.awaits_arm _ _ _⟩
  · rename_i hmore
    have hne : s.sender.pending ≠ [] := by
      rintro hnil
      rw [hnil] at hmore
      exact hmore rfl
    exact ⟨h.gens, fun a ha hgen x hx => h.current a ha hgen x (head?_concat hne hx),
      fun x hx => h.awaits x (head?_concat hne hx)⟩

theorem ignores_iff {closed : Bool} {held blocks : ℕ} : ignores closed held blocks src loss = true ↔
    src.seq = 0 ∨ src.payload = [] ∨ closed ∨
      held = 0 ∧ fecBootstrapBlocks ≤ blocks ∧ fecParityForLossExt loss false = 0 :=
  decide_eq_true_iff

theorem taken_of_not_ignores {closed : Bool} {held blocks : ℕ}
    (h : ¬ignores closed held blocks src loss = true) : src.seq ≠ 0 ∧ closed = false := by
  rw [ignores_iff] at h
  simp only [not_or] at h
  exact ⟨h.1, by simpa using h.2.2.1⟩

theorem follows_cut (s : State) (src : SourceShard) :
    ∀ last ∈ (s.cut src).sender.pending.getLast?, src.seq = last.seq + 1 := by
  intro last hlast
  unfold State.cut at hlast
  split at hlast
  · rw [pending_detachLocked] at hlast
    cases hlast
  · rename_i hnot
    rw [Option.mem_def.1 hlast] at hnot
    simpa using hnot

theorem closed_detachLocked (s : State) : s.detachLocked.sender.closed = s.sender.closed := by
  unfold State.detachLocked
  split <;> rfl

theorem added_cut (s : State) (src : SourceShard) : (s.cut src).added = s.added := by
  unfold State.cut
  split
  · exact added_detachLocked s
  · rfl

theorem closed_cut (s : State) (src : SourceShard) : (s.cut src).sender.closed = s.sender.closed := by
  unfold State.cut
  split
  · exact closed_detachLocked s
  · rfl

theorem Timed.note (h : Timed s) (added : List SourceShard) : Timed { s with added := added } :=
  ⟨h.gens, h.current, h.awaits⟩

-- What holds between two sections.
structure Orderly (s : State) : Prop where
  formed : Formed s
  timed : Timed s
  short : s.sender.pending.length < fecDataShardsMax

theorem Orderly.detachLocked (hformed : Formed s)
    (hgens : ∀ a ∈ s.clock.armed, a.1 ≤ s.sender.flushGen) : Orderly s.detachLocked := by
  refine ⟨hformed.detachLocked, timed_detachLocked hgens, ?_⟩
  rw [pending_detachLocked]
  exact Nat.zero_lt_succ _

theorem Orderly.cut (h : Orderly s) (src : SourceShard) : Orderly (s.cut src) := by
  unfold State.cut
  split
  · exact .detachLocked h.formed h.timed.gens
  · exact h

theorem Orderly.cutFull (hformed : Formed s) (htimed : Timed s) : Orderly s.cutFull := by
  unfold State.cutFull
  split
  · exact .detachLocked hformed htimed.gens
  · rename_i hshort
    exact ⟨hformed, htimed, Nat.lt_of_not_le hshort⟩

theorem Orderly.add (h : Orderly s) (hlast : ∀ x ∈ s.added, x.seq < src.seq) : Orderly (s.add src loss) := by
  unfold State.add
  split
  · exact ⟨h.formed.ignored hlast, h.timed.note _, h.short⟩
  · rename_i htaken
    obtain ⟨hseq, hopen⟩ := taken_of_not_ignores htaken
    have hcut := h.cut src
    have hlast' : ∀ x ∈ (s.cut src).added, x.seq < src.seq := (added_cut s src).symm ▸ hlast
    have hopen' : (s.cut src).sender.closed = false := (closed_cut s src).trans hopen
    exact .cutFull (hcut.formed.take hlast' hseq hopen' hcut.short (follows_cut s src)) hcut.timed.take

theorem Formed.begin (h : Formed s) (t : ℕ) : Formed { s with clock := s.clock.begin t } :=
  ⟨h.increasing, h.records, h.blocks, h.pending, h.le, h.closed, h.gens⟩

theorem Orderly.fire {tm : Timer} (h : Orderly s) (ht : s.clock.timers[t]? = some tm) :
    Orderly ({ s with clock := s.clock.begin t }.flushTimer tm.gen) := by
  have hgens : ∀ a ∈ (s.clock.begin t).armed, a.1 ≤ s.sender.flushGen := by
    rw [Clock.armed_begin]
    exact h.timed.gens
  have hformed := h.formed.begin t
  unfold State.flushTimer
  split
  · rename_i hskip
    refine ⟨hformed, ?_, h.short⟩
    by_cases hclosed : s.sender.closed = true
    · exact timed_of_pending_nil (h.formed.closed hclosed) hgens
    · -- A superseded callback leaves the timer of the pending block alone.
      have hgen : tm.gen ≠ s.sender.flushGen := hskip.resolve_left hclosed
      refine ⟨hgens, fun a ha => ?_, fun src hsrc => ?_⟩
      · rw [Clock.armed_begin] at ha
        exact h.timed.current a ha
      · obtain ⟨current, hcurrent⟩ := h.timed.awaits src hsrc
        exact ⟨current, hcurrent.begin ht hgen⟩
  · exact .detachLocked hformed hgens

theorem Orderly.close (h : Orderly s) : Orderly s.close := by
  unfold State.close
  split
  · exact h
  · have hsub : (s.detached.flatten ++ []).Sublist s.added := by
      rw [List.append_nil]
      exact (List.sublist_append_left _ _).trans h.formed.records
    refine ⟨⟨h.formed.increasing, hsub, h.formed.blocks, .nil, Nat.zero_le _, fun _ => rfl,
      h.formed.gens⟩, timed_of_pending_nil rfl ?_, Nat.zero_lt_succ _⟩
    dsimp only
    rw [Clock.armed_stop]
    exact h.timed.gens

theorem Orderly.next {l : Label} (h : Orderly s) (hst : next s l = some s') : Orderly s' := by
  cases l with
  | add src loss =>
      obtain ⟨⟨hlast, -⟩, ⟨⟩⟩ := Option.ite_none_right_eq_some.1 hst
      exact h.add hlast
  | fire t =>
      simp only [Formation.next] at hst
      split at hst
      · cases hst
      · rename_i tm ht
        obtain ⟨-, ⟨⟩⟩ := Option.ite_none_left_eq_some.1 hst
        exact h.fire ht
  | count =>
      obtain ⟨-, ⟨⟩⟩ := Option.ite_none_left_eq_some.1 hst
      obtain ⟨hformed, htimed, hshort⟩ := h
      exact ⟨⟨hformed.increasing, hformed.records, hformed.blocks, hformed.pending, hformed.le,
        hformed.closed, hformed.gens⟩, ⟨htimed.gens, htimed.current, htimed.awaits⟩, hshort⟩
  | close =>
      cases hst
      exact h.close

theorem orderly_init (extParity : Bool) : Orderly (init extParity) where
  formed := ⟨.nil, .refl _, nofun, .nil, Nat.zero_le _, fun _ => rfl, fun _ hn _ => hn⟩
  timed := timed_of_pending_nil rfl nofun
  short := Nat.zero_lt_succ _

theorem orderly_of_reachable (h : Reachable system s) : Orderly s :=
  h.invariant (I := Orderly) (by rintro _ ⟨extParity, rfl⟩; exact orderly_init extParity)
    fun _ _ _ hs _ hst => hs.next hst

theorem Formed.nodup (h : Formed s) : (s.detached.flatten.map (·.seq)).Nodup := by
  have hsub : s.detached.flatten.Sublist s.added := (List.sublist_append_left _ _).trans h.records
  have hseqs : (s.detached.flatten.map (·.seq)).Pairwise (· < ·) :=
    List.pairwise_map.2 (h.increasing.sublist hsub)
  exact hseqs.imp Nat.ne_of_lt

theorem Formed.mem_added (h : Formed s) {block : List SourceShard} (hblock : block ∈ s.detached)
    (hsrc : src ∈ block) : src ∈ s.added := by
  apply h.records.subset
  exact List.mem_append_left _ (List.mem_flatten.2 ⟨block, hblock, hsrc⟩)

-- A callback detaches nothing, or the block it was armed for.
theorem Timed.detached_by {tm : Timer} (h : Timed s) (ht : s.clock.timers[t]? = some tm) :
    ({ s with clock := s.clock.begin t }.flushTimer tm.gen).detached = s.detached ∨
      ∃ src rest, src.seq = tm.first ∧
        ({ s with clock := s.clock.begin t }.flushTimer tm.gen).detached =
          s.detached ++ [src :: rest] := by
  unfold State.flushTimer
  split
  · exact .inl rfl
  · rename_i hgen
    have harmed : (tm.gen, tm.first) ∈ s.clock.armed :=
      List.mem_map_of_mem (List.mem_of_getElem? ht)
    have hsame : tm.gen = s.sender.flushGen := not_not.1 (not_or.1 hgen).2
    cases hpending : s.sender.pending with
    | nil =>
        refine .inl ?_
        rw [State.detachLocked, if_pos hpending]
    | cons src rest =>
        have hfirst := h.current _ harmed hsame src (by rw [hpending]; rfl)
        refine .inr ⟨src, rest, hfirst, ?_⟩
        rw [detached_detachLocked (by rw [hpending]; nofun), hpending]

-- The record waits for the same timer, or is in a block that was detached.
def Kept (src : SourceShard) (timer : Option ℕ) (s : State) : Prop :=
  src ∈ s.sender.pending ∧ s.clock.timer = timer ∨ ∃ block ∈ s.detached, src ∈ block

variable {timer : Option ℕ}

theorem Kept.detachLocked (h : Kept src timer s) : Kept src timer s.detachLocked := by
  unfold State.detachLocked
  split
  · exact h
  · refine .inr ?_
    rcases h with ⟨hmem, -⟩ | ⟨block, hblock, hmem⟩
    · exact ⟨_, List.mem_append_right _ (List.mem_singleton.2 rfl), hmem⟩
    · exact ⟨block, List.mem_append_left _ hblock, hmem⟩

theorem Kept.cut (h : Kept src timer s) (x : SourceShard) : Kept src timer (s.cut x) := by
  unfold State.cut
  split
  · exact h.detachLocked
  · exact h

theorem Kept.cutFull (h : Kept src timer s) : Kept src timer s.cutFull := by
  unfold State.cutFull
  split
  · exact h.detachLocked
  · exact h

theorem Kept.take (h : Kept src timer s) (x : SourceShard) : Kept src timer (s.take x) := by
  rcases h with ⟨hmem, htimer⟩ | hflushed
  · refine .inl ?_
    have hmore : ¬(s.sender.pending ++ [x]).length = 1 := by
      have := List.length_pos_of_mem hmem
      rw [List.length_append, List.length_singleton]
      omega
    rw [State.take, if_neg hmore]
    exact ⟨List.mem_append_left _ hmem, htimer⟩
  · refine .inr ?_
    unfold State.take
    dsimp only
    split <;> exact hflushed

theorem Kept.next {l : Label} (h : Kept src timer s) (hst : next s l = some s') :
    Kept src timer s' ∨ s'.sender.closed = true := by
  cases l with
  | add x loss =>
      obtain ⟨-, ⟨⟩⟩ := Option.ite_none_right_eq_some.1 hst
      refine .inl ?_
      unfold State.add
      split
      · exact h
      · exact ((h.cut x).take x).cutFull
  | fire t =>
      simp only [Formation.next] at hst
      split at hst
      · cases hst
      · obtain ⟨-, ⟨⟩⟩ := Option.ite_none_left_eq_some.1 hst
        refine .inl ?_
        have hbegin : Kept src timer { s with clock := s.clock.begin t } := h
        unfold State.flushTimer
        split
        · exact hbegin
        · exact hbegin.detachLocked
  | count =>
      obtain ⟨-, ⟨⟩⟩ := Option.ite_none_left_eq_some.1 hst
      exact .inl h
  | close =>
      cases hst
      unfold State.close
      split
      · rename_i hclosed
        exact .inr hclosed
      · exact .inr rfl

-- The sections are the functions on the sender's fields alone, with the timers added.
theorem sender_take (s : State) (src : SourceShard) :
    (s.take src).sender =
        { s.sender with
          pending := s.sender.pending ++ [src]
          flushGen := if (s.sender.pending ++ [src]).length = 1 then s.sender.flushGen + 1
            else s.sender.flushGen } ∧
      (s.take src).detached = s.detached := by
  unfold State.take
  dsimp only
  split <;> exact ⟨rfl, rfl⟩

theorem sender_detachLocked (hpending : s.sender.pending ≠ []) :
    s.detachLocked.sender = { s.sender with pending := [] } := by
  rw [State.detachLocked, if_neg hpending]

theorem sender_cutFull (s : State) :
    s.cutFull.sender =
        (if fecDataShardsMax ≤ s.sender.pending.length then { s.sender with pending := [] }
          else s.sender) ∧
      s.cutFull.detached =
        s.detached ++ if fecDataShardsMax ≤ s.sender.pending.length then [s.sender.pending] else [] := by
  unfold State.cutFull
  split
  · rename_i hfull
    have hne : s.sender.pending ≠ [] := List.length_pos_iff.1 (Nat.lt_of_lt_of_le (by decide) hfull)
    exact ⟨sender_detachLocked hne, detached_detachLocked hne⟩
  · exact ⟨rfl, (List.append_nil _).symm⟩

theorem sender_add (s : State) (src : SourceShard) (loss : Float) :
    (s.add src loss).sender = (s.sender.add src loss).2 ∧
      (s.add src loss).detached = s.detached ++ (s.sender.add src loss).1 := by
  unfold State.add FecSender.add
  by_cases hnow : src.seq = 0 ∨ src.payload = [] ∨ s.sender.closed
  · rw [if_pos hnow, if_pos (ignores_iff.2 (by tauto))]
    exact ⟨rfl, (List.append_nil _).symm⟩
  rw [if_neg hnow]
  by_cases hclean : s.sender.pending = [] ∧ fecBootstrapBlocks ≤ s.sender.blocks ∧
      fecParityForLossExt loss false = 0
  · rw [if_pos hclean, if_pos (ignores_iff.2 (by rw [List.length_eq_zero_iff]; tauto))]
    exact ⟨rfl, (List.append_nil _).symm⟩
  rw [if_neg hclean, if_neg (by rw [ignores_iff, List.length_eq_zero_iff]; tauto)]
  obtain ⟨hsender, hdetached⟩ := sender_take (s.cut src) src
  obtain ⟨hfullSender, hfullDetached⟩ := sender_cutFull ((s.cut src).take src)
  rw [hfullSender, hfullDetached, hsender, hdetached]
  by_cases hbroken : (s.sender.pending.getLast?.any fun last => src.seq ≠ last.seq + 1) = true
  · have hne : s.sender.pending ≠ [] := by
      rintro hnil
      rw [hnil] at hbroken
      cases hbroken
    have hcut : s.cut src = s.detachLocked := if_pos hbroken
    rw [hcut, sender_detachLocked hne, detached_detachLocked hne]
    simp only [if_pos hbroken]
    exact ⟨rfl, List.append_nil _⟩
  · have hcut : s.cut src = s := if_neg hbroken
    rw [hcut]
    simp only [if_neg hbroken]
    split <;> exact ⟨rfl, rfl⟩

theorem sender_flushTimer (s : State) (gen : ℕ) :
    (s.flushTimer gen).sender = (s.sender.flushTimer gen).2 ∧
      (s.flushTimer gen).detached.flatten = s.detached.flatten ++ (s.sender.flushTimer gen).1 := by
  unfold State.flushTimer FecSender.flushTimer
  split
  · exact ⟨rfl, (List.append_nil _).symm⟩
  · unfold State.detachLocked
    split
    · rename_i hnil
      refine ⟨?_, ?_⟩
      · dsimp only
        rw [← hnil]
      · dsimp only
        rw [hnil, List.append_nil]
    · exact ⟨rfl, List.flatten_concat⟩

theorem sender_close (h : Formed s) : s.close.sender = s.sender.close := by
  unfold State.close FecSender.close
  split
  · rename_i hclosed
    rw [← h.closed hclosed, ← hclosed]
  · rfl

end UdpCustom.Fec.Formation
