import UdpCustom.Lib.Transition
import Mathlib.Data.List.Basic
import Mathlib.Order.Lattice.Nat

-- The coalescing of acknowledgements under any interleaving of calls and timer
-- callbacks. One step is one section under the lock; a send is in progress from the end
-- of the section that decides on it until it returns.
namespace UdpCustom.Delivery.Delayed

open Transition

-- A stopped timer may have started its callback already, so that it still runs.
structure Timer where
  stopped : Bool
  ran : Bool
  deriving DecidableEq

structure Send where
  value : ℕ
  returned : Bool
  deriving DecidableEq

structure State where
  timer : Option ℕ
  pending : ℕ
  count : ℕ
  closed : Bool
  timers : List Timer
  -- history: the sends that were made, and what was queued
  sends : List Send
  queued : List ℕ

def init : State where
  timer := none
  pending := 0
  count := 0
  closed := false
  timers := []
  sends := []
  queued := []

def State.stopTimer (s : State) : State :=
  match s.timer with
  | none => s
  | some t => { s with timers := s.timers.modify t fun tm => { tm with stopped := true } }

-- The section ends with a send of what is pending.
def State.flush (s : State) : State :=
  { s with count := 0, timer := none, sends := s.sends ++ [⟨s.pending, false⟩] }

def State.arm (s : State) : State :=
  match s.timer with
  | none => { s with timer := some s.timers.length, timers := s.timers ++ [⟨false, false⟩] }
  | some _ => s

def State.queue (s : State) (seq : ℕ) : State :=
  if s.closed then s
  else
    let s := { s with pending := max s.pending seq, count := s.count + 1, queued := seq :: s.queued }
    if 2 ≤ s.count then s.stopTimer.flush else s.arm

-- The callback of a timer.
def State.fire (s : State) (t : ℕ) : State :=
  let s := { s with timers := s.timers.modify t fun tm => { tm with ran := true } }
  if s.closed ∨ s.count = 0 then s else s.flush

def State.close (s : State) : State :=
  { s with closed := true }.stopTimer

inductive Label
  | queue (seq : ℕ)
  | fire (t : ℕ)
  | sendReturns (k : ℕ)
  | close
  deriving DecidableEq

def next (s : State) : Label → Option State
  | .queue seq => some (s.queue seq)
  | .fire t => if (s.timers[t]?).any (!·.ran) then some (s.fire t) else none
  | .sendReturns k => some { s with sends := s.sends.modify k fun send => { send with returned := true } }
  | .close => some s.close

def system : System State Label where
  init := (· = init)
  next := next

-- A callback that is armed and has not run.
def State.Outstanding (s : State) : Prop :=
  ∃ tm ∈ s.timers, tm.stopped = false ∧ tm.ran = false

instance (s : State) : Decidable s.Outstanding :=
  inferInstanceAs (Decidable (∃ tm ∈ s.timers, tm.stopped = false ∧ tm.ran = false))

-- A send that was made, or is in progress, of this sequence or a later one.
def State.Acked (s : State) (seq : ℕ) : Prop :=
  ∃ send ∈ s.sends, seq ≤ send.value

-- While open, there is a count exactly when the slot holds a timer, whose callback is
-- still to come; what has no send is waiting for that.
structure Live (s : State) : Prop where
  count : s.count ≤ 1
  slot : s.count = 0 → s.timer = none
  armed : s.count = 1 → ∃ t, s.timer = some t ∧ s.timers[t]? = some ⟨false, false⟩
  pending : ∀ seq ∈ s.queued, seq ≤ s.pending
  waits : ∀ seq ∈ s.queued, s.Acked seq ∨ s.count = 1

variable {s : State}

theorem Live.outstanding (h : Live s) (hcount : 0 < s.count) : s.Outstanding := by
  obtain ⟨t, -, ht⟩ := h.armed (Nat.le_antisymm h.count hcount)
  exact ⟨_, List.mem_of_getElem? ht, rfl, rfl⟩

-- After a flush everything queued so far has its send.
theorem live_flush (hpending : ∀ seq ∈ s.queued, seq ≤ s.pending) : Live s.flush := by
  have hacked : ∀ seq ∈ s.queued, s.flush.Acked seq := fun seq hseq =>
    ⟨⟨s.pending, false⟩, List.mem_append_right _ (List.mem_singleton.2 rfl), hpending seq hseq⟩
  exact
    { count := Nat.zero_le 1
      slot := fun _ => rfl
      armed := nofun
      pending := hpending
      waits := fun seq hseq => .inl (hacked seq hseq) }

theorem queued_stopTimer (s : State) : s.stopTimer.queued = s.queued := by
  unfold State.stopTimer
  split <;> rfl

theorem pending_stopTimer (s : State) : s.stopTimer.pending = s.pending := by
  unfold State.stopTimer
  split <;> rfl

theorem closed_stopTimer (s : State) : s.stopTimer.closed = s.closed := by
  unfold State.stopTimer
  split <;> rfl

theorem Live.queue (h : Live s) (seq : ℕ) (hopen : s.closed = false) : Live (s.queue seq) := by
  have hpending : ∀ seq' ∈ seq :: s.queued, seq' ≤ max s.pending seq := by
    intro seq' hseq'
    rcases List.mem_cons.1 hseq' with rfl | hold
    · exact Nat.le_max_right _ _
    · exact Nat.le_trans (h.pending seq' hold) (Nat.le_max_left _ _)
  unfold State.queue
  rw [if_neg (by simp [hopen])]
  dsimp only
  split
  · apply live_flush
    rw [queued_stopTimer, pending_stopTimer]
    exact hpending
  · -- The first since the last send: the slot was empty and a timer is armed.
    rename_i hone
    have hzero : s.count = 0 := by omega
    have hslot := h.slot hzero
    unfold State.arm
    dsimp only
    rw [hslot]
    dsimp only
    have hcount : s.count + 1 = 1 := congrArg (· + 1) hzero
    exact
      { count := hcount.le
        slot := fun hnone => absurd (hcount.symm.trans hnone) Nat.one_ne_zero
        armed := fun _ => ⟨s.timers.length, rfl, by simp⟩
        pending := hpending
        waits := fun _ _ => .inr hcount }

theorem Live.fire (h : Live s) (t : ℕ) (hopen : s.closed = false) : Live (s.fire t) := by
  unfold State.fire
  dsimp only
  split
  · rename_i hidle
    have hzero : s.count = 0 := hidle.resolve_left (by simp [hopen])
    refine ⟨h.count, h.slot, fun hone => ?_, h.pending, h.waits⟩
    exact absurd (hzero.symm.trans hone) Nat.zero_ne_one
  · exact live_flush h.pending

theorem Live.sendReturns (h : Live s) (k : ℕ) :
    Live { s with sends := s.sends.modify k fun send => { send with returned := true } } := by
  -- A send keeps its value.
  have hacked : ∀ seq, s.Acked seq →
      State.Acked { s with sends := s.sends.modify k fun send => { send with returned := true } } seq := by
    rintro seq ⟨send, hsend, hle⟩
    obtain ⟨j, hj⟩ := List.mem_iff_getElem?.1 hsend
    refine ⟨if k = j then { send with returned := true } else send, ?_, ?_⟩
    · apply List.mem_of_getElem? (i := j)
      dsimp only
      rw [List.getElem?_modify, hj]
      split <;> rfl
    · split <;> exact hle
  exact
    { count := h.count
      slot := h.slot
      armed := h.armed
      pending := h.pending
      waits := fun seq hseq => (h.waits seq hseq).imp_left (hacked seq) }

theorem live_of_reachable (h : Reachable system s) : s.closed = false → Live s := by
  refine h.invariant (I := fun s => s.closed = false → Live s) (fun s hs _ => ?_)
    fun s l s' hlive _ hst hopen' => ?_
  · rw [hs]
    exact ⟨Nat.zero_le 1, fun _ => rfl, nofun, nofun, nofun⟩
  · cases l with
    | queue seq =>
        cases hst
        have hopen : s.closed = false := by
          by_contra hclosed
          rw [State.queue, if_pos (by simpa using hclosed)] at hopen'
          exact hclosed hopen'
        exact (hlive hopen).queue seq hopen
    | fire t =>
        obtain ⟨-, ⟨⟩⟩ := Option.ite_none_right_eq_some.1 hst
        have hopen : s.closed = false := by
          unfold State.fire at hopen'
          dsimp only at hopen'
          split at hopen' <;> exact hopen'
        exact (hlive hopen).fire t hopen
    | sendReturns k =>
        cases hst
        exact (hlive hopen').sendReturns k
    | close =>
        cases hst
        rw [State.close, closed_stopTimer] at hopen'
        cases hopen'

theorem delayed_ack_never_forgets {s : State} (h : Reachable system s) (hopen : s.closed = false) :
    (0 < s.count → s.Outstanding) ∧ ∀ seq ∈ s.queued, s.Acked seq ∨ s.Outstanding := by
  have hlive := live_of_reachable h hopen
  refine ⟨hlive.outstanding, fun seq hseq => ?_⟩
  refine (hlive.waits seq hseq).imp_right fun hone => ?_
  exact hlive.outstanding (by omega)

-- The first timer runs after it was stopped and a second one armed, and empties the
-- slot; a third is armed for the next sequence.
theorem outstanding_after_late_callback : ∃ s, Reachable system s ∧ s.closed = false ∧ s.count = 1 ∧
    s.timer = some 2 ∧ s.timers = [⟨true, true⟩, ⟨false, false⟩, ⟨false, false⟩] ∧ s.Outstanding := by
  have hrun := system.exists_run
    (P := fun s => s.closed = false ∧ s.count = 1 ∧ s.timer = some 2 ∧
      s.timers = [⟨true, true⟩, ⟨false, false⟩, ⟨false, false⟩])
    (s := init) rfl [.queue 1, .queue 2, .queue 3, .fire 0, .queue 4] (by decide)
  obtain ⟨s, hreach, hopen, hcount, htimer, htimers⟩ := hrun
  exact ⟨s, hreach, hopen, hcount, htimer, htimers,
    (delayed_ack_never_forgets hreach hopen).1 (by omega)⟩

end UdpCustom.Delivery.Delayed
