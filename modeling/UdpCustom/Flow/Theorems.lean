import UdpCustom.Flow
import UdpCustom.Lib.Transition

-- The congestion window over any sequence of calls. The delivery-rate estimate
-- is arbitrary in every one of them.
namespace UdpCustom.Flow

open UdpCustom.Delivery Transition

variable {f f' : SendFlow} {now rtt : ℕ}

-- What every call but a loss leaves of the flow: the window is not lowered and
-- nothing is noted of a loss that was not noted before.
structure SendFlow.Raised (f f' : SendFlow) : Prop where
  max : f'.max = f.max
  cwnd : f.cwnd ≤ f'.cwnd
  lastLoss : f'.lastLoss = f.lastLoss
  lastLossCut : f'.lastLossCut = f.lastLossCut ∨ f'.lastLossCut = 0

theorem raised_restart (f : SendFlow) : f.Raised f.restart := by
  unfold SendFlow.restart
  split_ifs <;> exact ⟨rfl, Nat.le_refl _, rfl, .inl rfl⟩

theorem raised_acknowledged (f : SendFlow) (n : ℕ) : f.Raised (f.acknowledged n) := by
  obtain ⟨hmax, hcwnd, hlast, hcut⟩ := raised_restart f
  have hle := f.restart.cwnd_le
  unfold SendFlow.acknowledged
  dsimp only
  split_ifs
  · exact ⟨hmax, by simp only; omega, hlast, hcut⟩
  · exact ⟨hmax, by simp only; omega, hlast, hcut⟩
  · exact ⟨hmax, hcwnd, hlast, hcut⟩

theorem raised_observeRTT (f : SendFlow) (sample : ℕ) : f.Raised (f.observeRTT sample) := by
  unfold SendFlow.observeRTT
  split_ifs <;> exact ⟨rfl, Nat.le_refl _, rfl, .inl rfl⟩

theorem raised_undoLoss (f : SendFlow) : f.Raised f.undoLoss.2 := by
  have hle := f.cwnd_le
  unfold SendFlow.undoLoss
  dsimp only
  split
  · exact ⟨rfl, Nat.le_refl _, rfl, .inr rfl⟩
  · exact ⟨rfl, by simp only; omega, rfl, .inr rfl⟩

-- An undo restores no more than what the last undoable loss noted.
theorem cwnd_undoLoss_le (f : SendFlow) :
    f.undoLoss.2.cwnd ≤ max f.cwnd f.lastLossCut := by
  unfold SendFlow.undoLoss
  dsimp only
  split
  · exact Nat.le_max_left _ _
  · exact (Nat.min_le_right _ _).trans (Nat.le_max_right _ _)

-- `Nat.max`, which the definitions use where `max` is a field, is the maximum.
theorem natMax_eq (a b : ℕ) : Nat.max a b = max a b := rfl

-- A loss reported within a round trip of the last one belongs to the same event.
def SendFlow.sameEvent (f : SendFlow) (now rtt : ℕ) : Bool :=
  f.lastLoss.any fun last => now - last < Nat.max rtt (10 * millisecond)

-- The cut, once it is decided where to.
def SendFlow.cutTo (f : SendFlow) (undoable : Bool) (target restartTo : ℕ) : SendFlow :=
  { f with
    ssthresh := Nat.max 2 (min f.cwnd target)
    cwnd := min f.max (Nat.max 2 (min f.cwnd target))
    growth := 0
    restartTo := restartTo
    lastLossCut := if undoable then f.lastLossCut else 0
    lastLossSSThresh := if undoable then f.lastLossSSThresh else 0
    cwnd_le := Nat.min_le_left _ _ }

-- What every event records, cut or not.
def SendFlow.noted (f : SendFlow) (now : ℕ) (undoable : Bool) : SendFlow :=
  { f with
    lastLoss := some now
    lastLossCut := if undoable then f.cwnd else f.lastLossCut
    lastLossSSThresh := if undoable then f.ssthresh else f.lastLossSSThresh }

-- The ways a loss can go.
inductive Lost (f : SendFlow) (now rtt : ℕ) (undoable : Bool) : SendFlow → Prop
  | sameEvent (hsame : f.sameEvent now rtt = true) : Lost f now rtt undoable f
  | held (hevent : f.sameEvent now rtt = false) : Lost f now rtt undoable (f.noted now undoable)
  | blind (hevent : f.sameEvent now rtt = false) (hbase : f.minRTT = 0) :
      Lost f now rtt undoable
        ((f.noted now undoable).cutTo undoable (max 2 (f.cwnd / 2)) f.cwnd)
  | trim {target : ℕ} (hevent : f.sameEvent now rtt = false) (hbase : f.minRTT ≠ 0)
      (hclear : f.westwood = true ∧ f.congested (max rtt (10 * millisecond)) = false)
      (hfloor : max 2 (f.cwnd - f.cwnd / 4) ≤ target) :
      Lost f now rtt undoable ((f.noted now undoable).cutTo undoable target f.max)
  | halve (hevent : f.sameEvent now rtt = false) (hbase : f.minRTT ≠ 0)
      (hqueue : ¬(f.westwood = true ∧ f.congested (max rtt (10 * millisecond)) = false)) :
      Lost f now rtt undoable
        ((f.noted now undoable).cutTo undoable (max 2 (f.cwnd / 2)) 0)

theorem loss_eq (f : SendFlow) (now rtt : ℕ) (undoable : Bool) (bdp : ℕ) :
    f.loss now rtt undoable bdp =
      if f.sameEvent now rtt then f
      else match f.lossTarget (max rtt (10 * millisecond)) bdp with
        | none => f.noted now undoable
        | some (target, restartTo) => (f.noted now undoable).cutTo undoable target restartTo := by
  cases undoable <;> rfl

theorem loss_cases (f : SendFlow) (now rtt : ℕ) (undoable : Bool) (bdp : ℕ) :
    Lost f now rtt undoable (f.loss now rtt undoable bdp) := by
  rw [loss_eq]
  by_cases hsame : f.sameEvent now rtt = true
  · rw [if_pos hsame]
    exact .sameEvent hsame
  · have hevent := Bool.eq_false_iff.2 hsame
    rw [if_neg hsame]
    unfold SendFlow.lossTarget
    dsimp only
    by_cases hbase : f.minRTT = 0
    · rw [if_pos hbase]
      exact .blind hevent hbase
    · rw [if_neg hbase]
      split_ifs with hclear hfits hknown
      · exact .held hevent
      · exact .trim hevent hbase hclear (Nat.le_max_right _ _)
      · exact .trim hevent hbase hclear (Nat.le_refl _)
      · exact .halve hevent hbase hclear

-- The window never closes below two frames, or below its maximum if that is one.
def SendFlow.Open (f : SendFlow) : Prop := min 2 f.max ≤ f.cwnd

theorem open_newSendFlow (maximum : ℕ) (automatic westwood wide : Bool) :
    (newSendFlow maximum automatic westwood wide).Open := by
  unfold SendFlow.Open newSendFlow initialCwnd
  simp only [natMax_eq]
  omega

theorem Lost.cwnd {undoable : Bool} (h : Lost f now rtt undoable f') (hopen : f.Open) :
    f'.cwnd ≤ f.cwnd ∧ min f.max (max 2 (f.cwnd / 2)) ≤ f'.cwnd ∧
      (f.westwood = true → f.congested (max rtt (10 * millisecond)) = false →
        3 * f.cwnd ≤ 4 * f'.cwnd) := by
  have hle := f.cwnd_le
  unfold SendFlow.Open at hopen
  cases h with
  | sameEvent _ => omega
  | held _ =>
      simp only [SendFlow.noted]
      omega
  | blind _ hbase =>
      refine ⟨?_, ?_, fun _ hclear => ?_⟩
      · simp only [SendFlow.cutTo, SendFlow.noted, natMax_eq]
        omega
      · simp only [SendFlow.cutTo, SendFlow.noted, natMax_eq]
        omega
      · simp [SendFlow.congested, hbase] at hclear
  | trim _ _ _ hfloor =>
      simp only [SendFlow.cutTo, SendFlow.noted, natMax_eq]
      omega
  | halve _ _ hqueue =>
      refine ⟨?_, ?_, fun hwestwood hclear => absurd ⟨hwestwood, hclear⟩ hqueue⟩
      · simp only [SendFlow.cutTo, SendFlow.noted, natMax_eq]
        omega
      · simp only [SendFlow.cutTo, SendFlow.noted, natMax_eq]
        omega

inductive Call
  | acknowledged (n : ℕ)
  | loss (now rtt : ℕ) (undoable : Bool) (bdp : ℕ)
  | undoLoss
  | observeRTT (sample : ℕ)

-- A flow with the time and the RTT of each call that lowered its window, newest
-- first, and the window just before the most recent undoable loss event.
structure History where
  flow : SendFlow
  cuts : List (ℕ × ℕ)
  before : Option ℕ

def History.after (s : History) : Call → History
  | .acknowledged n => { s with flow := s.flow.acknowledged n }
  | .loss now rtt undoable bdp =>
    let f := s.flow.loss now rtt undoable bdp
    { flow := f
      cuts := if f.cwnd < s.flow.cwnd then (now, rtt) :: s.cuts else s.cuts
      before := if undoable ∧ s.flow.sameEvent now rtt = false then some s.flow.cwnd else s.before }
  | .undoLoss => { s with flow := s.flow.undoLoss.2 }
  | .observeRTT sample => { s with flow := s.flow.observeRTT sample }

def system : System History Call where
  init s := ∃ maximum automatic westwood wide,
    s = ⟨newSendFlow maximum automatic westwood wide, [], none⟩
  next s call := some (s.after call)

-- A later cut and an earlier one.
def Apart (later earlier : ℕ × ℕ) : Prop :=
  earlier.1 + max later.2 (10 * millisecond) ≤ later.1

structure History.Inv (s : History) : Prop where
  opened : s.flow.Open
  apart : s.cuts.Pairwise Apart
  latest : ∀ cut ∈ s.cuts, ∃ last, s.flow.lastLoss = some last ∧ cut.1 ≤ last
  before : s.flow.lastLossCut = 0 ∨ s.before = some s.flow.lastLossCut

theorem History.Inv.raised {s : History} {f : SendFlow} (hinv : s.Inv) (h : s.flow.Raised f) :
    History.Inv { s with flow := f } := by
  obtain ⟨hmax, hcwnd, hlast, hcut⟩ := h
  refine ⟨?_, hinv.apart, ?_, ?_⟩
  · have hopen := hinv.opened
    unfold SendFlow.Open at hopen ⊢
    rw [hmax]
    exact hopen.trans hcwnd
  · rw [hlast]
    exact hinv.latest
  · rcases hcut with hcut | hcut
    · rw [hcut]
      exact hinv.before
    · exact .inl hcut

theorem Lost.opened {undoable : Bool} (h : Lost f now rtt undoable f')
    (hmax : f'.max = f.max) (hopen : f.Open) : f'.Open := by
  obtain ⟨_, hlow, _⟩ := h.cwnd hopen
  unfold SendFlow.Open
  rw [hmax]
  omega

-- A loss that is no event changes nothing; an event is noted with its time.
theorem Lost.noted {undoable : Bool} (h : Lost f now rtt undoable f') :
    f' = f ∧ f.sameEvent now rtt = true ∨
      f.sameEvent now rtt = false ∧ f'.lastLoss = some now ∧
        (if undoable then f'.lastLossCut = f.cwnd
          else f'.lastLossCut = f.lastLossCut ∨ f'.lastLossCut = 0) := by
  cases h with
  | sameEvent hsame => exact .inl ⟨rfl, hsame⟩
  | held hevent =>
      refine .inr ⟨hevent, rfl, ?_⟩
      cases undoable
      · exact .inl rfl
      · rfl
  | blind hevent | trim hevent | halve hevent =>
      refine .inr ⟨hevent, rfl, ?_⟩
      cases undoable
      · exact .inr rfl
      · rfl

theorem apart_of_event {f : SendFlow} {now rtt last : ℕ} (hevent : f.sameEvent now rtt = false)
    (hlast : f.lastLoss = some last) : last + max rtt (10 * millisecond) ≤ now := by
  have hpos : 0 < 10 * millisecond := by decide
  unfold SendFlow.sameEvent at hevent
  rw [hlast] at hevent
  simp only [Option.any_some, decide_eq_false_iff_not, natMax_eq] at hevent
  omega

theorem inv_loss {s : History} (hinv : s.Inv) (now rtt : ℕ) (undoable : Bool) (bdp : ℕ) :
    (s.after (.loss now rtt undoable bdp)).Inv := by
  have hlost := loss_cases s.flow now rtt undoable bdp
  have hmax := (steady_loss s.flow now rtt undoable bdp).max
  simp only [History.after]
  generalize s.flow.loss now rtt undoable bdp = f at hlost hmax ⊢
  rcases hlost.noted with ⟨rfl, hsame⟩ | ⟨hevent, hlast, hcut⟩
  · simp only [hsame, lt_irrefl, if_false, Bool.true_eq_false, and_false]
    exact hinv
  · refine ⟨hlost.opened hmax hinv.opened, ?_, ?_, ?_⟩
    · dsimp only
      split_ifs
      · refine List.pairwise_cons.2 ⟨fun earlier hmem => ?_, hinv.apart⟩
        obtain ⟨last, hold, hle⟩ := hinv.latest earlier hmem
        have := apart_of_event hevent hold
        unfold Apart
        omega
      · exact hinv.apart
    · dsimp only
      have hold : ∀ cut ∈ s.cuts, cut.1 ≤ now := by
        intro cut hmem
        obtain ⟨last, hold, hle⟩ := hinv.latest cut hmem
        have := apart_of_event hevent hold
        omega
      split_ifs
      · intro cut hmem
        rcases List.mem_cons.1 hmem with rfl | hmem
        · exact ⟨now, hlast, Nat.le_refl _⟩
        · exact ⟨now, hlast, hold cut hmem⟩
      · exact fun cut hmem => ⟨now, hlast, hold cut hmem⟩
    · cases undoable with
      | true =>
          simp only [hevent, and_self, if_true] at hcut ⊢
          rw [hcut]
          exact .inr rfl
      | false =>
          simp only [Bool.false_eq_true, false_and, if_false] at hcut ⊢
          rcases hcut with hcut | hcut
          · rw [hcut]
            exact hinv.before
          · exact .inl hcut

theorem inv_reachable {s : History} (h : Reachable system s) : s.Inv := by
  refine h.invariant ?_ fun s call s' hinv _ hst => ?_
  · rintro s ⟨maximum, automatic, westwood, wide, rfl⟩
    exact ⟨open_newSendFlow _ _ _ _, .nil, (fun cut hmem => by cases hmem), .inl rfl⟩
  · obtain rfl := Option.some.inj hst
    cases call with
    | acknowledged n => exact hinv.raised (raised_acknowledged s.flow n)
    | loss now rtt undoable bdp => exact inv_loss hinv now rtt undoable bdp
    | undoLoss => exact hinv.raised (raised_undoLoss s.flow)
    | observeRTT sample => exact hinv.raised (raised_observeRTT s.flow sample)

theorem congestion_window {s : History} (h : Reachable system s) :
    min 2 s.flow.max ≤ s.flow.cwnd ∧ s.flow.cwnd ≤ s.flow.max ∧
    (∀ n, s.flow.cwnd ≤ (s.flow.acknowledged n).cwnd) ∧
    (∀ now rtt undoable bdp,
      (s.flow.loss now rtt undoable bdp).cwnd ≤ s.flow.cwnd ∧
      min s.flow.max (max 2 (s.flow.cwnd / 2)) ≤ (s.flow.loss now rtt undoable bdp).cwnd ∧
      (s.flow.westwood = true → s.flow.congested (max rtt (10 * millisecond)) = false →
        3 * s.flow.cwnd ≤ 4 * (s.flow.loss now rtt undoable bdp).cwnd)) ∧
    s.cuts.Pairwise Apart ∧
    (s.flow.cwnd < s.flow.undoLoss.2.cwnd →
      ∃ cwnd, s.before = some cwnd ∧ s.flow.undoLoss.2.cwnd ≤ cwnd) := by
  obtain ⟨hopen, hapart, _, hbefore⟩ := inv_reachable h
  refine ⟨hopen, s.flow.cwnd_le, fun n => (raised_acknowledged s.flow n).cwnd,
    fun now rtt undoable bdp => (loss_cases s.flow now rtt undoable bdp).cwnd hopen, hapart, ?_⟩
  intro hraised
  have hle := cwnd_undoLoss_le s.flow
  rcases hbefore with hzero | hbefore
  · omega
  · exact ⟨s.flow.lastLossCut, hbefore, by omega⟩

-- A fresh flow after its first timeout.
def firstCut : History :=
  History.after ⟨newSendFlow 0 true true false, [], none⟩ (.loss 0 0 true 0)

theorem first_cut_bounded :
    min 2 firstCut.flow.max ≤ firstCut.flow.cwnd ∧ firstCut.flow.cwnd = 128 ∧
      ∃ cwnd, firstCut.before = some cwnd ∧ firstCut.flow.undoLoss.2.cwnd ≤ cwnd := by
  have hreach : Reachable system firstCut :=
    .step (.init ⟨0, true, true, false, rfl⟩) trivial rfl
  exact ⟨(congestion_window hreach).1, by decide,
    (congestion_window hreach).2.2.2.2.2 (by decide)⟩

theorem ssthresh_acknowledged (f : SendFlow) (n : ℕ) :
    (f.acknowledged n).ssthresh = f.restart.ssthresh := by
  unfold SendFlow.acknowledged
  dsimp only
  split_ifs <;> rfl

-- All that growth depends on.
structure SendFlow.Alike (f g : SendFlow) : Prop where
  max : f.max = g.max
  cwnd : f.cwnd = g.cwnd
  growth : f.growth = g.growth
  ssthresh : f.restart.ssthresh = g.restart.ssthresh

theorem SendFlow.Alike.cwnd_acknowledged {f g : SendFlow} (h : f.Alike g) (n : ℕ) :
    (f.acknowledged n).cwnd = (g.acknowledged n).cwnd := by
  have hrestart : ∀ f : SendFlow,
      f.restart.max = f.max ∧ f.restart.cwnd = f.cwnd ∧ f.restart.growth = f.growth := by
    intro f
    unfold SendFlow.restart
    split_ifs <;> exact ⟨rfl, rfl, rfl⟩
  obtain ⟨hmax, hcwnd, hgrowth, hss⟩ := h
  obtain ⟨fmax, fcwnd, fgrowth⟩ := hrestart f
  obtain ⟨gmax, gcwnd, ggrowth⟩ := hrestart g
  unfold SendFlow.acknowledged
  dsimp only
  simp only [fmax, fcwnd, fgrowth, gmax, gcwnd, ggrowth, hmax, hcwnd, hgrowth, hss]
  split_ifs
  · rfl
  · rfl
  · rfl

-- When the threshold an undone cut leaves behind is the one from before it.
def SendFlow.Traceless (f : SendFlow) (rtt : ℕ) : Prop :=
  if f.minRTT = 0 then f.ssthresh = f.cwnd
  else if f.westwood = true ∧ f.congested (Nat.max rtt (10 * millisecond)) = false then
    f.ssthresh = f.max
  else Nat.max 2 (f.cwnd / 2) ≤ f.ssthresh

instance (f : SendFlow) (rtt : ℕ) : Decidable (f.Traceless rtt) := by
  unfold SendFlow.Traceless
  infer_instance

-- A cut and its undo: the window is back, the restart is still pending.
structure Undone (f u : SendFlow) (target restartTo : ℕ) : Prop where
  max : u.max = f.max
  cwnd : u.cwnd = f.cwnd
  growth : u.growth = 0
  ssthresh : u.ssthresh = Nat.max (Nat.max 2 (min f.cwnd target)) f.ssthresh
  restartTo : u.restartTo = restartTo

theorem undoLoss_cutTo {f : SendFlow} {now target restartTo : ℕ}
    (hcut : ((f.noted now true).cutTo true target restartTo).cwnd < f.cwnd) :
    ((f.noted now true).cutTo true target restartTo).undoLoss.1 = true ∧
      Undone f ((f.noted now true).cutTo true target restartTo).undoLoss.2 target restartTo := by
  have hle := f.cwnd_le
  unfold SendFlow.undoLoss
  dsimp only
  have hlower : ¬((f.noted now true).cutTo true target restartTo).lastLossCut ≤
      ((f.noted now true).cutTo true target restartTo).cwnd := Nat.not_le.2 hcut
  rw [if_neg hlower]
  refine ⟨rfl, rfl, Nat.min_eq_right hle, rfl, ?_, rfl⟩
  simp only [SendFlow.cutTo, SendFlow.noted, natMax_eq, if_true]
  split_ifs <;> omega

theorem ssthresh_restart_undone {f u : SendFlow} {target restartTo : ℕ}
    (h : Undone f u target restartTo) :
    u.restart.ssthresh = if 0 < restartTo then max f.cwnd (min f.max restartTo)
      else max (max 2 (min f.cwnd target)) f.ssthresh := by
  unfold SendFlow.restart
  rw [h.restartTo]
  split_ifs
  · simp only [natMax_eq, h.cwnd, h.max]
  · rw [h.ssthresh, natMax_eq, natMax_eq]

theorem undone_restored_iff {f u : SendFlow} {target restartTo : ℕ} (h : Undone f u target restartTo)
    (hrestart : f.restartTo = 0) (n : ℕ) :
    ((u.acknowledged n).cwnd = (SendFlow.acknowledged { f with growth := 0 } n).cwnd ∧
      (u.acknowledged n).ssthresh = (SendFlow.acknowledged { f with growth := 0 } n).ssthresh) ↔
      u.restart.ssthresh = f.ssthresh := by
  have hplain : (SendFlow.restart { f with growth := 0 }).ssthresh = f.ssthresh := by
    unfold SendFlow.restart
    rw [if_neg (by simp only; omega)]
  rw [ssthresh_acknowledged, ssthresh_acknowledged, hplain]
  refine ⟨fun hsame => hsame.2, fun hsame => ⟨?_, hsame⟩⟩
  have halike : u.Alike { f with growth := 0 } :=
    ⟨h.max, h.cwnd, h.growth, hsame.trans hplain.symm⟩
  exact halike.cwnd_acknowledged n

theorem Lost.undone (h : Lost f now rtt true f') (hcut : f'.cwnd < f.cwnd) :
    f'.undoLoss.1 = true ∧ ∃ target restartTo, Undone f f'.undoLoss.2 target restartTo ∧
      (f'.undoLoss.2.restart.ssthresh = f.ssthresh ↔ f.Traceless rtt) := by
  have hle := f.cwnd_le
  cases h with
  | sameEvent _ => omega
  | held _ =>
      simp only [SendFlow.noted] at hcut
      omega
  | blind _ hbase =>
      obtain ⟨hdone, hundone⟩ := undoLoss_cutTo hcut
      refine ⟨hdone, _, _, hundone, ?_⟩
      rw [ssthresh_restart_undone hundone, if_pos (by omega), SendFlow.Traceless, if_pos hbase]
      omega
  | trim _ hbase hclear _ =>
      obtain ⟨hdone, hundone⟩ := undoLoss_cutTo hcut
      refine ⟨hdone, _, _, hundone, ?_⟩
      rw [ssthresh_restart_undone hundone, if_pos (by omega), SendFlow.Traceless, if_neg hbase,
        if_pos hclear]
      omega
  | halve _ hbase hqueue =>
      obtain ⟨hdone, hundone⟩ := undoLoss_cutTo hcut
      refine ⟨hdone, _, _, hundone, ?_⟩
      rw [ssthresh_restart_undone hundone, if_neg (Nat.lt_irrefl 0), SendFlow.Traceless, if_neg hbase,
        if_neg hqueue, natMax_eq]
      simp only [SendFlow.cutTo, SendFlow.noted, natMax_eq] at hcut
      omega

theorem spurious_timeout_traceless_iff {f : SendFlow} (hrestart : f.restartTo = 0)
    {now rtt bdp : ℕ} (hcut : (f.loss now rtt true bdp).cwnd < f.cwnd) (n : ℕ) :
    let undone := (f.loss now rtt true bdp).undoLoss
    let plain := SendFlow.acknowledged { f with growth := 0 } n
    undone.1 = true ∧
    ((undone.2.acknowledged n).cwnd = plain.cwnd ∧
      (undone.2.acknowledged n).ssthresh = plain.ssthresh ↔ f.Traceless rtt) ∧
    (f.Traceless rtt → (undone.2.acknowledged n).ssthresh = f.ssthresh ∧
      (f.ssthresh ≤ f.cwnd →
        (undone.2.acknowledged n).ssthresh ≤ (undone.2.acknowledged n).cwnd)) := by
  obtain ⟨hdone, target, restartTo, hundone, hiff⟩ :=
    (loss_cases f now rtt true bdp).undone hcut
  refine ⟨hdone, (undone_restored_iff hundone hrestart n).trans hiff, fun hclean => ?_⟩
  have hss := (ssthresh_acknowledged _ n).trans (hiff.2 hclean)
  refine ⟨hss, fun havoid => ?_⟩
  have hraised := (raised_acknowledged (f.loss now rtt true bdp).undoLoss.2 n).cwnd
  rw [hss]
  rw [hundone.cwnd] at hraised
  omega

-- A flow with a measured path whose RTT has doubled, in slow start.
def crowdedFlow : SendFlow :=
  (newSendFlow 0 true true false).observeRTT (20 * millisecond)

theorem crowded_timeout_traceless :
    crowdedFlow.restartTo = 0 ∧
    (crowdedFlow.loss 0 (40 * millisecond) true 0).cwnd < crowdedFlow.cwnd ∧
    ((crowdedFlow.loss 0 (40 * millisecond) true 0).undoLoss.2.acknowledged 1).ssthresh = 512 :=
  ⟨rfl, by decide,
    ((spurious_timeout_traceless_iff (f := crowdedFlow) rfl (by decide) 1).2.2 (by decide)).1⟩

-- A flow in congestion avoidance on a path with an empty queue.
def clearFlow : SendFlow :=
  { (newSendFlow 0 true true false).observeRTT (20 * millisecond) with ssthresh := 100 }

-- An undone timeout takes the first flow out of slow start, since it had no RTT
-- sample yet, and the second one into it.
theorem undone_timeout_leaves_restart :
    (((newSendFlow 0 true true false).loss 0 0 true 0).undoLoss.2.acknowledged 1).cwnd = 256 ∧
    (((newSendFlow 0 true true false).loss 0 0 true 0).undoLoss.2.acknowledged 1).ssthresh = 256 ∧
    ((newSendFlow 0 true true false).acknowledged 1).cwnd = 257 ∧
    ((newSendFlow 0 true true false).acknowledged 1).ssthresh = 512 ∧
    clearFlow.ssthresh ≤ clearFlow.cwnd ∧
    ((clearFlow.loss 0 (20 * millisecond) true 0).undoLoss.2.acknowledged 1).cwnd <
      ((clearFlow.loss 0 (20 * millisecond) true 0).undoLoss.2.acknowledged 1).ssthresh := by
  decide

end UdpCustom.Flow
