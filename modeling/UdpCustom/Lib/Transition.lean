import Mathlib.Data.Option.Basic

-- Labelled transition systems. A label names the action and every choice the
-- environment makes in it, so that the next state is a function of state and
-- label and a condition on a run can speak about both.
namespace Transition

structure System (σ ℓ : Type*) where
  init : σ → Prop
  next : σ → ℓ → Option σ

variable {σ ℓ : Type*} {S : System σ ℓ} {ok : σ → ℓ → Prop}

-- The states reached by runs all of whose steps meet `ok`.
inductive ReachableBy (S : System σ ℓ) (ok : σ → ℓ → Prop) : σ → Prop
  | init {s : σ} : S.init s → ReachableBy S ok s
  | step {s s' : σ} {l : ℓ} :
      ReachableBy S ok s → ok s l → S.next s l = some s' → ReachableBy S ok s'

abbrev Reachable (S : System σ ℓ) : σ → Prop :=
  ReachableBy S fun _ _ => True

-- What holds initially and survives every admitted step holds in every state reached.
theorem ReachableBy.invariant {I : σ → Prop} (hinit : ∀ s, S.init s → I s)
    (hstep : ∀ s l s', I s → ok s l → S.next s l = some s' → I s')
    {s : σ} (h : ReachableBy S ok s) : I s := by
  induction h with
  | init hs => exact hinit _ hs
  | step _ hok hst ih => exact hstep _ _ _ ih hok hst

theorem ReachableBy.mono {ok' : σ → ℓ → Prop} (hok : ∀ s l, ok s l → ok' s l) {s : σ}
    (h : ReachableBy S ok s) : ReachableBy S ok' s := by
  induction h with
  | init hs => exact .init hs
  | step _ ha hst ih => exact .step ih (hok _ _ ha) hst

theorem ReachableBy.reachable {s : σ} (h : ReachableBy S ok s) : Reachable S s :=
  h.mono fun _ _ _ => trivial

-- The state a list of labels leads to, if every one of them is enabled in turn
-- and meets the condition.
def System.runBy (S : System σ ℓ) (ok : σ → ℓ → Prop) [∀ s l, Decidable (ok s l)] (s : σ) :
    List ℓ → Option σ
  | [] => some s
  | l :: rest =>
    if ok s l then
      match S.next s l with
      | none => none
      | some s' => S.runBy ok s' rest
    else none

abbrev System.run (S : System σ ℓ) : σ → List ℓ → Option σ :=
  S.runBy fun _ _ => True

-- What every admitted step preserves holds at the end of a run if it held at its start.
theorem System.runBy_invariant [∀ s l, Decidable (ok s l)] {I : σ → Prop}
    (hstep : ∀ s l s', I s → ok s l → S.next s l = some s' → I s') {s s' : σ} (hs : I s)
    {labels : List ℓ} (hrun : S.runBy ok s labels = some s') : I s' := by
  induction labels generalizing s with
  | nil => exact Option.some.inj hrun ▸ hs
  | cons l rest ih =>
      obtain ⟨hl, hrun⟩ := Option.ite_none_right_eq_some.1 hrun
      cases hn : S.next s l with
      | none => simp [hn] at hrun
      | some s₁ =>
          rw [hn] at hrun
          exact ih (hstep s l s₁ hs hl hn) hrun

theorem ReachableBy.run [∀ s l, Decidable (ok s l)] {s s' : σ} (h : ReachableBy S ok s)
    {labels : List ℓ} (hrun : S.runBy ok s labels = some s') : ReachableBy S ok s' :=
  System.runBy_invariant (fun _ _ _ hs hl hn => .step hs hl hn) h hrun

-- A run from an initial state that ends in a state with `P`, by evaluation.
theorem System.exists_runBy (S : System σ ℓ) (ok : σ → ℓ → Prop) [∀ s l, Decidable (ok s l)]
    {P : σ → Prop} [DecidablePred P] {s : σ} (hs : S.init s) (labels : List ℓ)
    (hrun : (S.runBy ok s labels).any (P ·) = true) : ∃ s', ReachableBy S ok s' ∧ P s' := by
  obtain ⟨s', hs', hp⟩ := (Option.any_eq_true _ _).1 hrun
  exact ⟨s', (ReachableBy.init hs).run hs', of_decide_eq_true hp⟩

theorem System.exists_run (S : System σ ℓ) {P : σ → Prop} [DecidablePred P] {s : σ} (hs : S.init s)
    (labels : List ℓ) (hrun : (S.run s labels).any (P ·) = true) :
    ∃ s', Reachable S s' ∧ P s' :=
  S.exists_runBy (fun _ _ => True) hs labels hrun

end Transition
