import UdpCustom.Lib.Transition
import Mathlib.Order.Monotone.Basic

-- Infinite runs of a labelled transition system.
namespace Transition

variable {σ ℓ : Type*} {S : System σ ℓ}

structure Execution (S : System σ ℓ) where
  state : ℕ → σ
  label : ℕ → ℓ
  step : ∀ i, S.next (state i) (label i) = some (state (i + 1))

namespace Execution

variable (ρ : Execution S)

theorem reachable (h : Reachable S (ρ.state 0)) (i : ℕ) : Reachable S (ρ.state i) := by
  induction i with
  | zero => exact h
  | succ i ih => exact .step ih trivial (ρ.step i)

-- What holds at one point and survives every later step holds from then on.
theorem always {I : σ → Prop} {i : ℕ} (hi : I (ρ.state i))
    (hstep : ∀ j, i ≤ j → I (ρ.state j) → I (ρ.state (j + 1))) :
    ∀ j, i ≤ j → I (ρ.state j) := by
  intro j hj
  induction j, hj using Nat.le_induction with
  | base => exact hi
  | succ j hj ih => exact hstep j hj ih

theorem monotone {f : σ → ℕ} (hstep : ∀ j, f (ρ.state j) ≤ f (ρ.state (j + 1))) :
    Monotone fun j => f (ρ.state j) :=
  monotone_nat_of_le_succ hstep

-- A number that never falls and stays bounded is constant in the end.
theorem settles {f : σ → ℕ} (hstep : ∀ j, f (ρ.state j) ≤ f (ρ.state (j + 1))) {bound : ℕ}
    (hbound : ∀ j, f (ρ.state j) ≤ bound) :
    ∃ K, ∀ j, K ≤ j → f (ρ.state j) = f (ρ.state K) := by
  by_contra hnever
  have hgrows : ∀ n, ∃ j, n ≤ f (ρ.state j) := by
    intro n
    induction n with
    | zero => exact ⟨0, Nat.zero_le _⟩
    | succ n ih =>
        obtain ⟨j, hj⟩ := ih
        by_contra hmax
        refine hnever ⟨j, fun k hk => ?_⟩
        have hlow := ρ.monotone hstep hk
        have hhigh : ¬n + 1 ≤ f (ρ.state k) := fun h => hmax ⟨k, h⟩
        dsimp only at hlow
        omega
  obtain ⟨j, hj⟩ := hgrows (bound + 1)
  have := hbound j
  omega

-- A rank that no step raises and that the helpful steps lower, as long as the goal
-- is not reached, leads to the goal when helpful steps keep coming.
theorem reaches (goal : σ → Prop) (rank : σ → ℕ) (helpful : ℕ → Prop)
    (hle : ∀ j, ¬goal (ρ.state j) → rank (ρ.state (j + 1)) ≤ rank (ρ.state j))
    (hlt : ∀ j, ¬goal (ρ.state j) → helpful j → rank (ρ.state (j + 1)) < rank (ρ.state j))
    (hoften : (∀ j, ¬goal (ρ.state j)) → ∀ i, ∃ j, i ≤ j ∧ helpful j) :
    ∃ i, goal (ρ.state i) := by
  by_contra hnone
  have hno : ∀ j, ¬goal (ρ.state j) := fun j hj => hnone ⟨j, hj⟩
  have hfalls : Antitone fun j => rank (ρ.state j) := antitone_nat_of_succ_le fun j => hle j (hno j)
  have hnever : ∀ n i, rank (ρ.state i) = n → False := by
    intro n
    induction n using Nat.strong_induction_on with
    | _ n ih =>
        intro i hi
        obtain ⟨j, hj, hhelp⟩ := hoften hno i
        have hstep := hlt j (hno j) hhelp
        have hmono := hfalls hj
        dsimp only at hmono
        exact ih _ (by omega) (j + 1) rfl
  exact hnever _ 0 rfl

-- The first step after which a property holds.
theorem first {P : σ → Prop} (hno : ¬P (ρ.state 0)) {i : ℕ} (hi : P (ρ.state i)) :
    ∃ j, ¬P (ρ.state j) ∧ P (ρ.state (j + 1)) := by
  by_contra hnone
  refine ρ.always (I := fun s => ¬P s) hno (fun j _ hj hnext => ?_) i (Nat.zero_le _) hi
  exact hnone ⟨j, hj, hnext⟩

-- What only certain steps can end, and cannot hold for ever, is ended by one of them.
theorem exists_leaving {P : σ → Prop} (leaves : ℓ → Prop) {i : ℕ} (hi : P (ρ.state i))
    (hkeep : ∀ j, i ≤ j → P (ρ.state j) → ¬leaves (ρ.label j) → P (ρ.state (j + 1)))
    (hends : (∀ j, i ≤ j → P (ρ.state j)) → ∃ j, i ≤ j ∧ leaves (ρ.label j)) :
    ∃ j, i ≤ j ∧ P (ρ.state j) ∧ leaves (ρ.label j) := by
  by_contra hnone
  have hall := ρ.always hi fun j hj hP => hkeep j hj hP fun hl => hnone ⟨j, hj, hP, hl⟩
  obtain ⟨j, hj, hl⟩ := hends hall
  exact hnone ⟨j, hj, hall j hj, hl⟩

-- One step in front of a run.
def cons (s : σ) (l : ℓ) (ρ : Execution S) (h : S.next s l = some (ρ.state 0)) : Execution S where
  state := fun
    | 0 => s
    | i + 1 => ρ.state i
  label := fun
    | 0 => l
    | i + 1 => ρ.label i
  step := fun
    | 0 => h
    | i + 1 => ρ.step i

-- A finite run in front of an infinite one.
theorem exists_extending {ok : σ → ℓ → Prop} {s : σ} (h : ReachableBy S ok s) (ρ : Execution S)
    (hstart : ρ.state 0 = s) :
    ∃ (ρ' : Execution S) (n : ℕ), S.init (ρ'.state 0) ∧
      (∀ i, ρ'.state (n + i) = ρ.state i ∧ ρ'.label (n + i) = ρ.label i) ∧
      ∀ i, i < n → ok (ρ'.state i) (ρ'.label i) := by
  induction h generalizing ρ with
  | init hs => exact ⟨ρ, 0, hstart ▸ hs, fun i => by rw [Nat.zero_add]; exact ⟨rfl, rfl⟩, nofun⟩
  | @step s s' l _ hok hst ih =>
      subst hstart
      obtain ⟨ρ', n, hinit, hsuffix, hbefore⟩ := ih (ρ.cons s l hst) rfl
      refine ⟨ρ', n + 1, hinit, fun i => ?_, fun i hi => ?_⟩
      · rw [Nat.add_assoc, Nat.add_comm 1 i]
        exact hsuffix (i + 1)
      · rcases Nat.lt_or_eq_of_le (Nat.lt_succ_iff.1 hi) with hlt | rfl
        · exact hbefore i hlt
        · obtain ⟨hstate, hlabel⟩ := hsuffix 0
          rw [Nat.add_zero] at hstate hlabel
          rw [hstate, hlabel]
          exact hok

-- A schedule that is enabled at every point of an invariant can be followed.
theorem exists_scheduled {I : ℕ → σ → Prop} {s : σ} (pick : ℕ → σ → ℓ) (hs : I 0 s)
    (hstep : ∀ i s, I i s → ∃ s', S.next s (pick i s) = some s' ∧ I (i + 1) s') :
    ∃ ρ : Execution S, ρ.state 0 = s ∧ (∀ i, ρ.label i = pick i (ρ.state i)) ∧
      ∀ i, I i (ρ.state i) := by
  let state : ℕ → σ := fun n => Nat.rec s (fun i t => (S.next t (pick i t)).getD t) n
  have hnext : ∀ i, I i (state i) → S.next (state i) (pick i (state i)) = some (state (i + 1)) ∧
      I (i + 1) (state (i + 1)) := by
    intro i hi
    obtain ⟨s', hs', hi'⟩ := hstep i (state i) hi
    have hsucc : state (i + 1) = s' := by
      show (S.next (state i) (pick i (state i))).getD (state i) = s'
      rw [hs', Option.getD_some]
    rw [hsucc]
    exact ⟨hs', hi'⟩
  have hinv : ∀ i, I i (state i) := by
    intro i
    induction i with
    | zero => exact hs
    | succ i ih => exact (hnext i ih).2
  exact ⟨⟨state, fun i => pick i (state i), fun i => (hnext i (hinv i)).1⟩, rfl, fun _ => rfl, hinv⟩

theorem exists_labelled {I : σ → Prop} {s : σ} (label : ℕ → ℓ) (hs : I s)
    (hstep : ∀ i s, I s → ∃ s', S.next s (label i) = some s' ∧ I s') :
    ∃ ρ : Execution S, ρ.state 0 = s ∧ ρ.label = label ∧ ∀ i, I (ρ.state i) := by
  obtain ⟨ρ, hzero, hlabel, hinv⟩ := exists_scheduled (I := fun _ => I) (fun i _ => label i) hs hstep
  exact ⟨ρ, hzero, funext hlabel, hinv⟩

end Execution

end Transition
