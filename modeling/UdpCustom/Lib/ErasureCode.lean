import Mathlib.Data.List.Forall2

-- Systematic erasure codes over shards of one length: `k` data shards, `m`
-- parity shards, and the data back from any `k` of them.
structure ErasureCode (α : Type) where
  -- the geometries for which a codec can be built
  supported : ℕ → ℕ → Bool
  encode : (k m : ℕ) → List (List α) → List (List α)
  reconstructData : (k m : ℕ) → List (Option (List α)) → Option (List (List α))
  length_encode : ∀ {k m data}, supported k m = true → data.length = k →
    (encode k m data).length = m
  length_shard : ∀ {k m n data}, supported k m = true → data.length = k →
    (∀ d ∈ data, d.length = n) → ∀ p ∈ encode k m data, p.length = n
  reconstruct_genuine : ∀ {k m n data shards}, supported k m = true → data.length = k →
    (∀ d ∈ data, d.length = n) →
    List.Forall₂ (fun (shard : Option (List α)) d => ∀ b ∈ shard, b = d) shards
      (data ++ encode k m data) →
    k ≤ shards.countP Option.isSome → reconstructData k m shards = some data

namespace ErasureCode

section PairParity

variable {α : Type}

def combine (op : α → α → α) (a b : List α) : List α :=
  List.zipWith op a b

private theorem combine_cancel {op : α → α → α} (hop : ∀ a b, op a (op a b) = b) :
    ∀ {a b : List α}, a.length = b.length → combine op a (combine op a b) = b
  | [], [], _ => rfl
  | x :: a, y :: b, h => by
      simp only [combine, List.zipWith_cons_cons, hop]
      rw [List.length_cons, List.length_cons, Nat.succ_inj] at h
      congr 1
      exact combine_cancel hop h

def pairReconstruct (op : α → α → α) : List (Option (List α)) → Option (List (List α))
  | [some a, some b, _] => some [a, b]
  | [some a, none, some p] => some [a, combine op a p]
  | [none, some b, some p] => some [combine op b p, b]
  | _ => none

-- One parity shard over two data shards, for an operation that undoes itself
-- (exclusive or, on bytes).
def pairParity (op : α → α → α) (hcomm : ∀ a b, op a b = op b a)
    (hop : ∀ a b, op a (op a b) = b) : ErasureCode α where
  supported := fun k m => k = 2 ∧ m = 1
  encode := fun _ _ data =>
    match data with
    | [a, b] => [combine op a b]
    | _ => []
  reconstructData := fun _ _ shards => pairReconstruct op shards
  length_encode := by
    intro k m data hs hk
    obtain ⟨rfl, rfl⟩ := of_decide_eq_true hs
    obtain ⟨a, b, rfl⟩ := List.length_eq_two.1 hk
    rfl
  length_shard := by
    intro k m n data hs hk hn p hp
    obtain ⟨rfl, rfl⟩ := of_decide_eq_true hs
    obtain ⟨a, b, rfl⟩ := List.length_eq_two.1 hk
    rw [List.mem_singleton.1 hp, combine, List.length_zipWith, hn a (by simp), hn b (by simp),
      Nat.min_self]
  reconstruct_genuine := by
    intro k m n data shards hs hk hn hall hcount
    obtain ⟨rfl, rfl⟩ := of_decide_eq_true hs
    obtain ⟨a, b, rfl⟩ := List.length_eq_two.1 hk
    have hlen : a.length = b.length := (hn a (by simp)).trans (hn b (by simp)).symm
    have hswap : combine op a b = combine op b a := List.zipWith_comm_of_comm hcomm
    cases hall with
    | cons h₀ hall =>
      cases hall with
      | cons h₁ hall =>
        cases hall with
        | cons h₂ hall =>
          cases hall
          rename_i x y z
          cases x with
          | none =>
              cases y with
              | none => cases z <;> simp at hcount
              | some y =>
                  cases z with
                  | none => simp at hcount
                  | some z =>
                      rw [h₁ y rfl, h₂ z rfl]
                      simp only [pairReconstruct]
                      rw [hswap, combine_cancel hop hlen.symm]
          | some x =>
              cases y with
              | none =>
                  cases z with
                  | none => simp at hcount
                  | some z =>
                      rw [h₀ x rfl, h₂ z rfl]
                      simp only [pairReconstruct]
                      rw [combine_cancel hop hlen]
              | some y =>
                  rw [h₀ x rfl, h₁ y rfl]
                  rfl

end PairParity

private theorem forall_left {α β : Type} {R : α → β → Prop} {P : α → Prop} {as : List α}
    {bs : List β} (h : List.Forall₂ R as bs) (hP : ∀ a b, b ∈ bs → R a b → P a) :
    ∀ a ∈ as, P a := by
  induction h with
  | nil => exact fun _ => nofun
  | cons hab _ ih =>
      intro a ha
      rcases List.mem_cons.1 ha with rfl | hrest
      · exact hP _ _ List.mem_cons_self hab
      · exact ih (fun a b hb => hP a b (List.mem_cons_of_mem _ hb)) a hrest

-- One data shard, repeated.
def mirror (α : Type) : ErasureCode α where
  supported := fun k _ => k = 1
  encode := fun _ m data =>
    match data with
    | [d] => List.replicate m d
    | _ => []
  reconstructData := fun _ _ shards => (shards.findSome? id).map ([·])
  length_encode := by
    intro k m data hs hk
    obtain ⟨d, rfl⟩ := List.length_eq_one_iff.1 (hk.trans (of_decide_eq_true hs))
    exact List.length_replicate
  length_shard := by
    intro k m n data hs hk hn p hp
    obtain ⟨d, rfl⟩ := List.length_eq_one_iff.1 (hk.trans (of_decide_eq_true hs))
    rw [List.eq_of_mem_replicate hp]
    exact hn d List.mem_cons_self
  reconstruct_genuine := by
    intro k m n data shards hs hk _ hall hcount
    have hone : k = 1 := of_decide_eq_true hs
    obtain ⟨d, rfl⟩ := List.length_eq_one_iff.1 (hk.trans hone)
    obtain ⟨shard, hmem, hsome⟩ := List.countP_pos_iff.1 (Nat.lt_of_lt_of_le (by omega) hcount)
    have hsame : ∀ shard ∈ shards, ∀ b ∈ shard, b = d := by
      refine forall_left hall fun shard d' hd' hgenuine b hb => (hgenuine b hb).trans ?_
      rcases List.mem_append.1 hd' with hdata | hparity
      · exact List.mem_singleton.1 hdata
      · exact List.eq_of_mem_replicate hparity
    cases hfound : shards.findSome? id with
    | none =>
        have hnone : shard = none := List.findSome?_eq_none_iff.1 hfound shard hmem
        rw [hnone] at hsome
        cases hsome
    | some b =>
        obtain ⟨shard', hmem', hb⟩ := List.exists_of_findSome?_eq_some hfound
        rw [hsame shard' hmem' b hb]
        rfl

theorem byte_xor_cancel (a b : UInt8) : a ^^^ (a ^^^ b) = b := by
  rw [← UInt8.xor_assoc, UInt8.xor_self, UInt8.zero_xor]

end ErasureCode
