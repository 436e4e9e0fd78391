import UdpCustom.Lib.Chunks

-- Elements dealt in rounds, in each of which the whole deck comes in some order.
namespace Rounds

open Chunks

variable {α : Type*} {deck dealt rest : List α}

-- What was dealt so far and what is left of its last round.
def Dealt (deck dealt rest : List α) : Prop :=
  ∃ rounds : List (List α), (∀ round ∈ rounds, round.Perm deck) ∧ rounds.flatten = dealt ++ rest

theorem Dealt.start {round : List α} (h : round.Perm deck) : Dealt deck [] round := by
  refine ⟨[round], fun round' hround => ?_, by simp⟩
  rwa [List.mem_singleton.1 hround]

theorem Dealt.refill {round : List α} (h : Dealt deck dealt []) (hround : round.Perm deck) :
    Dealt deck dealt round := by
  obtain ⟨rounds, hrounds, hflatten⟩ := h
  refine ⟨rounds ++ [round], fun round' hmem => ?_, ?_⟩
  · rcases List.mem_append.1 hmem with hmem | hmem
    · exact hrounds round' hmem
    · rwa [List.mem_singleton.1 hmem]
  · rw [List.flatten_append, hflatten, List.append_nil, List.flatten_singleton]

theorem Dealt.draw {a : α} (h : Dealt deck dealt (a :: rest)) : Dealt deck (dealt ++ [a]) rest := by
  obtain ⟨rounds, hrounds, hflatten⟩ := h
  exact ⟨rounds, hrounds, by rw [hflatten, List.append_assoc, List.singleton_append]⟩

theorem Dealt.mem (h : Dealt deck dealt rest) {a : α} (ha : a ∈ dealt) : a ∈ deck := by
  obtain ⟨rounds, hrounds, hflatten⟩ := h
  have hmem : a ∈ rounds.flatten := hflatten ▸ List.mem_append_left _ ha
  obtain ⟨round, hround, ha⟩ := List.mem_flatten.1 hmem
  exact (hrounds round hround).subset ha

-- A block of the length of the deck begins a round.
theorem Dealt.perm_append (h : Dealt deck dealt rest) (k : ℕ) :
    ∃ tail, (chunk deck.length dealt k ++ tail).Perm deck := by
  obtain ⟨rounds, hrounds, hflatten⟩ := h
  obtain ⟨tail, htail⟩ := chunk_append deck.length dealt rest k
  have hround := chunk_flatten (fun round hround => (hrounds round hround).length_eq) k
  rw [hflatten, htail] at hround
  cases hk : rounds[k]? with
  | none =>
      rw [hk, Option.getD_none, List.append_eq_nil_iff] at hround
      exact ⟨deck, by rw [hround.1, List.nil_append]⟩
  | some round =>
      rw [hk, Option.getD_some] at hround
      exact ⟨tail, hround ▸ hrounds round (List.mem_of_getElem? hk)⟩

theorem Dealt.perm (h : Dealt deck dealt rest) {k : ℕ} (hk : deck.length * (k + 1) ≤ dealt.length) :
    (chunk deck.length dealt k).Perm deck := by
  obtain ⟨tail, htail⟩ := h.perm_append k
  have hlength := htail.length_eq
  rw [List.length_append, length_chunk hk] at hlength
  obtain rfl : tail = [] := List.eq_nil_of_length_eq_zero (by omega)
  rwa [List.append_nil] at htail

-- Where an element is missing for long there is a whole round without it.
theorem Dealt.gap (h : Dealt deck dealt rest) {a : α} (ha : a ∈ deck) {i j : ℕ} (hj : j ≤ dealt.length)
    (hnone : ∀ m : ℕ, i < m → m < j → dealt[m]? ≠ some a) : j - i - 1 ≤ 2 * (deck.length - 1) := by
  by_contra hlong
  have hpos := List.length_pos_of_mem ha
  have hdiv := Nat.div_add_mod i deck.length
  have hmod := Nat.mod_lt i hpos
  have hsucc := Nat.mul_add_one deck.length (i / deck.length)
  have hsucc' := Nat.mul_add_one deck.length (i / deck.length + 1)
  have hperm := h.perm (k := i / deck.length + 1) (by omega)
  obtain ⟨m, hlow, hhigh, hm⟩ := exists_of_mem_chunk (hperm.symm.subset ha)
  exact hnone m (by omega) (by omega) hm

end Rounds
