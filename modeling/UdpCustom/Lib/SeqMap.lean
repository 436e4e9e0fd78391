import Mathlib.Order.Lattice.Nat
import Mathlib.Data.Finmap
import Mathlib.Data.Finset.Lattice.Fold
import Mathlib.Order.Interval.Finset.Nat

-- A finite map keyed by natural numbers, with the in-place update of one entry.
abbrev SeqMap (α : Type) := Finmap fun _ : ℕ => α

namespace SeqMap

variable {α : Type} {m : SeqMap α} {k : ℕ} {ks : List ℕ} {f : α → α}

def size (m : SeqMap α) : ℕ := m.keys.card

@[simp] theorem size_empty : size (∅ : SeqMap α) = 0 := by
  simp [size]

-- Keys inside a window of `n` numbers are at most `n`.
theorem size_le_of_window {lo n : ℕ} (h : ∀ k ∈ m, lo < k ∧ k ≤ lo + n) :
    size m ≤ n := by
  have hsub : m.keys ⊆ Finset.Ioc lo (lo + n) := by
    intro k hk
    exact Finset.mem_Ioc.2 (h k (Finmap.mem_keys.1 hk))
  have hcard := Finset.card_le_card hsub
  rw [Nat.card_Ioc] at hcard
  unfold size
  omega

-- And fewer than `n` when one of them is missing.
theorem size_lt_of_window {lo n j : ℕ} (h : ∀ k ∈ m, lo < k ∧ k ≤ lo + n)
    (hlow : lo < j) (hhigh : j ≤ lo + n) (hmissing : j ∉ m) : size m < n := by
  have hsub : m.keys ⊆ (Finset.Ioc lo (lo + n)).erase j := by
    intro k hk
    have hk := Finmap.mem_keys.1 hk
    exact Finset.mem_erase.2 ⟨fun he => hmissing (he ▸ hk), Finset.mem_Ioc.2 (h k hk)⟩
  have hcard := Finset.card_le_card hsub
  rw [Finset.card_erase_of_mem (Finset.mem_Ioc.2 ⟨hlow, hhigh⟩), Nat.card_Ioc] at hcard
  unfold size
  omega

theorem le_size_of_window {lo n : ℕ} (h : ∀ k, lo < k → k ≤ lo + n → k ∈ m) :
    n ≤ size m := by
  have hsub : Finset.Ioc lo (lo + n) ⊆ m.keys := by
    intro k hk
    obtain ⟨hlow, hhigh⟩ := Finset.mem_Ioc.1 hk
    exact Finmap.mem_keys.2 (h k hlow hhigh)
  have hcard := Finset.card_le_card hsub
  rw [Nat.card_Ioc] at hcard
  unfold size
  omega

theorem of_lookup_insert {k j : ℕ} {v w : α} (h : (m.insert k v).lookup j = some w) :
    j = k ∧ w = v ∨ j ≠ k ∧ m.lookup j = some w := by
  by_cases hj : j = k
  · subst hj
    rw [Finmap.lookup_insert] at h
    exact .inl ⟨rfl, (Option.some.inj h).symm⟩
  · rw [Finmap.lookup_insert_of_ne _ hj] at h
    exact .inr ⟨hj, h⟩

theorem of_lookup_erase {k j : ℕ} {w : α} (h : (m.erase k).lookup j = some w) :
    m.lookup j = some w := by
  by_cases hj : j = k
  · rw [hj, Finmap.lookup_erase] at h
    cases h
  · rwa [Finmap.lookup_erase_ne hj] at h

-- Replace the value at `k`, if there is one.
def modify (f : α → α) (m : SeqMap α) (k : ℕ) : SeqMap α :=
  match m.lookup k with
  | none => m
  | some v => m.insert k (f v)

theorem lookup_modify (f : α → α) (m : SeqMap α) (k j : ℕ) :
    (modify f m k).lookup j = if j = k then (m.lookup j).map f else m.lookup j := by
  unfold modify
  split
  · rename_i hk
    split_ifs with hj
    · subst hj
      simp [hk]
    · rfl
  · rename_i v hk
    split_ifs with hj
    · subst hj
      simp [hk, Finmap.lookup_insert]
    · exact Finmap.lookup_insert_of_ne _ hj

-- One update applied at each key of a list.
def modifyAll (f : α → α) (m : SeqMap α) (ks : List ℕ) : SeqMap α :=
  ks.foldl (modify f) m

theorem mem_iff_isSome : k ∈ m ↔ (m.lookup k).isSome = true :=
  Finmap.lookup_isSome.symm

-- What the update leaves alone in every entry it leaves alone in the map.
theorem map_lookup_modifyAll {β : Type} {g : α → β} (hg : ∀ v, g (f v) = g v)
    (m : SeqMap α) (ks : List ℕ) (j : ℕ) :
    ((modifyAll f m ks).lookup j).map g = (m.lookup j).map g := by
  induction ks generalizing m with
  | nil => rfl
  | cons k ks ih =>
      rw [modifyAll, List.foldl_cons]
      refine (ih (modify f m k)).trans ?_
      rw [lookup_modify]
      split_ifs
      · rw [Option.map_map]
        congr 1
        exact funext hg
      · rfl

theorem lookup_modifyAll_of_notMem {j : ℕ} (hj : j ∉ ks) :
    (modifyAll f m ks).lookup j = m.lookup j := by
  induction ks generalizing m with
  | nil => rfl
  | cons k ks ih =>
      obtain ⟨hjk, hj⟩ := not_or.1 (mt List.mem_cons.2 hj)
      rw [modifyAll, List.foldl_cons]
      refine (ih hj).trans ?_
      rw [lookup_modify, if_neg hjk]

theorem lookup_modifyAll (hks : ks.Nodup) (m : SeqMap α) (j : ℕ) :
    (modifyAll f m ks).lookup j = if j ∈ ks then (m.lookup j).map f else m.lookup j := by
  induction ks generalizing m with
  | nil => rfl
  | cons k ks ih =>
      obtain ⟨hk, hks⟩ := List.nodup_cons.1 hks
      rw [modifyAll, List.foldl_cons]
      refine (ih hks (modify f m k)).trans ?_
      rw [lookup_modify]
      by_cases hj : j = k
      · rw [if_neg (hj ▸ hk), if_pos hj, if_pos (hj ▸ List.mem_cons_self)]
      · rw [if_neg hj]
        simp [hj]

def eraseAll (m : SeqMap α) (ks : List ℕ) : SeqMap α :=
  ks.foldl (fun m k => m.erase k) m

theorem lookup_eraseAll (m : SeqMap α) (ks : List ℕ) (j : ℕ) :
    (eraseAll m ks).lookup j = if j ∈ ks then none else m.lookup j := by
  induction ks generalizing m with
  | nil => simp [eraseAll]
  | cons k ks ih =>
      rw [eraseAll, List.foldl_cons]
      refine (ih (m.erase k)).trans ?_
      by_cases hj : j ∈ ks
      · simp [hj]
      · by_cases hk : j = k
        · subst hk
          simp [hj, Finmap.lookup_erase]
        · simp [hj, hk, Finmap.lookup_erase_ne hk]

theorem of_mem_eraseAll (h : k ∈ eraseAll m ks) : k ∈ m := by
  rw [mem_iff_isSome, lookup_eraseAll] at h
  split at h
  · cases h
  · exact mem_iff_isSome.2 h

theorem erase_of_notMem (h : k ∉ m) : m.erase k = m := by
  apply Finmap.ext_lookup
  intro j
  by_cases hj : j = k
  · subst hj
    rw [Finmap.lookup_erase, Finmap.lookup_eq_none.2 h]
  · exact Finmap.lookup_erase_ne hj

theorem size_erase_of_mem (h : k ∈ m) : size (m.erase k) + 1 = size m := by
  rw [size, Finmap.keys_erase]
  exact Finset.card_erase_add_one (Finmap.mem_keys.2 h)

-- An insertion replaces the entry of its key.
theorem size_insert (m : SeqMap α) (k : ℕ) (v : α) : size (m.insert k v) = size (m.erase k) + 1 := by
  have hback : (m.insert k v).erase k = m.erase k := by
    apply Finmap.ext_lookup
    intro j
    by_cases hj : j = k
    · subst hj
      rw [Finmap.lookup_erase, Finmap.lookup_erase]
    · rw [Finmap.lookup_erase_ne hj, Finmap.lookup_erase_ne hj, Finmap.lookup_insert_of_ne _ hj]
  rw [← size_erase_of_mem (Finmap.mem_insert.2 (.inl rfl)), hback]

theorem size_insert_of_notMem (h : k ∉ m) (v : α) :
    size (m.insert k v) = size m + 1 := by
  rw [size_insert, erase_of_notMem h]

-- What a list of distinct keys takes out of the map.
theorem size_eraseAll (hks : ks.Nodup) (m : SeqMap α) :
    size (eraseAll m ks) + (ks.filter (· ∈ m)).length = size m := by
  induction ks generalizing m with
  | nil => rfl
  | cons k ks ih =>
      obtain ⟨hk, hks⟩ := List.nodup_cons.1 hks
      have hrest := ih hks (m.erase k)
      have hsame : ks.filter (· ∈ m.erase k) = ks.filter (· ∈ m) := by
        refine List.filter_congr fun j hj => ?_
        have hne : j ≠ k := fun he => hk (he ▸ hj)
        simp [Finmap.mem_erase, hne]
      rw [hsame] at hrest
      rw [eraseAll, List.foldl_cons, ← eraseAll]
      by_cases hmem : k ∈ m
      · have hsize := size_erase_of_mem hmem
        simp only [List.filter_cons, hmem, decide_true, if_true, List.length_cons]
        omega
      · rw [erase_of_notMem hmem] at hrest ⊢
        simp only [List.filter_cons, hmem, decide_false, Bool.false_eq_true, if_false]
        exact hrest

-- The keys in increasing order.
def ascending (m : SeqMap α) : List ℕ :=
  let hi := m.keys.sup id
  let lo := m.keys.fold min hi id
  (List.range' lo (hi + 1 - lo)).filter (· ∈ m)

theorem mem_ascending : k ∈ ascending m ↔ k ∈ m := by
  rw [ascending, List.mem_filter, decide_eq_true_iff, List.mem_range'_1, and_iff_right_iff_imp]
  intro hk
  have hkey := Finmap.mem_keys.2 hk
  have hhi : k ≤ m.keys.sup id := Finset.le_sup (f := id) hkey
  have hlo := (Finset.fold_min_le (b := m.keys.sup id) (f := id) k).2 (.inr ⟨k, hkey, Nat.le_refl k⟩)
  omega

theorem pairwise_ascending (m : SeqMap α) : (ascending m).Pairwise (· < ·) :=
  (List.pairwise_lt_range' 1).filter _

theorem headD_ascending_le (hk : k ∈ m) (default : ℕ) :
    (ascending m).headD default ≤ k := by
  have hmem := mem_ascending.2 hk
  have hsorted := pairwise_ascending m
  cases hlist : ascending m with
  | nil =>
      rw [hlist] at hmem
      cases hmem
  | cons a rest =>
      rw [hlist] at hmem hsorted
      rcases List.mem_cons.1 hmem with rfl | hmem
      · exact Nat.le_refl _
      · exact ((List.pairwise_cons.1 hsorted).1 k hmem).le

-- What the update keeps true of a value stays true of the entry.
theorem lookup_modifyAll_of {P : α → Prop} (hf : ∀ v, P v → P (f v)) {j : ℕ}
    (hm : ∀ v, m.lookup j = some v → P v) :
    ∀ v, (modifyAll f m ks).lookup j = some v → P v := by
  induction ks generalizing m with
  | nil => exact hm
  | cons k ks ih =>
      rw [modifyAll, List.foldl_cons]
      apply ih
      intro v hv
      rw [lookup_modify] at hv
      split_ifs at hv
      · obtain ⟨w, hw, rfl⟩ := Option.map_eq_some_iff.1 hv
        exact hf w (hm w hw)
      · exact hm v hv

-- What the update makes true, and keeps true, holds of every entry it reached.
theorem lookup_modifyAll_of_mem {P : α → Prop} (hf : ∀ v, P (f v)) {j : ℕ}
    (hj : j ∈ ks) : ∀ v, (modifyAll f m ks).lookup j = some v → P v := by
  induction ks generalizing m with
  | nil => cases hj
  | cons k ks ih =>
      rw [modifyAll, List.foldl_cons]
      rcases List.mem_cons.1 hj with rfl | hj
      · apply lookup_modifyAll_of fun v _ => hf v
        intro v hv
        rw [lookup_modify, if_pos rfl] at hv
        obtain ⟨w, -, rfl⟩ := Option.map_eq_some_iff.1 hv
        exact hf w
      · exact ih hj

end SeqMap
