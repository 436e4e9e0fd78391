import Mathlib.Data.List.Flatten
import Mathlib.Data.List.Perm.Basic

-- Lists used as bags: an element is taken out by `List.erase`.
namespace Bag

variable {α : Type*} [DecidableEq α]

theorem countP_erase_add {p : α → Bool} {l : List α} {a : α} (h : a ∈ l) :
    (l.erase a).countP p + (if p a then 1 else 0) = l.countP p := by
  have hperm := (List.perm_cons_erase h).countP_eq p
  rw [hperm, List.countP_cons]

theorem countP_erase_of_neg {p : α → Bool} {l : List α} {a : α} (hp : p a = false) :
    (l.erase a).countP p = l.countP p := by
  by_cases h : a ∈ l
  · have := countP_erase_add (p := p) h
    simpa [hp] using this
  · rw [List.erase_of_not_mem h]

section Groups

variable {β : Type*}

-- A list is the groups of its elements by key, up to order.
theorem perm_flatMap_filter (key : β → α) {keys : List α} (hnodup : keys.Nodup) {l : List β}
    (hkeys : ∀ b ∈ l, key b ∈ keys) : l.Perm (keys.flatMap fun k => l.filter (key · = k)) := by
  induction keys generalizing l with
  | nil =>
      rw [List.eq_nil_iff_forall_not_mem.2 fun b hb => List.not_mem_nil (hkeys b hb)]
      exact .nil
  | cons k keys ih =>
      obtain ⟨hk, hnodup⟩ := List.nodup_cons.1 hnodup
      have hrest := ih hnodup (l := l.filter fun b => !(decide (key b = k))) fun b hb => by
        obtain ⟨hb, hne⟩ := List.mem_filter.1 hb
        refine (List.mem_cons.1 (hkeys b hb)).resolve_left fun he => ?_
        rw [he] at hne
        simp at hne
      have hsame : (keys.flatMap fun k' => (l.filter fun b => !(decide (key b = k))).filter (key · = k')) =
          keys.flatMap fun k' => l.filter (key · = k') := by
        refine List.flatMap_congr fun k' hk' => ?_
        rw [List.filter_filter]
        refine List.filter_congr fun b _ => ?_
        have hne : k' ≠ k := fun he => hk (he ▸ hk')
        by_cases hb : key b = k'
        · simp [hb, hne]
        · simp [hb]
      rw [hsame] at hrest
      rw [List.flatMap_cons]
      exact (List.filter_append_perm _ l).symm.trans (hrest.append_left _)

variable {γ : Type*} {f g : β → List γ} {l : List β}

-- If nothing is missing in all, nothing is missing in any part.
theorem eq_of_flatMap_eq (h : ∀ b ∈ l, (f b).Sublist (g b)) (heq : l.flatMap f = l.flatMap g) :
    ∀ b ∈ l, f b = g b := by
  induction l with
  | nil => exact List.forall_mem_nil _
  | cons b l ih =>
      obtain ⟨hb, hl⟩ := List.forall_mem_cons.1 h
      rw [List.flatMap_cons, List.flatMap_cons] at heq
      have hlen := congrArg List.length heq
      rw [List.length_append, List.length_append] at hlen
      have hhead := hb.length_le
      have htail := (List.Sublist.flatMap_right l hl).length_le
      have he : f b = g b := hb.eq_of_length (by omega)
      rw [he] at heq
      exact List.forall_mem_cons.2 ⟨he, ih hl (List.append_cancel_left heq)⟩

end Groups

end Bag
