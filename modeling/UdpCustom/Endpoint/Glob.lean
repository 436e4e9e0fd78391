import UdpCustom.Endpoint
import UdpCustom.Lib.Glob
import Mathlib.Data.List.Infix

-- `wildcardMatch` is a glob: it accepts no string the pattern does not expand to, and
-- every such string without a star.
namespace UdpCustom.Endpoint

open UdpCustom.Frame Ascii

def Expands : Bytes → Bytes → Prop :=
  Glob.Expands (ascii '*') (ascii '?')

theorem star_ne_one : ascii '*' ≠ ascii '?' := by
  decide

theorem expands_star_iff {p s : Bytes} :
    Expands (ascii '*' :: p) s ↔ Expands p s ∨ Expands (ascii '*' :: p) s.tail :=
  Glob.expands_star_iff star_ne_one

namespace Cursor

variable {cur cur' : Cursor} {c : UInt8} {pattern s r : Bytes}

-- The next letter of the pattern, if there is one, takes no `c`.
def Stuck (cur : Cursor) (c : UInt8) : Prop :=
  ∀ q p, cur.pattern = q :: p → (q ≠ ascii '?' ∧ q ≠ c) ∧ q ≠ ascii '*'

theorem retry_cases (h : cur.retry = some cur') :
    ∃ p' s', cur.star = some (p', s') ∧ cur' = ⟨p', s'.tail, some (p', s'.tail)⟩ := by
  obtain ⟨⟨p', s'⟩, hstar, rfl⟩ := Option.map_eq_some_iff.1 h
  exact ⟨p', s', hstar, rfl⟩

theorem turn_cases (h : cur.turn c = some cur') :
    (∃ q p, cur.pattern = q :: p ∧ (q = ascii '?' ∨ q = c) ∧
      cur' = { cur with pattern := p, rest := cur.rest.tail }) ∨
    (∃ p, cur.pattern = ascii '*' :: p ∧
      cur' = { cur with pattern := p, star := some (p, cur.rest) }) ∨
    (cur.Stuck c ∧ ∃ p' s', cur.star = some (p', s') ∧ cur' = ⟨p', s'.tail, some (p', s'.tail)⟩) := by
  unfold turn at h
  split at h
  · rename_i hp
    refine .inr (.inr ⟨fun q p hq => ?_, retry_cases h⟩)
    rw [hp] at hq
    cases hq
  · rename_i q p hp
    split_ifs at h with hone hstar
    · cases h
      exact .inl ⟨q, p, hp, hone, rfl⟩
    · cases h
      exact .inr (.inl ⟨p, hstar ▸ hp, rfl⟩)
    · refine .inr (.inr ⟨fun q' p' hq => ?_, retry_cases h⟩)
      rw [hp] at hq
      cases hq
      exact ⟨not_or.1 hone, hstar⟩

theorem turn_none (h : cur.turn c = none) : cur.Stuck c ∧ cur.star = none := by
  unfold turn at h
  split at h
  · rename_i hp
    refine ⟨fun q p hq => ?_, Option.map_eq_none_iff.1 h⟩
    rw [hp] at hq
    cases hq
  · rename_i q p hp
    split_ifs at h with hone hstar
    refine ⟨fun q' p' hq => ?_, Option.map_eq_none_iff.1 h⟩
    rw [hp] at hq
    cases hq
    exact ⟨not_or.1 hone, hstar⟩

theorem not_expands_of_stuck (h : cur.Stuck c) : ¬Expands cur.pattern (c :: r) := by
  intro hexp
  cases hp : cur.pattern with
  | nil =>
      rw [hp] at hexp
      cases hexp
  | cons q p =>
      obtain ⟨⟨hone, hc⟩, hstar⟩ := h q p hp
      rw [hp] at hexp
      obtain ⟨c', rest, he, hq, -⟩ := hexp.of_cons hstar
      cases he
      exact hq.elim hone hc

-- What the loop still looks for: the rest of the pattern here, or the part behind the
-- last star at a later place.
def Matches (cur : Cursor) : Prop :=
  Expands cur.pattern cur.rest ∨
    ∃ p' s', cur.star = some (p', s') ∧ Expands (ascii '*' :: p') s'.tail

theorem matches_retried {p' s' : Bytes} :
    Matches ⟨p', s', some (p', s')⟩ ↔ Expands (ascii '*' :: p') s' := by
  rw [expands_star_iff]
  refine or_congr_right ⟨?_, fun h => ⟨p', s', rfl, h⟩⟩
  rintro ⟨p'', s'', he, h⟩
  cases he
  exact h

theorem matches_of_turn (hrest : cur.rest = c :: r) (h : cur.turn c = some cur')
    (hm : cur'.Matches) : cur.Matches := by
  obtain ⟨q, p, hp, hq, rfl⟩ | ⟨p, hp, rfl⟩ | ⟨-, p', s', hstar, rfl⟩ := turn_cases h
  · rcases hm with hnow | hlater
    · left
      rw [hp, hrest]
      have hnow : Expands p r := by
        rw [hrest] at hnow
        exact hnow
      rcases hq with rfl | rfl
      · exact .one hnow
      · -- a star of the string is taken for a letter
        by_cases hc : q = ascii '*'
        · rw [hc]
          exact .more (.skip hnow)
        · exact .letter hc hnow
    · exact .inr hlater
  · left
    rw [hp]
    exact matches_retried.1 hm
  · exact .inr ⟨p', s', hstar, matches_retried.1 hm⟩

-- Behind the last star the loop has taken as many letters of the string as of the
-- pattern, and passed no other star.
structure Within (pattern s : Bytes) (cur : Cursor) : Prop where
  left : cur.pattern <:+ pattern
  rest : cur.rest <:+ s
  star : ∀ p' s', cur.star = some (p', s') → p' <:+ pattern ∧ s' <:+ s ∧
    ∃ lit m, p' = lit ++ cur.pattern ∧ s' = m ++ cur.rest ∧ m.length = lit.length ∧
      (ascii '*' ∉ s → ascii '*' ∉ lit)

theorem within_start : Within pattern s ⟨pattern, s, none⟩ where
  left := List.suffix_rfl
  rest := List.suffix_rfl
  star := fun _ _ h => by cases h

theorem within_retried {p' s' : Bytes} (hp : p' <:+ pattern) (hs : s' <:+ s) :
    Within pattern s ⟨p', s', some (p', s')⟩ where
  left := hp
  rest := hs
  star := by
    intro p'' s'' he
    cases he
    exact ⟨hp, hs, [], [], rfl, rfl, rfl, fun _ => List.not_mem_nil⟩

theorem within_turn (hin : cur.Within pattern s) (hrest : cur.rest = c :: r)
    (h : cur.turn c = some cur') : cur'.Within pattern s := by
  obtain ⟨q, p, hp, hq, rfl⟩ | ⟨p, hp, rfl⟩ | ⟨-, p', s', hstar, rfl⟩ := turn_cases h
  · refine ⟨(List.suffix_cons q p).trans (hp ▸ hin.left), (List.tail_suffix _).trans hin.rest, ?_⟩
    intro p' s' hstar
    obtain ⟨hp', hs', lit, m, hlit, hm, hlen, hplain⟩ := hin.star p' s' hstar
    refine ⟨hp', hs', lit ++ [q], m ++ [c], ?_, ?_, ?_, ?_⟩
    · rw [hlit, hp, List.append_assoc, List.singleton_append]
    · rw [hm, hrest, List.append_assoc, List.singleton_append, List.tail_cons]
    · rw [List.length_append, List.length_append, hlen]
      rfl
    · intro hno
      have hc : c ≠ ascii '*' := fun he =>
        hno (hin.rest.subset (hrest ▸ he ▸ List.mem_cons_self))
      rw [List.mem_append, List.mem_singleton, not_or]
      refine ⟨hplain hno, ?_⟩
      rintro rfl
      rcases hq with hq | hq
      · exact star_ne_one hq
      · exact hc hq.symm
  · exact within_retried ((List.suffix_cons _ p).trans (hp ▸ hin.left)) hin.rest
  · obtain ⟨hp', hs', -⟩ := hin.star p' s' hstar
    exact within_retried hp' ((List.tail_suffix s').trans hs')

-- A later place for the last star leaves the rest of the pattern no more of the
-- string than it has now.
theorem Within.expands_suffix (hin : cur.Within pattern s) (hno : ascii '*' ∉ s) {p' s' : Bytes}
    (hstar : cur.star = some (p', s')) (h : Expands (ascii '*' :: p') s'.tail) :
    ∃ v, v <:+ cur.rest ∧ Expands cur.pattern v := by
  obtain ⟨-, -, lit, m, rfl, rfl, hlen, hplain⟩ := hin.star p' s' hstar
  obtain ⟨u, w, htail, hw⟩ := h.of_star star_ne_one
  obtain ⟨m', v, rfl, hlen', hv⟩ := hw.of_append (hplain hno)
  have hsuffix : v <:+ m ++ cur.rest :=
    List.IsSuffix.trans ⟨u ++ m', by rw [List.append_assoc, htail]⟩ (List.tail_suffix _)
  refine ⟨v, List.suffix_of_suffix_length_le hsuffix (List.suffix_append _ _) ?_, hv⟩
  have htotal := congrArg List.length htail
  simp only [List.length_tail, List.length_append] at htotal
  omega

theorem matches_turn (hin : cur.Within pattern s) (hno : ascii '*' ∉ s) (hrest : cur.rest = c :: r)
    (h : cur.turn c = some cur') (hm : cur.Matches) : cur'.Matches := by
  obtain ⟨q, p, hp, hq, rfl⟩ | ⟨p, hp, rfl⟩ | ⟨hstuck, p', s', hstar, rfl⟩ := turn_cases h
  · rcases hm with hnow | hlater
    · left
      have hc : c ≠ ascii '*' := fun he =>
        hno (hin.rest.subset (hrest ▸ he ▸ List.mem_cons_self))
      have hq' : q ≠ ascii '*' := by
        rcases hq with rfl | rfl
        · exact star_ne_one.symm
        · exact hc
      rw [hp] at hnow
      obtain ⟨c', rest, he, -, hr⟩ := hnow.of_cons hq'
      rw [he]
      exact hr
    · exact .inr hlater
  · refine matches_retried.2 ?_
    rcases hm with hnow | ⟨p', s', hstar, hlater⟩
    · exact hp ▸ hnow
    · -- the new star takes what the old one would have taken
      obtain ⟨v, ⟨u, hu⟩, hv⟩ := hin.expands_suffix hno hstar hlater
      rw [hp] at hv
      exact hu ▸ hv.extend u
  · refine matches_retried.2 ?_
    rcases hm with hnow | ⟨p'', s'', hstar', hlater⟩
    · rw [hrest] at hnow
      exact absurd hnow (not_expands_of_stuck hstuck)
    · rw [hstar] at hstar'
      cases hstar'
      exact hlater

theorem not_matches_of_none (hrest : cur.rest = c :: r) (h : cur.turn c = none) : ¬cur.Matches := by
  obtain ⟨hstuck, hnone⟩ := turn_none h
  rintro (hnow | ⟨p', s', hstar, -⟩)
  · rw [hrest] at hnow
    exact not_expands_of_stuck hstuck hnow
  · rw [hnone] at hstar
    cases hstar

-- The place of the last star in the pattern, then in the string, then what is left of
-- the pattern, read as one number.
def rank (pattern s : Bytes) (cur : Cursor) : ℕ :=
  ((cur.star.elim (pattern.length + 1) (·.1.length)) * (s.length + 1)
    + cur.star.elim s.length (·.2.length)) * (pattern.length + 1) + cur.pattern.length

theorem digits_lt {base a a' b b' : ℕ} (ha : a' < a) (hb : b' < base) :
    a' * base + b' < a * base + b :=
  calc a' * base + b' < a' * base + base := Nat.add_lt_add_left hb _
    _ = (a' + 1) * base := (Nat.succ_mul a' base).symm
    _ ≤ a * base := Nat.mul_le_mul_right base ha
    _ ≤ a * base + b := Nat.le_add_right _ b

theorem rank_turn (hin : cur.Within pattern s) (hrest : cur.rest = c :: r)
    (h : cur.turn c = some cur') : cur'.rank pattern s < cur.rank pattern s := by
  obtain ⟨q, p, hp, hq, rfl⟩ | ⟨p, hp, rfl⟩ | ⟨-, p', s', hstar, rfl⟩ := turn_cases h
  · refine Nat.add_lt_add_left ?_ _
    rw [hp]
    exact Nat.lt_succ_self _
  · have hlen : p.length < pattern.length := by
      have hle := hin.left.length_le
      rw [hp] at hle
      exact hle
    have hshorter : p.length < cur.star.elim (pattern.length + 1) (·.1.length) := by
      cases hstar : cur.star with
      | none => exact Nat.lt_succ_of_lt hlen
      | some star =>
          obtain ⟨-, -, lit, m, hlit, -, -, -⟩ := hin.star star.1 star.2 hstar
          rw [Option.elim_some, hlit, hp, List.length_append, List.length_cons]
          omega
    exact digits_lt (digits_lt hshorter (Nat.lt_succ_of_le hin.rest.length_le)) (Nat.lt_succ_of_lt hlen)
  · obtain ⟨hp', -, lit, m, -, hm, -, -⟩ := hin.star p' s' hstar
    have hshorter : s'.tail.length < s'.length := by
      rw [hm, hrest, List.length_tail, List.length_append, List.length_cons]
      omega
    unfold rank
    rw [hstar]
    exact digits_lt (Nat.add_lt_add_left hshorter _) (Nat.lt_succ_of_le hp'.length_le)

end Cursor

variable {pattern s : Bytes}

theorem matches_of_matchLoop {fuel : ℕ} {cur : Cursor} (h : matchLoop fuel cur = some true) :
    cur.Matches := by
  induction fuel generalizing cur with
  | zero => cases h
  | succ fuel ih =>
      unfold matchLoop at h
      split at h
      · rename_i hrest
        left
        rw [hrest]
        rw [Option.some.injEq, List.all_eq_true] at h
        exact Glob.expands_nil_iff.2 fun q hq => of_decide_eq_true (h q hq)
      · rename_i c r hrest
        split at h
        · cases h
        · rename_i cur' hturn
          exact Cursor.matches_of_turn hrest hturn (ih h)

theorem not_matches_of_matchLoop {fuel : ℕ} {cur : Cursor} (hin : cur.Within pattern s)
    (hno : ascii '*' ∉ s) (h : matchLoop fuel cur = some false) : ¬cur.Matches := by
  induction fuel generalizing cur with
  | zero => cases h
  | succ fuel ih =>
      unfold matchLoop at h
      split at h
      · rename_i hrest
        have hnow : ¬Expands cur.pattern [] := by
          intro hexp
          have hall : cur.pattern.all (· = ascii '*') = true :=
            List.all_eq_true.2 fun q hq => decide_eq_true (Glob.expands_nil_iff.1 hexp q hq)
          rw [hall] at h
          cases h
        rintro (hexp | ⟨p', s', hstar, hlater⟩)
        · exact hnow (hrest ▸ hexp)
        · obtain ⟨v, hv, hexp⟩ := hin.expands_suffix hno hstar hlater
          rw [hrest, List.suffix_nil] at hv
          exact hnow (hv ▸ hexp)
      · rename_i c r hrest
        split at h
        · rename_i hturn
          exact Cursor.not_matches_of_none hrest hturn
        · rename_i cur' hturn
          exact fun hm => ih (Cursor.within_turn hin hrest hturn) h
            (Cursor.matches_turn hin hno hrest hturn hm)

theorem exists_matchLoop {fuel : ℕ} {cur : Cursor} (hin : cur.Within pattern s)
    (hfuel : cur.rank pattern s < fuel) : ∃ b, matchLoop fuel cur = some b := by
  induction fuel generalizing cur with
  | zero => exact absurd hfuel (Nat.not_lt_zero _)
  | succ fuel ih =>
      unfold matchLoop
      split
      · exact ⟨_, rfl⟩
      · rename_i c r hrest
        split
        · exact ⟨_, rfl⟩
        · rename_i cur' hturn
          have hrank := Cursor.rank_turn hin hrest hturn
          exact ih (Cursor.within_turn hin hrest hturn) (by omega)

-- The loop ends before the fuel does.
theorem matchLoop_matchFuel (pattern s : Bytes) :
    matchLoop (matchFuel pattern s) ⟨pattern, s, none⟩ = some (wildcardMatch pattern s) := by
  have hrank : Cursor.rank pattern s ⟨pattern, s, none⟩ < matchFuel pattern s := by
    have h := Cursor.digits_lt (b := 0) (Cursor.digits_lt (b := 0) (Nat.lt_succ_self (pattern.length + 1))
      (Nat.lt_succ_self s.length)) (Nat.lt_succ_self pattern.length)
    exact h
  obtain ⟨b, hb⟩ := exists_matchLoop Cursor.within_start hrank
  rw [wildcardMatch, hb]
  rfl

theorem matches_start : Cursor.Matches ⟨pattern, s, none⟩ ↔ Expands pattern s := by
  refine or_iff_left ?_
  rintro ⟨p', s', he, -⟩
  cases he

theorem expands_of_wildcardMatch (h : wildcardMatch pattern s = true) : Expands pattern s := by
  have hloop := matchLoop_matchFuel pattern s
  rw [h] at hloop
  exact matches_start.1 (matches_of_matchLoop hloop)

theorem wildcardMatch_of_expands (hno : ascii '*' ∉ s) (h : Expands pattern s) :
    wildcardMatch pattern s = true := by
  have hloop := matchLoop_matchFuel pattern s
  by_contra hfalse
  rw [Bool.eq_false_iff.2 hfalse] at hloop
  exact not_matches_of_matchLoop Cursor.within_start hno hloop (matches_start.2 h)

theorem matchLoop_of_le {fuel more : ℕ} {cur : Cursor} {b : Bool} (h : matchLoop fuel cur = some b)
    (hle : fuel ≤ more) : matchLoop more cur = some b := by
  induction fuel generalizing more cur with
  | zero => cases h
  | succ fuel ih =>
      obtain ⟨more, rfl⟩ := Nat.exists_eq_add_of_le' (Nat.le_trans (Nat.le_add_left 1 fuel) hle)
      unfold matchLoop at h ⊢
      split at h
      · exact h
      · split at h
        · exact h
        · exact ih h (Nat.le_of_succ_le_succ hle)

theorem wildcardMatch_is_glob (pattern s : Bytes) :
    (∀ fuel, matchFuel pattern s ≤ fuel →
      matchLoop fuel ⟨pattern, s, none⟩ = some (wildcardMatch pattern s)) ∧
    (wildcardMatch pattern s = true → Expands pattern s) ∧
    (ascii '*' ∉ s → (wildcardMatch pattern s = true ↔ Expands pattern s)) :=
  ⟨fun _ hfuel => matchLoop_of_le (matchLoop_matchFuel pattern s) hfuel, expands_of_wildcardMatch,
    fun hno => ⟨expands_of_wildcardMatch, wildcardMatch_of_expands hno⟩⟩

end UdpCustom.Endpoint
