import UdpCustom.Limiter
import UdpCustom.Lib.TokenBucket
import UdpCustom.Lib.Unordered
import Mathlib.Data.List.Nodup
import Mathlib.Tactic.Linarith

-- What a source could still get, its bucket's level or a full burst if it has none,
-- only grows with time at the rate, and an accepted SYN costs one of it. Forgetting
-- an idle bucket does not change it.
namespace UdpCustom.Limiter

open TokenBucket

variable {IP : Type} {l : SynLimiter IP} {now : ℤ} {b : SynBucket IP} {calls : List (Call IP)}

structure SynLimiter.Sound (l : SynLimiter IP) (now : ℤ) : Prop where
  ips : (l.buckets.map (·.ip)).Nodup
  size : l.buckets.length ≤ synLimiterMaxBuckets
  tokens : ∀ b ∈ l.buckets, 0 ≤ b.tokens ∧ b.tokens ≤ l.burst
  past : ∀ b ∈ l.buckets, b.last ≤ now

-- A minute's worth of tokens fills a bucket.
structure SynLimiter.Quick (l : SynLimiter IP) : Prop where
  rate : 0 ≤ l.rate
  burst : 1 ≤ l.burst
  minute : l.burst ≤ l.rate * 60

theorem seconds_nonneg {d : ℤ} (h : 0 ≤ d) : 0 ≤ seconds d :=
  div_nonneg (Int.cast_nonneg h) (by norm_num)

theorem seconds_add (d e : ℤ) : seconds (d + e) = seconds d + seconds e := by
  rw [seconds, Int.cast_add, add_div]
  rfl

theorem SynBucket.tokens_refill (rate burst : ℚ) (now : ℤ) (b : SynBucket IP) :
    (b.refill rate burst now).tokens = level rate burst b.tokens (seconds (now - b.last)) := by
  rw [level, mul_comm rate, min_comm, min_def_lt]
  unfold refill
  dsimp only
  split_ifs <;> linarith

-- A bucket after one call: refilled, and less one token if there was one.
def SynBucket.serve (rate burst : ℚ) (now : ℤ) (b : SynBucket IP) : Bool × SynBucket IP :=
  (b.refill rate burst now).take

theorem SynBucket.serve_spec (rate burst : ℚ) (now : ℤ) (b : SynBucket IP) :
    (b.serve rate burst now).2.ip = b.ip ∧ (b.serve rate burst now).2.last = now ∧
      (b.serve rate burst now).2.tokens + (if (b.serve rate burst now).1 then 1 else 0) =
        level rate burst b.tokens (seconds (now - b.last)) := by
  rw [← SynBucket.tokens_refill, serve, take]
  split
  · exact ⟨rfl, rfl, add_zero _⟩
  · exact ⟨rfl, rfl, sub_add_cancel _ _⟩

theorem SynBucket.serve_bounds {rate burst : ℚ} (hrate : 0 ≤ rate) (hburst : 1 ≤ burst)
    (htokens : 0 ≤ b.tokens) (hpast : b.last ≤ now) :
    0 ≤ (b.serve rate burst now).2.tokens ∧ (b.serve rate burst now).2.tokens ≤ burst := by
  have hlevel := level_nonneg (zero_le_one.trans hburst) hrate htokens
    (seconds_nonneg (Int.sub_nonneg.2 hpast))
  have hfull : level rate burst b.tokens (seconds (now - b.last)) ≤ burst := level_le
  rw [← SynBucket.tokens_refill] at hlevel hfull
  rw [serve, take]
  split
  · exact ⟨hlevel, hfull⟩
  · constructor <;> dsimp only <;> linarith

theorem available_of_idle (hq : l.Quick) (htokens : 0 ≤ b.tokens) (hidle : b.idle now = true) :
    level l.rate l.burst b.tokens (seconds (now - b.last)) = l.burst := by
  apply level_full
  have hminute : (60 : ℚ) ≤ seconds (now - b.last) := by
    have hlong : ((60 * 10 ^ 9 : ℤ) : ℚ) ≤ ((now - b.last : ℤ) : ℚ) :=
      Int.cast_le.2 (of_decide_eq_true hidle).le
    rw [seconds, le_div_iff₀ (by norm_num)]
    exact_mod_cast hlong
  have hgain := mul_le_mul_of_nonneg_left hminute hq.rate
  have hfill := hq.minute
  linarith

theorem SynBucket.level_serve {rate burst : ℚ} (hrate : 0 ≤ rate) (hburst : 1 ≤ burst)
    (htokens : 0 ≤ b.tokens) (hpast : b.last ≤ now) :
    level rate burst (b.serve rate burst now).2.tokens (seconds (now - (b.serve rate burst now).2.last)) +
        (if (b.serve rate burst now).1 = true then 1 else 0) =
      level rate burst b.tokens (seconds (now - b.last)) := by
  obtain ⟨-, hlast, hlevel⟩ := b.serve_spec rate burst now
  have hzero : seconds 0 = 0 := by norm_num [seconds]
  rw [hlast, sub_self, hzero, level_zero (serve_bounds hrate hburst htokens hpast).2, hlevel]

theorem oldestBucket_mem {buckets : List (SynBucket IP)} (h : buckets ≠ []) :
    ∃ o ∈ buckets, oldestBucket buckets = some o := by
  have hstep : ∀ (best : Option (SynBucket IP)) b,
      (older best b = best ∧ (True → best ≠ none)) ∨ (older best b = some b ∧ True) := by
    intro best b
    unfold older
    split
    · exact .inr ⟨rfl, trivial⟩
    · split
      · exact .inr ⟨rfl, trivial⟩
      · exact .inl ⟨rfl, fun _ => nofun⟩
  obtain ⟨first, hfirst⟩ := List.exists_mem_of_ne_nil buckets h
  obtain ⟨o, ho, hfrom⟩ := Unordered.exists_foldl_best hstep buckets none (.inr ⟨first, hfirst, trivial⟩)
  exact ⟨o, (hfrom.resolve_left nofun).1, ho⟩

variable [DecidableEq IP] {ip : IP} {walk : Walk IP} {start : ℤ}

theorem makeRoom_sublist (l : SynLimiter IP) (walk : Walk IP) (now : ℤ) :
    (l.makeRoom walk now).Sublist l.buckets := by
  unfold SynLimiter.makeRoom
  split
  · dsimp only
    split
    · exact List.filter_sublist
    · exact List.filter_sublist.trans List.filter_sublist
  · exact List.Sublist.refl _

theorem length_makeRoom (h : l.buckets.length ≤ synLimiterMaxBuckets) (walk : Walk IP) (now : ℤ) :
    (l.makeRoom walk now).length < synLimiterMaxBuckets := by
  have hkept := List.length_filter_le (fun b => !b.idle now) l.buckets
  unfold SynLimiter.makeRoom SynLimiter.victim
  dsimp only
  by_cases hfull : synLimiterMaxBuckets ≤ l.buckets.length
  · rw [if_pos hfull]
    by_cases hbusy : synLimiterMaxBuckets ≤ (l.buckets.filter fun b => !b.idle now).length
    · have hne : walk.1 (l.buckets.filter fun b => !b.idle now) ≠ [] := by
        intro hnil
        have hlen := (walk.2 (l.buckets.filter fun b => !b.idle now)).length_eq
        rw [hnil] at hlen
        rw [← hlen] at hbusy
        cases hbusy
      obtain ⟨o, ho, holdest⟩ := oldestBucket_mem hne
      rw [if_pos ⟨hfull, hbusy⟩, holdest]
      have hless : ((l.buckets.filter fun b => !b.idle now).filter (·.ip ≠ o.ip)).length <
          (l.buckets.filter fun b => !b.idle now).length :=
        List.length_filter_lt_length_iff_exists.2 ⟨o, (walk.2 _).mem_iff.1 ho, by simp⟩
      exact hless.trans_le (hkept.trans h)
    · rw [if_neg fun hboth => hbusy hboth.2]
      exact Nat.not_le.1 hbusy
  · rw [if_neg hfull]
    exact Nat.not_le.1 hfull

-- Only an idle bucket or the least recently used one is forgotten.
theorem forgotten (hb : b ∈ l.buckets) (hgone : b ∉ l.makeRoom walk now) :
    b.idle now = true ∨ (l.victim walk now).map (·.ip) = some b.ip := by
  unfold SynLimiter.makeRoom at hgone
  split at hgone
  · by_cases hidle : b.idle now = true
    · exact .inl hidle
    · have hkept : b ∈ l.buckets.filter fun b => !b.idle now :=
        List.mem_filter.2 ⟨hb, by simpa using hidle⟩
      dsimp only at hgone
      split at hgone
      · exact absurd hkept hgone
      · rename_i o hvictim
        refine .inr ?_
        rw [hvictim, Option.map_some]
        by_contra hne
        refine hgone (List.mem_filter.2 ⟨hkept, decide_eq_true fun he => hne ?_⟩)
        rw [he]
  · exact absurd hb hgone

theorem of_find (h : l.find ip = some b) : b ∈ l.buckets ∧ b.ip = ip :=
  ⟨List.mem_of_find?_eq_some h, by simpa using List.find?_some h⟩

theorem find_eq_some_iff (h : (l.buckets.map (·.ip)).Nodup) :
    l.find ip = some b ↔ b ∈ l.buckets ∧ b.ip = ip := by
  refine ⟨of_find, fun ⟨hb, hip⟩ => ?_⟩
  have hsome : (l.find ip).isSome = true := List.find?_isSome.2 ⟨b, hb, decide_eq_true hip⟩
  obtain ⟨found, hfound⟩ := Option.isSome_iff_exists.1 hsome
  obtain ⟨hmem, hsame⟩ := of_find hfound
  rw [hfound, List.inj_on_of_nodup_map h hmem hb (hsame.trans hip.symm)]

theorem find_eq_none_iff : l.find ip = none ↔ ∀ b ∈ l.buckets, b.ip ≠ ip := by
  rw [SynLimiter.find, List.find?_eq_none]
  simp only [decide_eq_true_eq, ne_eq]

-- A call finds its bucket and serves it in place, or makes room and serves a full one.
theorem allow_cases (l : SynLimiter IP) (walk : Walk IP) (ip : IP) (now : ℤ) :
    (∃ b, l.find ip = some b ∧ l.evicted walk ip now = none ∧
      l.allow walk ip now = ((b.serve l.rate l.burst now).1,
        { l with buckets := l.buckets.map fun o =>
            if o.ip = ip then (b.serve l.rate l.burst now).2 else o })) ∨
    (∃ b : SynBucket IP, b = { ip := ip, tokens := l.burst, last := now } ∧ l.find ip = none ∧
      l.evicted walk ip now = (l.victim walk now).map (·.ip) ∧
      l.allow walk ip now = ((b.serve l.rate l.burst now).1,
        { l with buckets := (b.serve l.rate l.burst now).2 :: l.makeRoom walk now })) := by
  unfold SynLimiter.allow SynLimiter.evicted
  cases hfind : l.find ip with
  | some b => exact .inl ⟨b, rfl, rfl, rfl⟩
  | none => exact .inr ⟨_, rfl, rfl, rfl, rfl⟩

theorem SynLimiter.Sound.allow {earlier : ℤ} (h : l.Sound earlier) (hq : l.Quick) (hle : earlier ≤ now)
    (walk : Walk IP) (ip : IP) : (l.allow walk ip now).2.Sound now := by
  rcases allow_cases l walk ip now with ⟨b, hfind, -, he⟩ | ⟨b, rfl, hfind, -, he⟩
  · obtain ⟨hb, hip⟩ := of_find hfind
    obtain ⟨hip', hlast, -⟩ := b.serve_spec l.rate l.burst now
    have hbounds := SynBucket.serve_bounds hq.rate hq.burst (h.tokens b hb).1 ((h.past b hb).trans hle)
    rw [he]
    refine ⟨?_, (List.length_map _).trans_le h.size, fun o ho => ?_, fun o ho => ?_⟩
    · have hsame : (l.buckets.map fun o => if o.ip = ip then (b.serve l.rate l.burst now).2 else o).map
          (·.ip) = l.buckets.map (·.ip) := by
        rw [List.map_map]
        refine List.map_congr_left fun o _ => ?_
        dsimp only [Function.comp]
        split
        · rename_i ho
          rw [hip', hip, ho]
        · rfl
      exact hsame ▸ h.ips
    · obtain ⟨old, hold, rfl⟩ := List.mem_map.1 ho
      dsimp only
      split
      · exact hbounds
      · exact h.tokens old hold
    · obtain ⟨old, hold, rfl⟩ := List.mem_map.1 ho
      split
      · exact hlast.le
      · exact (h.past old hold).trans hle
  · have hsub := makeRoom_sublist l walk now
    have hburst : 0 ≤ l.burst := zero_le_one.trans hq.burst
    obtain ⟨hip', hlast, -⟩ := SynBucket.serve_spec l.rate l.burst now
      { ip := ip, tokens := l.burst, last := now }
    have hbounds := SynBucket.serve_bounds hq.rate hq.burst
      (b := { ip := ip, tokens := l.burst, last := now }) hburst (le_refl now)
    rw [he]
    refine ⟨?_, length_makeRoom h.size walk now, fun o ho => ?_, fun o ho => ?_⟩
    · refine List.nodup_cons.2 ⟨fun hmem => ?_, h.ips.sublist (hsub.map _)⟩
      obtain ⟨o, ho, hsame⟩ := List.mem_map.1 hmem
      exact find_eq_none_iff.1 hfind o (hsub.subset ho) (hsame.trans hip')
    · rcases List.mem_cons.1 ho with rfl | ho
      · exact hbounds
      · exact h.tokens o (hsub.subset ho)
    · rcases List.mem_cons.1 ho with rfl | ho
      · exact hlast.le
      · exact (h.past o (hsub.subset ho)).trans hle

theorem SynLimiter.Quick.allow (h : l.Quick) (walk : Walk IP) (ip : IP) (now : ℤ) :
    (l.allow walk ip now).2.Quick := by
  rcases allow_cases l walk ip now with ⟨b, -, -, he⟩ | ⟨b, -, -, -, he⟩
  · rw [he]
    exact ⟨h.rate, h.burst, h.minute⟩
  · rw [he]
    exact ⟨h.rate, h.burst, h.minute⟩

def SynLimiter.available (l : SynLimiter IP) (ip : IP) (now : ℤ) : ℚ :=
  (l.find ip).elim l.burst fun b => level l.rate l.burst b.tokens (seconds (now - b.last))

theorem available_nonneg (h : l.Sound now) (hq : l.Quick) (ip : IP) : 0 ≤ l.available ip now := by
  have hburst : 0 ≤ l.burst := zero_le_one.trans hq.burst
  unfold SynLimiter.available
  cases hfind : l.find ip with
  | none => exact hburst
  | some b =>
      obtain ⟨hb, -⟩ := of_find hfind
      exact level_nonneg hburst hq.rate (h.tokens b hb).1
        (seconds_nonneg (Int.sub_nonneg.2 (h.past b hb)))

theorem available_le (l : SynLimiter IP) (ip : IP) (now : ℤ) : l.available ip now ≤ l.burst := by
  unfold SynLimiter.available
  cases l.find ip with
  | none => exact le_rfl
  | some b => exact level_le

theorem available_later (hq : l.Quick) (ip : IP) {later : ℤ} (hle : now ≤ later) :
    l.available ip later ≤ l.available ip now + l.rate * seconds (later - now) := by
  have hmore := seconds_nonneg (Int.sub_nonneg.2 hle)
  unfold SynLimiter.available
  cases l.find ip with
  | none => exact le_add_of_nonneg_right (mul_nonneg hq.rate hmore)
  | some b =>
      have hsplit : later - b.last = now - b.last + (later - now) := by omega
      rw [Option.elim_some, Option.elim_some, hsplit, seconds_add]
      exact level_add_le hq.rate hmore

-- A source whose bucket is merely forgotten is none the better for it.
theorem available_makeRoom {earlier : ℤ} (h : l.Sound earlier) (hq : l.Quick)
    (hkept : (l.victim walk now).map (·.ip) ≠ some ip) :
    ((l.makeRoom walk now).find? (·.ip = ip)).elim l.burst
        (fun b => level l.rate l.burst b.tokens (seconds (now - b.last))) = l.available ip now := by
  have hsub := makeRoom_sublist l walk now
  let room : SynLimiter IP := { l with buckets := l.makeRoom walk now }
  have hips : (room.buckets.map (·.ip)).Nodup := h.ips.sublist (hsub.map _)
  change (room.find ip).elim _ _ = (l.find ip).elim _ _
  cases hfind : l.find ip with
  | none =>
      have hnone : room.find ip = none :=
        find_eq_none_iff.2 fun b hb => find_eq_none_iff.1 hfind b (hsub.subset hb)
      rw [hnone]
  | some b =>
      obtain ⟨hb, rfl⟩ := of_find hfind
      by_cases hstays : b ∈ l.makeRoom walk now
      · rw [(find_eq_some_iff hips).2 ⟨hstays, rfl⟩]
      · have hidle : b.idle now = true := (forgotten hb hstays).resolve_right hkept
        have hnone : room.find b.ip = none := by
          refine find_eq_none_iff.2 fun o ho hip => hstays ?_
          exact List.inj_on_of_nodup_map h.ips (hsub.subset ho) hb hip ▸ ho
        rw [hnone, Option.elim_none, Option.elim_some, available_of_idle hq (h.tokens b hb).1 hidle]

theorem find_update {f : SynBucket IP → SynBucket IP} (hf : ∀ o, (f o).ip = o.ip) :
    ({ l with buckets := l.buckets.map f } : SynLimiter IP).find ip = (l.find ip).map f := by
  rw [SynLimiter.find, List.find?_map]
  simp only [Function.comp_def, hf]
  rfl

-- One call costs the caller what it grants, and nobody else anything.
theorem available_allow {earlier : ℤ} (h : l.Sound earlier) (hq : l.Quick) (hle : earlier ≤ now)
    (caller : IP) (hkept : l.evicted walk caller now ≠ some ip) :
    (l.allow walk caller now).2.available ip now +
        (if caller = ip ∧ (l.allow walk caller now).1 = true then 1 else 0) =
      l.available ip now := by
  rcases allow_cases l walk caller now with ⟨b, hfind, -, he⟩ | ⟨b, rfl, hfind, hevicted, he⟩
  · obtain ⟨hb, hip⟩ := of_find hfind
    have hserved := SynBucket.level_serve hq.rate hq.burst (h.tokens b hb).1 ((h.past b hb).trans hle)
    have hupdate : ∀ o : SynBucket IP,
        (if o.ip = caller then (b.serve l.rate l.burst now).2 else o).ip = o.ip := by
      intro o
      split
      · rename_i ho
        rw [(b.serve_spec l.rate l.burst now).1, hip, ho]
      · rfl
    rw [he, SynLimiter.available, find_update hupdate, SynLimiter.available]
    by_cases hsame : caller = ip
    · subst hsame
      rw [hfind, Option.map_some, Option.elim_some, if_pos hip, Option.elim_some, ← hserved]
      simp only [true_and]
    · rw [if_neg fun hboth => hsame hboth.1, add_zero]
      cases hother : l.find ip with
      | none => rfl
      | some o =>
          have ho : o.ip ≠ caller := fun heq => hsame (heq.symm.trans (of_find hother).2)
          rw [Option.map_some, if_neg ho]
  · rw [hevicted] at hkept
    have hburst : 0 ≤ l.burst := zero_le_one.trans hq.burst
    have hserved := SynBucket.level_serve hq.rate hq.burst
      (b := { ip := caller, tokens := l.burst, last := now }) hburst (le_refl now)
    have hip := (SynBucket.serve_spec l.rate l.burst now
      { ip := caller, tokens := l.burst, last := now }).1
    rw [he, SynLimiter.available, SynLimiter.find, List.find?_cons]
    dsimp only at hip ⊢
    by_cases hsame : caller = ip
    · subst hsame
      have hfull : level l.rate l.burst l.burst (seconds (now - now)) = l.burst := by
        apply level_full
        have hmore := mul_nonneg hq.rate (seconds_nonneg (Int.sub_nonneg.2 (le_refl now)))
        linarith
      rw [hfull] at hserved
      rw [hip, decide_eq_true rfl, SynLimiter.available, hfind, Option.elim_none]
      refine Eq.trans ?_ hserved
      simp only [true_and, Option.elim_some]
    · rw [hip, decide_eq_false hsame, if_neg fun hboth => hsame hboth.1, add_zero]
      exact available_makeRoom h hq hkept

theorem now_of_mem_trace {o : Outcome IP} (h : o ∈ l.trace calls) :
    o.now ∈ calls.map (·.now) := by
  induction calls generalizing l with
  | nil => cases h
  | cons call rest ih =>
      rcases List.mem_cons.1 h with rfl | h
      · exact List.mem_cons_self
      · exact List.mem_cons_of_mem _ (ih h)

theorem accepted_cons (o : Outcome IP) (rest : List (Outcome IP)) (ip : IP) (a b : ℤ) :
    accepted (o :: rest) ip a b = accepted rest ip a b +
      (if o.ip = ip ∧ o.accepted = true ∧ a ≤ o.now ∧ o.now ≤ b then 1 else 0) := by
  rw [accepted, List.countP_cons]
  simp only [decide_eq_true_eq]
  rfl

theorem rate_allow (l : SynLimiter IP) (walk : Walk IP) (ip : IP) (now : ℤ) :
    (l.allow walk ip now).2.rate = l.rate ∧ (l.allow walk ip now).2.burst = l.burst := by
  rcases allow_cases l walk ip now with ⟨b, -, -, he⟩ | ⟨b, -, -, -, he⟩ <;> rw [he] <;> exact ⟨rfl, rfl⟩

theorem accepted_eq_zero {outcomes : List (Outcome IP)} {a b : ℤ} (h : ∀ o ∈ outcomes, b < o.now) :
    accepted outcomes ip a b = 0 := by
  refine List.countP_eq_zero.2 fun o ho => ?_
  rw [decide_eq_true_eq]
  exact fun hin => absurd hin.2.2.2 (not_le.2 (h o ho))

-- The clock never goes back, neither before the calls nor between them.
structure Timed (l : SynLimiter IP) (start : ℤ) (calls : List (Call IP)) : Prop where
  sound : l.Sound start
  quick : l.Quick
  sorted : (calls.map (·.now)).Pairwise (· ≤ ·)
  since : ∀ now ∈ calls.map (·.now), start ≤ now

theorem Timed.tail {call : Call IP} (h : Timed l start (call :: calls)) :
    Timed (l.allow call.walk call.ip call.now).2 call.now calls := by
  obtain ⟨hlater, hrest⟩ := List.pairwise_cons.1 h.sorted
  exact ⟨h.sound.allow h.quick (h.since _ List.mem_cons_self) call.walk call.ip,
    h.quick.allow call.walk call.ip call.now, hrest, hlater⟩

-- From a time on, a source gets at most what it could get then and what has filled
-- since.
theorem accepted_le_available (h : Timed l start calls) {a b : ℤ} (hb : start ≤ b)
    (hkept : ∀ o ∈ l.trace calls, o.now ≤ b → o.evicted ≠ some ip) :
    (accepted (l.trace calls) ip a b : ℚ) ≤ l.available ip start + l.rate * seconds (b - start) := by
  have hleft : ∀ {l : SynLimiter IP} {start : ℤ}, l.Sound start → l.Quick → start ≤ b →
      0 ≤ l.available ip start + l.rate * seconds (b - start) := fun hs hq hb =>
    add_nonneg (available_nonneg hs hq ip) (mul_nonneg hq.rate (seconds_nonneg (Int.sub_nonneg.2 hb)))
  induction calls generalizing l start with
  | nil => exact hleft h.sound h.quick hb
  | cons call rest ih =>
      have hnow : start ≤ call.now := h.since call.now List.mem_cons_self
      by_cases hin : call.now ≤ b
      · have hgot := ih h.tail hin fun o ho => hkept o (List.mem_cons_of_mem _ ho)
        have hcall := available_allow h.sound h.quick hnow call.ip (hkept _ List.mem_cons_self hin)
        have htime := available_later h.quick ip hnow
        have hsplit : b - start = b - call.now + (call.now - start) := by omega
        have hcount : ((if (l.outcome call).ip = ip ∧ (l.outcome call).accepted = true ∧
              a ≤ (l.outcome call).now ∧ (l.outcome call).now ≤ b then 1 else 0 : ℕ) : ℚ) ≤
            if call.ip = ip ∧ (l.allow call.walk call.ip call.now).1 = true then 1 else 0 := by
          split_ifs with hall hboth hboth
          · exact Nat.cast_one.le
          · exact absurd ⟨hall.1, hall.2.1⟩ hboth
          · exact Nat.cast_zero.trans_le zero_le_one
          · exact Nat.cast_zero.le
        rw [(rate_allow _ _ _ _).1] at hgot
        rw [SynLimiter.trace, accepted_cons, Nat.cast_add, hsplit, seconds_add, mul_add]
        linarith
      · have hnone : accepted (l.trace (call :: rest)) ip a b = 0 := by
          refine accepted_eq_zero fun o ho => (not_le.1 hin).trans_le ?_
          rcases List.mem_cons.1 (now_of_mem_trace ho) with heq | hmem
          · exact heq.ge
          · exact h.tail.since o.now hmem
        rw [hnone, Nat.cast_zero]
        exact hleft h.sound h.quick hb

theorem accepted_le_burst (h : Timed l start calls) {a b : ℤ} (ha : start ≤ a) (hb : a ≤ b)
    (hkept : ∀ o ∈ l.trace calls, a ≤ o.now → o.now ≤ b → o.evicted ≠ some ip) :
    (accepted (l.trace calls) ip a b : ℚ) ≤ l.burst + l.rate * seconds (b - a) := by
  induction calls generalizing l start with
  | nil =>
      exact add_nonneg (zero_le_one.trans h.quick.burst)
        (mul_nonneg h.quick.rate (seconds_nonneg (Int.sub_nonneg.2 hb)))
  | cons call rest ih =>
      by_cases hbefore : call.now < a
      · -- the call comes before the interval
        have hgot := ih h.tail hbefore.le fun o ho => hkept o (List.mem_cons_of_mem _ ho)
        have houtside : accepted (l.trace (call :: rest)) ip a b =
            accepted ((l.allow call.walk call.ip call.now).2.trace rest) ip a b := by
          rw [SynLimiter.trace, accepted_cons, if_neg fun hin => absurd hin.2.2.1 (not_le.2 hbefore),
            add_zero]
        rw [(rate_allow _ _ _ _).1, (rate_allow _ _ _ _).2] at hgot
        rw [houtside]
        exact hgot
      · have hinside : ∀ now ∈ (call :: rest).map (·.now), a ≤ now := by
          intro now hmem
          rcases List.mem_cons.1 hmem with rfl | hmem
          · exact not_lt.1 hbefore
          · exact (not_lt.1 hbefore).trans (h.tail.since now hmem)
        have hsound : l.Sound a := { h.sound with past := fun o ho => (h.sound.past o ho).trans ha }
        have hgot := accepted_le_available (a := a) { h with sound := hsound, since := hinside } hb
          fun o ho => hkept o ho (hinside o.now (now_of_mem_trace ho))
        have hfull := available_le l ip a
        linarith

theorem buckets_of_mem_trace (h : Timed l start calls) {o : Outcome IP}
    (ho : o ∈ l.trace calls) : o.buckets ≤ synLimiterMaxBuckets := by
  induction calls generalizing l start with
  | nil => cases ho
  | cons call rest ih =>
      rcases List.mem_cons.1 ho with rfl | ho
      · exact h.tail.sound.size
      · exact ih h.tail ho

def serverLimiter : SynLimiter IP :=
  newSynLimiter synRatePerSec synBurst

omit [DecidableEq IP] in
theorem serverLimiter_eq :
    (serverLimiter : SynLimiter IP) = { buckets := [], rate := synRatePerSec, burst := synBurst } := by
  have hrate : ¬synRatePerSec ≤ 0 := by norm_num [synRatePerSec]
  have hburst : ¬synBurst < 1 := by norm_num [synBurst]
  rw [serverLimiter, newSynLimiter, if_neg hrate, if_neg hburst]

omit [DecidableEq IP] in
theorem serverLimiter_quick : (serverLimiter : SynLimiter IP).Quick := by
  rw [serverLimiter_eq]
  constructor <;> norm_num [synRatePerSec, synBurst]

omit [DecidableEq IP] in
theorem serverLimiter_sound (start : ℤ) : (serverLimiter : SynLimiter IP).Sound start :=
  ⟨List.nodup_nil, Nat.zero_le _, fun _ => nofun, fun _ => nofun⟩

omit [DecidableEq IP] in
theorem exists_start (calls : List (Call IP)) (a : ℤ) :
    ∃ start, start ≤ a ∧ ∀ now ∈ calls.map (·.now), start ≤ now := by
  induction calls with
  | nil => exact ⟨a, le_rfl, fun _ => nofun⟩
  | cons call rest ih =>
      obtain ⟨start, ha, hrest⟩ := ih
      refine ⟨min start call.now, (min_le_left _ _).trans ha, fun now hnow => ?_⟩
      rcases List.mem_cons.1 hnow with rfl | hnow
      · exact min_le_right _ _
      · exact (min_le_left _ _).trans (hrest now hnow)

theorem syn_rate_limited (calls : List (Call IP)) (hsorted : (calls.map (·.now)).Pairwise (· ≤ ·)) :
    (∀ o ∈ serverLimiter.trace calls, o.buckets ≤ synLimiterMaxBuckets) ∧
    ∀ ip a b, a ≤ b →
      (∀ o ∈ serverLimiter.trace calls, a ≤ o.now → o.now ≤ b → o.evicted ≠ some ip) →
      (accepted (serverLimiter.trace calls) ip a b : ℚ) ≤ synBurst + synRatePerSec * seconds (b - a) := by
  constructor
  · intro o ho
    obtain ⟨start, -, hstart⟩ := exists_start calls 0
    exact buckets_of_mem_trace ⟨serverLimiter_sound start, serverLimiter_quick, hsorted, hstart⟩ ho
  · intro ip a b hb hkept
    obtain ⟨start, ha, hstart⟩ := exists_start calls a
    have hle := accepted_le_burst ⟨serverLimiter_sound start, serverLimiter_quick, hsorted, hstart⟩ ha hb
      hkept
    rwa [serverLimiter_eq] at hle ⊢

def inOrder : Walk ℕ :=
  ⟨id, fun _ => .refl _⟩

-- Twenty-one SYNs at once and one more than a minute later.
def flood : List (Call ℕ) :=
  List.replicate 21 ⟨7, 0, inOrder⟩ ++ [⟨7, 61000000000, inOrder⟩]

theorem flood_limited :
    accepted (serverLimiter.trace flood) 7 0 0 = 20 ∧
    accepted (serverLimiter.trace flood) 7 0 61000000000 = 21 ∧
    (accepted (serverLimiter.trace flood) 7 0 0 : ℚ) ≤ synBurst + synRatePerSec * seconds (0 - 0) := by
  have hsorted : (flood.map (·.now)).Pairwise (· ≤ ·) := by decide +kernel
  have hkept : ∀ o ∈ serverLimiter.trace flood, 0 ≤ o.now → o.now ≤ 0 → o.evicted ≠ some 7 := by
    decide +kernel
  exact ⟨by decide +kernel, by decide +kernel,
    (syn_rate_limited flood hsorted).2 7 0 0 le_rfl hkept⟩

end UdpCustom.Limiter
