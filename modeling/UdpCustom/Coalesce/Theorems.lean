import Mathlib.Data.List.Induction
import UdpCustom.Coalesce

-- The coalescer under any sequence of calls, as delivery, its timer and the
-- transmit loop make them.
namespace UdpCustom.Coalesce

inductive Call
  | claim (ackSeq iv : ℕ) (urgent : Bool) (now : ℕ)
  | commitSent (ackSeq : ℕ)
  | flushDue (iv now : ℕ)

def Call.urgent : Call → Bool
  | .claim _ _ urgent _ => urgent
  | _ => false

def Call.claimed : Call → List ℕ
  | .claim ackSeq _ _ _ => [ackSeq]
  | _ => []

-- The value a call hands out for sending.
def AckCoalescer.reported (c : AckCoalescer) : Call → Option ℕ
  | .claim ackSeq iv urgent now => if (c.claim ackSeq iv urgent now).1 then some ackSeq else none
  | .commitSent _ => none
  | .flushDue iv now => if (c.flushDue iv now).1.1 = 0 then none else some (c.flushDue iv now).1.1

-- What is committed by a call that reports `reported`.
def Call.committed (reported : Option ℕ) : Call → List ℕ
  | .commitSent ackSeq => [ackSeq]
  | _ => reported.toList

def AckCoalescer.after (c : AckCoalescer) : Call → AckCoalescer
  | .claim ackSeq iv urgent now => (c.claim ackSeq iv urgent now).2
  | .commitSent ackSeq => c.commitSent ackSeq
  | .flushDue iv now => (c.flushDue iv now).2

-- The coalescer with every value claimed and every value committed so far.
structure History where
  coalescer : AckCoalescer
  claimed : List ℕ
  committed : List ℕ

def History.initial : History where
  coalescer := .zero
  claimed := []
  committed := []

def History.after (s : History) (call : Call) : History where
  coalescer := s.coalescer.after call
  claimed := call.claimed ++ s.claimed
  committed := call.committed (s.coalescer.reported call) ++ s.committed

def history (calls : List Call) : History :=
  calls.foldl .after .initial

theorem history_concat (calls : List Call) (call : Call) :
    history (calls ++ [call]) = (history calls).after call :=
  List.foldl_append

-- Every advance was authorised for sending or is still remembered.
def History.Remembers (s : History) : Prop :=
  ∀ a ∈ s.claimed, a ≤ max s.coalescer.lastValue s.coalescer.pending

-- When a claim is authorised.
def AckCoalescer.Open (c : AckCoalescer) (ackSeq iv : ℕ) (urgent : Bool) (now : ℕ) : Prop :=
  urgent = true ∨ c.lastValue < ackSeq ∧ c.Elapsed now iv

-- No claim is authorised with less than what is still pending.
def Careful (s : History) : Call → Prop
  | .claim ackSeq iv urgent now =>
    s.coalescer.Open ackSeq iv urgent now → s.coalescer.pending ≤ ackSeq
  | _ => True

-- The ways a call can go, with the value it reports.
inductive Outcome (c : AckCoalescer) : Call → Option ℕ → AckCoalescer → Prop
  | authorised {ackSeq iv now : ℕ} {urgent : Bool} (hopen : c.Open ackSeq iv urgent now) :
      Outcome c (.claim ackSeq iv urgent now) (some ackSeq) (c.commitLocked ackSeq now)
  | stale {ackSeq iv now : ℕ} {urgent : Bool} (hshut : ¬c.Open ackSeq iv urgent now)
      (hold : ackSeq ≤ c.lastValue) : Outcome c (.claim ackSeq iv urgent now) none c
  | deferred {ackSeq iv now : ℕ} {urgent : Bool} (hshut : ¬c.Open ackSeq iv urgent now)
      (hnews : c.lastValue < ackSeq) :
      Outcome c (.claim ackSeq iv urgent now) none { c with pending := max c.pending ackSeq }
  | sent {ackSeq : ℕ} (hcovers : c.pending ≤ ackSeq) :
      Outcome c (.commitSent ackSeq) none
        { c with lastValue := max c.lastValue ackSeq, pending := 0 }
  | sentBelow {ackSeq : ℕ} (hbelow : ackSeq < c.pending) :
      Outcome c (.commitSent ackSeq) none { c with lastValue := max c.lastValue ackSeq }
  | flushed {iv now : ℕ} (hdue : c.Due iv now) :
      Outcome c (.flushDue iv now) (some c.pending) (c.commitLocked c.pending now)
  | idle {iv now : ℕ} : Outcome c (.flushDue iv now) none c

theorem outcome_claim (c : AckCoalescer) (ackSeq iv : ℕ) (urgent : Bool) (now : ℕ) :
    Outcome c (.claim ackSeq iv urgent now) (c.reported (.claim ackSeq iv urgent now))
      (c.after (.claim ackSeq iv urgent now)) := by
  simp only [AckCoalescer.reported, AckCoalescer.after, AckCoalescer.claim]
  by_cases hurgent : urgent = true
  · simp only [if_pos hurgent, if_true]
    exact .authorised (.inl hurgent)
  · simp only [if_neg hurgent]
    by_cases hold : ackSeq = 0 ∨ ackSeq ≤ c.lastValue
    · simp only [if_pos hold, Bool.false_eq_true, if_false]
      refine .stale ?_ (by omega)
      rintro (h | h)
      · exact hurgent h
      · omega
    · simp only [if_neg hold]
      by_cases hquiet : c.Elapsed now iv
      · simp only [if_pos hquiet, if_true]
        exact .authorised (.inr ⟨by omega, hquiet⟩)
      · simp only [if_neg hquiet, Bool.false_eq_true, if_false]
        refine .deferred ?_ (by omega)
        rintro (h | h)
        · exact hurgent h
        · exact hquiet h.2

theorem outcome_commitSent (c : AckCoalescer) (ackSeq : ℕ) :
    Outcome c (.commitSent ackSeq) none (c.commitSent ackSeq) := by
  rcases Nat.lt_or_ge ackSeq c.pending with hbelow | hcovers
  · have heq : c.commitSent ackSeq = { c with lastValue := max c.lastValue ackSeq } := by
      rw [AckCoalescer.mk.injEq]
      exact ⟨lastValue_commitSent c ackSeq, lastAt_commitSent c ackSeq, pending_commitSent hbelow⟩
    rw [heq]
    exact .sentBelow hbelow
  · have heq : c.commitSent ackSeq =
        { c with lastValue := max c.lastValue ackSeq, pending := 0 } := by
      rw [AckCoalescer.mk.injEq]
      refine ⟨lastValue_commitSent c ackSeq, lastAt_commitSent c ackSeq, ?_⟩
      unfold AckCoalescer.commitSent
      split_ifs
      · omega
      · rfl
    rw [heq]
    exact .sent hcovers

theorem outcome (c : AckCoalescer) (call : Call) :
    Outcome c call (c.reported call) (c.after call) := by
  cases call with
  | claim ackSeq iv urgent now => exact outcome_claim c ackSeq iv urgent now
  | commitSent ackSeq => exact outcome_commitSent c ackSeq
  | flushDue iv now =>
      simp only [AckCoalescer.reported, AckCoalescer.after, AckCoalescer.flushDue]
      by_cases hdue : c.Due iv now
      · simp only [if_pos hdue, if_neg hdue.1]
        exact .flushed hdue
      · simp only [if_neg hdue]
        by_cases hnone : c.pending = 0 ∨ c.pending ≤ c.lastValue
        · simp only [if_pos hnone, if_true]
          exact .idle
        · simp only [if_neg hnone, if_true]
          exact .idle

structure History.Inv (s : History) : Prop where
  fresh : s.coalescer.pending = 0 ∨ s.coalescer.lastValue < s.coalescer.pending
  pending : s.coalescer.pending = 0 ∨ s.coalescer.pending ∈ s.claimed
  told : ∀ a ∈ s.committed, a ≤ s.coalescer.lastValue

theorem inv_initial : History.initial.Inv :=
  ⟨.inl rfl, .inl rfl, (fun a ha => by cases ha)⟩

theorem told_cons {committed : List ℕ} {last a : ℕ} (h : ∀ a ∈ committed, a ≤ last) :
    ∀ b ∈ a :: committed, b ≤ max last a := by
  intro b hb
  rcases List.mem_cons.1 hb with rfl | hb
  · exact Nat.le_max_right _ _
  · exact (h b hb).trans (Nat.le_max_left _ _)

theorem Outcome.inv {s : History} {call : Call} {reported : Option ℕ} {c : AckCoalescer}
    (h : Outcome s.coalescer call reported c) (hinv : s.Inv) :
    History.Inv ⟨c, call.claimed ++ s.claimed, call.committed reported ++ s.committed⟩ := by
  obtain ⟨hfresh, hpending, htold⟩ := hinv
  cases h with
  | authorised _ | sent _ | flushed _ => exact ⟨.inl rfl, .inl rfl, told_cons htold⟩
  | stale _ _ => exact ⟨hfresh, hpending.imp id (List.mem_cons_of_mem _), htold⟩
  | @deferred ackSeq _ _ _ _ hnews =>
      refine ⟨.inr (Nat.lt_of_lt_of_le hnews (Nat.le_max_right _ _)), .inr ?_, htold⟩
      show max s.coalescer.pending ackSeq ∈ ackSeq :: s.claimed
      rcases Nat.le_total s.coalescer.pending ackSeq with hle | hle
      · rw [Nat.max_eq_right hle]
        exact List.mem_cons_self
      · rw [Nat.max_eq_left hle]
        exact List.mem_cons_of_mem _ (hpending.resolve_left (by omega))
  | sentBelow hbelow =>
      refine ⟨.inr (max_lt (hfresh.resolve_left (by omega)) hbelow), hpending, told_cons htold⟩
  | idle => exact ⟨hfresh, hpending, htold⟩

theorem Outcome.remembers_iff {s : History} {call : Call} {reported : Option ℕ} {c : AckCoalescer}
    (h : Outcome s.coalescer call reported c) (hinv : s.Inv) (hall : s.Remembers)
    (committed : List ℕ) :
    History.Remembers ⟨c, call.claimed ++ s.claimed, committed⟩ ↔ Careful s call := by
  unfold History.Remembers at hall ⊢
  cases h with
  | @authorised ackSeq _ _ _ hopen =>
      constructor
      · -- what was pending has been claimed, so it must be covered by the new value
        intro hall' _
        rcases hinv.pending with hzero | hmem
        · omega
        · have hle := hall' _ (List.mem_cons_of_mem _ hmem)
          have hfresh := hinv.fresh
          simp only [AckCoalescer.commitLocked] at hle
          omega
      · intro hcareful a ha
        have hpending := hcareful hopen
        simp only [AckCoalescer.commitLocked]
        rcases List.mem_cons.1 ha with rfl | ha
        · omega
        · have := hall a ha
          omega
  | stale hshut hold =>
      refine iff_of_true (fun a ha => ?_) fun hopen => absurd hopen hshut
      rcases List.mem_cons.1 ha with rfl | ha
      · exact hold.trans (Nat.le_max_left _ _)
      · exact hall a ha
  | deferred hshut hnews =>
      refine iff_of_true (fun a ha => ?_) fun hopen => absurd hopen hshut
      rcases List.mem_cons.1 ha with rfl | ha
      · simp only
        omega
      · have := hall a ha
        simp only
        omega
  | sent hcovers | sentBelow hbelow =>
      refine iff_of_true (fun a ha => ?_) trivial
      have := hall a ha
      simp only
      omega
  | flushed hdue =>
      refine iff_of_true (fun a ha => ?_) trivial
      have := hall a ha
      simp only [AckCoalescer.commitLocked]
      omega
  | idle => exact iff_of_true hall trivial

theorem inv_history (calls : List Call) : (history calls).Inv := by
  induction calls using List.reverseRecOn with
  | nil => exact inv_initial
  | append_singleton calls call ih =>
      rw [history_concat]
      exact (outcome _ call).inv ih

-- A call loses nothing exactly if it is careful, as long as nothing was lost before.
theorem remembers_concat_iff {calls : List Call} (h : (history calls).Remembers) (call : Call) :
    (history (calls ++ [call])).Remembers ↔ Careful (history calls) call := by
  rw [history_concat]
  exact (outcome _ call).remembers_iff (inv_history calls) h _

theorem remembers_throughout_iff (calls : List Call) :
    (∀ earlier, earlier <+: calls → (history earlier).Remembers) ↔
      ∀ earlier call, earlier ++ [call] <+: calls → Careful (history earlier) call := by
  induction calls using List.reverseRecOn with
  | nil =>
      constructor
      · intro _ earlier call hearly
        simp at hearly
      · intro _ earlier hearly
        rw [List.prefix_nil.1 hearly]
        exact fun a ha => by cases ha
  | append_singleton calls call ih =>
      have hcalls : calls <+: calls ++ [call] := List.prefix_append _ _
      constructor
      · intro hall earlier call' hearly
        rcases List.prefix_concat_iff.1 hearly with heq | hearly
        · obtain ⟨rfl, ⟨⟩⟩ := List.append_inj' heq rfl
          exact (remembers_concat_iff (hall _ hcalls) _).1 (hall _ List.prefix_rfl)
        · exact ih.1 (fun e he => hall e (he.trans hcalls)) earlier call' hearly
      · intro hcareful earlier hearly
        have hbefore := ih.2 fun e c hec => hcareful e c (hec.trans hcalls)
        rcases List.prefix_concat_iff.1 hearly with rfl | hearly
        · have hcall := hcareful calls call List.prefix_rfl
          exact (remembers_concat_iff (hbefore _ List.prefix_rfl) call).2 hcall
        · exact hbefore earlier hearly

-- A value goes out only as news, unless the claim was urgent.
theorem Outcome.news {s : History} {call : Call} {v : ℕ} {c : AckCoalescer}
    (h : Outcome s.coalescer call (some v) c) (hinv : s.Inv) :
    call.urgent = true ∨ ∀ a ∈ s.committed, a < v := by
  cases h with
  | authorised hopen =>
      rcases hopen with hurgent | ⟨hnews, _⟩
      · exact .inl hurgent
      · exact .inr fun a ha => (hinv.told a ha).trans_lt hnews
  | flushed hdue => exact .inr fun a ha => (hinv.told a ha).trans_lt hdue.2.1

theorem no_advance_lost_iff (calls : List Call) :
    ((∀ earlier, earlier <+: calls → (history earlier).Remembers) ↔
      ∀ earlier call, earlier ++ [call] <+: calls → Careful (history earlier) call) ∧
    ∀ call v, (history calls).coalescer.reported call = some v →
      call.urgent = true ∨ ∀ a ∈ (history calls).committed, a < v := by
  refine ⟨remembers_throughout_iff calls, fun call v hv => ?_⟩
  exact (hv ▸ outcome (history calls).coalescer call).news (inv_history calls)

-- Claims of 10 and then 5, the way two callbacks overtake each other: the first
-- falls into the suppression window, the second after it.
def overtakenClaims : List Call :=
  [.claim 1 1000000 false 0, .claim 10 1000000 false 1, .claim 5 1000000 false 1000000]

theorem overtaken_advance_lost :
    10 ∈ (history overtakenClaims).claimed ∧ (history overtakenClaims).coalescer.lastValue = 5 ∧
      (history overtakenClaims).coalescer.pending = 0 := by
  decide

end UdpCustom.Coalesce
