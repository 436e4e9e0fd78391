import UdpCustom.Reconnect
import UdpCustom.Lib.Threads

-- Every connection that is open is the current one or in the hands of a call that
-- will publish it or close it, under any interleaving.
namespace UdpCustom.Reconnect

open Transition

variable {ε : Type}

inductive Act (s : State ε) (op : Op) : Place ε → State ε → Place ε → Prop
  | refused (h : s.closed = true) : Act s op .ensure s (.done .closed)
  | current {c} (hopen : s.closed = false) (h : s.conn = some c) : Act s op .ensure s (.io c)
  | throttled (hopen : s.closed = false) :
      Act s op .ensure s (.done (.throttled s.throttle s.lastDialErr))
  | restart (hopen : s.closed = false) (hfree : s.dialFree) (h : s.conn = none) :
      Act s op .ensure { s with reconnectAttempts := s.reconnectAttempts + 1 } (.dial true)
  | start (hopen : s.closed = false) (hfree : s.dialFree) (h : s.conn = none) :
      Act s op .ensure s (.dial false)
  | dialSucceeds {isReconnect} :
      Act s op (.dial isReconnect) (s.dialSucceeds isReconnect).1 (.adopt s.dialed.length isReconnect)
  | dialError {isReconnect cause} : Act s op (.dial isReconnect) s (.dialFailed cause)
  | dialFailed {cause} : Act s op (.dialFailed cause) (s.dialFailed cause) (.done (.dialFailed cause))
  | abandon {c isReconnect} (h : s.closed = true) :
      Act s op (.adopt c isReconnect) (s.shut c) (.done .closed)
  | adopt {c isReconnect} (h : s.closed = false) :
      Act s op (.adopt c isReconnect) (s.adopt c isReconnect) (.io c)
  | io {c n} : Act s op (.io c) (s.use c) (.done (.ok n))
  | ioFailed {c n cause} : Act s op (.io c) (s.use c) (.drop c n cause)
  | drop {c n cause} : Act s op (.drop c n cause) (s.drop c) (.done (.failed n cause))
  | closeAgain (h : s.closed = true) : Act s op .close s (.done (.ok 0))
  | close {c} (hopen : s.closed = false) (h : s.conn = some c) :
      Act s op .close { s with closed := true, conn := none } (.closeConn c)
  | closeUnused (hopen : s.closed = false) (h : s.conn = none) :
      Act s op .close { s with closed := true, conn := none } (.done (.ok 0))
  | closeConn {c result} : Act s op (.closeConn c) (s.shut c) (.done result)
  | deadline {c result} (h : s.conn = some c) :
      Act s op .deadline ((s.setDeadlines op).use c) (.done result)
  | deadlineUnused (h : s.conn = none) : Act s op .deadline (s.setDeadlines op) (.done (.ok 0))

theorem act_eq_some {s s' : State ε} {op : Op} {pl pl' : Place ε} {ch : Choice ε}
    (h : act s op pl ch = some (s', pl')) : Act s op pl s' pl' := by
  unfold act at h
  split at h
  case h_1 =>
    obtain ⟨hfree, h⟩ := Option.ite_none_right_eq_some.1 h
    unfold State.ensure at h
    repeat' split at h
    all_goals cases h
    · exact .refused ‹_›
    · exact .current (by simpa using ‹¬s.closed = true›) ‹_›
    · exact .throttled (by simpa using ‹¬s.closed = true›)
    · exact .restart (by simpa using ‹¬s.closed = true›) hfree ‹_›
    · exact .start (by simpa using ‹¬s.closed = true›) hfree ‹_›
  case h_5 =>
    split at h
    all_goals cases h
    · exact .abandon ‹_›
    · exact .adopt (by simpa using ‹¬s.closed = true›)
  case h_9 =>
    unfold State.close at h
    split at h
    · cases h
      exact .closeAgain ‹_›
    · have hopen : s.closed = false := by simpa using ‹¬s.closed = true›
      cases hconn : s.conn <;> rw [hconn] at h <;> cases h
      · exact .closeUnused hopen hconn
      · exact .close hopen hconn
  case h_11 =>
    split at h
    all_goals cases h
    · exact .deadline ‹_›
    · exact .deadlineUnused ‹_›
  all_goals
    cases h
    try constructor

inductive Step (s : State ε) : Label ε → State ε → Prop
  | call (op : Op) : Step s (.call op) { s with calls := s.calls ++ [⟨op, op.place⟩] }
  | run {i : ℕ} {ch : Choice ε} {op : Op} {pl pl' : Place ε} {s' : State ε}
      (hi : s.calls[i]? = some ⟨op, pl⟩) (h : Act s op pl s' pl') :
      Step s (.run i ch) (s'.move i ⟨op, pl'⟩)
  | tick (d : ℕ) : Step s (.tick d) { s with now := s.now + d }

theorem step_of_next {s s' : State ε} {l : Label ε} (h : next s l = some s') : Step s l s' := by
  cases l with
  | call op =>
      cases h
      exact .call op
  | run i ch =>
      unfold next at h
      dsimp only at h
      split at h
      · cases h
      · rename_i call hi
        obtain ⟨⟨s₁, pl'⟩, hact, rfl⟩ := Option.map_eq_some_iff.1 h
        exact .run hi (act_eq_some hact)
  | tick d =>
      cases h
      exact .tick d

theorem adopt_fields (s : State ε) (c : ℕ) (isReconnect : Bool) :
    (s.adopt c isReconnect).conn = some c ∧ (s.adopt c isReconnect).closed = s.closed ∧
      (s.adopt c isReconnect).opened = s.opened ∧ (s.adopt c isReconnect).dialed = s.dialed ∧
      (s.adopt c isReconnect).used ⊆ insert c s.used ∧ (s.adopt c isReconnect).calls = s.calls := by
  unfold State.adopt
  dsimp only
  split <;> split <;> simp [State.use]

theorem drop_fields (s : State ε) (c : ℕ) :
    (s.drop c).conn = (if s.conn = some c then none else s.conn) ∧ (s.drop c).closed = s.closed ∧
      (s.drop c).opened = s.opened.erase c ∧ (s.drop c).dialed = s.dialed ∧
      (s.drop c).used = s.used ∧ (s.drop c).calls = s.calls := by
  unfold State.drop State.shut
  split
  · exact ⟨rfl, rfl, rfl, rfl, rfl, rfl⟩
  · exact ⟨rfl, rfl, rfl, rfl, rfl, rfl⟩

theorem setDeadlines_fields (s : State ε) (op : Op) :
    (s.setDeadlines op).conn = s.conn ∧ (s.setDeadlines op).closed = s.closed ∧
      (s.setDeadlines op).opened = s.opened ∧ (s.setDeadlines op).dialed = s.dialed ∧
      (s.setDeadlines op).used = s.used ∧ (s.setDeadlines op).calls = s.calls := by
  cases op <;> exact ⟨rfl, rfl, rfl, rfl, rfl, rfl⟩

-- The connection that a call will make the current one, or close.
def Place.owns : Place ε → Option ℕ
  | .adopt c _ | .drop c _ _ | .closeConn c => some c
  | _ => none

-- A connection taken for an operation was dialed before the wrapper was closed.
def Place.Early (dialed : List Bool) : Place ε → Prop
  | .io c => dialed[c]? = some false
  | .adopt c _ => c < dialed.length
  | _ => True

structure Owned (s : State ε) : Prop where
  dialMu : Threads.Exclusive (fun call : Call ε => call.place.holdsDialMu) s.calls
  vacant : ∀ call ∈ s.calls, call.place.holdsDialMu = true → s.conn = none
  owner : ∀ c ∈ s.opened, s.conn = some c ∨ ∃ call ∈ s.calls, call.place.owns = some c
  closed : s.closed = true → s.conn = none
  late : ∀ c : ℕ, s.dialed[c]? = some true → s.closed = true
  early : ∀ c, s.conn = some c → s.dialed[c]? = some false
  places : ∀ call ∈ s.calls, call.place.Early s.dialed
  used : ∀ c ∈ s.used, s.dialed[c]? = some false

section
variable {s s' : State ε} {op : Op} {pl pl' : Place ε} {i : ℕ} {l : Label ε}

theorem Act.calls (h : Act s op pl s' pl') : s'.calls = s.calls := by
  cases h
  case adopt c isReconnect _ => exact (adopt_fields s c isReconnect).2.2.2.2.2
  case drop c _ _ => exact (drop_fields s c).2.2.2.2.2
  case deadline | deadlineUnused => exact (setDeadlines_fields s op).2.2.2.2.2
  all_goals rfl

theorem Act.holdsDialMu (h : Act s op pl s' pl') (hin : pl'.holdsDialMu = true) :
    pl.holdsDialMu = true ∨ s.dialFree := by
  cases h <;> first
    | exact .inl rfl
    | exact .inr ‹_›
    | cases hin

theorem Act.conn (h : Act s op pl s' pl') :
    s'.conn = s.conn ∨ s'.conn = none ∨
      ∃ c isReconnect, pl = .adopt c isReconnect ∧ s'.conn = some c ∧ s.closed = false := by
  cases h
  case adopt c isReconnect hopen =>
    exact .inr (.inr ⟨c, isReconnect, rfl, (adopt_fields s c isReconnect).1, hopen⟩)
  case drop c _ _ =>
    rw [(drop_fields s c).1]
    split
    · exact .inr (.inl rfl)
    · exact .inl rfl
  case deadline | deadlineUnused => exact .inl (setDeadlines_fields s op).1
  all_goals first
    | exact .inl rfl
    | exact .inr (.inl rfl)

theorem Act.closed (h : Act s op pl s' pl') : s'.closed = s.closed ∨ s'.closed = true ∧ s'.conn = none := by
  cases h
  case adopt c isReconnect _ => exact .inl (adopt_fields s c isReconnect).2.1
  case drop c _ _ => exact .inl (drop_fields s c).2.1
  case deadline | deadlineUnused => exact .inl (setDeadlines_fields s op).2.1
  all_goals first
    | exact .inl rfl
    | exact .inr ⟨rfl, rfl⟩

theorem Act.dialed (h : Act s op pl s' pl') :
    s'.dialed = s.dialed ∨ s'.dialed = s.dialed ++ [s.closed] ∧ s'.closed = s.closed := by
  cases h
  case dialSucceeds => exact .inr ⟨rfl, rfl⟩
  case adopt c isReconnect _ => exact .inl (adopt_fields s c isReconnect).2.2.2.1
  case drop c _ _ => exact .inl (drop_fields s c).2.2.2.1
  case deadline | deadlineUnused => exact .inl (setDeadlines_fields s op).2.2.2.1
  all_goals exact .inl rfl

-- Whoever lets go of an open connection leaves it with the wrapper or with itself.
theorem Act.owner (h : Act s op pl s' pl') (hvacant : pl.holdsDialMu = true → s.conn = none) {c : ℕ}
    (hc : c ∈ s'.opened) :
    pl'.owns = some c ∨
      c ∈ s.opened ∧ (s.conn = some c ∨ pl.owns = some c → s'.conn = some c ∨ pl'.owns = some c) := by
  cases h
  case dialSucceeds =>
    rcases Finset.mem_insert.1 hc with rfl | hold
    · exact .inl rfl
    · exact .inr ⟨hold, Or.imp_right nofun⟩
  case abandon | closeConn =>
    obtain ⟨hne, hold⟩ := Finset.mem_erase.1 hc
    refine .inr ⟨hold, Or.imp_right fun heq => absurd (Option.some.inj heq).symm hne⟩
  case adopt c' isReconnect _ =>
    obtain ⟨hconn, -, hopened, -⟩ := adopt_fields s c' isReconnect
    rw [hopened] at hc
    refine .inr ⟨hc, ?_⟩
    rintro (heq | heq)
    · rw [hvacant rfl] at heq
      cases heq
    · exact .inl (hconn.trans heq)
  case drop c' _ _ =>
    obtain ⟨hconn, -, hopened, -⟩ := drop_fields s c'
    rw [hopened] at hc
    obtain ⟨hne, hold⟩ := Finset.mem_erase.1 hc
    refine .inr ⟨hold, ?_⟩
    rintro (hcur | heq)
    · rw [hconn, if_neg fun heq => hne (Option.some.inj (hcur.symm.trans heq)), hcur]
      exact .inl rfl
    · exact absurd (Option.some.inj heq).symm hne
  case close hcur =>
    refine .inr ⟨hc, ?_⟩
    rintro (heq | heq)
    · exact .inr (hcur.symm.trans heq)
    · cases heq
  case closeUnused hnone =>
    refine .inr ⟨hc, ?_⟩
    rintro (heq | heq)
    · rw [hnone] at heq
      cases heq
    · cases heq
  case deadline | deadlineUnused =>
    obtain ⟨hconn, -, hopened, -⟩ := setDeadlines_fields s op
    refine .inr ⟨hopened ▸ hc, ?_⟩
    rintro (heq | heq)
    · exact .inl (hconn.trans heq)
    · cases heq
  all_goals exact .inr ⟨hc, Or.imp_right nofun⟩

theorem Act.used (h : Act s op pl s' pl') {c : ℕ} (hc : c ∈ s'.used) :
    c ∈ s.used ∨ pl = .io c ∨ s.conn = some c ∨
      ∃ isReconnect, pl = .adopt c isReconnect ∧ s.closed = false := by
  cases h
  case io | ioFailed =>
    rcases Finset.mem_insert.1 hc with rfl | hold
    · exact .inr (.inl rfl)
    · exact .inl hold
  case adopt c' isReconnect hopen =>
    rcases Finset.mem_insert.1 ((adopt_fields s c' isReconnect).2.2.2.2.1 hc) with rfl | hold
    · exact .inr (.inr (.inr ⟨isReconnect, rfl, hopen⟩))
    · exact .inl hold
  case drop c' _ _ =>
    rw [(drop_fields s c').2.2.2.2.1] at hc
    exact .inl hc
  case deadline c' _ hcur =>
    rcases Finset.mem_insert.1 hc with rfl | hold
    · exact .inr (.inr (.inl hcur))
    · rw [(setDeadlines_fields s op).2.2.2.2.1] at hold
      exact .inl hold
  case deadlineUnused =>
    rw [(setDeadlines_fields s op).2.2.2.2.1] at hc
    exact .inl hc
  all_goals exact .inl hc

theorem Act.getElem?_dialed (h : Act s op pl s' pl') {c : ℕ} {b : Bool} (hc : s.dialed[c]? = some b) :
    s'.dialed[c]? = some b := by
  rcases h.dialed with heq | ⟨heq, -⟩
  · rw [heq, hc]
  · rw [heq, List.getElem?_append_left (List.getElem?_eq_some_iff.1 hc).1, hc]

theorem Place.Early.act (hpl : pl.Early s.dialed) {op' : Op} {q q' : Place ε} (h : Act s op' q s' q') :
    pl.Early s'.dialed := by
  cases pl
  case io c => exact h.getElem?_dialed hpl
  case adopt c isReconnect =>
    rcases h.dialed with heq | ⟨heq, -⟩
    · exact heq ▸ hpl
    · rw [heq, Place.Early, List.length_append]
      exact Nat.lt_add_right _ hpl
  all_goals trivial

-- What is about to be adopted by a wrapper that is not closed was dialed before.
theorem Owned.early_adopt (ho : Owned s) {c : ℕ} {isReconnect : Bool}
    (hi : s.calls[i]? = some ⟨op, .adopt c isReconnect⟩) (hopen : s.closed = false) :
    s.dialed[c]? = some false := by
  have hlt : c < s.dialed.length := ho.places _ (List.mem_of_getElem? hi)
  rw [List.getElem?_eq_getElem hlt, Option.some_inj]
  refine Bool.eq_false_iff.2 fun hlate => ?_
  have hclosed := ho.late c ((List.getElem?_eq_getElem hlt).trans (congrArg some hlate))
  rw [hopen] at hclosed
  cases hclosed

section Run

variable (ho : Owned s) (hi : s.calls[i]? = some ⟨op, pl⟩) (h : Act s op pl s' pl') {c : ℕ}
include ho hi h

theorem Owned.conn_run (hc : s'.conn = some c) : s.dialed[c]? = some false := by
  rcases h.conn with heq | hnone | ⟨c', isReconnect, rfl, heq, hopen⟩
  · exact ho.early c (heq.symm.trans hc)
  · rw [hnone] at hc
    cases hc
  · obtain rfl : c' = c := Option.some.inj (heq.symm.trans hc)
    exact ho.early_adopt hi hopen

theorem Owned.vacant_run {call : Call ε} (hcall : call ∈ s.calls.set i ⟨op, pl'⟩)
    (hin : call.place.holdsDialMu = true) :
    s'.conn = none := by
  have hvacant := ho.vacant _ (List.mem_of_getElem? hi)
  rcases Threads.of_mem_set hcall with rfl | ⟨j, hji, hj⟩
  · cases h
    case restart | start => assumption
    case dialSucceeds | dialError => exact hvacant rfl
    all_goals cases hin
  · -- Another call is dialing, so this one sets no connection.
    have hnone := ho.vacant call (List.mem_of_getElem? hj) hin
    rcases h.conn with heq | hgone | ⟨c, isReconnect, rfl, -, -⟩
    · exact heq.trans hnone
    · exact hgone
    · exact absurd (ho.dialMu j i call _ hj hi hin rfl) hji

theorem Owned.owner_run (hc : c ∈ s'.opened) :
    s'.conn = some c ∨ ∃ call ∈ s.calls.set i ⟨op, pl'⟩, call.place.owns = some c := by
  have hown : pl'.owns = some c → ∃ call ∈ s.calls.set i ⟨op, pl'⟩, call.place.owns = some c :=
    fun howns => ⟨_, Threads.mem_set_self hi _, howns⟩
  rcases h.owner (ho.vacant _ (List.mem_of_getElem? hi)) hc with hnew | ⟨hold, hkeep⟩
  · exact .inr (hown hnew)
  · rcases ho.owner c hold with hcur | ⟨call, hcall, howns⟩
    · exact (hkeep (.inl hcur)).imp_right hown
    · obtain ⟨j, hj⟩ := List.mem_iff_getElem?.1 hcall
      by_cases hji : j = i
      · obtain rfl : call = ⟨op, pl⟩ := Option.some.inj ((hji ▸ hj).symm.trans hi)
        exact (hkeep (.inr howns)).imp_right hown
      · exact .inr ⟨call, Threads.mem_set_of_ne hj hji _, howns⟩

omit hi in
theorem Owned.closed_run (hclosed : s'.closed = true) : s'.conn = none := by
  rcases h.closed with heq | ⟨-, hnone⟩
  · have hwas : s.closed = true := heq.symm.trans hclosed
    rcases h.conn with hsame | hgone | ⟨c, isReconnect, rfl, -, hopen⟩
    · exact hsame.trans (ho.closed hwas)
    · exact hgone
    · rw [hopen] at hwas
      cases hwas
  · exact hnone

omit hi in
theorem Owned.late_run (hc : s'.dialed[c]? = some true) : s'.closed = true := by
  have hmono : s.closed = true → s'.closed = true := by
    intro hwas
    rcases h.closed with heq | ⟨hnow, -⟩
    · exact heq.trans hwas
    · exact hnow
  rcases h.dialed with heq | ⟨heq, hclosed⟩
  · exact hmono (ho.late c (heq ▸ hc))
  · rw [heq] at hc
    by_cases hlt : c < s.dialed.length
    · rw [List.getElem?_append_left hlt] at hc
      exact hmono (ho.late c hc)
    · rw [List.getElem?_append_right (Nat.le_of_not_lt hlt), List.getElem?_singleton] at hc
      split at hc
      · exact hclosed.trans (Option.some.inj hc)
      · cases hc

theorem Owned.places_run {call : Call ε} (hcall : call ∈ s.calls.set i ⟨op, pl'⟩) :
    call.place.Early s'.dialed := by
  rcases Threads.of_mem_set hcall with rfl | ⟨j, -, hj⟩
  · cases h
    case current hcur => exact ho.early _ hcur
    case dialSucceeds =>
      change s.dialed.length < (s.dialed ++ [s.closed]).length
      simp
    case adopt c isReconnect hopen =>
      change (s.adopt c isReconnect).dialed[c]? = some false
      rw [(adopt_fields s c isReconnect).2.2.2.1]
      exact ho.early_adopt hi hopen
    all_goals trivial
  · exact (ho.places call (List.mem_of_getElem? hj)).act h

theorem Owned.used_run (hc : c ∈ s'.used) : s'.dialed[c]? = some false := by
  apply h.getElem?_dialed
  rcases h.used hc with hold | rfl | hcur | ⟨isReconnect, rfl, hopen⟩
  · exact ho.used c hold
  · exact ho.places _ (List.mem_of_getElem? hi)
  · exact ho.early c hcur
  · exact ho.early_adopt hi hopen

theorem Owned.run : Owned (s'.move i ⟨op, pl'⟩) := by
  have hcalls : (s'.move i ⟨op, pl'⟩).calls = s.calls.set i ⟨op, pl'⟩ :=
    congrArg (List.set · i _) h.calls
  have hvacant : ∀ call ∈ s.calls.set i ⟨op, pl'⟩, call.place.holdsDialMu = true → s'.conn = none :=
    fun call hcall hin => ho.vacant_run hi h hcall hin
  have hclosed : s'.closed = true → s'.conn = none := ho.closed_run h
  have hlate : ∀ c : ℕ, s'.dialed[c]? = some true → s'.closed = true := fun c hc => ho.late_run h hc
  exact
    { dialMu := hcalls ▸ ho.dialMu.set hi h.holdsDialMu
      vacant := fun call hcall => hvacant call (hcalls ▸ hcall)
      owner := fun c hc => hcalls ▸ ho.owner_run hi h hc
      closed := hclosed
      late := hlate
      early := fun c hc => h.getElem?_dialed (ho.conn_run hi h hc)
      places := fun call hcall => ho.places_run hi h (hcalls ▸ hcall)
      used := fun c hc => ho.used_run hi h hc }

end Run

theorem Owned.step (ho : Owned s) (h : Step s l s') : Owned s' := by
  cases h with
  | run hi h => exact ho.run hi h
  | tick d => exact ⟨ho.dialMu, ho.vacant, ho.owner, ho.closed, ho.late, ho.early, ho.places, ho.used⟩
  | call op =>
      have hnew : (op.place : Place ε).holdsDialMu = false ∧
          (op.place : Place ε).Early s.dialed := by
        cases op <;> exact ⟨rfl, trivial⟩
      have hcases : ∀ {call : Call ε}, call ∈ s.calls ++ [⟨op, op.place⟩] →
          call ∈ s.calls ∨ call = ⟨op, op.place⟩ :=
        fun hcall => (List.mem_append.1 hcall).imp_right List.mem_singleton.1
      refine ⟨ho.dialMu.push hnew.1, fun call hcall hin => ?_, fun c hc => ?_, ho.closed, ho.late, ho.early,
        fun call hcall => ?_, ho.used⟩
      · rcases hcases hcall with hold | rfl
        · exact ho.vacant call hold hin
        · rw [hnew.1] at hin
          cases hin
      · exact (ho.owner c hc).imp_right fun ⟨call, hcall, howns⟩ =>
          ⟨call, List.mem_append_left _ hcall, howns⟩
      · rcases hcases hcall with hold | rfl
        · exact ho.places call hold
        · exact hnew.2

end

theorem owned_init : Owned (init : State ε) where
  dialMu := .nil
  vacant := nofun
  owner := nofun
  closed := nofun
  late := nofun
  early := nofun
  places := nofun
  used := nofun

theorem owned_of_reachable {s : State ε} (h : Reachable (system ε) s) : Owned s := by
  refine h.invariant (fun s hs => ?_) fun s l s' ho _ hst => ho.step (step_of_next hst)
  rw [hs]
  exact owned_init

-- The places of a call that has no connection and is not dialing one.
def Place.Aside : Place ε → Prop
  | .ensure | .close | .deadline | .done _ => True
  | _ => False

theorem not_holdsDialMu_of_aside {pl : Place ε} (h : pl.Aside) : pl.holdsDialMu = false := by
  cases pl <;> first
    | rfl
    | cases h

-- A closed wrapper after all the first `n` calls have returned.
structure Over (n : ℕ) (s : State ε) : Prop where
  closed : s.closed = true
  conn : s.conn = none
  opened : s.opened = ∅
  aside : ∀ call ∈ s.calls, call.place.Aside
  later : ∀ i call, n ≤ i → s.calls[i]? = some call → call.op = .read ∨ call.op = .write →
    call.place = .ensure ∨ call.place = .done .closed

section
variable {n : ℕ} {s s' : State ε} {l : Label ε}

theorem Over.run (hn : Over n s) {i : ℕ} {op : Op} {pl pl' : Place ε}
    (hi : s.calls[i]? = some ⟨op, pl⟩) (h : Act s op pl s' pl') : Over n (s'.move i ⟨op, pl'⟩) := by
  have haside := hn.aside _ (List.mem_of_getElem? hi)
  have hnot : s.closed ≠ false := by simp [hn.closed]
  -- The operations left are those that find the wrapper closed.
  have hdone : (∃ result, pl' = .done result) ∧ (pl = .ensure → pl' = .done .closed) ∧
      s'.closed = true ∧ s'.conn = none ∧ s'.opened = ∅ := by
    cases h
    case refused => exact ⟨⟨_, rfl⟩, fun _ => rfl, hn.closed, hn.conn, hn.opened⟩
    case closeAgain => exact ⟨⟨_, rfl⟩, nofun, hn.closed, hn.conn, hn.opened⟩
    case deadline hcur =>
      rw [hn.conn] at hcur
      cases hcur
    case deadlineUnused =>
      obtain ⟨hconn, hclosed, hopened, -⟩ := setDeadlines_fields s op
      exact ⟨⟨_, rfl⟩, nofun, hclosed.trans hn.closed, hconn.trans hn.conn, hopened.trans hn.opened⟩
    all_goals first
      | exact absurd ‹s.closed = false› hnot
      | cases haside
  obtain ⟨⟨result, hresult⟩, hensure, hclosed, hconn, hopened⟩ := hdone
  have hcalls : (s'.move i ⟨op, pl'⟩).calls = s.calls.set i ⟨op, pl'⟩ :=
    congrArg (List.set · i _) h.calls
  refine ⟨hclosed, hconn, hopened, fun call hcall => ?_, fun j call hj hcall hop => ?_⟩
  · rw [hcalls] at hcall
    rcases Threads.of_mem_set hcall with rfl | ⟨j, -, hold⟩
    · rw [hresult]
      trivial
    · exact hn.aside call (List.mem_of_getElem? hold)
  · rw [hcalls] at hcall
    rcases Threads.of_getElem?_set hcall with ⟨rfl, rfl⟩ | ⟨-, hold⟩
    · rcases hn.later j _ hj hi hop with hpl | hpl
      · exact .inr (hensure hpl)
      · obtain rfl : pl = .done .closed := hpl
        cases h
    · exact hn.later j call hj hold hop

theorem Over.step (hn : Over n s) (h : Step s l s') : Over n s' := by
  cases h with
  | run hi h => exact hn.run hi h
  | tick d => exact ⟨hn.closed, hn.conn, hn.opened, hn.aside, hn.later⟩
  | call op =>
      refine ⟨hn.closed, hn.conn, hn.opened, fun call hcall => ?_, fun i call hi hcall hop => ?_⟩
      · rcases List.mem_append.1 hcall with hold | hnew
        · exact hn.aside call hold
        · rw [List.mem_singleton.1 hnew]
          cases op <;> trivial
      · by_cases hlt : i < s.calls.length
        · rw [List.getElem?_append_left hlt] at hcall
          exact hn.later i call hi hcall hop
        · rw [List.getElem?_append_right (Nat.le_of_not_lt hlt), List.getElem?_singleton] at hcall
          split at hcall
          · cases hcall
            rcases hop with rfl | rfl
            · exact .inl rfl
            · exact .inl rfl
          · cases hcall

theorem Owned.over (ho : Owned s) (hclosed : s.closed = true) (hidle : s.Idle) :
    Over s.calls.length s := by
  refine ⟨hclosed, ho.closed hclosed, ?_, fun call hcall => ?_, fun i call hi hcall => ?_⟩
  · refine Finset.eq_empty_of_forall_notMem fun c hc => ?_
    rcases ho.owner c hc with hcur | ⟨call, hcall, howns⟩
    · rw [ho.closed hclosed] at hcur
      cases hcur
    · obtain ⟨result, hresult⟩ := hidle call hcall
      rw [hresult] at howns
      cases howns
  · obtain ⟨result, hresult⟩ := hidle call hcall
    rw [hresult]
    trivial
  · exact absurd (List.getElem?_eq_some_iff.1 hcall).1 (Nat.not_lt.2 hi)

-- A Read or Write that has not begun returns ErrClosed in one step.
theorem Over.next_ensure (hn : Over n s) {i : ℕ} {op : Op} (hi : s.calls[i]? = some ⟨op, .ensure⟩) :
    next s (.run i .go) = some (s.move i ⟨op, .done .closed⟩) := by
  have hfree : s.dialFree := fun call hcall => not_holdsDialMu_of_aside (hn.aside call hcall)
  have hensure : s.ensure = (s, .done .closed) := if_pos hn.closed
  have hact : act s op .ensure .go = some (s, .done .closed) := by
    unfold act
    rw [if_pos hfree, hensure]
  unfold next
  dsimp only
  rw [hi]
  exact congrArg (Option.map _) hact

theorem Owned.conn_eq (ho : Owned s) (h : Step s l s') {c c' : ℕ} (hc : s.conn = some c)
    (hc' : s'.conn = some c') : c' = c := by
  cases h with
  | run hi h =>
      rcases h.conn with heq | hnone | ⟨c₁, isReconnect, rfl, -, -⟩
      · exact Option.some.inj ((heq.symm.trans hc').symm.trans hc)
      · exact absurd (hnone.symm.trans hc') nofun
      · rw [ho.vacant _ (List.mem_of_getElem? hi) rfl] at hc
        cases hc
  | call op | tick d => exact Option.some.inj (hc'.symm.trans hc)

end

-- The current connection is replaced only after it was given up; a connection that no
-- call in progress has in its hands is the current one or closed; none is used that was
-- dialed after Close; and once Close and all calls have returned, nothing is open and
-- every later Read or Write has returned ErrClosed, or does so by its next step.
theorem connection_ownership {s : State ε} (h : Reachable (system ε) s) :
    (∀ l s', next s l = some s' → ∀ c c', s.conn = some c → s'.conn = some c' → c' = c) ∧
    (∀ c < s.dialed.length, (∀ call ∈ s.calls, call.place.conn ≠ some c) →
      s.conn = some c ∨ c ∉ s.opened) ∧
    (∀ c ∈ s.used, s.dialed[c]? = some false) ∧
    (s.closed = true → s.Idle → ∀ labels s', (system ε).run s labels = some s' →
      s'.opened = ∅ ∧
      ∀ i call, s.calls.length ≤ i → s'.calls[i]? = some call → call.op = .read ∨ call.op = .write →
        call.place = .done .closed ∨
          next s' (.run i .go) = some (s'.move i { call with place := .done .closed })) := by
  have ho := owned_of_reachable h
  refine ⟨fun l s' hst c c' hc hc' => ?_, fun c _ hfree => ?_, ho.used, ?_⟩
  · exact ho.conn_eq (step_of_next hst) hc hc'
  · by_cases hopen : c ∈ s.opened
    · refine (ho.owner c hopen).imp_right fun ⟨call, hcall, howns⟩ => ?_
      refine absurd ?_ (hfree call hcall)
      cases hpl : call.place <;> rw [hpl] at howns <;> first
        | exact howns
        | cases howns
    · exact .inr hopen
  · intro hclosed hidle labels s' hrun
    have hover : Over s.calls.length s' :=
      System.runBy_invariant (S := system ε) (fun _ _ _ hn _ hst => hn.step (step_of_next hst))
        (ho.over hclosed hidle) hrun
    refine ⟨hover.opened, fun i call hi hcall hop => ?_⟩
    rcases hover.later i call hi hcall hop with hensure | hdone
    · obtain ⟨op, pl⟩ := call
      obtain rfl : pl = .ensure := hensure
      exact .inr (hover.next_ensure hcall)
    · exact .inl hdone

-- A Read loses its connection, and Close comes while a Write dials the next one.
theorem late_dial_is_closed : ∃ s : State Unit, Reachable (system Unit) s ∧ s.dialed = [false, true] ∧
    s.closed = true ∧ s.Idle ∧ s.opened = ∅ := by
  have hrun := (system Unit).exists_run
    (P := fun s => s.dialed = [false, true] ∧ s.closed = true ∧
      s.calls = [⟨.read, .done (.failed 0 ())⟩, ⟨.write, .done .closed⟩, ⟨.close, .done (.ok 0)⟩])
    (s := init) rfl
    [.call .read, .run 0 .go, .run 0 (.dialed none), .run 0 .go, .run 0 (.inner 0 (some ())), .run 0 .go,
      .call .write, .run 1 .go, .call .close, .run 2 .go, .run 1 (.dialed none), .run 1 .go]
    (by decide +kernel)
  obtain ⟨s, hreach, hdialed, hclosed, hcalls⟩ := hrun
  have hidle : s.Idle := by
    intro call hcall
    rw [hcalls] at hcall
    simp only [List.mem_cons, List.not_mem_nil, or_false] at hcall
    rcases hcall with rfl | rfl | rfl
    · exact ⟨_, rfl⟩
    · exact ⟨_, rfl⟩
    · exact ⟨_, rfl⟩
  exact ⟨s, hreach, hdialed, hclosed, hidle,
    ((connection_ownership hreach).2.2.2 hclosed hidle [] s rfl).1⟩

end UdpCustom.Reconnect
