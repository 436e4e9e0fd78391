import UdpCustom.Drain
import UdpCustom.Delivery.Theorems

namespace UdpCustom.Drain

open UdpCustom.Frame UdpCustom.Delivery Transition

variable {s s' : State} {l : Label}

-- With its token an offer is what the rest of the receiver sees of it.
theorem offerObserved_eq (d : OrderedDelivery) (seq : ℕ) (payload : Bytes) :
    d.offerObserved seq payload =
      ((offerLocked d seq payload).1,
        if (offerLocked d seq payload).1.fresh then notify (offerLocked d seq payload).2
        else (offerLocked d seq payload).2) := by
  unfold offerLocked notify
  rcases offerObserved_cases d seq payload with ⟨h, _⟩ | ⟨h, _⟩ | ⟨h, _⟩ | ⟨ack, h, _⟩
  all_goals rw [h]
  all_goals rfl

-- An offer that stores nothing changes nothing.
theorem offer_cases (s : State) (seq : ℕ) (payload : Bytes) :
    s.offer seq payload = s ∨
    (∃ c, s.offer seq payload = { s with
        queue := { s.queue with pending := s.queue.pending.insert seq payload }
        offers := c :: s.offers
        stored := s.stored ++ [(seq, payload)] } ∧ c.stage = .waking) ∧
      s.queue.closed = false ∧ s.queue.delivered < seq ∧ seq ∉ s.queue.pending ∧
      seq ≤ s.queue.delivered + s.queue.limit := by
  unfold State.offer offerLocked
  rcases offerObserved_cases s.queue seq payload with
    ⟨h, _⟩ | ⟨h, _⟩ | ⟨h, _⟩ | ⟨ack, h, -, hopen, hnew, hfree, hnear, -⟩
  · rw [h]
    exact .inl rfl
  · rw [h]
    exact .inl rfl
  · rw [h]
    exact .inl rfl
  · rw [h]
    exact .inr ⟨⟨_, rfl, rfl⟩, hopen, hnew, hfree, hnear⟩

-- The next record always fits: the others leave its place free.
theorem head_not_refused {d : OrderedDelivery} (hopen : d.closed = false) (hwindow : d.InWindow)
    (payload : Bytes) : (offerLocked d (d.delivered + 1) payload).1.ok = true := by
  unfold offerLocked
  rcases offerObserved_cases d (d.delivered + 1) payload with
    ⟨-, hzero | hclosed | ⟨-, hfree, hfar | hfull⟩⟩ | ⟨h, _⟩ | ⟨h, _⟩ | ⟨ack, h, _⟩
  · exact absurd hzero (Nat.succ_ne_zero _)
  · exact absurd (hopen.symm.trans hclosed) Bool.false_ne_true
  · have := d.limit_pos
    omega
  · have hroom := SeqMap.size_lt_of_window hwindow (Nat.lt_succ_self _)
      (Nat.add_le_add_left d.limit_pos _) hfree
    omega
  all_goals rw [h]

-- What a step does, and from where.
inductive Step (s : State) : State → Prop
  | offer (seq : ℕ) (payload : Bytes) : Step s (s.offer seq payload)
  | notify (c : OfferCall) : Step s { s with
      queue := notify s.queue
      offers := { c with stage := .returning } :: s.offers.erase c }
  | return (c : OfferCall) (returning : c.stage = .returning) :
      Step s { s with offers := s.offers.erase c }
  | snapshot : Step s s
  | wakeUp (run : s.run = .waiting) :
      Step s { s with run := .looking, queue := { s.queue with wake := false } }
  | quit (done : s.done = true) : Step s { s with run := .stopped }
  | rest (run : s.run = .looking) (head : s.queue.head = none) : Step s { s with run := .idling }
  | take (run : s.run = .looking) (payload : Bytes) (head : s.queue.head = some payload) :
      Step s { s with run := .checking (s.queue.delivered + 1) payload }
  | check (seq : ℕ) (payload : Bytes) (run : s.run = .checking seq payload) :
      Step s { s with run := if s.done then .stopped else .starting seq payload }
  | start (seq : ℕ) (payload : Bytes) (run : s.run = .starting seq payload) : Step s { s with
      run := .writing seq
      started := s.started ++ [(seq, payload)]
      lateStarts := if s.queue.closed then s.lateStarts + 1 else s.lateStarts }
  | finish (seq : ℕ) (run : s.run = .writing seq) : Step s { s with run := .written seq }
  | refuse : Step s { s with run := .failing, failed := true }
  | complete (seq : ℕ) (run : s.run = .written seq) :
      Step s { s with run := .queueing, queue := s.queue.complete seq }
  | queueAck (run : s.run = .queueing) : Step s { s with run := .looking }
  | idle (run : s.run = .idling) : Step s { s with run := .waiting }
  | fail (run : s.run = .failing) : Step s { s with run := .stopped }
  | close : Step s { s with queue := s.queue.close }
  | closeDone : Step s { s with done := true }

theorem step_of_next (hst : next s l = some s') : Step s s' := by
  cases l with
  | offer seq payload =>
      cases hst
      exact .offer seq payload
  | notify c =>
      obtain ⟨-, ⟨⟩⟩ := Option.ite_none_right_eq_some.1 hst
      exact .notify c
  | «return» c =>
      obtain ⟨hc, ⟨⟩⟩ := Option.ite_none_right_eq_some.1 hst
      exact .return c hc.2
  | snapshot =>
      cases hst
      exact .snapshot
  | wakeUp =>
      obtain ⟨hwake, ⟨⟩⟩ := Option.ite_none_right_eq_some.1 hst
      exact .wakeUp hwake.1
  | quit =>
      obtain ⟨hquit, ⟨⟩⟩ := Option.ite_none_right_eq_some.1 hst
      exact .quit hquit.2
  | look =>
      obtain ⟨hrun, hst⟩ := Option.ite_none_right_eq_some.1 hst
      split at hst
      · rename_i hhead
        cases hst
        exact .rest hrun hhead
      · rename_i payload hhead
        cases hst
        exact .take hrun payload hhead
  | check =>
      simp only [next] at hst
      split at hst
      · rename_i seq payload hrun
        cases hst
        exact .check seq payload hrun
      · cases hst
  | start =>
      simp only [next] at hst
      split at hst
      · rename_i seq payload hrun
        cases hst
        exact .start seq payload hrun
      · cases hst
  | finish ok =>
      simp only [next] at hst
      split at hst
      · rename_i seq hrun
        split at hst
        · cases hst
          exact .finish seq hrun
        · cases hst
          exact .refuse
      · cases hst
  | complete =>
      simp only [next] at hst
      split at hst
      · rename_i seq hrun
        cases hst
        exact .complete seq hrun
      · cases hst
  | queueAck =>
      obtain ⟨hrun, ⟨⟩⟩ := Option.ite_none_right_eq_some.1 hst
      exact .queueAck hrun
  | idle =>
      obtain ⟨hrun, ⟨⟩⟩ := Option.ite_none_right_eq_some.1 hst
      exact .idle hrun
  | fail =>
      obtain ⟨hrun, ⟨⟩⟩ := Option.ite_none_right_eq_some.1 hst
      exact .fail hrun
  | close =>
      cases hst
      exact .close
  | closeDone =>
      cases hst
      exact .closeDone

-- How many writes have started, and what the loop holds, at each of its places.
def Position (delivered started : ℕ) (stored : List (ℕ × Bytes)) : Run → Prop
  | .waiting | .looking | .queueing | .idling => started = delivered
  | .checking seq payload | .starting seq payload =>
    started = delivered ∧ seq = delivered + 1 ∧ stored.lookup seq = some payload
  | .writing seq | .written seq => started = delivered + 1 ∧ seq = delivered + 1
  | .failing | .stopped => True

-- The writes go through the records in order, and each has what was stored first
-- under its number.
structure Ordered (s : State) : Prop where
  window : s.queue.InWindow
  held : ∀ seq payload, s.queue.pending.lookup seq = some payload →
    s.stored.lookup seq = some payload
  stored : ∀ seq, (s.stored.lookup seq).isSome →
    s.queue.closed = true ∨ seq ≤ s.queue.delivered ∨ seq ∈ s.queue.pending
  numbers : s.started.map Prod.fst = List.range' 1 s.started.length
  payloads : ∀ w ∈ s.started, s.stored.lookup w.1 = some w.2
  position : Position s.queue.delivered s.started.length s.stored s.run

theorem ordered_initial (limit : ℕ) : Ordered (initial limit) where
  window := inWindow_new limit
  held := fun seq payload h => by
    rw [initial, newOrderedDelivery, Finmap.lookup_empty] at h
    cases h
  stored := fun seq h => by cases h
  numbers := rfl
  payloads := List.forall_mem_nil _
  position := rfl

theorem Position.append {delivered started : ℕ} {stored : List (ℕ × Bytes)} {run : Run}
    (h : Position delivered started stored run) (more : List (ℕ × Bytes)) :
    Position delivered started (stored ++ more) run := by
  cases run with
  | checking seq payload | starting seq payload =>
      obtain ⟨hcount, hseq, hstored⟩ := h
      refine ⟨hcount, hseq, ?_⟩
      rw [List.lookup_append, hstored, Option.some_or]
  | _ => exact h

theorem Ordered.offer (h : Ordered s) (seq : ℕ) (payload : Bytes) :
    Ordered (s.offer seq payload) := by
  rcases offer_cases s seq payload with he | ⟨⟨c, he, -⟩, hopen, hnew, hfree, hnear⟩
  · rw [he]
    exact h
  · have hfirst : s.stored.lookup seq = none := by
      rw [← Option.not_isSome_iff_eq_none]
      intro hsome
      rcases h.stored seq hsome with hclosed | hold | hheld
      · exact Bool.false_ne_true (hopen.symm.trans hclosed)
      · omega
      · exact hfree hheld
    have hkeep : ∀ k p, s.stored.lookup k = some p →
        (s.stored ++ [(seq, payload)]).lookup k = some p := by
      intro k p hk
      rw [List.lookup_append, hk, Option.some_or]
    have hother : ∀ k, k ≠ seq → (s.stored ++ [(seq, payload)]).lookup k = s.stored.lookup k := by
      intro k hk
      rw [List.lookup_append, List.lookup_cons, beq_eq_false_iff_ne.2 hk, List.lookup_nil]
      exact Option.or_none
    rw [he]
    refine ⟨?_, fun k p hk => ?_, fun k hk => ?_, h.numbers,
      fun w hw => hkeep _ _ (h.payloads w hw), h.position.append _⟩
    · intro k hk
      rcases Finmap.mem_insert.1 hk with rfl | hk
      · exact ⟨hnew, hnear⟩
      · exact h.window k hk
    · dsimp only at hk ⊢
      rcases SeqMap.of_lookup_insert hk with ⟨rfl, rfl⟩ | ⟨hkseq, hold⟩
      · rw [List.lookup_append, hfirst, Option.none_or, List.lookup_cons_self]
      · rw [hother k hkseq]
        exact h.held k p hold
    · dsimp only at hk ⊢
      by_cases hkseq : k = seq
      · exact .inr (.inr (Finmap.mem_insert.2 (.inl hkseq)))
      · rw [hother k hkseq] at hk
        rcases h.stored k hk with hclosed | hold | hheld
        · exact .inl hclosed
        · exact .inr (.inl hold)
        · exact .inr (.inr (Finmap.mem_insert.2 (.inr hheld)))

theorem Ordered.look (h : Ordered s) (hrun : s.run = .looking) {payload : Bytes}
    (hhead : s.queue.head = some payload) :
    Ordered { s with run := .checking (s.queue.delivered + 1) payload } := by
  have hcount := h.position
  rw [hrun] at hcount
  have hheld : s.queue.pending.lookup (s.queue.delivered + 1) = some payload := by
    unfold OrderedDelivery.head at hhead
    split_ifs at hhead
    exact hhead
  exact { h with position := ⟨hcount, rfl, h.held _ _ hheld⟩ }

theorem Ordered.start (h : Ordered s) {seq : ℕ} {payload : Bytes}
    (hrun : s.run = .starting seq payload) (late : ℕ) :
    Ordered { s with
      run := .writing seq, started := s.started ++ [(seq, payload)], lateStarts := late } := by
  have hpos := h.position
  rw [hrun] at hpos
  obtain ⟨hcount, hseq, hstored⟩ := hpos
  refine ⟨h.window, h.held, h.stored, ?_, ?_, ?_⟩
  · dsimp only
    rw [List.map_append, h.numbers, List.length_append, List.length_singleton, List.map_singleton,
      List.range'_1_concat, hseq, hcount, Nat.add_comm 1]
  · intro w hw
    rcases List.mem_append.1 hw with hw | hw
    · exact h.payloads w hw
    · rw [List.mem_singleton.1 hw]
      exact hstored
  · refine ⟨?_, hseq⟩
    dsimp only
    rw [List.length_append, List.length_singleton, hcount]

theorem Ordered.complete (h : Ordered s) {seq : ℕ} (hrun : s.run = .written seq) :
    Ordered { s with run := .queueing, queue := s.queue.complete seq } := by
  have hpos := h.position
  rw [hrun] at hpos
  obtain ⟨hcount, hseq⟩ := hpos
  subst hseq
  refine ⟨inWindow_complete h.window, fun k p hk => ?_, fun k hk => ?_, h.numbers, h.payloads,
    hcount⟩
  · exact h.held k p (SeqMap.of_lookup_erase hk)
  · dsimp only [OrderedDelivery.complete]
    rcases h.stored k hk with hclosed | hold | hheld
    · exact .inl hclosed
    · exact .inr (.inl (by omega))
    · by_cases hhead : k = s.queue.delivered + 1
      · exact .inr (.inl hhead.le)
      · exact .inr (.inr (Finmap.mem_erase.2 ⟨hhead, hheld⟩))

theorem Ordered.close (h : Ordered s) : Ordered { s with queue := s.queue.close } where
  window := inWindow_close s.queue
  held := fun k p hk => by
    dsimp only [OrderedDelivery.close] at hk
    rw [Finmap.lookup_empty] at hk
    cases hk
  stored := fun _ _ => .inl rfl
  numbers := h.numbers
  payloads := h.payloads
  position := h.position

theorem Ordered.step (h : Ordered s) (hst : Step s s') : Ordered s' := by
  have hpos := h.position
  cases hst with
  | offer seq payload => exact h.offer seq payload
  | start seq payload hrun => exact h.start hrun _
  | complete seq hrun => exact h.complete hrun
  | take hrun payload hhead => exact h.look hrun hhead
  | check seq payload hrun =>
      rw [hrun] at hpos
      refine { h with position := ?_ }
      dsimp only
      split
      · trivial
      · exact hpos
  | rest hrun _ | finish _ hrun | wakeUp hrun | queueAck hrun | idle hrun =>
      rw [hrun] at hpos
      exact { h with position := hpos }
  | quit | refuse | fail => exact { h with position := trivial }
  | close => exact h.close
  | notify | «return» | closeDone => exact { h with }
  | snapshot => exact h

-- Asleep, or about to be, with the next record held, the loop finds a token, or the
-- call that stored the record is still to send it.
structure Watched (s : State) : Prop where
  running : s.done = false → s.failed = false → s.run ≠ .failing ∧ s.run ≠ .stopped
  token : s.run = .waiting ∨ s.run = .idling → s.queue.closed = false →
    s.queue.delivered + 1 ∈ s.queue.pending →
    s.queue.wake = true ∨ ∃ c ∈ s.offers, c.stage = .waking

theorem watched_initial (limit : ℕ) : Watched (initial limit) where
  running := fun _ _ => ⟨Run.noConfusion, Run.noConfusion⟩
  token := fun _ _ hheld => absurd hheld Finmap.notMem_empty

-- A step of the loop that does not take it to the select.
theorem Watched.busy {run : Run} (hbusy : run.draining = true) (hrun : s'.run = run) :
    Watched s' := by
  refine ⟨fun _ _ => ?_, fun hrest => ?_⟩
  · rw [hrun]
    cases run with
    | waiting | idling | failing | stopped => cases hbusy
    | _ => exact ⟨Run.noConfusion, Run.noConfusion⟩
  · rw [hrun] at hrest
    rcases hrest with rfl | rfl
    · cases hbusy
    · cases hbusy

-- A step that ends the loop for a reason.
theorem Watched.ended (hend : s'.done = false → s'.failed = false → False)
    (hrun : s'.run = .failing ∨ s'.run = .stopped) : Watched s' := by
  refine ⟨fun hdone hfailed => (hend hdone hfailed).elim, fun hrest => ?_⟩
  rcases hrun with hrun | hrun
  all_goals
    rw [hrun] at hrest
    rcases hrest with hrest | hrest
    all_goals cases hrest

theorem Watched.offer (h : Watched s) (seq : ℕ) (payload : Bytes) :
    Watched (s.offer seq payload) := by
  rcases offer_cases s seq payload with he | ⟨⟨c, he, hc⟩, -⟩
  · rw [he]
    exact h
  · rw [he]
    exact ⟨h.running, fun _ _ _ => .inr ⟨c, List.mem_cons_self, hc⟩⟩

theorem Watched.returned (h : Watched s) {c : OfferCall} (hc : c.stage = .returning) :
    Watched { s with offers := s.offers.erase c } := by
  refine ⟨h.running, fun hrest hopen hheld => ?_⟩
  rcases h.token hrest hopen hheld with htoken | ⟨c', hmem, hwaking⟩
  · exact .inl htoken
  · have hne : c' ≠ c := by
      rintro rfl
      rw [hc] at hwaking
      cases hwaking
    exact .inr ⟨c', (List.mem_erase_of_ne hne).2 hmem, hwaking⟩

-- The loop rests only after it has seen, under the lock, that the next record is
-- missing.
theorem Watched.rest (hhead : s.queue.head = none) :
    Watched { s with run := .idling } := by
  refine ⟨fun _ _ => ⟨Run.noConfusion, Run.noConfusion⟩, fun _ hopen hheld => ?_⟩
  unfold OrderedDelivery.head at hhead
  dsimp only at hopen hheld
  rw [hopen, if_neg Bool.false_ne_true, Finmap.lookup_eq_none] at hhead
  exact absurd hheld hhead

theorem Watched.step (h : Watched s) (hst : Step s s') : Watched s' := by
  cases hst with
  | offer seq payload => exact h.offer seq payload
  | notify => exact ⟨h.running, fun _ _ _ => .inl rfl⟩
  | «return» c hc => exact h.returned hc
  | rest _ hhead => exact .rest hhead
  | wakeUp | queueAck | take | start | finish | complete => exact .busy rfl rfl
  | check =>
      cases s.done with
      | true => exact .ended (fun hopen => by cases hopen) (.inr rfl)
      | false => exact .busy rfl rfl
  | idle hrun =>
      exact ⟨fun _ _ => ⟨Run.noConfusion, Run.noConfusion⟩, fun _ => h.token (.inr hrun)⟩
  | quit hquit => exact .ended (fun hdone => absurd (hquit.symm.trans hdone) (by decide)) (.inr rfl)
  | refuse => exact .ended (fun _ hfailed => by cases hfailed) (.inl rfl)
  | fail hrun => exact .ended (fun hdone hfailed => (h.running hdone hfailed).1 hrun) (.inr rfl)
  | close => exact ⟨h.running, fun _ hopen => by cases hopen⟩
  | closeDone => exact ⟨(fun hdone => by cases hdone), h.token⟩
  | snapshot => exact h

-- A write can start after `close` only with a record taken before it.
structure Late (s : State) : Prop where
  le_one : s.lateStarts ≤ 1
  opened : s.queue.closed = false → s.lateStarts = 0
  taken : ∀ seq payload, s.run = .checking seq payload ∨ s.run = .starting seq payload →
    s.lateStarts = 0

theorem late_initial (limit : ℕ) : Late (initial limit) where
  le_one := Nat.zero_le _
  opened := fun _ => rfl
  taken := fun _ _ _ => rfl

theorem Late.other (h : Late s) (hlate : s'.lateStarts = s.lateStarts)
    (hclosed : s'.queue.closed = false → s.queue.closed = false)
    (hrun : ∀ seq payload, s'.run ≠ .checking seq payload ∧ s'.run ≠ .starting seq payload) :
    Late s' where
  le_one := hlate ▸ h.le_one
  opened := fun hopen => hlate.trans (h.opened (hclosed hopen))
  taken := fun seq payload htaken => htaken.elim (absurd · (hrun seq payload).1)
    (absurd · (hrun seq payload).2)

theorem Late.start (h : Late s) {seq : ℕ} {payload : Bytes} (hrun : s.run = .starting seq payload)
    (started : List (ℕ × Bytes)) :
    Late { s with
      run := .writing seq
      started := started
      lateStarts := if s.queue.closed then s.lateStarts + 1 else s.lateStarts } := by
  have hnone := h.taken seq payload (.inr hrun)
  refine ⟨?_, fun hopen => ?_, fun _ _ htaken => ?_⟩
  · dsimp only
    split <;> omega
  · dsimp only at hopen ⊢
    rw [hopen, if_neg Bool.false_ne_true]
    exact hnone
  · rcases htaken with htaken | htaken <;> cases htaken

theorem Late.step (h : Late s) (hst : Step s s') : Late s' := by
  cases hst with
  | offer seq payload =>
      rcases offer_cases s seq payload with he | ⟨⟨c, he, -⟩, -⟩
      · rw [he]
        exact h
      · rw [he]
        exact ⟨h.le_one, h.opened, h.taken⟩
  | start seq payload hrun => exact h.start hrun _
  | take _ payload hhead =>
      have hopen : s.queue.closed = false := by
        unfold OrderedDelivery.head at hhead
        split_ifs at hhead with hclosed
        exact Bool.eq_false_iff.2 hclosed
      exact ⟨h.le_one, h.opened, fun _ _ _ => h.opened hopen⟩
  | check seq payload hrun =>
      exact ⟨h.le_one, h.opened, fun _ _ _ => h.taken seq payload (.inl hrun)⟩
  | close => exact ⟨h.le_one, (fun hopen => by cases hopen), h.taken⟩
  | wakeUp | quit | rest | finish | refuse | complete | queueAck | idle | fail =>
      exact h.other rfl id fun _ _ => ⟨Run.noConfusion, Run.noConfusion⟩
  | notify | «return» | closeDone => exact ⟨h.le_one, h.opened, h.taken⟩
  | snapshot => exact h

theorem invariants_reachable {limit : ℕ} (h : Reachable (system limit) s) :
    Ordered s ∧ Watched s ∧ Late s := by
  apply h.invariant
  · rintro s rfl
    exact ⟨ordered_initial limit, watched_initial limit, late_initial limit⟩
  · intro s l s' hs _ hst
    have hstep := step_of_next hst
    exact ⟨hs.1.step hstep, hs.2.1.step hstep, hs.2.2.step hstep⟩

theorem delivery_invariant {limit : ℕ} (h : Reachable (system limit) s) :
    (s.started.map Prod.fst = List.range' 1 s.started.length ∧
      ∀ w ∈ s.started, s.stored.lookup w.1 = some w.2) ∧
    (s.queue.closed = false →
      (∀ seq ∈ s.queue.pending,
        s.queue.delivered < seq ∧ seq ≤ s.queue.delivered + s.queue.limit) ∧
      ((s.queue.snapshot.credit : ℤ) = s.queue.limit - SeqMap.size s.queue.pending ∧
        s.queue.snapshot.credit ≤ s.queue.limit ∧ s.queue.snapshot.credit < 2 ^ 16) ∧
      (∀ payload, (offerLocked s.queue (s.queue.delivered + 1) payload).1.ok = true) ∧
      (s.done = false → s.failed = false → s.queue.delivered + 1 ∈ s.queue.pending →
        s.run.draining = true ∨ s.queue.wake = true ∨ s.offers ≠ [])) ∧
    s.lateStarts ≤ 1 := by
  obtain ⟨hordered, hwatched, hlate⟩ := invariants_reachable h
  refine ⟨⟨hordered.numbers, hordered.payloads⟩, fun hopen => ⟨hordered.window, ?_, ?_, ?_⟩,
    hlate.le_one⟩
  · have hsize := size_pending_le hordered.window
    have hlimit := s.queue.limit_le
    have hwide : deliveryWindowWide = 4096 := rfl
    dsimp only [OrderedDelivery.snapshot]
    omega
  · exact head_not_refused hopen hordered.window
  · intro hdone hfailed hheld
    obtain ⟨hfailing, hstopped⟩ := hwatched.running hdone hfailed
    have htoken := fun hrest => hwatched.token hrest hopen hheld
    cases hrun : s.run with
    | waiting =>
        rcases htoken (.inl hrun) with hwake | ⟨c, hc, -⟩
        · exact .inr (.inl hwake)
        · exact .inr (.inr (List.ne_nil_of_mem hc))
    | idling =>
        rcases htoken (.inr hrun) with hwake | ⟨c, hc, -⟩
        · exact .inr (.inl hwake)
        · exact .inr (.inr (List.ne_nil_of_mem hc))
    | failing => exact absurd hrun hfailing
    | stopped => exact absurd hrun hstopped
    | _ => exact .inl rfl

def storedOffer (seq ack : ℕ) (payload : Bytes) : List Label :=
  let call := fun stage : Stage =>
    { seq := seq, ack := if ack + 1 < seq then some ack else none, stage := stage : OfferCall }
  [.offer seq payload, .notify (call .waking), .return (call .returning)]

-- The second record comes first; the session closes while it is taken for writing.
def lateWrite : List Label :=
  storedOffer 2 0 [20] ++ storedOffer 1 0 [10] ++
    [.wakeUp, .look, .check, .start, .finish true, .complete, .queueAck, .look, .check, .close,
      .start]

theorem late_write_exact : ∃ s, Reachable (system 4) s ∧
    (s.started = [(1, [10]), (2, [20])] ∧ s.lateStarts = 1) ∧
    s.started.map Prod.fst = List.range' 1 s.started.length ∧ s.lateStarts ≤ 1 := by
  obtain ⟨s, hs, hlate⟩ := (system 4).exists_run
    (P := fun s => s.started = [(1, [10]), (2, [20])] ∧ s.lateStarts = 1) rfl lateWrite
    (by decide +kernel)
  obtain ⟨hwrites, -, hle⟩ := delivery_invariant hs
  exact ⟨s, hs, hlate, hwrites.1, hle⟩

end UdpCustom.Drain
