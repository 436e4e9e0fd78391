import UdpCustom.Receiver.Theorems

-- The sole writer of a receiver that stays open: it is never asleep with a record
-- to hand on, it keeps the record it writes until that is done, and every step of
-- it brings the next write nearer.
namespace UdpCustom.Receiver

open UdpCustom.Frame UdpCustom.Delivery UdpCustom.Fec
open UdpCustom.Sender (Config)

variable {cfg : Config} {s s' : State} {out : List UDPCFrame}

structure Awake (s : State) : Prop where
  done : s.done = false
  closed : s.delivery.closed = false
  running : s.writer ≠ .stopped
  wake : s.writer = .sleeping ∨ s.writer = .idling →
    s.delivery.delivered + 1 ∈ s.delivery.pending → s.delivery.wake = true
  busy : ∀ seq payload, s.writer = .writing seq payload ∨ s.writer = .written seq payload →
    seq ∈ s.delivery.pending

theorem awake_initial (cfg : Config) : Awake (initial cfg) := by
  refine ⟨rfl, rfl, nofun, fun _ hmem => absurd hmem Finmap.notMem_empty, ?_⟩
  rintro seq payload (hw | hw) <;> cases hw

theorem Awake.congr (h : Awake s) (hdone : s'.done = s.done) (hdelivery : s'.delivery = s.delivery)
    (hwriter : s'.writer = s.writer) : Awake s' := by
  refine ⟨hdone.trans h.done, ?_, ?_, ?_, ?_⟩
  · rw [hdelivery]
    exact h.closed
  · rw [hwriter]
    exact h.running
  · rw [hwriter, hdelivery]
    exact h.wake
  · rw [hwriter, hdelivery]
    exact h.busy

theorem Awake.offered (h : Awake s) (seq : ℕ) (payload : Bytes) :
    Awake { s with delivery := (s.delivery.offerObserved seq payload).2 } := by
  rcases offerObserved_queue s.delivery seq payload with he | ⟨he, _⟩
  · rw [he]
    exact h
  · rw [he]
    refine ⟨h.done, h.closed, h.running, fun _ _ => rfl, fun k p hw => ?_⟩
    exact Finmap.mem_insert.2 (.inr (h.busy k p hw))

theorem drain_open (h : Awake s) :
    (Writer.drain s.delivery s.done = .idling ∧ s.delivery.delivered + 1 ∉ s.delivery.pending) ∨
      (∃ payload, Writer.drain s.delivery s.done = .writing (s.delivery.delivered + 1) payload) ∧
        s.delivery.delivered + 1 ∈ s.delivery.pending := by
  unfold Writer.drain OrderedDelivery.head
  rw [h.closed, h.done, if_neg Bool.false_ne_true]
  cases hl : s.delivery.pending.lookup (s.delivery.delivered + 1) with
  | none => exact .inl ⟨rfl, Finmap.lookup_eq_none.1 hl⟩
  | some payload => exact .inr ⟨⟨payload, rfl⟩, SeqMap.mem_iff_isSome.2 (hl ▸ rfl)⟩

-- A step beside the writer.
structure Beside (s s' : State) : Prop where
  writer : s'.writer = s.writer
  written : s'.written = s.written
  awake : Awake s → Awake s'

theorem Beside.same (hdone : s'.done = s.done) (hdelivery : s'.delivery = s.delivery)
    (hwriter : s'.writer = s.writer) (hwritten : s'.written = s.written) : Beside s s' :=
  ⟨hwriter, hwritten, fun h => h.congr hdone hdelivery hwriter⟩

theorem beside_receive (s : State) (frame : UDPCFrame) : Beside s (s.receive frame) := by
  obtain ⟨replayFilter, accepted, tasks, he⟩ := receive_state s frame
  rw [he]
  exact .same rfl rfl rfl rfl

theorem beside_offer (s : State) (t : Task) (found : List SourceShard) :
    Beside s (s.offer t found) := by
  obtain ⟨tasks, delivery, he, rfl | ⟨seq, payload, rfl⟩⟩ := offer_state s t found
  · rw [he]
    exact .same rfl rfl rfl rfl
  · rw [he]
    exact ⟨rfl, rfl, fun h => (h.offered seq payload).congr rfl rfl rfl⟩

theorem beside_send (s : State) (frame : UDPCFrame) : Beside s (s.send frame).1 := by
  obtain ⟨no, hno⟩ := send_state s frame
  rw [hno]
  exact .same rfl rfl rfl rfl

theorem beside_next {l : Label} (hl : l.ofWriter = false) (hopen : l.keepsOpen = true)
    (hst : next cfg s l = some (s', out)) : Beside s s' := by
  cases step_of_next hst with
  | receive frame => exact beside_receive s frame
  | offer t found => exact beside_offer s t found
  | fec | remove | snapshot => exact .same rfl rfl rfl rfl
  | sendSack | sendAck => exact beside_send s _
  | stop | wakeUp | drain | write | complete | idle => cases hl
  | closeDelivery | closeDone => cases hopen

theorem write_cases {ok : Bool} (hst : next cfg s (.write ok) = some (s', out)) :
    ∃ seq payload, s.writer = .writing seq payload ∧ s'.written = s.written ++ [payload] ∧
      (s'.writer ≠ .stopped → ok = true) := by
  cases step_of_next hst with
  | write _ seq payload hwriter =>
      refine ⟨seq, payload, hwriter, rfl, fun hrunning => ?_⟩
      by_contra hfailed
      exact hrunning (if_neg hfailed)

-- Only a write hands a payload on, and a writer that has stopped stays so.
theorem written_next {l : Label} (hl : ∀ ok, l ≠ .write ok)
    (hst : next cfg s l = some (s', out)) :
    s'.written = s.written ∧ (s'.writer ≠ .stopped → s.writer ≠ .stopped) := by
  cases step_of_next hst with
  | write ok => exact absurd rfl (hl ok)
  | closeDelivery | closeDone => exact ⟨rfl, id⟩
  | stop hwriter | wakeUp hwriter | drain hwriter | complete _ _ hwriter | idle hwriter =>
      refine ⟨rfl, fun _ hstopped => ?_⟩
      rw [hwriter] at hstopped
      cases hstopped
  | _ =>
      have hbeside := beside_next rfl rfl hst
      exact ⟨hbeside.written, fun hrunning => hbeside.writer ▸ hrunning⟩

-- How many steps the writer is from its next write.
def distance : Writer → ℕ
  | .writing .. | .stopped => 0
  | .draining => 1
  | .sleeping | .written .. => 2
  | .idling => 3

-- A step of the writer, with the next record there.
theorem awake_writer {l : Label} (hl : l.ofWriter = true) (hopen : l.keepsOpen = true)
    (h : Awake s) (hst : next cfg s l = some (s', out)) :
    Awake s' ∧ s.written.length ≤ s'.written.length ∧
      ((s.writer = .draining → s.delivery.delivered + 1 ∈ s.delivery.pending) →
        s.written.length < s'.written.length ∨ distance s'.writer < distance s.writer) := by
  cases step_of_next hst with
  | stop _ hdone => exact absurd (hdone.symm.trans h.done) Bool.noConfusion
  | wakeUp hwriter | complete seq payload hwriter =>
      refine ⟨⟨h.done, h.closed, (fun hw => by cases hw), ?_, ?_⟩, Nat.le_refl _, fun _ => .inr ?_⟩
      · rintro (hw | hw) <;> cases hw
      · rintro k p (hw | hw) <;> cases hw
      · rw [hwriter]
        exact Nat.lt_succ_self 1
  | drain hwriter =>
      rcases drain_open h with ⟨hidle, hno⟩ | ⟨⟨payload, hwriting⟩, hmem⟩
      · rw [hidle]
        refine ⟨⟨h.done, h.closed, (fun hw => by cases hw), fun _ hmem => absurd hmem hno, ?_⟩,
          Nat.le_refl _, ?_⟩
        · rintro k p (hw | hw) <;> cases hw
        · exact fun hhead => absurd (hhead hwriter) hno
      · rw [hwriting]
        refine ⟨⟨h.done, h.closed, (fun hw => by cases hw), ?_, ?_⟩, Nat.le_refl _, fun _ => .inr ?_⟩
        · rintro (hw | hw) <;> cases hw
        · rintro k p (hw | hw)
          · cases hw
            exact hmem
          · cases hw
        · rw [hwriter]
          exact Nat.zero_lt_one
  | write ok seq payload hwriter =>
      cases ok with
      | false => cases hopen
      | true =>
          have hgrows : s.written.length < (s.written ++ [payload]).length := by
            rw [List.length_append]
            exact Nat.lt_succ_self _
          refine ⟨⟨h.done, h.closed, (fun hw => by cases hw), ?_, ?_⟩, hgrows.le, fun _ => .inl hgrows⟩
          · rintro (hw | hw) <;> cases hw
          · rintro k p (hw | hw)
            · cases hw
            · cases hw
              exact h.busy seq payload (.inl hwriter)
  | idle hwriter =>
      refine ⟨⟨h.done, h.closed, (fun hw => by cases hw), fun _ => h.wake (.inr hwriter), ?_⟩,
        Nat.le_refl _, fun _ => .inr ?_⟩
      · rintro k p (hw | hw) <;> cases hw
      · rw [hwriter]
        exact Nat.lt_succ_self 2
  | _ => cases hl

theorem awake_next {l : Label} (hopen : l.keepsOpen = true) (h : Awake s)
    (hst : next cfg s l = some (s', out)) : Awake s' := by
  cases hl : l.ofWriter with
  | true => exact (awake_writer hl hopen h hst).1
  | false => exact (beside_next hl hopen hst).awake h

end UdpCustom.Receiver
