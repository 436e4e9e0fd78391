import UdpCustom.Receiver.Step
import UdpCustom.Replay.Theorems
import UdpCustom.Sack.Theorems
import UdpCustom.Sender.Theorems

namespace UdpCustom.Receiver

open UdpCustom.Frame UdpCustom.Replay UdpCustom.Delivery UdpCustom.Sack UdpCustom.Fec
open UdpCustom.Recovery
open UdpCustom.Sender (Config)

variable {cfg : Config} {s s' : State} {records new : Records} {out : List UDPCFrame}

-- What was handed to the write function, against what counts as delivered.
def WriterAt (records : Records) (s : State) : Prop :=
  match s.writer with
  | .sleeping | .draining | .idling => s.written.length = s.delivery.delivered
  | .writing seq payload =>
    s.written.length = s.delivery.delivered ∧ seq = s.delivery.delivered + 1 ∧
      records seq = some payload
  | .written seq _ =>
    s.written.length = s.delivery.delivered + 1 ∧ seq = s.delivery.delivered + 1
  | .stopped => s.delivery.delivered ≤ s.written.length

-- A goroutine's record and the records rebuilt with it.
structure Task.Genuine (cfg : Config) (records : Records) (t : Task) : Prop where
  frame : Sender.Genuine cfg records t.frame
  cmd : t.frame.cmd = .data ∨ t.frame.cmd = .fec
  recovered : ∀ found, t.stage = .offering found → ∀ src ∈ found, records src.seq = some src.payload

-- Whatever the receiver holds of a record is what the sender passed for it.
structure Inv (cfg : Config) (records : Records) (s : State) : Prop where
  tasks : ∀ t ∈ s.tasks, t.Genuine cfg records
  fec : ∀ r ∈ s.fecRecv, r.Genuine cfg.code records cfg.fecExt
  pending : ∀ seq payload, s.delivery.pending.lookup seq = some payload → records seq = some payload
  window : s.delivery.InWindow
  written : ∀ (i : ℕ) payload, s.written[i]? = some payload → records (i + 1) = some payload
  writer : WriterAt records s

theorem Inv.mono (hext : records.Extends new) (h : Inv cfg records s) : Inv cfg new s where
  tasks := fun t ht => ⟨(h.tasks t ht).frame.mono hext, (h.tasks t ht).cmd,
    fun found hf src hsrc => hext _ _ ((h.tasks t ht).recovered found hf src hsrc)⟩
  fec := fun r hr => (h.fec r hr).mono hext
  pending := fun seq payload hp => hext _ _ (h.pending seq payload hp)
  window := h.window
  written := fun i payload hp => hext _ _ (h.written i payload hp)
  writer := by
    have hw := h.writer
    unfold WriterAt at *
    split
    all_goals
      rename_i heq
      rw [heq] at hw
    · exact hw
    · exact hw
    · exact hw
    · exact ⟨hw.1, hw.2.1, hext _ _ hw.2.2⟩
    · exact hw
    · exact hw

theorem inv_receive (h : Inv cfg records s) {frame : UDPCFrame}
    (hframe : Sender.Genuine cfg records frame) : Inv cfg records (s.receive frame) := by
  unfold State.receive
  dsimp only
  split
  · exact h
  split
  · split
    · rename_i hcmd
      refine { h with tasks := fun t ht => ?_ }
      rcases List.mem_cons.1 ht with rfl | ht
      · exact ⟨hframe, hcmd, fun found hf => by cases hf⟩
      · exact h.tasks t ht
    · exact { h with }
  · exact { h with }

theorem tasks_setStage {t : Task} {stage : Stage} (h : ∀ t ∈ s.tasks, t.Genuine cfg records)
    (ht : t ∈ s.tasks)
    (hstage : ∀ found, stage = .offering found → ∀ src ∈ found, records src.seq = some src.payload) :
    ∀ u ∈ (s.setStage t stage).tasks, u.Genuine cfg records := by
  intro u hu
  rcases List.mem_cons.1 hu with rfl | hu
  · exact ⟨(h t ht).frame, (h t ht).cmd, hstage⟩
  · exact h u (List.mem_of_mem_erase hu)

theorem recover_genuine (h : Inv cfg records s) {t : Task} (ht : t ∈ s.tasks) (now : ℕ)
    (scan evict : List ℕ) :
    (∀ src ∈ (s.recover cfg t now scan evict).1, records src.seq = some src.payload) ∧
      ∀ r ∈ (s.recover cfg t now scan evict).2, r.Genuine cfg.code records cfg.fecExt := by
  unfold State.recover
  split
  · exact ⟨fun _ hsrc => absurd hsrc List.not_mem_nil, fun _ hr => by cases hr⟩
  · rename_i r hr
    have hgen := h.fec r hr
    obtain ⟨hframe, hcmd, _⟩ := h.tasks t ht
    have hfound : RecoversFrom cfg.code records cfg.fecExt
        (if t.frame.cmd = .data then r.onData cfg.code t.frame.seq t.frame.data now scan evict
        else r.onParityFrame cfg.code t.frame now evict) := by
      split
      · rename_i hdata
        exact onData_genuine hgen (hframe.data hdata) now scan evict
      · rename_i hdata
        exact onParityFrame_genuine hgen (hframe.fec (hcmd.resolve_left hdata)) now evict
    refine ⟨hfound.out, fun r' hr' => ?_⟩
    cases hr'
    exact hfound.kept

theorem pending_offerObserved {d : OrderedDelivery} {seq : ℕ} {payload : Bytes}
    (h : ∀ k p, d.pending.lookup k = some p → records k = some p) (hrec : records seq = some payload) :
    ∀ k p, (d.offerObserved seq payload).2.pending.lookup k = some p → records k = some p := by
  rcases offerObserved_queue d seq payload with he | ⟨he, _⟩
  · rwa [he]
  · rw [he]
    intro k p hp
    rcases SeqMap.of_lookup_insert hp with ⟨rfl, rfl⟩ | ⟨-, hold⟩
    · exact hrec
    · exact h k p hold

-- The writer looks only at how far delivery is.
theorem writerAt_congr (h : WriterAt records s) (hwriter : s'.writer = s.writer)
    (hwritten : s'.written = s.written)
    (hdelivered : s'.delivery.delivered = s.delivery.delivered) : WriterAt records s' := by
  unfold WriterAt at *
  rwa [hwriter, hwritten, hdelivered]

theorem inv_offer (h : Inv cfg records s) {t : Task} (ht : t ∈ s.tasks) {found : List SourceShard}
    (hstage : t.stage = .offering found) : Inv cfg records (s.offer t found) := by
  have htask := h.tasks t ht
  have hfound := htask.recovered found hstage
  cases found with
  | nil =>
      unfold State.offer
      dsimp only
      split
      · rename_i hdata
        have hpending := pending_offerObserved h.pending (htask.frame.data hdata)
        have hdel := delivered_offerObserved s.delivery t.frame.seq t.frame.data
        split
        · exact { h with
            tasks := fun u hu => h.tasks u (List.mem_of_mem_erase hu)
            pending := hpending
            window := inWindow_offerObserved h.window _ _
            writer := writerAt_congr h.writer rfl rfl hdel }
        · refine { h with
            tasks := tasks_setStage h.tasks ht fun found hf => ?_
            pending := hpending
            window := inWindow_offerObserved h.window _ _
            writer := writerAt_congr h.writer rfl rfl hdel }
          cases hf
      · exact { h with tasks := fun u hu => h.tasks u (List.mem_of_mem_erase hu) }
  | cons src rest =>
      unfold State.offer
      have hpending := pending_offerObserved h.pending (hfound src List.mem_cons_self)
      have hdel := delivered_offerObserved s.delivery src.seq src.payload
      refine { h with
        tasks := tasks_setStage h.tasks ht fun found hf x hx => ?_
        pending := hpending
        window := inWindow_offerObserved h.window _ _
        writer := writerAt_congr h.writer rfl rfl hdel }
      cases hf
      exact hfound x (List.mem_cons_of_mem _ hx)

theorem inv_drain (h : Inv cfg records s) (hwriter : s.writer = .draining) :
    Inv cfg records { s with writer := Writer.drain s.delivery s.done } := by
  have hw := h.writer
  simp only [WriterAt, hwriter] at hw
  refine { h with writer := ?_ }
  unfold WriterAt Writer.drain
  cases hhead : s.delivery.head with
  | none => exact hw
  | some payload =>
      have hnext : records (s.delivery.delivered + 1) = some payload := by
        obtain ⟨-, hhead⟩ := Option.ite_none_left_eq_some.1 hhead
        exact h.pending _ _ hhead
      cases s.done with
      | true => exact hw.ge
      | false => exact ⟨hw, rfl, hnext⟩

theorem inv_write (h : Inv cfg records s) {seq : ℕ} {payload : Bytes}
    (hwriter : s.writer = .writing seq payload) (ok : Bool) :
    Inv cfg records { s with
      written := s.written ++ [payload]
      writer := if ok then .written seq payload else .stopped } := by
  have hw := h.writer
  simp only [WriterAt, hwriter] at hw
  obtain ⟨hlen, hseq, hrec⟩ := hw
  have hlen' : (s.written ++ [payload]).length = s.delivery.delivered + 1 := by
    rw [List.length_append, hlen]
    rfl
  refine { h with written := fun i p hp => ?_, writer := ?_ }
  · rw [List.getElem?_append] at hp
    split at hp
    · exact h.written i p hp
    · rename_i hi
      have hzero : i - s.written.length = 0 := by
        by_contra hne
        rw [List.getElem?_eq_none (by simp only [List.length_singleton]; omega)] at hp
        cases hp
      rw [hzero, List.getElem?_cons_zero] at hp
      cases hp
      rw [show i + 1 = seq by omega]
      exact hrec
  · cases ok with
    | true => exact ⟨hlen', hseq⟩
    | false => exact (Nat.le_succ _).trans hlen'.ge

theorem inv_complete (h : Inv cfg records s) {seq : ℕ} {payload : Bytes}
    (hwriter : s.writer = .written seq payload) :
    Inv cfg records { s with delivery := s.delivery.complete seq, writer := .draining } := by
  have hw := h.writer
  simp only [WriterAt, hwriter] at hw
  refine { h with
    pending := fun k p hp => ?_
    window := by rw [hw.2]; exact inWindow_complete h.window
    writer := hw.1.trans hw.2.symm }
  simp only [OrderedDelivery.complete] at hp
  by_cases hk : k = seq
  · subst hk
    simp [Finmap.lookup_erase] at hp
  · rw [Finmap.lookup_erase_ne hk] at hp
    exact h.pending k p hp

theorem inv_send (h : Inv cfg records s) (frame : UDPCFrame) : Inv cfg records (s.send frame).1 := by
  obtain ⟨no, hno⟩ := send_state s frame
  rw [hno]
  exact { h with }

theorem inv_next (h : Inv cfg records s) {l : Label}
    (hinput : ∀ frame ∈ l.input, Sender.Genuine cfg records frame)
    (hst : next cfg s l = some (s', out)) : Inv cfg records s' := by
  have hw := h.writer
  cases step_of_next hst with
  | receive frame => exact inv_receive h (hinput frame rfl)
  | fec t now scan evict ht =>
      obtain ⟨hfound, hfec⟩ := recover_genuine h ht now scan evict
      refine { h with tasks := tasks_setStage h.tasks ht fun found hf => ?_, fec := hfec }
      cases hf
      exact hfound
  | offer t found ht hstage => exact inv_offer h ht hstage
  | remove t => exact { h with tasks := fun u hu => h.tasks u (List.mem_of_mem_erase hu) }
  | stop hwriter =>
      simp only [WriterAt, hwriter] at hw
      exact { h with writer := hw.ge }
  | wakeUp hwriter | idle hwriter =>
      simp only [WriterAt, hwriter] at hw
      exact { h with window := h.window, writer := hw }
  | drain hwriter => exact inv_drain h hwriter
  | write ok seq payload hwriter => exact inv_write h hwriter ok
  | complete seq payload hwriter => exact inv_complete h hwriter
  | closeDelivery =>
      refine { h with
        pending := fun k p hp => ?_
        window := inWindow_close _
        writer := writerAt_congr h.writer rfl rfl rfl }
      simp [OrderedDelivery.close] at hp
  | closeDone | snapshot => exact { h with }
  | sendSack | sendAck => exact inv_send h _

end UdpCustom.Receiver
