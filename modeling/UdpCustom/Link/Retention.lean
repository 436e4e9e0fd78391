import UdpCustom.Link.Stream
import UdpCustom.Receiver.Reports
import UdpCustom.Sender.Outstanding

-- The sender forgets a record only when the receiver has delivered it.
namespace UdpCustom.Link

open UdpCustom.Frame UdpCustom.Recovery UdpCustom.Fec Transition
open UdpCustom.Sender (Config)

variable {cfg : Config} {s s' : State}

structure Tracked (cfg : Config) (s : State) : Prop where
  snapshots : ∀ snap ∈ s.receiver.snapshots, Receiver.Reported cfg s.receiver.delivery snap
  feedback : ∀ f ∈ s.feedback, Receiver.Backed s.receiver.delivery f
  dueAcks : ∀ a ∈ s.sender.dueAcks, a ≤ s.receiver.delivery.delivered
  retained : ∀ seq, 0 < seq → seq ≤ s.sender.lastFiled →
    seq ∈ s.sender.outstanding.unacked ∨ seq ≤ s.receiver.delivery.delivered
  sacked : ∀ seq, s.sender.outstanding.Sacked seq → s.receiver.delivery.Held seq

theorem tracked_initial (cfg : Config) : Tracked cfg (initial cfg) := by
  refine ⟨?_, ?_, ?_, ?_, ?_⟩
  · exact fun _ h => absurd h List.not_mem_nil
  · exact fun _ h => absurd h List.not_mem_nil
  · exact fun _ h => absurd h List.not_mem_nil
  · intro seq hpos hle
    simp only [initial, Sender.initial] at hle
    omega
  · intro seq hseq
    simp [initial, Sender.initial, Outstanding.new, Outstanding.Sacked] at hseq

-- What a sender's step does to a record it kept: only an Ack at or above it
-- makes the sender forget it.
theorem unacked_next {l : Sender.Label} {sender : Sender.State} {out : List UDPCFrame}
    (hst : Sender.next cfg s.sender l = some (sender, out)) {seq : ℕ}
    (hseq : seq ∈ s.sender.outstanding.unacked) :
    seq ∈ sender.outstanding.unacked ∨ ∃ ack ∈ s.sender.dueAcks, seq ≤ ack := by
  obtain ⟨_, _, hrec⟩ := Sender.change_next hst
  cases hrec with
  | bookkept hb => exact .inl (hb.kept.mem_iff.2 hseq)
  | filed _ _ hfile _ =>
      left
      rw [hfile]
      exact Finmap.mem_insert.2 (.inr hseq)
  | @acked ack now srtt hdue hack _ =>
      rcases lookup_handleAck s.sender.outstanding s.sender.sendSeq ack now srtt seq with h | ⟨h, _⟩
      · left
        rw [hack, SeqMap.mem_iff_isSome, h]
        exact SeqMap.mem_iff_isSome.1 hseq
      · exact .inr ⟨ack, hdue, h⟩

theorem tracked_send {l : Sender.Label} (hagree : Agree cfg s) (h : Tracked cfg s)
    (hinput : ∀ frame ∈ l.input, frame ∈ s.feedback) {sender : Sender.State} {out : List UDPCFrame}
    (hst : Sender.next cfg s.sender l = some (sender, out)) :
    Tracked cfg { s with sender := sender, wire := out ++ s.wire } := by
  obtain ⟨hacks, _, hrec⟩ := Sender.change_next hst
  have hkept : ∀ seq, 0 < seq → seq ≤ s.sender.lastFiled →
      seq ∈ sender.outstanding.unacked ∨ seq ≤ s.receiver.delivery.delivered := by
    intro seq hpos hle
    rcases h.retained seq hpos hle with hseq | hseq
    · rcases unacked_next hst hseq with hseq | ⟨ack, hack, hle⟩
      · exact .inl hseq
      · exact .inr (hle.trans (h.dueAcks ack hack))
    · exact .inr hseq
  refine ⟨h.snapshots, h.feedback, fun a ha => ?_, fun seq hpos hle => ?_, fun seq hseq => ?_⟩
  · rcases hacks a ha with ha | ⟨f, hf, rfl⟩
    · exact h.dueAcks a ha
    · exact (h.feedback f (hinput f hf)).ack
  · cases hrec with
    | bookkept hb => exact hkept seq hpos (hb.filed ▸ hle)
    | filed hpump _ hfile hlast =>
        -- the record just filed is the one after those filed before
        have hal := hagree.sender.aligned
        simp only [Sender.Aligned, hpump] at hal
        by_cases hnew : seq ≤ s.sender.lastFiled
        · exact hkept seq hpos hnew
        · left
          rw [hfile]
          apply Finmap.mem_insert.2
          left
          dsimp only at hle
          omega
    | acked _ _ hlast => exact hkept seq hpos (hlast ▸ hle)
  · cases hrec with
    | bookkept hb =>
        rcases hb.sacked seq hseq with hold | ⟨f, hf, hcmd, hmem⟩
        · exact h.sacked seq hold
        · exact (h.feedback f (hinput f hf)).held hcmd seq hmem
    | filed _ _ hfile _ =>
        rw [hfile] at hseq
        exact h.sacked seq (sacked_file hseq)
    | acked _ hack _ =>
        rw [hack] at hseq
        exact h.sacked seq (sacked_handleAck hseq)

theorem tracked_step {l : Label} (hagree : Agree cfg s) (h : Tracked cfg s)
    (hst : next cfg s l = some s') : Tracked cfg s' := by
  cases l with
  | send l =>
      obtain ⟨hinput, sender, out, hsender, rfl⟩ := next_send hst
      exact tracked_send hagree h hinput hsender
  | recv l =>
      obtain ⟨_, receiver, out, hreceiver, rfl⟩ := next_recv hst
      obtain ⟨hadv, hsnaps, hout⟩ :=
        Receiver.reports_next hagree.receiver.writer h.snapshots hreceiver
      refine ⟨hsnaps, fun f hf => ?_, fun a ha => ?_, fun seq hpos hle => ?_, fun seq hseq => ?_⟩
      · rcases List.mem_append.1 hf with hf | hf
        · exact hout f hf
        · exact (h.feedback f hf).advance hadv
      · exact (h.dueAcks a ha).trans hadv.delivered
      · exact (h.retained seq hpos hle).imp_right fun hd => hd.trans hadv.delivered
      · exact hadv.held seq (h.sacked seq hseq)

theorem tracked_reachable (h : Reachable (system cfg) s) : Tracked cfg s := by
  have hboth : Agree cfg s ∧ Tracked cfg s := by
    refine h.invariant (I := fun s => Agree cfg s ∧ Tracked cfg s) ?_ ?_
    · rintro s rfl
      exact ⟨agree_initial cfg, tracked_initial cfg⟩
    · exact fun s l s' hs _ hst => ⟨agree_step hs.1 hst, tracked_step hs.1 hs.2 hst⟩
  exact hboth.2

-- The receiver neither holds the record nor has delivered it.
def Lacks (s : State) (seq : ℕ) : Prop :=
  seq ∉ s.receiver.delivery.pending ∧ s.receiver.delivery.delivered < seq

instance (s : State) (seq : ℕ) : Decidable (Lacks s seq) := by
  unfold Lacks
  infer_instance

theorem lacked_unsacked (h : Reachable (system cfg) s) (hopen : s.receiver.delivery.closed = false)
    {seq : ℕ} (hpos : 0 < seq) (hle : seq ≤ s.sender.lastFiled) (hlacks : Lacks s seq) :
    ∃ p, s.sender.outstanding.unacked.lookup seq = some p ∧ p.sacked = false := by
  have htracked := tracked_reachable h
  have hmem := (htracked.retained seq hpos hle).resolve_right (Nat.not_le.2 hlacks.2)
  obtain ⟨p, hp⟩ := Finmap.mem_iff.1 hmem
  refine ⟨p, hp, ?_⟩
  by_contra hsacked
  have hheld := htracked.sacked seq (by
    rw [Outstanding.Sacked, hp]
    simpa using hsacked)
  rcases hheld with hc | hc | hc
  · rw [hopen] at hc
    cases hc
  · exact hlacks.1 hc
  · exact absurd hc (Nat.not_le.2 hlacks.2)

theorem forgets_delivered_and_retries_lacked {cfg : Config} {s : State}
    (h : Reachable (system cfg) s) :
    (∀ l s', next cfg s l = some s' → ∀ seq ∈ s.sender.outstanding.unacked,
      seq ∉ s'.sender.outstanding.unacked → seq ≤ s.receiver.delivery.delivered) ∧
    (s.receiver.delivery.closed = false → ∀ seq, s.sender.outstanding.Sacked seq →
      seq ∈ s.receiver.delivery.pending ∨ seq ≤ s.receiver.delivery.delivered) ∧
    (s.receiver.delivery.closed = false → ∀ seq, 0 < seq → seq ≤ s.sender.lastFiled → Lacks s seq →
      ∃ p, s.sender.outstanding.unacked.lookup seq = some p ∧ p.sacked = false ∧
        ∀ now rtt bdp, p.rto < now - p.sentTime → p.queued = true ∨
          (s.sender.outstanding.retryDue now rttMaxRTO rtt bdp).1.abandoned = true ∨
          p.wire ∈ (s.sender.outstanding.retryDue now rttMaxRTO rtt bdp).1.wires ∨
          (s.sender.outstanding.retryDue now rttMaxRTO rtt bdp).1.wires.length = retryBurstMax) := by
  have htracked := tracked_reachable h
  refine ⟨fun l s' hst seq hseq hgone => ?_, fun hopen seq hseq => ?_,
    fun hopen seq hpos hle hlacks => ?_⟩
  · cases l with
    | send l =>
        obtain ⟨_, sender, out, hsender, rfl⟩ := next_send hst
        obtain ⟨ack, hack, hle⟩ := (unacked_next hsender hseq).resolve_left hgone
        exact hle.trans (htracked.dueAcks ack hack)
    | recv l =>
        obtain ⟨_, receiver, out, _, rfl⟩ := next_recv hst
        exact absurd hseq hgone
  · rcases htracked.sacked seq hseq with hc | hc
    · rw [hopen] at hc
      cases hc
    · exact hc
  · obtain ⟨p, hp, hsacked⟩ := lacked_unsacked h hopen hpos hle hlacks
    refine ⟨p, hp, hsacked, fun now rtt bdp hlate => ?_⟩
    by_cases hqueued : p.queued = true
    · exact .inl hqueued
    · right
      apply retryDue_covers hp
      simp [UnackedPkt.expired, hqueued, hsacked, hlate]

-- The second of two records arrives alone, and a SACK says so.
def sackedRun : List Label :=
  let second := numbered (Sender.dataFrame sampleConfig 2 0 0 [2]) 2
  let view : Delivery.Snapshot := { ack := 0, bitmap := 2 :: List.replicate 63 0, credit := 511 }
  sendRecord [1] ++ sendRecord [2] ++
    [.gather, .gather, .transmit, .markTransmitted 5].map .send ++
    [.receive second, .fec { frame := second, stage := .accepted } 9 [] [],
      .offer { frame := second, stage := .offering [] }, .snapshot, .sendSack view].map .recv ++
    [.send (.receive (numbered (Receiver.sackFrame sampleConfig view) 1) 20 0)]

theorem sacked_record_held : ∃ s, (Reachable (system sampleConfig) s ∧
      s.receiver.delivery.closed = false ∧ s.sender.outstanding.Sacked 2) ∧
    (2 ∈ s.receiver.delivery.pending ∨ 2 ≤ s.receiver.delivery.delivered) := by
  obtain ⟨s, hs, hopen, hsacked⟩ := (system sampleConfig).exists_run
    (P := fun s => s.receiver.delivery.closed = false ∧
      (s.sender.outstanding.unacked.lookup 2).any (·.sacked) = true) rfl sackedRun (by decide +kernel)
  exact ⟨s, ⟨hs, hopen, hsacked⟩,
    (forgets_delivered_and_retries_lacked hs).2.1 hopen 2 hsacked⟩

-- A record past its timeout that still waits for its first transmission.
theorem queued_record_passed_over : ∃ s, Reachable (system sampleConfig) s ∧
    (s.sender.closed = false ∧ s.receiver.delivery.closed = false ∧ Lacks s 1 ∧
      (s.sender.outstanding.unacked.lookup 1).any (fun p => p.rto < 2000000 - p.sentTime) = true ∧
      (s.sender.outstanding.retryDue 2000000 rttMaxRTO 0 0).1.abandoned = false ∧
      (s.sender.outstanding.retryDue 2000000 rttMaxRTO 0 0).1.wires = []) :=
  (system sampleConfig).exists_run rfl (sendRecord [1]) (by decide +kernel)

end UdpCustom.Link
