import UdpCustom.Link.Retention

-- The window the sender keeps is the room the receiver has.
namespace UdpCustom.Link

open UdpCustom.Frame UdpCustom.Delivery UdpCustom.Flow UdpCustom.Recovery UdpCustom.Fec Transition
open UdpCustom.Sender (Config)

variable {cfg : Config} {s s' : State}

def maxFlight (cfg : Config) : ℕ :=
  (newSendFlow cfg.sendWindow cfg.autoWindow cfg.westwood cfg.wideWindow).max

structure Bounded (cfg : Config) (s : State) : Prop where
  sender : Sender.Windowed (maxFlight cfg) s.sender
  limit : s.receiver.delivery.limit = deliveryLimitFor cfg.wideWindow

theorem bounded_initial (hrecovery : cfg.recovery = true) : Bounded cfg (initial cfg) := by
  refine ⟨⟨?_, ?_, fun hres => hres.elim⟩, ?_⟩
  · simp only [initial, Sender.initial, Outstanding.new, hrecovery]
    rfl
  · simp [initial, Sender.initial, Outstanding.new]
  · simp only [initial, Receiver.initial, newOrderedDelivery, deliveryLimitFor]
    cases cfg.wideWindow <;> rfl

theorem bounded_step {l : Label} (hagree : Agree cfg s) (htracked : Tracked cfg s)
    (h : Bounded cfg s) (hst : next cfg s l = some s') : Bounded cfg s' := by
  cases l with
  | send l =>
      obtain ⟨_, sender, out, hsender, rfl⟩ := next_send hst
      exact ⟨Sender.windowed_next h.sender hsender, h.limit⟩
  | recv l =>
      obtain ⟨_, receiver, out, hreceiver, rfl⟩ := next_recv hst
      have hreports := Receiver.reports_next hagree.receiver.writer htracked.snapshots hreceiver
      exact ⟨h.sender, hreports.advances.limit.trans h.limit⟩

theorem bounded_reachable (hrecovery : cfg.recovery = true) (h : Reachable (system cfg) s) :
    Agree cfg s ∧ Tracked cfg s ∧ Bounded cfg s := by
  refine h.invariant (I := fun s => Agree cfg s ∧ Tracked cfg s ∧ Bounded cfg s) ?_ ?_
  · rintro s rfl
    exact ⟨agree_initial cfg, tracked_initial cfg, bounded_initial hrecovery⟩
  · rintro s l s' ⟨ha, ht, hb⟩ _ hst
    exact ⟨agree_step ha hst, tracked_step ha ht hst, bounded_step ha ht hb hst⟩

-- Everything filed but not delivered is outstanding, so it fits the window.
theorem filed_le_delivered_add (htracked : Tracked cfg s) (h : Bounded cfg s) :
    s.sender.lastFiled ≤ s.receiver.delivery.delivered + s.receiver.delivery.limit := by
  have hsub : Finset.Ioc s.receiver.delivery.delivered s.sender.lastFiled ⊆
      s.sender.outstanding.unacked.keys := by
    intro seq hseq
    obtain ⟨hlow, hhigh⟩ := Finset.mem_Ioc.1 hseq
    have hret := htracked.retained seq (by omega) hhigh
    exact Finmap.mem_keys.2 (hret.resolve_right (Nat.not_le.2 hlow))
  have hcard := Finset.card_le_card hsub
  rw [Nat.card_Ioc] at hcard
  have hsize := h.sender.size
  have hmax := max_newSendFlow_le cfg.sendWindow cfg.autoWindow cfg.westwood cfg.wideWindow
  rw [h.limit]
  unfold SeqMap.size at hsize
  unfold maxFlight at hsize
  omega

theorem records_range {seq : ℕ} {payload : Bytes} (h : s.sender.records seq = some payload) :
    0 < seq ∧ seq ≤ s.sender.lastFiled := by
  unfold Sender.State.records at h
  split at h
  · assumption
  · cases h

-- A record missing from the queue leaves a place in it.
theorem size_pending_lt (hagree : Agree cfg s) {seq : ℕ}
    (hlow : s.receiver.delivery.delivered < seq) (hhigh : seq ≤ s.sender.lastFiled)
    (hmissing : seq ∉ s.receiver.delivery.pending) :
    SeqMap.size s.receiver.delivery.pending <
      s.sender.lastFiled - s.receiver.delivery.delivered := by
  have hsub : s.receiver.delivery.pending.keys ⊂
      Finset.Ioc s.receiver.delivery.delivered s.sender.lastFiled := by
    rw [Finset.ssubset_iff_of_subset]
    · exact ⟨seq, Finset.mem_Ioc.2 ⟨hlow, hhigh⟩, mt Finmap.mem_keys.1 hmissing⟩
    · intro k hk
      have hk := Finmap.mem_keys.1 hk
      obtain ⟨payload, hpayload⟩ := Finmap.mem_iff.1 hk
      have hrange := records_range (hagree.receiver.pending k payload hpayload)
      exact Finset.mem_Ioc.2 ⟨(hagree.receiver.window k hk).1, hrange.2⟩
  have hcard := Finset.card_lt_card hsub
  rwa [Nat.card_Ioc] at hcard

theorem sent_record_admitted {cfg : Config} {s : State} (hrecovery : cfg.recovery = true)
    (h : Reachable (system cfg) s) {f : UDPCFrame} (hf : f ∈ s.wire) (hdata : f.cmd = .data)
    (hopen : s.receiver.delivery.closed = false) :
    let offered := s.receiver.delivery.offerObserved f.seq f.data
    offered.1.ok = true ∧
      (f.seq ≤ offered.2.delivered ∨ offered.2.pending.lookup f.seq = some f.data) := by
  obtain ⟨hagree, htracked, hbounded⟩ := bounded_reachable hrecovery h
  have hrecord := (hagree.wire f hf).data hdata
  obtain ⟨hpos, hfiled⟩ := records_range hrecord
  have hroom := filed_le_delivered_add htracked hbounded
  rcases offerObserved_cases s.receiver.delivery f.seq f.data with
    ⟨_, hwhy⟩ | ⟨he, -, -, hold⟩ | ⟨he, -, -, hheld⟩ | ⟨ack, he, _⟩
  · exfalso
    rcases hwhy with hzero | hclosed | ⟨hlow, hmissing, hfull⟩
    · omega
    · rw [hopen] at hclosed
      cases hclosed
    · have hsize := size_pending_lt hagree hlow hfiled hmissing
      omega
  · rw [he]
    exact ⟨rfl, .inl hold⟩
  · -- what is held under the number is the record itself
    obtain ⟨payload, hpayload⟩ := Finmap.mem_iff.1 hheld
    cases hrecord.symm.trans (hagree.receiver.pending f.seq payload hpayload)
    rw [he]
    exact ⟨rfl, .inr hpayload⟩
  · rw [he]
    exact ⟨rfl, .inr (Finmap.lookup_insert _)⟩

theorem lone_second_record_admitted : ∃ s, (Reachable (system sampleConfig) s ∧
      numbered (Sender.dataFrame sampleConfig 2 0 0 [2]) 2 ∈ s.wire ∧
      s.receiver.delivery.closed = false) ∧
    (s.receiver.delivery.offerObserved 2 [2]).1.ok = true ∧
      (2 ≤ (s.receiver.delivery.offerObserved 2 [2]).2.delivered ∨
        (s.receiver.delivery.offerObserved 2 [2]).2.pending.lookup 2 = some [2]) := by
  obtain ⟨s, hs, hf, hopen⟩ := (system sampleConfig).exists_run
    (P := fun s => numbered (Sender.dataFrame sampleConfig 2 0 0 [2]) 2 ∈ s.wire ∧
      s.receiver.delivery.closed = false) rfl
    (sendRecord [1] ++ sendRecord [2] ++ [.gather, .gather, .transmit].map .send) (by decide +kernel)
  exact ⟨s, ⟨hs, hf, hopen⟩, sent_record_admitted rfl hs hf rfl hopen⟩

end UdpCustom.Link
