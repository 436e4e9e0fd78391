import UdpCustom.Credit.Receiving
import UdpCustom.Recovery.Repair

namespace UdpCustom.Credit

open UdpCustom.Frame UdpCustom.Replay UdpCustom.Delivery UdpCustom.Flow UdpCustom.Recovery
open UdpCustom.Sender (Config)
open UdpCustom.Receiver (Backed)
open Transition

variable {cfg : Config} {s s' : State}

-- A record as the sender files it: under its own number, already transmitted.
structure FiledAs (s : State) (seq : ℕ) (p : UnackedPkt) : Prop where
  number : p.wire.seq = seq
  cmd : p.wire.cmd = .data
  queued : p.queued = false
  pos : 0 < seq
  le : seq ≤ s.lastFiled

-- What the sending end keeps, against what the receiving end has delivered.
structure Sending (s : State) : Prop where
  data : ∀ f ∈ s.toReceiver, f.cmd = .data → 0 < f.seq ∧ f.seq ≤ s.lastFiled
  flow : ∃ f, s.outstanding.flow = some f ∧ f.feedbackNo ≤ s.recvPacketNo
  retained : ∀ seq, 0 < seq → seq ≤ s.lastFiled →
    seq ∈ s.outstanding.unacked ∨ seq ≤ s.delivery.delivered
  filed : ∀ seq p, s.outstanding.unacked.lookup seq = some p → FiledAs s seq p
  lowest : s.outstanding.Lowest
  sacked : ∀ seq, s.outstanding.Sacked seq → s.delivery.Held seq

theorem Sending.received (h : Sending s) (hr : Receives s s') : Sending s' := by
  refine ⟨fun f hf hcmd => ?_, ?_, fun seq hpos hle => ?_, fun seq p hp => ?_, ?_, fun seq hseq => ?_⟩
  · rw [hr.lastFiled]
    exact h.data f (hr.toReceiver f hf) hcmd
  · obtain ⟨f, hf, hno⟩ := h.flow
    exact ⟨f, hr.outstanding ▸ hf, hno.trans hr.number⟩
  · rw [hr.lastFiled] at hle
    rw [hr.outstanding]
    exact (h.retained seq hpos hle).imp id fun hd => hd.trans hr.advances.delivered
  · rw [hr.outstanding] at hp
    have hold := h.filed seq p hp
    exact { hold with le := hr.lastFiled ▸ hold.le }
  · rw [hr.outstanding]
    exact h.lowest
  · rw [hr.outstanding] at hseq
    exact hr.advances.held seq (h.sacked seq hseq)

theorem sending_sendControl (h : Sending s) {frame : UDPCFrame} (hcmd : frame.cmd ≠ .data) :
    Sending (s.sendControl frame) := by
  refine { h with data := fun f hf hdata => ?_, filed := fun seq p hp => { h.filed seq p hp with } }
  rcases List.mem_append.1 hf with hf | hf
  · exact h.data f hf hdata
  · rw [List.mem_singleton.1 hf] at hdata
    exact absurd hdata hcmd

theorem credited_steady {o o' : Outstanding} (h : o.SteadyFlow o') {f : SendFlow}
    (hf : o.flow = some f) : ∃ f', o'.flow = some f' ∧ f.Steady f' := by
  rcases h with ⟨hnone, _⟩ | ⟨g, g', hg, hg', hsteady⟩
  · rw [hnone] at hf
    cases hf
  · rw [hg] at hf
    cases hf
    exact ⟨g', hg', hsteady⟩

theorem sending_handleAck (h : Sending s) {ack : ℕ} (hack : ack ≤ s.delivery.delivered) (rtt : ℕ) :
    Sending (s.handleAck ack rtt) := by
  refine ⟨h.data, ?_, fun seq hpos hle => ?_, fun seq p hp => ?_, ?_, fun seq hseq => ?_⟩
  · obtain ⟨f, hf, hno⟩ := h.flow
    obtain ⟨f', hf', hsteady⟩ := credited_steady (steadyFlow_handleAck _ _ _ _ _) hf
    exact ⟨f', hf', hsteady.feedbackNo.le.trans hno⟩
  · rcases h.retained seq hpos hle with hseq | hseq
    · rcases lookup_handleAck s.outstanding (s.lastFiled + 1) ack s.now rtt seq with he | ⟨hle, _⟩
      · left
        rw [SeqMap.mem_iff_isSome] at hseq ⊢
        rw [State.handleAck, he]
        exact hseq
      · exact .inr (hle.trans hack)
    · exact .inr hseq
  · exact { h.filed seq p (lookup_of_handleAck hp) with }
  · exact lowest_handleAck h.lowest _ _ _ _
  · exact h.sacked seq (sacked_handleAck hseq)

-- Repairs keep what is filed and repeat nothing else.
theorem FiledAs.repaired {o : Outstanding} {wires : List UDPCFrame}
    (h : ∀ seq p, s.outstanding.unacked.lookup seq = some p → FiledAs s seq p)
    (hrepaired : s.outstanding.Repaired o wires) {seq : ℕ} {p : UnackedPkt}
    (hp : o.unacked.lookup seq = some p) : FiledAs s seq p := by
  obtain ⟨q, hq, hwire, hqueued, _⟩ := hrepaired seq p hp
  have hfiled := h seq q hq
  exact ⟨hwire ▸ hfiled.number, hwire ▸ hfiled.cmd, hqueued ▸ hfiled.queued, hfiled.pos, hfiled.le⟩

theorem data_repeated (h : Sending s) {wires : List UDPCFrame}
    (hwires : ∀ w ∈ wires, ∃ seq p, s.outstanding.unacked.lookup seq = some p ∧ p.wire = w) :
    ∀ f ∈ s.toReceiver ++ wires, f.cmd = .data → 0 < f.seq ∧ f.seq ≤ s.lastFiled := by
  intro f hf hdata
  rcases List.mem_append.1 hf with hf | hf
  · exact h.data f hf hdata
  · obtain ⟨seq, p, hp, rfl⟩ := hwires f hf
    have hfiled := h.filed seq p hp
    rw [hfiled.number]
    exact ⟨hfiled.pos, hfiled.le⟩

theorem sending_handleSACK (h : Sending s) {frame : UDPCFrame} (hcmd : frame.cmd = .sack)
    (hbacked : Backed s.delivery frame) (hno : frame.packetNo ≤ s.recvPacketNo) (rtt : ℕ) :
    Sending (s.handleSACK frame rtt) := by
  have hkept := updateSACK_kept s.outstanding frame s.lastFiled s.now rtt
  have hupdated : Sending { s with
      outstanding := (s.outstanding.updateSACK frame s.lastFiled s.now rtt).2
      toReceiver := s.toReceiver ++ (s.outstanding.updateSACK frame s.lastFiled s.now rtt).1.1 } := by
    refine ⟨?_, ?_, fun seq hpos hle => ?_, fun seq p hp => ?_, ?_, fun seq hseq => ?_⟩
    · exact data_repeated h fun w hw => updateSACK_wires hw
    · obtain ⟨f, hf, hle⟩ := h.flow
      cases hvalid : validSACK f frame s.lastFiled with
      | true =>
          obtain ⟨_, f', hf', hfeedback, _⟩ := updateSACK_taken hf hvalid s.now rtt
          exact ⟨f', hf', hfeedback.le.trans hno⟩
      | false =>
          rw [updateSACK_ignored hf hvalid]
          exact ⟨f, hf, hle⟩
    · exact (h.retained seq hpos hle).imp (fun hseq => hkept.mem_iff.2 hseq) id
    · exact { FiledAs.repaired h.filed (updateSACK_repaired _ _ _ _ _) hp with }
    · exact lowest_updateSACK h.lowest _ _ _ _
    · rcases sacked_updateSACK hseq with hold | hnew
      · exact h.sacked seq hold
      · exact hbacked.held hcmd seq hnew
  unfold State.handleSACK
  dsimp only
  split
  · exact sending_handleAck hupdated hbacked.ack rtt
  · exact hupdated

theorem sending_retransmit (cfg : Config) (h : Sending s) (rtt bdp : ℕ) :
    Sending (s.retransmit cfg rtt bdp) := by
  have hkept := retryDue_kept s.outstanding s.now rttMaxRTO rtt bdp
  have hrepeated : Sending { s with
      outstanding := (s.outstanding.retryDue s.now rttMaxRTO rtt bdp).2
      toReceiver := s.toReceiver ++ (s.outstanding.retryDue s.now rttMaxRTO rtt bdp).1.wires } := by
    refine ⟨?_, ?_, fun seq hpos hle => ?_, fun seq p hp => ?_, ?_, fun seq hseq => ?_⟩
    · exact data_repeated h fun w hw => retryDue_wires hw
    · obtain ⟨f, hf, hno⟩ := h.flow
      obtain ⟨f', hf', hsteady⟩ := credited_steady (steadyFlow_retryDue _ _ _ _ _) hf
      exact ⟨f', hf', hsteady.feedbackNo.le.trans hno⟩
    · exact (h.retained seq hpos hle).imp (fun hseq => hkept.mem_iff.2 hseq) id
    · exact { FiledAs.repaired h.filed (retryDue_repaired _ _ _ _ _) hp with }
    · exact lowest_retryDue h.lowest _ _ _ _
    · exact h.sacked seq ((sacked_retryDue _ _ _ _ _ seq).1 hseq)
  unfold State.retransmit
  dsimp only
  split
  · exact { h with filed := fun seq p hp => { h.filed seq p hp with } }
  · split
    · exact sending_sendControl hrepeated (show Command.ping ≠ .data by decide)
    · exact hrepeated

theorem lookup_sendRecord (cfg : Config) (s : State) (payload : Bytes) (rto seq : ℕ) :
    (s.sendRecord cfg payload rto).outstanding.unacked.lookup seq =
      if seq = s.lastFiled + 1 then
        some { wire := s.recordWire cfg payload, firstSent := s.now, sentTime := s.now, rto := rto,
               sacked := false, queued := false, retries := 0 }
      else s.outstanding.unacked.lookup seq := by
  set wire := s.recordWire cfg payload with hwire
  have hseqs : ([wire].filter (·.cmd = .data)).map (·.seq) = [s.lastFiled + 1] := by
    simp [hwire, State.recordWire, Sender.dataFrame]
  have hmodify := SeqMap.lookup_modify (UnackedPkt.transmitted s.now)
    (s.outstanding.file wire s.now rto).unacked (s.lastFiled + 1) seq
  simp only [State.sendRecord, Outstanding.markTransmitted, ← hwire, hseqs]
  refine hmodify.trans ?_
  by_cases hnew : seq = s.lastFiled + 1
  · have hfiled : (s.outstanding.file wire s.now rto).unacked.lookup (s.lastFiled + 1) = some
        { wire := wire, firstSent := s.now, sentTime := s.now, rto := rto, sacked := false,
          queued := true, retries := 0 } := Finmap.lookup_insert _
    rw [if_pos hnew, if_pos hnew, hnew, hfiled]
    rfl
  · rw [if_neg hnew, if_neg hnew]
    exact Finmap.lookup_insert_of_ne _ hnew

theorem mem_sendRecord {payload : Bytes} {rto seq : ℕ} :
    seq ∈ (s.sendRecord cfg payload rto).outstanding.unacked ↔
      seq = s.lastFiled + 1 ∨ seq ∈ s.outstanding.unacked := by
  rw [SeqMap.mem_iff_isSome, SeqMap.mem_iff_isSome, lookup_sendRecord]
  by_cases hnew : seq = s.lastFiled + 1
  · simp [hnew]
  · simp [hnew]

theorem sending_sendRecord (cfg : Config) (h : Sending s) (payload : Bytes) (rto : ℕ) :
    Sending (s.sendRecord cfg payload rto) := by
  refine ⟨fun f hf hdata => ?_, h.flow, fun seq hpos hle => ?_, fun seq p hp => ?_, fun seq hseq => ?_,
    fun seq hseq => ?_⟩
  · rcases List.mem_append.1 hf with hf | hf
    · have hold := h.data f hf hdata
      exact ⟨hold.1, Nat.le_succ_of_le hold.2⟩
    · rw [List.mem_singleton.1 hf]
      exact ⟨Nat.succ_pos _, Nat.le_refl _⟩
  · rw [mem_sendRecord]
    by_cases hnew : seq = s.lastFiled + 1
    · exact .inl (.inl hnew)
    · have hold : seq ≤ s.lastFiled := by
        simp only [State.sendRecord] at hle
        omega
      exact (h.retained seq hpos hold).imp .inr id
  · rw [lookup_sendRecord] at hp
    split_ifs at hp with hnew
    · cases hp
      exact ⟨hnew.symm, rfl, rfl, by omega, hnew.le⟩
    · have hold := h.filed seq p hp
      exact { hold with le := Nat.le_succ_of_le hold.le }
  · simp only [State.sendRecord, Outstanding.markTransmitted, Outstanding.file]
    have hseq := mem_sendRecord.1 hseq
    split
    · rename_i hempty
      rcases hseq with rfl | hold
      · exact Nat.le_refl _
      · exact absurd hempty (Finset.card_ne_zero_of_mem (Finmap.mem_keys.2 hold))
    · rename_i hsome
      rcases hseq with rfl | hold
      · obtain ⟨k, hk⟩ := Finset.card_pos.1 (Nat.pos_of_ne_zero hsome)
        have hk := Finmap.mem_keys.1 hk
        obtain ⟨p, hp⟩ := Finmap.mem_iff.1 hk
        exact (h.lowest k hk).trans (Nat.le_succ_of_le (h.filed k p hp).le)
      · exact h.lowest seq hold
  · exact h.sacked seq (sacked_file ((sacked_markTransmitted _ _ _ seq).1 hseq))

end UdpCustom.Credit
