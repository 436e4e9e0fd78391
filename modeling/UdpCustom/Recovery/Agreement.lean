import UdpCustom.Drain.Theorems
import UdpCustom.Recovery.Machine

-- What a receiver reports of its delivery queue is what the sender reads.
namespace UdpCustom.Recovery

open UdpCustom.Frame UdpCustom.Delivery UdpCustom.Flow UdpCustom.Sack Transition

-- A record that carries a snapshot of `d`, with the first `n` words.
structure Carries (d : OrderedDelivery) (n : ℕ) (frame : UDPCFrame) : Prop where
  ack : frame.ack = d.snapshot.ack
  data : frame.data = sackPayload d.snapshot.credit d.snapshot.bitmap n

variable {d : OrderedDelivery} {frame : UDPCFrame} {n : ℕ}

-- The sender takes every report: no bit of it lies above what was sent.
theorem validSACK_snapshot (h : Carries d n frame) (hn : n ≤ sackWordsWide) {f : SendFlow}
    {highest : ℕ} (hpos : 0 < highest) (hdelivered : d.delivered ≤ highest)
    (hheld : ∀ seq ∈ d.pending, seq ≤ highest) (hno : f.feedbackNo < frame.packetNo) :
    validSACK f frame highest = true := by
  have hack : frame.ack = d.delivered := h.ack
  have hlen : frame.data.length = 2 + (d.snapshot.bitmap.take n).length * 8 := by
    rw [h.data, length_sackPayload]
  have hkept := List.length_take_le n d.snapshot.bitmap
  have hwide : sackWordsWide = 64 := rfl
  have hmax : sackWordsWidePayload = 2 + 8 * 64 := rfl
  refine decide_eq_true ⟨hpos.ne', by omega, by omega, by omega, by omega, hno, ?_⟩
  intro i _
  by_cases hzero : (sackWords frame.data).getD i 0 = 0
  · exact .inl hzero
  · right
    obtain ⟨k, hlen, hbit⟩ := bit_len64 hzero
    rw [h.data] at hbit
    have hle := hheld _ (bit_payload_snapshot hbit)
    omega

theorem mem_sackedSeqs_snapshot (h : Carries d n frame) (hwindow : d.InWindow) {maxWords : ℕ}
    (hlimit : d.limit ≤ 64 * maxWords) (htrim : trimWords d.bitmap maxWords ≤ n) (seq : ℕ) :
    seq ∈ sackedSeqs frame ↔ seq ∈ d.pending := by
  have hack : frame.ack = d.delivered := h.ack
  rw [mem_sackedSeqs, h.data]
  constructor
  · rintro ⟨j, hbit, rfl⟩
    rw [bit_payload_snapshot_eq hwindow hlimit htrim, decide_eq_true_iff] at hbit
    rwa [hack]
  · intro hheld
    have hin := hwindow seq hheld
    have hseq : seq = d.delivered + 1 + (seq - d.delivered - 1) := by omega
    refine ⟨seq - d.delivered - 1, ?_, by omega⟩
    rw [bit_payload_snapshot_eq hwindow hlimit htrim, decide_eq_true_iff, ← hseq]
    exact hheld

theorem sack_agreement {limit : ℕ} {s : Drain.State} (hs : Reachable (Drain.system limit) s)
    {wide : Bool} (hlimit : s.queue.limit ≤ 64 * sackMaxWords wide)
    (hcarries : Carries s.queue n frame)
    (htrim : trimWords s.queue.snapshot.bitmap (sackMaxWords wide) ≤ n) (hn : n ≤ sackMaxWords wide)
    {o : Outstanding} {f : SendFlow} (hflow : o.flow = some f) (hno : f.feedbackNo < frame.packetNo)
    {highest : ℕ} (hsent : 0 < highest) (hdelivered : s.queue.delivered ≤ highest)
    (hheld : ∀ seq ∈ s.queue.pending, seq ≤ highest) (now rtt : ℕ) :
    (o.updateSACK frame highest now rtt).1.2 = true ∧
    (o.updateSACK frame highest now rtt).2.flow.map (·.credit) =
      some (s.queue.limit - SeqMap.size s.queue.pending) ∧
    ∀ seq, ((o.updateSACK frame highest now rtt).2.unacked.lookup seq).map (·.sacked) =
      (o.unacked.lookup seq).map (fun p => p.sacked || decide (seq ∈ s.queue.pending)) := by
  have hwindow := (Drain.invariants_reachable hs).1.window
  have hvalid := validSACK_snapshot hcarries (hn.trans (sackMaxWords_le wide)) hsent hdelivered hheld
    hno
  obtain ⟨htaken, f', hf', -, hcredit⟩ := updateSACK_taken hflow hvalid now rtt
  refine ⟨htaken, ?_, fun seq => ?_⟩
  · have hlimit := s.queue.limit_le
    have hwide : deliveryWindowWide = 4096 := rfl
    have hread : sackCredit frame.data = s.queue.snapshot.credit := by
      rw [hcarries.data, sackCredit_payload]
      dsimp only [OrderedDelivery.snapshot]
      omega
    rw [hf', Option.map_some, hcredit, hread]
    dsimp only [OrderedDelivery.snapshot]
    congr 1
    omega
  · rw [lookup_updateSACK hflow hvalid, Option.map_map]
    congr 1
    funext p
    rw [Function.comp_apply, sacked_heard, decide_eq_decide.2
      (mem_sackedSeqs_snapshot hcarries hwindow hlimit htrim seq)]

def sampleReport (d : OrderedDelivery) : UDPCFrame :=
  { Machine.sampleSack with
    ack := d.snapshot.ack
    data := encodeSACKWords d.snapshot.credit d.snapshot.bitmap (sackMaxWords false) }

-- Two records beyond a gap are held.
theorem sample_report_agrees : ∃ s, Reachable (Drain.system 4) s ∧
    SeqMap.ascending s.queue.pending = [3, 4] ∧
    (Machine.sampleOutstanding.updateSACK (sampleReport s.queue) 4 0 0).1.2 = true ∧
    (Machine.sampleOutstanding.updateSACK (sampleReport s.queue) 4 0 0).2.flow.map (·.credit) =
      some (s.queue.limit - SeqMap.size s.queue.pending) := by
  obtain ⟨s, hs, hlimit, hdelivered, hheld⟩ := (Drain.system 4).exists_run
    (P := fun s => s.queue.limit = 4 ∧ s.queue.delivered = 0 ∧
      SeqMap.ascending s.queue.pending = [3, 4]) rfl
    (Drain.storedOffer 3 0 [30] ++ Drain.storedOffer 4 0 [40]) (by decide +kernel)
  have hle : ∀ seq ∈ s.queue.pending, seq ≤ 4 := by
    intro seq hseq
    rw [← SeqMap.mem_ascending, hheld] at hseq
    revert seq
    decide
  have hcarries : Carries s.queue (trimWords s.queue.snapshot.bitmap (sackMaxWords false))
      (sampleReport s.queue) := ⟨rfl, encodeSACKWords_eq _ _ _⟩
  have hwords : s.queue.limit ≤ 64 * sackMaxWords false := by
    rw [hlimit]
    decide
  obtain ⟨htaken, hcredit, -⟩ := sack_agreement (o := Machine.sampleOutstanding) hs hwords hcarries
    (Nat.le_refl _) (trimWords_le _ _) rfl (show 0 < 9 by decide) (show 0 < 4 by decide)
    (by rw [hdelivered]; decide) hle 0 0
  exact ⟨s, hs, hheld, htaken, hcredit⟩

end UdpCustom.Recovery
