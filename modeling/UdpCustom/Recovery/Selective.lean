import UdpCustom.Recovery.Theorems
import UdpCustom.Sack.Theorems
import Mathlib.Data.List.Sort

-- What one SACK record does to the records outstanding.
namespace UdpCustom.Recovery

open UdpCustom.Frame UdpCustom.Delivery UdpCustom.Flow UdpCustom.Sack

variable {frame : UDPCFrame} {o : Outstanding} {highest : ℕ} {f : SendFlow}

theorem bit_eq_false_of_le {words : List (BitVec 64)} {j : ℕ} (h : words.length * 64 ≤ j) :
    BitWindow.bit words j = false := by
  have hout : words.length ≤ j / 64 := by omega
  unfold BitWindow.bit
  rw [List.getD_eq_getElem?_getD, List.getElem?_eq_none hout, Option.getD_none]
  exact BitVec.getLsbD_zero

theorem mem_sackedSeqs {seq : ℕ} :
    seq ∈ sackedSeqs frame ↔
      ∃ j, BitWindow.bit (sackWords frame.data) j = true ∧ seq = frame.ack + 1 + j := by
  unfold sackedSeqs
  rw [List.mem_map]
  constructor
  · rintro ⟨j, hj, rfl⟩
    exact ⟨j, (List.mem_filter.1 hj).2, rfl⟩
  · rintro ⟨j, hbit, rfl⟩
    refine ⟨j, List.mem_filter.2 ⟨List.mem_range.2 ?_, hbit⟩, rfl⟩
    by_contra hout
    rw [bit_eq_false_of_le (Nat.not_lt.1 hout)] at hbit
    cases hbit

theorem nodup_sackedSeqs (frame : UDPCFrame) : (sackedSeqs frame).Nodup :=
  (List.nodup_range.filter _).map fun _ _ h => Nat.add_left_cancel h

theorem length_sackedSeqs (frame : UDPCFrame) :
    (sackedSeqs frame).length = BitWindow.ones (sackWords frame.data) := by
  rw [sackedSeqs, List.length_map, BitWindow.ones_eq_countP _ (by decide),
    List.countP_eq_length_filter]

-- No record above the highest one sent is advertised in feedback that is taken.
theorem sackedSeqs_le
    (h : validSACK f frame highest = true) : ∀ seq ∈ sackedSeqs frame, seq ≤ highest := by
  obtain ⟨-, -, -, -, hack, -, hwords⟩ := of_decide_eq_true h
  intro seq hseq
  obtain ⟨j, hbit, rfl⟩ := mem_sackedSeqs.1 hseq
  have hin : j / 64 < (sackWords frame.data).length := by
    by_contra hout
    rw [bit_eq_false_of_le (by omega)] at hbit
    cases hbit
  unfold BitWindow.bit at hbit
  rcases hwords (j / 64) hin with hzero | hle
  · rw [hzero] at hbit
    cases hbit.symm.trans BitVec.getLsbD_zero
  · have hlt := lt_len64 hbit
    omega

-- One record of the map after feedback that is taken.
def UnackedPkt.heard (sacked due : Bool) (now : ℕ) (p : UnackedPkt) : UnackedPkt :=
  let p := if sacked then p.markSacked else p
  if due then p.backOff now rttMaxRTO else p

theorem sacked_heard (sacked due : Bool) (now : ℕ) (p : UnackedPkt) :
    (p.heard sacked due now).sacked = (p.sacked || sacked) := by
  unfold UnackedPkt.heard
  cases sacked <;> cases due
  all_goals simp [UnackedPkt.markSacked, UnackedPkt.backOff]

theorem nodup_fastRepairs (unacked : SeqMap UnackedPkt) (frame : UDPCFrame)
    (highest now rtt : ℕ) : (fastRepairs unacked frame highest now rtt).Nodup := by
  unfold fastRepairs
  split
  · exact List.nodup_nil
  · exact ((List.nodup_range').filter _).sublist (List.take_sublist _ _)

-- Feedback that passes its checks is taken.
theorem updateSACK_valid (hflow : o.flow = some f)
    (hvalid : validSACK f frame highest = true) (now rtt : ℕ) :
    o.updateSACK frame highest now rtt =
      ((wiresAt (o.marked frame) (o.due frame highest now rtt), true),
        { o with
          unacked := SeqMap.modifyAll (.backOff now rttMaxRTO) (o.marked frame)
            (o.due frame highest now rtt)
          flow := some { f with
            feedbackNo := frame.packetNo
            credit := min (sackCredit frame.data) deliveryWindowWide
            fastRepairs := f.fastRepairs + (o.due frame highest now rtt).length } }) := by
  have hways := updateSACK_cases o frame highest now rtt
  generalize o.updateSACK frame highest now rtt = r at hways ⊢
  cases hways with
  | ignored hinvalid =>
      rw [hinvalid f hflow] at hvalid
      cases hvalid
  | taken hflow' _ =>
      rw [hflow, Option.some.injEq] at hflow'
      rw [hflow']

theorem lookup_updateSACK (hflow : o.flow = some f) (hvalid : validSACK f frame highest = true)
    (now rtt seq : ℕ) :
    (o.updateSACK frame highest now rtt).2.unacked.lookup seq =
      (o.unacked.lookup seq).map (.heard (seq ∈ sackedSeqs frame)
        (seq ∈ o.due frame highest now rtt) now) := by
  have hdue : (o.due frame highest now rtt).Nodup := nodup_fastRepairs _ _ _ _ _
  rw [updateSACK_valid hflow hvalid]
  dsimp only
  rw [SeqMap.lookup_modifyAll hdue, Outstanding.marked,
    SeqMap.lookup_modifyAll (nodup_sackedSeqs frame)]
  unfold UnackedPkt.heard
  by_cases hsacked : seq ∈ sackedSeqs frame <;> by_cases hdue : seq ∈ o.due frame highest now rtt
  all_goals simp [hsacked, hdue]
  rfl

theorem updateSACK_taken (hflow : o.flow = some f)
    (hvalid : validSACK f frame highest = true) (now rtt : ℕ) :
    (o.updateSACK frame highest now rtt).1.2 = true ∧ ∃ f',
      (o.updateSACK frame highest now rtt).2.flow = some f' ∧ f'.feedbackNo = frame.packetNo ∧
        f'.credit = min (sackCredit frame.data) deliveryWindowWide := by
  rw [updateSACK_valid hflow hvalid]
  exact ⟨rfl, _, rfl, rfl, rfl⟩

theorem wires_updateSACK (hflow : o.flow = some f)
    (hvalid : validSACK f frame highest = true) (now rtt : ℕ) :
    (o.updateSACK frame highest now rtt).1.1 =
      (o.due frame highest now rtt).filterMap fun seq => (o.unacked.lookup seq).map (·.wire) := by
  rw [updateSACK_valid hflow hvalid]
  dsimp only [wiresAt]
  congr 1
  funext seq
  apply SeqMap.map_lookup_modifyAll
  exact fun _ => rfl

theorem exists_validSACK {highest now rtt : ℕ}
    (h : (o.updateSACK frame highest now rtt).1.2 = true) :
    ∃ f, o.flow = some f ∧ validSACK f frame highest = true := by
  have hways := updateSACK_cases o frame highest now rtt
  generalize o.updateSACK frame highest now rtt = r at hways h
  cases hways with
  | ignored _ => cases h
  | taken hflow hvalid => exact ⟨_, hflow, hvalid⟩

-- Feedback that is not taken leaves everything as it was.
theorem updateSACK_false {highest now rtt : ℕ}
    (h : (o.updateSACK frame highest now rtt).1.2 = false) :
    (o.updateSACK frame highest now rtt).2 = o ∧ (o.updateSACK frame highest now rtt).1.1 = [] := by
  have hways := updateSACK_cases o frame highest now rtt
  generalize o.updateSACK frame highest now rtt = r at hways h ⊢
  cases hways with
  | ignored _ => exact ⟨rfl, rfl⟩
  | taken _ _ => cases h

-- How long a record must have been out before feedback repeats it.
def guardTime (rtt : ℕ) (p : UnackedPkt) : ℕ :=
  let guard := max (5 * millisecond) (rtt / 4)
  if 0 < p.retries then max guard (p.rto / 4) else guard

-- A record feedback may repair: in the range its words describe, and neither
-- received, nor waiting for its first transmission, nor repeated too often or too
-- recently.
def Outstanding.Missing (o : Outstanding) (frame : UDPCFrame) (highest now rtt seq : ℕ) : Prop :=
  frame.ack < seq ∧ seq ≤ min highest (frame.ack + 64 * (sackWords frame.data).length) ∧
    ∃ p ∈ o.unacked.lookup seq, p.sacked = false ∧ seq ∉ sackedSeqs frame ∧ p.queued = false ∧
      guardTime rtt p ≤ now - p.sentTime ∧ p.retries < clientMaxRetries

instance (o : Outstanding) (frame : UDPCFrame) (highest now rtt seq : ℕ) :
    Decidable (o.Missing frame highest now rtt seq) := by
  unfold Outstanding.Missing
  infer_instance

-- The holes the scan sees are the records missing.
theorem repairable_iff (o : Outstanding) (frame : UDPCFrame) (now rtt seq : ℕ) :
    ((SeqMap.modifyAll UnackedPkt.markSacked o.unacked (sackedSeqs frame)).lookup seq).any
        (·.repairable (max (5 * millisecond) (rtt / 4)) now) = true ↔
      ∃ p ∈ o.unacked.lookup seq, p.sacked = false ∧ seq ∉ sackedSeqs frame ∧ p.queued = false ∧
        guardTime rtt p ≤ now - p.sentTime ∧ p.retries < clientMaxRetries := by
  rw [SeqMap.lookup_modifyAll (nodup_sackedSeqs frame)]
  unfold guardTime
  cases o.unacked.lookup seq with
  | none => simp
  | some p =>
      by_cases hsacked : seq ∈ sackedSeqs frame
      · simp [hsacked, UnackedPkt.repairable, UnackedPkt.markSacked]
      · simp [hsacked, UnackedPkt.repairable]

-- The repairs are the oldest records missing.
theorem due_eq {highest now rtt : ℕ} (hack : frame.ack ≤ highest) :
    o.due frame highest now rtt =
      if (sackedSeqs frame).length < 3 then []
      else ((SeqMap.ascending o.unacked).filter (o.Missing frame highest now rtt)).take
        sackFastRepairMax := by
  unfold Outstanding.due fastRepairs
  rw [length_sackedSeqs]
  split_ifs with hfew
  · rfl
  · dsimp only
    congr 1
    refine List.Pairwise.eq_of_mem_iff (List.Pairwise.filter _ List.pairwise_lt_range')
      ((SeqMap.pairwise_ascending _).filter _) fun seq => ?_
    rw [List.mem_filter, List.mem_filter, repairable_iff, List.mem_range'_1, SeqMap.mem_ascending,
      decide_eq_true_iff, Outstanding.Missing]
    constructor
    · rintro ⟨hrange, p, hp, hmissing⟩
      exact ⟨SeqMap.mem_iff_isSome.2 (by rw [hp]; rfl), by omega, by omega, p, hp, hmissing⟩
    · rintro ⟨-, hlow, hhigh, hmissing⟩
      exact ⟨by omega, hmissing⟩

end UdpCustom.Recovery
