import UdpCustom.Recovery.Selective

-- `updateSACK` on 64-bit sequences, which wrap, and with its repair scan as the
-- loop it is.
namespace UdpCustom.Recovery.Machine

open UdpCustom.Frame UdpCustom.Delivery UdpCustom.Flow UdpCustom.Sack

def uint64 (n : ℕ) : ℕ := n % 2 ^ 64

theorem uint64_of_lt {n : ℕ} (h : n < 2 ^ 64) : uint64 n = n :=
  Nat.mod_eq_of_lt h

-- The sequences the marking loop looks up.
def sackedSeqs (frame : UDPCFrame) : List ℕ :=
  ((List.range ((sackWords frame.data).length * 64)).filter
    (BitWindow.bit (sackWords frame.data))).map fun j => uint64 (frame.ack + j + 1)

-- One turn of the scan at `seq`, with the repairs found so far. A scan that runs
-- out of fuel has not returned.
def scan (unacked : SeqMap UnackedPkt) (guard now last highest : ℕ) :
    ℕ → ℕ → List ℕ → Option (List ℕ)
  | 0, _, _ => none
  | fuel + 1, seq, due =>
    if seq ≤ last ∧ seq ≤ highest then
      if (unacked.lookup seq).any (·.repairable guard now) then
        if sackFastRepairMax ≤ due.length + 1 then some (due ++ [seq])
        else scan unacked guard now last highest fuel (uint64 (seq + 1)) (due ++ [seq])
      else scan unacked guard now last highest fuel (uint64 (seq + 1)) due
    else some due

def fastRepairs (fuel : ℕ) (unacked : SeqMap UnackedPkt) (frame : UDPCFrame) (highest now rtt : ℕ) :
    Option (List ℕ) :=
  if BitWindow.ones (sackWords frame.data) < 3 then some []
  else
    scan unacked (max (5 * millisecond) (rtt / 4)) now
      (uint64 (frame.ack + uint64 ((sackWords frame.data).length * 64))) highest fuel
      (uint64 (frame.ack + 1)) []

def updateSACK (fuel : ℕ) (o : Outstanding) (frame : UDPCFrame) (highest now rtt : ℕ) :
    Option ((List UDPCFrame × Bool) × Outstanding) :=
  match o.flow with
  | none => some (([], false), o)
  | some f =>
    -- the difference in the check of a word cannot wrap: the Ack was compared first
    if validSACK f frame highest then
      let marked := SeqMap.modifyAll UnackedPkt.markSacked o.unacked (sackedSeqs frame)
      (fastRepairs fuel marked frame highest now rtt).map fun due =>
        ((wiresAt marked due, true),
          { o with
            unacked := SeqMap.modifyAll (.backOff now rttMaxRTO) marked due
            flow := some { f with
              feedbackNo := frame.packetNo
              credit := min (sackCredit frame.data) deliveryWindowWide
              fastRepairs := f.fastRepairs + due.length } })
    else some (([], false), o)

theorem sackedSeqs_eq {f : SendFlow} {frame : UDPCFrame} {highest : ℕ}
    (hvalid : validSACK f frame highest = true) (hsmall : highest < 2 ^ 63) :
    sackedSeqs frame = Recovery.sackedSeqs frame := by
  have hle := sackedSeqs_le hvalid
  unfold Recovery.sackedSeqs at hle ⊢
  unfold sackedSeqs
  refine List.map_congr_left fun j hj => ?_
  have hj := hle _ (List.mem_map_of_mem hj)
  rw [uint64_of_lt (by omega)]
  omega

-- With fuel for the range that is left, the scan returns the first three holes.
theorem scan_eq (unacked : SeqMap UnackedPkt) (guard now : ℕ) {last highest n fuel seq : ℕ}
    {due : List ℕ} (hrange : min last highest + 1 = seq + n) (hfuel : n < fuel)
    (hlast : last + 1 < 2 ^ 64) (hdue : due.length < sackFastRepairMax) :
    scan unacked guard now last highest fuel seq due =
      some ((due ++ (List.range' seq n).filter fun seq =>
        (unacked.lookup seq).any (·.repairable guard now)).take sackFastRepairMax) := by
  induction n generalizing fuel seq due with
  | zero =>
      obtain ⟨fuel, rfl⟩ := Nat.exists_eq_add_of_lt hfuel
      rw [scan, if_neg (by omega), List.range'_zero, List.filter_nil, List.append_nil,
        List.take_of_length_le hdue.le]
  | succ n ih =>
      obtain ⟨fuel, rfl⟩ : ∃ k, fuel = k + 1 := ⟨fuel - 1, by omega⟩
      have hnext : uint64 (seq + 1) = seq + 1 := uint64_of_lt (by omega)
      rw [scan, if_pos (by omega), hnext, List.range'_succ]
      cases hfound : (unacked.lookup seq).any (·.repairable guard now) with
      | false =>
          rw [if_neg Bool.false_ne_true, List.filter_cons, if_neg (by rw [hfound]; decide),
            ih (by omega) (by omega) hdue]
      | true =>
          rw [if_pos rfl, List.filter_cons, if_pos hfound,
            List.append_cons due seq (List.filter _ _)]
          have hlen : (due ++ [seq]).length = due.length + 1 := List.length_append
          split_ifs with hfull
          · rw [List.take_left' (by omega)]
          · rw [ih (by omega) (by omega) (by omega)]

theorem fastRepairs_eq {f : SendFlow} {frame : UDPCFrame} {highest fuel : ℕ}
    (hvalid : validSACK f frame highest = true) (hsmall : highest < 2 ^ 63) (hfuel : 4096 < fuel)
    (unacked : SeqMap UnackedPkt) (now rtt : ℕ) :
    fastRepairs fuel unacked frame highest now rtt =
      some (Recovery.fastRepairs unacked frame highest now rtt) := by
  obtain ⟨-, -, hlen, -, hack, -, -⟩ := of_decide_eq_true hvalid
  have hwords : (sackWords frame.data).length ≤ 64 := by
    have hwide : sackWordsWidePayload = 2 + 8 * 64 := rfl
    rw [sackWords, List.length_map, List.length_range]
    omega
  unfold fastRepairs Recovery.fastRepairs
  split_ifs
  · rfl
  · have hspan : uint64 ((sackWords frame.data).length * 64) = (sackWords frame.data).length * 64 :=
      uint64_of_lt (by omega)
    have hlast : uint64 (frame.ack + (sackWords frame.data).length * 64) =
        frame.ack + (sackWords frame.data).length * 64 := uint64_of_lt (by omega)
    rw [hspan, hlast, uint64_of_lt (by omega),
      scan_eq (n := min ((sackWords frame.data).length * 64) (highest - frame.ack)) _ _ _ (by omega)
        (by omega) (by omega) (by decide)]
    rfl

-- Below 2 ^ 63 nothing wraps and the scan ends.
theorem updateSACK_eq (o : Outstanding) (frame : UDPCFrame) {highest fuel : ℕ}
    (hsmall : highest < 2 ^ 63) (hfuel : 4096 < fuel) (now rtt : ℕ) :
    updateSACK fuel o frame highest now rtt = some (o.updateSACK frame highest now rtt) := by
  unfold updateSACK Outstanding.updateSACK
  cases o.flow with
  | none => rfl
  | some f =>
      dsimp only
      split_ifs with hvalid
      · rw [sackedSeqs_eq hvalid hsmall, fastRepairs_eq hvalid hsmall hfuel]
        rfl
      · rfl

theorem sack_all_or_nothing (o : Outstanding) (frame : UDPCFrame) {highest fuel : ℕ}
    (hsmall : highest < 2 ^ 63) (hfuel : 4096 < fuel) (now rtt : ℕ) :
    ∃ wires valid o', updateSACK fuel o frame highest now rtt = some ((wires, valid), o') ∧
      (valid = false → o' = o ∧ wires = []) ∧
      (valid = true →
        (frame.ack ≤ highest ∧ (∀ seq ∈ sackedSeqs frame, seq ≤ highest) ∧
          ∀ f ∈ o.flow, f.feedbackNo < frame.packetNo) ∧
        ∃ due : List ℕ,
          due = (if (sackedSeqs frame).length < 3 then []
            else ((SeqMap.ascending o.unacked).filter (o.Missing frame highest now rtt)).take 3) ∧
          wires = due.filterMap (fun seq => (o.unacked.lookup seq).map (·.wire)) ∧
          ∀ seq ∉ due,
            (o'.unacked.lookup seq).map (fun p => (p.retries, p.sentTime, p.rto)) =
              (o.unacked.lookup seq).map (fun p => (p.retries, p.sentTime, p.rto))) := by
  refine ⟨(o.updateSACK frame highest now rtt).1.1, (o.updateSACK frame highest now rtt).1.2,
    (o.updateSACK frame highest now rtt).2, updateSACK_eq o frame hsmall hfuel now rtt,
    fun hignored => ?_, fun htaken => ?_⟩
  · exact updateSACK_false hignored
  · obtain ⟨f, hflow, hvalid⟩ := exists_validSACK htaken
    obtain ⟨-, -, -, -, hack, hno, -⟩ := of_decide_eq_true hvalid
    rw [sackedSeqs_eq hvalid hsmall]
    refine ⟨⟨hack, sackedSeqs_le hvalid, fun g hg => ?_⟩, o.due frame highest now rtt, due_eq hack,
      ?_, fun seq hseq => ?_⟩
    · rw [hflow] at hg
      exact Option.some.inj hg ▸ hno
    · exact wires_updateSACK hflow hvalid now rtt
    · rw [lookup_updateSACK hflow hvalid, Option.map_map]
      congr 1
      funext p
      simp only [Function.comp_apply, UnackedPkt.heard, hseq, decide_false, Bool.false_eq_true,
        if_false]
      split <;> rfl

def sampleRecord (seq : ℕ) : UDPCFrame where
  magic := 1
  version := 2
  cmd := .data
  flags := 0
  sessionID := 7
  packetNo := seq
  seq := seq
  ack := 0
  windowSize := 0
  data := []

-- Four records sent at time zero.
def sampleOutstanding : Outstanding :=
  let sent := [1, 2, 3, 4].foldl (fun o seq => o.file (sampleRecord seq) 0 millisecond)
    (Outstanding.new (some (newSendFlow 0 true true false)))
  sent.markTransmitted ([1, 2, 3, 4].map sampleRecord) 0

def sampleSack : UDPCFrame :=
  { sampleRecord 0 with cmd := .sack, packetNo := 9, data := encodeSACKWords 509 [0b1110] 8 }

theorem sample_hole_repaired :
    ∃ wires o', updateSACK 4097 sampleOutstanding sampleSack 4 1000000000 0 = some ((wires, true), o') ∧
      wires.map (·.seq) = [1] ∧ sackedSeqs sampleSack = [2, 3, 4] ∧ sampleSack.ack ≤ 4 := by
  have hrun : (updateSACK 4097 sampleOutstanding sampleSack 4 1000000000 0).map
      (fun r => (r.1.1.map (·.seq), r.1.2)) = some ([1], true) := by decide +kernel
  have hbits : sackedSeqs sampleSack = [2, 3, 4] := by decide +kernel
  obtain ⟨wires, valid, o', he, -, htaken⟩ := sack_all_or_nothing sampleOutstanding sampleSack
    (show 4 < 2 ^ 63 by decide) (show 4096 < 4097 by decide) 1000000000 0
  rw [he, Option.map_some, Option.some.injEq, Prod.mk.injEq] at hrun
  obtain ⟨hwires, rfl⟩ := hrun
  exact ⟨wires, o', he, hwires, hbits, (htaken rfl).1.1⟩

end UdpCustom.Recovery.Machine
