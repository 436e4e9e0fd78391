import UdpCustom.Frame.Theorems
import UdpCustom.Outgoing
import UdpCustom.Receiver.Theorems
import UdpCustom.Sender.Carried

-- No record is larger than the end's `max_pkt`, as long as the records that are
-- sized by something else than the payload cap happen to fit.
namespace UdpCustom.Outgoing

open UdpCustom.Frame UdpCustom.Mtu UdpCustom.Budget UdpCustom.Delivery UdpCustom.Sack UdpCustom.Fec
open UdpCustom.Receive (Role)
open Transition

variable {cfg : Config} {s s' : State} {f : UDPCFrame}

-- What the socket gets is as long as the record it was sealed from says.
theorem length_sealFrameAEAD {Key : Type} {A : Seal.Aead Key} {k : Key} {raw : Bytes}
    (h : Seal.sealFrameAEAD A k f f.data = some raw) : raw.length = recordSize f := by
  obtain ⟨-, ⟨⟩⟩ := Option.ite_none_left_eq_some.1 h
  rw [List.length_append, length_encodeHeader, A.length_encrypt, recordSize]
  omega

-- The payload one record of the configured size has room for.
def room (cfg : Config) : ℕ :=
  (payloadCap cfg.maxPkt.size).toNat

-- A record that FEC will protect leaves room for the length prefix of its shard.
def dataRoom (cfg : Config) : ℕ :=
  if cfg.fec then room cfg - fecLengthPrefixSize else room cfg

theorem size_eq (cfg : Config) :
    cfg.maxPkt.size = room cfg + udpcHdrSize + udpcTrailerSize ∧ 64 ≤ room cfg := by
  have hlow := cfg.maxPkt.floor_le
  simp only [maxPktFloor, udpcHdrSize, udpcTrailerSize] at hlow
  simp only [room, payloadCap, udpcHdrSize, udpcTrailerSize]
  omega

theorem dataRoom_le (cfg : Config) : dataRoom cfg ≤ room cfg := by
  unfold dataRoom
  split
  · exact Nat.sub_le _ _
  · exact Nat.le_refl _

theorem recordSize_le (h : f.data.length ≤ room cfg) :
    (recordSize f : ℤ) ≤ cfg.maxPkt.size := by
  rw [(size_eq cfg).1, recordSize]
  omega

theorem maxPayload_le (hcap : s.sendCap.size ≤ cfg.maxPkt.size) (hok : Within cfg s .cut) :
    s.maxPayload cfg ≤ dataRoom cfg := by
  obtain ⟨hsize, hroom⟩ := size_eq cfg
  have hfloor := s.sendCap.floor_le
  simp only [maxPktFloor, udpcHdrSize, udpcTrailerSize] at hfloor hsize
  unfold State.maxPayload dataRoom
  cases hrole : cfg.role with
  | client =>
      simp only [SendCap.maxPayload, effectivePayloadCap, fecDataPayloadCap, payloadCap, maxPktCeiling,
        udpcHdrSize, udpcTrailerSize, udpcMaxPkt, fecLengthPrefixSize]
      split_ifs <;> omega
  | server =>
      simp only [FrameBudget.maxPayload, effectivePayloadCap, fecDataPayloadCap, payloadCap,
        maxPktCeiling, udpcHdrSize, udpcTrailerSize, udpcMaxPkt, fecLengthPrefixSize]
      cases hfec : cfg.fec with
      | false =>
          simp only [Bool.false_eq_true, if_false]
          split_ifs <;> omega
      | true =>
          have hobserved := hok hrole hfec
          simp only [payloadCap, udpcHdrSize, udpcTrailerSize, fecLengthPrefixSize] at hobserved
          simp only [if_true]
          split_ifs <;> omega

theorem trimWords_cases (words : List (BitVec 64)) (n : ℕ) :
    trimWords words n = 0 ∨ ∃ i, trimWords words n = i + 1 ∧ words.getD i 0 ≠ 0 := by
  induction n with
  | zero => exact .inl rfl
  | succ n ih =>
      rw [trimWords]
      split
      · exact ih
      · rename_i hword
        exact .inr ⟨n, rfl, hword⟩

-- A SACK has a word for the furthest record held and none beyond it.
theorem length_sack_le {d : OrderedDelivery} {words : ℕ}
    (h : ∀ seq ∈ d.pending, seq ≤ d.delivered + 64 * words) (maxWords : ℕ) :
    (encodeSACKWords d.snapshot.credit d.snapshot.bitmap maxWords).length ≤ 2 + words * 8 := by
  rw [length_encodeSACKWords]
  have htake := List.length_take_le (trimWords d.snapshot.bitmap maxWords) d.snapshot.bitmap
  rcases trimWords_cases d.snapshot.bitmap maxWords with hzero | ⟨i, hi, hword⟩
  · omega
  · obtain ⟨k, -, hbit⟩ := bit_len64 hword
    have hmem := (bitmap_spec d (i * 64 + k)).2.symm.trans hbit
    have hle := h _ (of_decide_eq_true hmem).2
    omega

theorem blockSize_le {payloads : List Bytes} {n : ℕ} (h : ∀ p ∈ payloads, p.length ≤ n) :
    blockSize payloads ≤ fecLengthPrefixSize + n := by
  unfold blockSize
  apply Nat.add_le_add_left
  induction payloads with
  | nil => exact Nat.zero_le n
  | cons p rest ih =>
      rw [List.map_cons, List.foldr_cons]
      exact max_le (h p List.mem_cons_self) (ih fun q hq => h q (List.mem_cons_of_mem _ hq))

-- The records of a block were passed to `sendRecord`, so a parity shard is at most
-- a length prefix longer than the longest payload.
theorem length_parity_le {t : Sender.State} {p : ParityShard} {n : ℕ}
    (hp : p.Genuine cfg.code t.records) (h : ∀ payload ∈ t.passed, payload.length ≤ n) :
    p.data.length ≤ fecLengthPrefixSize + n := by
  rw [hp.length_data]
  refine blockSize_le fun payload hmem => ?_
  obtain ⟨i, hi, rfl⟩ := List.mem_map.1 hmem
  obtain ⟨payload, hpayload⟩ := Option.isSome_iff_exists.1 (hp.block.sent i (List.mem_range.1 hi))
  rw [hpayload, Option.getD_some]
  obtain ⟨-, hpayload⟩ := Option.ite_none_right_eq_some.1 hpayload
  exact h payload (List.mem_of_getElem? hpayload)

structure Bounded (cfg : Config) (s : State) : Prop where
  sender : Sender.Inv cfg.toConfig s.sender
  passed : ∀ payload ∈ s.sender.passed, payload.length ≤ dataRoom cfg
  plain : cfg.fec = false → Sender.Plain s.sender
  carried : Sender.Carries (fun f => f.data.length ≤ room cfg) s.sender
  cut : s.cut ≤ dataRoom cfg
  cap : s.sendCap.size ≤ cfg.maxPkt.size
  built : ∀ f ∈ s.built, f.data.length ≤ room cfg
  wire : ∀ f ∈ s.wire, f.data.length ≤ room cfg

theorem mtuInitialCap_le (maxPkt : SendCap) : (mtuInitialCap maxPkt).size ≤ maxPkt.size := by
  simp only [mtuInitialCap]
  split_ifs <;> omega

theorem mtuStartCap_le (maxPkt : SendCap) (probe : Bool) :
    (mtuStartCap maxPkt probe).size ≤ maxPkt.size := by
  unfold mtuStartCap
  split
  · exact mtuInitialCap_le maxPkt
  · exact le_refl _

theorem clampMtuCap_le (n : ℤ) (maxPkt : SendCap) : (clampMtuCap n maxPkt).size ≤ maxPkt.size := by
  have hinitial := mtuInitialCap_le maxPkt
  simp only [clampMtuCap]
  split_ifs <;> omega

theorem bounded_initial (cfg : Config) : Bounded cfg (initial cfg) where
  sender := Sender.inv_initial cfg.toConfig
  passed := nofun
  plain := fun hfec => ⟨by simp [initial, Sender.initial, hfec], rfl⟩
  carried := Sender.carries_initial cfg.toConfig
  cut := Nat.zero_le _
  cap := mtuStartCap_le cfg.maxPkt cfg.mtuProbe
  built := nofun
  wire := nofun

-- Whatever a step of the sender builds has room.
theorem Bounded.builds (h : Bounded cfg s) {l : Sender.Label}
    (hcontrol : ∀ frame, l = .control frame → frame.data.length ≤ room cfg)
    (hf : Sender.Builds cfg.toConfig s.sender l f) : f.data.length ≤ room cfg := by
  cases l with
  | encode ack windowSize =>
      obtain ⟨seq, payload, no, hpump, rfl⟩ := hf
      have haligned := h.sender.aligned
      rw [Sender.Aligned, hpump] at haligned
      exact (h.passed payload (List.mem_of_getElem? haligned.1)).trans (dataRoom_le cfg)
  | emitParity p ack windowSize =>
      obtain ⟨hmem, frame, no, happly, rfl⟩ := hf
      have hdata : frame.data = p.data := by
        obtain ⟨-, ⟨⟩⟩ := Option.ite_none_left_eq_some.1 happly
        rfl
      have hlen := length_parity_le (h.sender.holds.parity p hmem) h.passed
      have hroom := (size_eq cfg).2
      dsimp only
      rw [hdata]
      cases hfec : cfg.fec with
      | false =>
          rw [(h.plain hfec).parity] at hmem
          cases hmem
      | true =>
          rw [dataRoom, hfec, if_pos rfl, fecLengthPrefixSize] at hlen
          omega
  | control frame =>
      obtain ⟨no, rfl⟩ := hf
      exact hcontrol frame rfl
  | _ => cases hf

theorem Bounded.sends (h : Bounded cfg s) {l : Sender.Label} {t : Sender.State}
    {out : List UDPCFrame} (hcall : ∀ payload, l = .call payload → payload.length ≤ dataRoom cfg)
    (hcontrol : ∀ frame, l = .control frame → frame.data.length ≤ room cfg)
    (hst : Sender.next cfg.toConfig s.sender l = some (t, out)) :
    Bounded cfg { s with sender := t, wire := out ++ s.wire } := by
  obtain ⟨hcarried, hout⟩ := Sender.carries_next h.carried (fun _ => h.builds hcontrol) hst
  refine ⟨(Sender.stepped_next h.sender hst).inv, ?_, fun hfec => Sender.plain_next (h.plain hfec) hst,
    hcarried, h.cut, h.cap, h.built, fun f hf => ?_⟩
  · intro payload hmem
    by_cases hl : ∃ p, l = .call p
    · obtain ⟨p, rfl⟩ := hl
      rw [(Sender.call_cases hst).1] at hmem
      rcases List.mem_append.1 hmem with hold | hnew
      · exact h.passed payload hold
      · rw [List.mem_singleton.1 hnew]
        exact hcall p rfl
    · rw [(Sender.lasting_next (fun p he => hl ⟨p, he⟩) hst).passed] at hmem
      exact h.passed payload hmem
  · rcases List.mem_append.1 hf with hnew | hold
    · exact hout f hnew
    · exact h.wire f hold

-- The control records that are not covered by a condition are short.
theorem length_control_le (h : Bounded cfg s) {c : Control} (hallowed : c.allowed cfg s = true)
    (hok : Within cfg s (.control c)) : (c.frame cfg).data.length ≤ room cfg := by
  obtain ⟨hsize, hroom⟩ := size_eq cfg
  cases c with
  | ping | pong | fin => exact Nat.zero_le _
  | feedback frame => exact h.built frame (of_decide_eq_true hallowed)
  | pathChallenge token =>
      have hguard := of_decide_eq_true hallowed
      simp only [Control.frame, controlFrame, hguard.2, pathChallengeSize]
      omega
  | pathResponse challenge =>
      have hguard := of_decide_eq_true hallowed
      have hlen : challenge.data.length = pathChallengeSize := by
        have hshape := hguard.2.2
        unfold validSessionFrameShape at hshape
        rw [hguard.2.1] at hshape
        split at hshape
        · cases hshape
        · exact (of_decide_eq_true hshape).2
      simp only [Control.frame, controlFrame, hlen, pathChallengeSize]
      omega
  | mtuProbe size id =>
      obtain ⟨-, -, hladder, hlow, -, hid⟩ := of_decide_eq_true hallowed
      have hle : (size : ℤ) ≤ cfg.maxPkt.size := by
        rcases hladder with hladder | hcap
        · rcases List.mem_cons.1 hladder with he | hrung
          · exact he.le
          · exact (of_decide_eq_true (List.mem_filter.1 hrung).2).le
        · exact hcap ▸ h.cap
      simp only [udpcHdrSize, udpcTrailerSize, mtuProbeIDSize] at hlow hid hsize
      simp only [Control.frame, controlFrame, List.length_append, List.length_replicate, hid,
        udpcHdrSize, udpcTrailerSize, mtuProbeIDSize]
      omega
  | mtuProbeReply probe ackSeq =>
      have hfits : (probe.data.length : ℤ) ≤ payloadCap cfg.maxPkt.size := hok
      simp only [Control.frame, controlFrame, room]
      omega
  | mtuCommit size =>
      simp only [Control.frame, controlFrame, BigEndian.length_put, mtuCommitSize]
      omega

theorem length_feedback_le {ackSeq : ℕ} (hok : Within cfg s (.feedback ackSeq)) :
    (s.feedbackFrame cfg ackSeq).data.length ≤ room cfg := by
  unfold State.feedbackFrame
  split
  · rename_i hrecovery
    have hlen := length_sack_le (hok hrecovery) (sackMaxWords cfg.wideWindow)
    have hroom := (size_eq cfg).2
    refine hlen.trans ?_
    rw [sackRoom, ← room]
    omega
  · exact Nat.zero_le _

theorem of_mem_unsent {c : Control} {built : List UDPCFrame}
    (hf : f ∈ c.unsent built) : f ∈ built := by
  cases c with
  | feedback frame => exact List.mem_of_mem_erase hf
  | _ => exact hf

theorem Bounded.next (h : Bounded cfg s) {l : Label} (hok : Within cfg s l)
    (hst : Outgoing.next cfg s l = some s') : Bounded cfg s' := by
  cases l with
  | cut =>
      cases hst
      exact { h with cut := maxPayload_le h.cap hok }
  | send l =>
      obtain ⟨hpermits, hst⟩ := Option.ite_none_right_eq_some.1 hst
      obtain ⟨⟨sender, out⟩, hsender, rfl⟩ := Option.map_eq_some_iff.1 hst
      refine h.sends (fun payload he => ?_) (fun frame he => ?_) hsender
      · subst he
        exact (of_decide_eq_true hpermits).trans h.cut
      · subst he
        cases hpermits
  | recv l =>
      obtain ⟨-, hst⟩ := Option.ite_none_left_eq_some.1 hst
      obtain ⟨⟨receiver, out⟩, hreceiver, rfl⟩ := Option.map_eq_some_iff.1 hst
      exact { h with }
  | control c =>
      obtain ⟨hallowed, hst⟩ := Option.ite_none_right_eq_some.1 hst
      obtain ⟨⟨sender, out⟩, hsender, rfl⟩ := Option.map_eq_some_iff.1 hst
      have hsent := h.sends (fun _ he => by cases he) (fun frame he => ?_) hsender
      · exact { hsent with built := fun f hf => h.built f (of_mem_unsent hf) }
      · cases he
        exact length_control_le h hallowed hok
  | feedback ackSeq =>
      obtain ⟨-, ⟨⟩⟩ := Option.ite_none_right_eq_some.1 hst
      exact { h with built := List.forall_mem_cons.2 ⟨length_feedback_le hok, h.built⟩ }
  | claim | commitSent | noteObservedPayload n | applyMtuCommit n =>
      obtain ⟨-, ⟨⟩⟩ := Option.ite_none_right_eq_some.1 hst
      exact { h with }
  | flush =>
      cases hst
      exact { h with }
  | setCap n =>
      obtain ⟨-, ⟨⟩⟩ := Option.ite_none_right_eq_some.1 hst
      exact { h with cap := clampMtuCap_le n cfg.maxPkt }

theorem records_within_max_pkt (cfg : Config) {s : State}
    (h : ReachableBy (system cfg) (Within cfg) s) :
    ∀ f ∈ s.wire, (recordSize f : ℤ) ≤ cfg.maxPkt.size := by
  have hbounded : Bounded cfg s := by
    refine h.invariant (I := Bounded cfg) ?_ fun s l s' hs hok hst => hs.next hok hst
    rintro s rfl
    exact bounded_initial cfg
  exact fun f hf => recordSize_le (hbounded.wire f hf)

instance (cfg : Config) (s : State) (l : Label) : Decidable (Within cfg s l) := by
  unfold Within
  split
  · exact decidable_of_iff (cfg.recovery = true →
      ∀ seq ∈ SeqMap.ascending s.receiver.delivery.pending,
        seq ≤ s.receiver.delivery.delivered + 64 * sackRoom cfg.maxPkt)
      (by simp only [SeqMap.mem_ascending])
  all_goals infer_instance

def sampleConfig (maxPkt : SendCap) : Config where
  role := .server
  magic := 1
  sessionID := 7
  code := .pairParity (· ^^^ ·) UInt8.xor_comm ErasureCode.byte_xor_cancel
  recovery := true
  wideWindow := false
  westwood := true
  sendWindow := 0
  autoWindow := true
  fec := true
  fecExt := false
  maxPkt := maxPkt
  mtuProbe := true

def floorCap : SendCap where
  size := maxPktFloor
  floor_le := le_refl _
  le_ceiling := maxPktFloor_le_ceiling

-- Records ahead of the delivered prefix arrive and are reported.
def reportAhead (aheads : List ℕ) : List Label :=
  let frame seq := { Sender.dataFrame (sampleConfig floorCap).toConfig seq 0 0 [1] with packetNo := seq }
  let held := aheads.foldl (fun d seq => (d.offerObserved seq [1]).2)
    (newOrderedDelivery deliveryWindow)
  (aheads.flatMap fun seq =>
    [.recv (.receive (frame seq)), .recv (.fec { frame := frame seq, stage := .accepted } 9 [] []),
      .recv (.offer { frame := frame seq, stage := .offering [] })]) ++
    [.recv .snapshot, .claim held.snapshot 0 0, .feedback 0,
      .control (.feedback (Receiver.sackFrame (sampleConfig floorCap).toConfig held.snapshot))]

theorem short_sack_within : ∃ s, (ReachableBy (system (sampleConfig floorCap))
      (Within (sampleConfig floorCap)) s ∧ s.wire.map (·.cmd) = [.sack, .ping]) ∧
    ∀ f ∈ s.wire, (recordSize f : ℤ) ≤ (sampleConfig floorCap).maxPkt.size := by
  obtain ⟨s, hs, hwire⟩ := (system (sampleConfig floorCap)).exists_runBy
    (Within (sampleConfig floorCap)) (P := fun s => s.wire.map (·.cmd) = [.sack, .ping]) rfl
    (.control (.ping 0) :: reportAhead [2, 3, 4]) (by decide +kernel)
  exact ⟨s, ⟨hs, hwire⟩, records_within_max_pkt _ hs⟩

-- Three records held are urgent feedback. Held up to 450 ahead, they make a SACK of eight
-- words, 122 bytes long.
theorem wide_sack_exceeds : ∃ s, Reachable (system (sampleConfig floorCap)) s ∧
    ∃ f ∈ s.wire, f.cmd = .sack ∧ recordSize f = 122 ∧
      (sampleConfig floorCap).maxPkt.size < recordSize f :=
  (system (sampleConfig floorCap)).exists_run
    (P := fun s => ∃ f ∈ s.wire, f.cmd = .sack ∧ recordSize f = 122 ∧
      (sampleConfig floorCap).maxPkt.size < recordSize f) rfl
    (reportAhead [448, 449, 450]) (by decide +kernel)

-- A single record held that far ahead is not reported: no claim is granted.
example : (system (sampleConfig floorCap)).run (initial (sampleConfig floorCap))
    (reportAhead [450]) |>.isNone := by
  decide +kernel

end UdpCustom.Outgoing
