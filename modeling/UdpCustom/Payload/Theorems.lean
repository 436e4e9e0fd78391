import UdpCustom.Payload
import UdpCustom.Frame.Theorems

namespace UdpCustom.Payload

open UdpCustom.Frame

theorem appendTargetTLV_eq (payload : Bytes) {target : Bytes} (h : target.length ≤ targetMaxLen) :
    appendTargetTLV payload target = payload ++ requestedTargetTLV target := by
  unfold appendTargetTLV requestedTargetTLV
  rw [if_neg (Nat.not_lt.2 h)]
  split
  · rw [List.append_nil]
  · rw [List.append_assoc]

-- The field of a target that is not empty is read back, and nothing else is read.
theorem parseTargetTLV_iff (field target : Bytes) :
    parseTargetTLV field = some target ↔
      target ≠ [] ∧ target.length ≤ targetMaxLen ∧ field = requestedTargetTLV target := by
  have hsmall : targetMaxLen < 256 ^ 2 := by decide
  have htlv : targetRequestTLVLen = 2 := rfl
  unfold parseTargetTLV requestedTargetTLV
  constructor
  · intro h
    dsimp only at h
    split_ifs at h with hempty hshort hbad
    have hlen := not_or.1 (not_or.1 hbad).2
    have hfield : BigEndian.put 2 (fieldAt field 0 2) = field.take 2 := put_fieldAt field (by omega)
    cases h
    have hcount : (field.drop targetRequestTLVLen).length = fieldAt field 0 2 := by
      rw [List.length_drop]
      omega
    have hne : field.drop targetRequestTLVLen ≠ [] := by
      rw [← List.length_pos_iff, hcount]
      omega
    refine ⟨hne, by omega, ?_⟩
    rw [if_neg hne, hcount, hfield, htlv, List.take_append_drop]
  · rintro ⟨hne, hlen, rfl⟩
    have hpos := List.length_pos_iff.2 hne
    rw [if_neg hne]
    set field := BigEndian.put 2 target.length ++ target with hfield
    have hcount : field.length = 2 + target.length := by
      rw [hfield, List.length_append, BigEndian.length_put]
    have hread : fieldAt field 0 2 = target.length := by
      rw [fieldAt, List.drop_zero, hfield, List.take_left' (BigEndian.length_put 2 _),
        BigEndian.get_put_of_lt (by omega)]
    rw [if_neg (by omega), if_neg (by omega)]
    dsimp only
    rw [hread, if_neg (by omega), htlv, hfield, List.drop_left' (BigEndian.length_put 2 _)]

-- The grammar: a fixed part, the field of a target (none for the empty target), and
-- the message exactly when there is one.
structure Parts (base msgSize : ℕ) (hasNoise : Bool) (data head target msg : Bytes) : Prop where
  data : data = head ++ requestedTargetTLV target ++ msg
  head : head.length = base
  target : target.length ≤ targetMaxLen
  msg : msg.length = if hasNoise then msgSize else 0

section Split

variable {base msgSize : ℕ} {tooShort missing invalid : String} {data target msg : Bytes}
  {hasNoise : Bool}

theorem splitPayload_of_parts {head : Bytes} (h : Parts base msgSize hasNoise data head target msg) :
    splitPayload base msgSize tooShort missing invalid data hasNoise = .ok (target, msg) := by
  have hdrop : data.drop base = requestedTargetTLV target ++ msg := by
    rw [h.data, List.append_assoc, List.drop_left' h.head]
  have hlen : ¬data.length < base := by
    rw [h.data, List.length_append, List.length_append, h.head]
    omega
  have hmsg := h.msg
  have hroom : ¬(hasNoise ∧ (requestedTargetTLV target ++ msg).length < msgSize) := by
    rintro ⟨hnoise, hshort⟩
    rw [hnoise, if_pos rfl] at hmsg
    rw [List.length_append] at hshort
    omega
  have hcut : (if hasNoise = true then (requestedTargetTLV target ++ msg).length - msgSize
      else (requestedTargetTLV target ++ msg).length) = (requestedTargetTLV target).length := by
    rw [List.length_append]
    split
    · rename_i hnoise
      rw [if_pos hnoise] at hmsg
      omega
    · rename_i hnoise
      rw [if_neg hnoise] at hmsg
      omega
  unfold splitPayload
  dsimp only
  rw [if_neg hlen, hdrop, if_neg hroom, hcut, List.drop_left, List.take_left]
  by_cases hempty : target = []
  · rw [hempty, requestedTargetTLV, if_pos rfl, if_neg (by decide)]
  · have hparse := (parseTargetTLV_iff (requestedTargetTLV target) target).2
      ⟨hempty, h.target, rfl⟩
    have hpos : 0 < (requestedTargetTLV target).length := by
      rw [requestedTargetTLV, if_neg hempty, List.length_append, BigEndian.length_put]
      omega
    rw [if_pos hpos, hparse]

theorem parts_of_splitPayload
    (h : splitPayload base msgSize tooShort missing invalid data hasNoise = .ok (target, msg)) :
    Parts base msgSize hasNoise data (data.take base) target msg := by
  unfold splitPayload at h
  dsimp only at h
  by_cases hshort : data.length < base
  · rw [if_pos hshort] at h
    cases h
  rw [if_neg hshort] at h
  by_cases hmissing : hasNoise ∧ (data.drop base).length < msgSize
  · rw [if_pos hmissing] at h
    cases h
  rw [if_neg hmissing] at h
  set rest := data.drop base
  set cut := if hasNoise = true then rest.length - msgSize else rest.length with hcut
  have hmsg : (rest.drop cut).length = if hasNoise then msgSize else 0 := by
    rw [List.length_drop, hcut]
    split
    · rename_i hnoise
      have := not_and.1 hmissing hnoise
      omega
    · omega
  have hhead : (data.take base).length = base := by
    rw [List.length_take]
    omega
  have hdata : data = data.take base ++ rest.take cut ++ rest.drop cut := by
    rw [List.append_assoc, List.take_append_drop, List.take_append_drop]
  split_ifs at h with hfield
  · cases hparse : parseTargetTLV (rest.take cut) with
    | none =>
        rw [hparse] at h
        cases h
    | some found =>
        rw [hparse] at h
        cases h
        obtain ⟨-, hlen, htlv⟩ := (parseTargetTLV_iff _ _).1 hparse
        exact ⟨htlv ▸ hdata, hhead, hlen, hmsg⟩
  · cases h
    rw [List.eq_nil_of_length_eq_zero (Nat.eq_zero_of_not_pos hfield)] at hdata
    exact ⟨hdata, hhead, Nat.zero_le _, hmsg⟩

theorem splitPayload_iff :
    splitPayload base msgSize tooShort missing invalid data hasNoise = .ok (target, msg) ↔
      ∃ head, Parts base msgSize hasNoise data head target msg :=
  ⟨fun h => ⟨_, parts_of_splitPayload h⟩, fun h => splitPayload_of_parts h.choose_spec⟩

end Split

theorem Parts.unique {base msgSize : ℕ} {hasNoise : Bool} {data head target msg : Bytes}
    {head' target' msg' : Bytes} (h : Parts base msgSize hasNoise data head target msg)
    (h' : Parts base msgSize hasNoise data head' target' msg') :
    head = head' ∧ target = target' ∧ msg = msg' := by
  have hhead : ∀ {head target msg}, Parts base msgSize hasNoise data head target msg →
      head = data.take base := by
    intro head target msg h
    rw [h.data, List.append_assoc, List.take_left' h.head]
  have hsplit : splitPayload base msgSize "" "" "" data hasNoise = .ok (target, msg) :=
    splitPayload_of_parts h
  rw [splitPayload_of_parts h', Except.ok.injEq, Prod.mk.injEq] at hsplit
  exact ⟨(hhead h).trans (hhead h').symm, hsplit.1.symm, hsplit.2.symm⟩

-- What `splitSynPayload` accepts passes the other checks of the payload.
theorem checkSynPayload_ok {data target msg : Bytes} {hasNoise : Bool}
    (h : splitSynPayload data hasNoise = .ok (target, msg)) :
    checkSynPayload data hasNoise = .ok (target, msg) := by
  have hparts := parts_of_splitPayload h
  have hlen : data.length =
      synPayloadBase + (requestedTargetTLV target).length + msg.length := by
    conv_lhs => rw [hparts.data]
    rw [List.length_append, List.length_append, hparts.head]
  have htlv : (requestedTargetTLV target).length ≤ targetRequestTLVLen + targetMaxLen := by
    have htarget := hparts.target
    unfold requestedTargetTLV
    split
    · exact Nat.zero_le _
    · rw [List.length_append, BigEndian.length_put]
      exact Nat.add_le_add_left htarget _
  have hmsg := hparts.msg
  unfold checkSynPayload
  dsimp only
  cases hasNoise with
  | false =>
      rw [if_neg Bool.false_ne_true] at hmsg
      rw [if_neg (by rw [if_neg Bool.false_ne_true]; omega), h]
      dsimp only
      rw [if_neg (not_not.2 hlen)]
  | true =>
      rw [if_pos rfl] at hmsg
      rw [if_neg (by rw [if_pos rfl]; omega), h]
      dsimp only
      rw [if_neg (not_not.2 hlen)]

theorem payload_grammar :
    (∀ (clientNonce : Bytes) (now : ℕ) (target msg1 : Bytes) (hasNoise : Bool),
      clientNonce.length = clientNonceSize → target.length ≤ targetMaxLen →
      (msg1.length = if hasNoise then noiseMsg1Size else 0) →
      splitSynPayload (synPayload clientNonce now target msg1) hasNoise = .ok (target, msg1)) ∧
    (∀ (clientNonce serverNonce target msg2 : Bytes) (hasNoise : Bool),
      clientNonce.length = clientNonceSize → serverNonce.length = serverNonceSize →
      target.length ≤ targetMaxLen → (msg2.length = if hasNoise then noiseMsg2Size else 0) →
      splitAckPayload (ackData clientNonce serverNonce target msg2) hasNoise = .ok (target, msg2)) ∧
    (∀ (data : Bytes) (hasNoise : Bool) (target msg : Bytes),
      (splitSynPayload data hasNoise = .ok (target, msg) ↔
        ∃ head, Parts synPayloadBase noiseMsg1Size hasNoise data head target msg) ∧
      (splitAckPayload data hasNoise = .ok (target, msg) ↔
        ∃ head, Parts ackPayloadBase noiseMsg2Size hasNoise data head target msg) ∧
      (splitSynPayload data hasNoise = .ok (target, msg) →
        checkSynPayload data hasNoise = .ok (target, msg))) ∧
    ∀ (base msgSize : ℕ) (data : Bytes) (hasNoise : Bool) (head target msg head' target' msg' : Bytes),
      Parts base msgSize hasNoise data head target msg →
      Parts base msgSize hasNoise data head' target' msg' →
      head = head' ∧ target = target' ∧ msg = msg' := by
  refine ⟨?_, ?_, fun data hasNoise target msg =>
    ⟨splitPayload_iff, splitPayload_iff, checkSynPayload_ok⟩, fun _ _ _ _ _ _ _ _ _ _ => Parts.unique⟩
  · intro clientNonce now target msg1 hasNoise hnonce htarget hmsg
    have hhead : (clientNonce ++ BigEndian.put 8 now).length = synPayloadBase := by
      rw [List.length_append, hnonce, BigEndian.length_put]
      rfl
    refine splitPayload_of_parts ⟨?_, hhead, htarget, hmsg⟩
    rw [synPayload, appendTargetTLV_eq _ htarget]
  · intro clientNonce serverNonce target msg2 hasNoise hclient hserver htarget hmsg
    have hhead : (clientNonce ++ serverNonce).length = ackPayloadBase := by
      rw [List.length_append, hclient, hserver]
      rfl
    refine splitPayload_of_parts ⟨?_, hhead, htarget, hmsg⟩
    rw [ackData, appendTargetTLV_eq _ htarget]

end UdpCustom.Payload
