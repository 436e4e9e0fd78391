import UdpCustom.Frame

-- The payloads of the two handshake records: a fixed part, an optional target field
-- and, on an encrypted session, a Noise message.
namespace UdpCustom.Payload

open UdpCustom.Frame

def clientNonceSize : ℕ := 16
def serverNonceSize : ℕ := 16
def synPayloadBase : ℕ := clientNonceSize + 8
def ackPayloadBase : ℕ := clientNonceSize + serverNonceSize
def targetRequestTLVLen : ℕ := 2
def targetMaxLen : ℕ := 255
def noiseMsg1Size : ℕ := 32 + 16
def noiseMsg2Size : ℕ := 32 + 16

-- Targets are strings of the source, of any bytes.
def appendTargetTLV (payload target : Bytes) : Bytes :=
  if target = [] then payload
  else if targetMaxLen < target.length then payload
  else payload ++ BigEndian.put 2 target.length ++ target

def requestedTargetTLV (target : Bytes) : Bytes :=
  if target = [] then [] else BigEndian.put 2 target.length ++ target

def parseTargetTLV (field : Bytes) : Option Bytes :=
  if field.length = 0 then none
  else if field.length < targetRequestTLVLen then none
  else
    let n := fieldAt field 0 2
    if n = 0 ∨ targetMaxLen < n ∨ field.length ≠ targetRequestTLVLen + n then none
    else some (field.drop targetRequestTLVLen)

-- The message is the last `msgSize` bytes, the target field what is left between.
def splitPayload (base msgSize : ℕ) (tooShort missing invalid : String) (data : Bytes)
    (hasNoise : Bool) : Except String (Bytes × Bytes) :=
  if data.length < base then .error tooShort
  else
    let rest := data.drop base
    if hasNoise ∧ rest.length < msgSize then .error missing
    else
      let cut := if hasNoise then rest.length - msgSize else rest.length
      let msg := rest.drop cut
      let rest := rest.take cut
      if 0 < rest.length then
        match parseTargetTLV rest with
        | none => .error invalid
        | some target => .ok (target, msg)
      else .ok ([], msg)

def splitSynPayload : Bytes → Bool → Except String (Bytes × Bytes) :=
  splitPayload synPayloadBase noiseMsg1Size "syn payload too short" "syn missing noise msg1"
    "invalid target request field"

def splitAckPayload : Bytes → Bool → Except String (Bytes × Bytes) :=
  splitPayload ackPayloadBase noiseMsg2Size "ack payload too short" "ack missing noise msg2"
    "invalid granted target field"

-- What the client's `handshake` puts into its SYN.
def synPayload (clientNonce : Bytes) (now : ℕ) (target msg1 : Bytes) : Bytes :=
  appendTargetTLV (clientNonce ++ BigEndian.put 8 now) target ++ msg1

-- What the server's `handleHandshake` puts into its ACK.
def ackData (clientNonce serverNonce requestedTarget noiseMsg2 : Bytes) : Bytes :=
  appendTargetTLV (clientNonce ++ serverNonce) requestedTarget ++ noiseMsg2

-- The payload checks of `handleHandshake`, with what its warning says.
def checkSynPayload (data : Bytes) (hasPrivKey : Bool) : Except String (Bytes × Bytes) :=
  let expectedLen := if hasPrivKey then synPayloadBase + noiseMsg1Size else synPayloadBase
  if data.length < expectedLen ∨
      synPayloadBase + targetRequestTLVLen + targetMaxLen + noiseMsg1Size < data.length then
    .error ("invalid payload length " ++ toString data.length)
  else
    match splitSynPayload data hasPrivKey with
    | .error e => .error e
    | .ok (requestedTarget, noiseMsg1) =>
      if data.length ≠
          synPayloadBase + (requestedTargetTLV requestedTarget).length + noiseMsg1.length then
        .error "trailing bytes in payload"
      else .ok (requestedTarget, noiseMsg1)

end UdpCustom.Payload
