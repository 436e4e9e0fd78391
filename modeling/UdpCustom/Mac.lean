import UdpCustom.Frame

-- The authentication of the two handshake records, which carry a keyed hash
-- where session records carry the cipher's tag.
namespace UdpCustom.Mac

open UdpCustom.Frame

structure Hmac (Key : Type) where
  sum : Key → Bytes → Bytes
  length_sum : ∀ k msg, (sum k msg).length = 32

def udpcMacSize : ℕ := udpcTrailerSize

variable {Key : Type} (H : Hmac Key)

def frameMAC (k : Key) (msg : Bytes) : Bytes :=
  (H.sum k msg).take udpcMacSize

def macWire (wire : Bytes) : Option Key → Except String Bytes
  | none => .error "frame MAC key is required"
  | some k =>
    if wire.length < udpcHdrSize + udpcTrailerSize then .error "frame too short"
    else
      let msg := wire.take (wire.length - udpcTrailerSize)
      .ok (msg ++ frameMAC H k msg)

def sealFrameMAC (f : UDPCFrame) (key : Option Key) : Option Bytes :=
  match f.marshalBinary with
  | .error _ => none
  | .ok wire => (macWire H wire key).toOption

def verifyFrameAuth (wire : Bytes) : Option Key → Except String Unit
  | none => .error "frame MAC key is required"
  | some k =>
    if wire.length < udpcHdrSize + udpcTrailerSize then .error "frame too short"
    else
      let msg := wire.take (wire.length - udpcTrailerSize)
      if wire.drop msg.length = frameMAC H k msg then .ok () else .error "frame MAC mismatch"

end UdpCustom.Mac
