import UdpCustom.Lib.BigEndian
import Mathlib.Tactic.MkIffOfInductiveProp

namespace UdpCustom.Frame

abbrev Bytes := List UInt8

def udpcVersion : ℕ := 2
def udpcHdrSize : ℕ := 40
def udpcTrailerSize : ℕ := 16
def udpcMaxPkt : ℕ := 1450
def udpcMaxData : ℕ := udpcMaxPkt - udpcHdrSize - udpcTrailerSize
def pathChallengeSize : ℕ := 16
def mtuProbeIDSize : ℕ := 8
def mtuProbeMaxPayload : ℕ := udpcMaxPkt - udpcHdrSize - udpcTrailerSize
def mtuCommitSize : ℕ := 2
def fecLengthPrefixSize : ℕ := 2
def sackWordsWidePayload : ℕ := 2 + 8 * 64

def flagFecFeedback : ℕ := 2

inductive Command
  | handshakeSyn
  | handshakeAck
  | data
  | ack
  | ping
  | pong
  | fin
  | pathChallenge
  | pathResponse
  | mtuProbe
  | mtuProbeReply
  | mtuCommit
  | fec
  | sack
  deriving DecidableEq, Repr

def Command.code : Command → ℕ
  | handshakeSyn => 0x01
  | handshakeAck => 0x02
  | data => 0x03
  | ack => 0x04
  | ping => 0x05
  | pong => 0x06
  | fin => 0x07
  | pathChallenge => 0x08
  | pathResponse => 0x09
  | mtuProbe => 0x0A
  | mtuProbeReply => 0x0B
  | mtuCommit => 0x0C
  | fec => 0x0D
  | sack => 0x0E

-- `validUDPCCommand` and the conversion it guards in one: the commands are the
-- codes from SYN to SACK and nothing else.
def Command.ofCode : ℕ → Option Command
  | 0x01 => some handshakeSyn
  | 0x02 => some handshakeAck
  | 0x03 => some data
  | 0x04 => some ack
  | 0x05 => some ping
  | 0x06 => some pong
  | 0x07 => some fin
  | 0x08 => some pathChallenge
  | 0x09 => some pathResponse
  | 0x0A => some mtuProbe
  | 0x0B => some mtuProbeReply
  | 0x0C => some mtuCommit
  | 0x0D => some fec
  | 0x0E => some sack
  | _ => none

structure UDPCFrame where
  magic : ℕ
  version : ℕ
  cmd : Command
  flags : ℕ
  sessionID : ℕ
  packetNo : ℕ
  seq : ℕ
  ack : ℕ
  windowSize : ℕ
  data : Bytes
  deriving DecidableEq, Repr

-- The source's fields are fixed-width; this is what their types say.
@[mk_iff]
structure UDPCFrame.Fits (f : UDPCFrame) : Prop where
  magic : f.magic < 256 ^ 4
  version : f.version < 256 ^ 1
  flags : f.flags < 256 ^ 2
  sessionID : f.sessionID < 256 ^ 4
  packetNo : f.packetNo < 256 ^ 8
  seq : f.seq < 256 ^ 8
  ack : f.ack < 256 ^ 8
  windowSize : f.windowSize < 256 ^ 2

instance (f : UDPCFrame) : Decidable f.Fits :=
  decidable_of_iff _ (UDPCFrame.fits_iff f).symm

def UDPCFrame.encodeHeader (f : UDPCFrame) (dataLen : ℕ) : Bytes :=
  BigEndian.put 4 f.magic ++ BigEndian.put 1 f.version ++ BigEndian.put 1 f.cmd.code ++
  BigEndian.put 2 f.flags ++ BigEndian.put 4 f.sessionID ++ BigEndian.put 8 f.packetNo ++
  BigEndian.put 8 f.seq ++ BigEndian.put 8 f.ack ++ BigEndian.put 2 f.windowSize ++
  BigEndian.put 2 dataLen

-- The trailer stays zero until the frame is sealed.
def UDPCFrame.marshalBinary (f : UDPCFrame) : Except String Bytes :=
  if 0xFFFF < f.data.length then .error "payload exceeds uint16 length"
  else
    let total := udpcHdrSize + f.data.length + udpcTrailerSize
    if udpcMaxPkt < total then .error ("frame exceeds maximum packet size: " ++ toString total)
    else .ok (f.encodeHeader f.data.length ++ f.data ++ List.replicate udpcTrailerSize 0)

-- The big-endian number in `buf[off : off+w]`.
def fieldAt (buf : Bytes) (off w : ℕ) : ℕ :=
  BigEndian.get ((buf.drop off).take w)

-- Structural parsing only: `data` still holds the protected bytes, and
-- `expectedMagic = 0` accepts any magic.
def parseUDPCFrame (buf : Bytes) (expectedMagic : ℕ) : Except String UDPCFrame :=
  if buf.length < udpcHdrSize + udpcTrailerSize then .error "frame too short"
  else if udpcMaxPkt < buf.length then .error "frame exceeds maximum packet size"
  else
    let magic := fieldAt buf 0 4
    if expectedMagic ≠ 0 ∧ magic ≠ expectedMagic then .error "magic mismatch"
    else if fieldAt buf 4 1 ≠ udpcVersion then .error "unsupported protocol version"
    else
      match Command.ofCode (fieldAt buf 5 1) with
      | none => .error "unknown command"
      | some cmd =>
        let dataLen := fieldAt buf 38 2
        if buf.length ≠ udpcHdrSize + dataLen + udpcTrailerSize then
          .error "invalid payload length"
        else
          .ok {
            magic := magic
            version := fieldAt buf 4 1
            cmd := cmd
            flags := fieldAt buf 6 2
            sessionID := fieldAt buf 8 4
            packetNo := fieldAt buf 12 8
            seq := fieldAt buf 20 8
            ack := fieldAt buf 28 8
            windowSize := fieldAt buf 36 2
            data := (buf.drop udpcHdrSize).take dataLen }

def validSessionFrameShape (frame : UDPCFrame) : Bool :=
  if frame.sessionID = 0 ∨ frame.packetNo = 0 then false
  else
    match frame.cmd with
    | .data => frame.seq ≠ 0
    | .sack =>
      frame.seq = 0 ∧ 2 ≤ frame.data.length ∧ frame.data.length ≤ sackWordsWidePayload ∧
        (frame.data.length - 2) % 8 = 0
    | .fec => frame.seq ≠ 0 ∧ fecLengthPrefixSize ≤ frame.data.length
    | .ack | .ping | .pong | .fin => frame.seq = 0 ∧ frame.data.length = 0
    | .pathChallenge | .pathResponse => frame.seq = 0 ∧ frame.data.length = pathChallengeSize
    | .mtuProbe | .mtuProbeReply =>
      frame.seq = 0 ∧ mtuProbeIDSize ≤ frame.data.length ∧ frame.data.length ≤ mtuProbeMaxPayload
    | .mtuCommit => frame.seq = 0 ∧ frame.data.length = mtuCommitSize
    | .handshakeSyn | .handshakeAck => false

end UdpCustom.Frame
