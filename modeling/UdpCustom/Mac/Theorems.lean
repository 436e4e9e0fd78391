import UdpCustom.Mac
import UdpCustom.Frame.Theorems

namespace UdpCustom.Mac

open UdpCustom.Frame

variable {f : UDPCFrame}

-- The authenticated part of a record: its header and payload.
def body (wire : Bytes) : Bytes :=
  wire.take (wire.length - udpcTrailerSize)

theorem body_append (msg : Bytes) {trailer : Bytes} (h : trailer.length = udpcTrailerSize) :
    body (msg ++ trailer) = msg := by
  unfold body
  rw [List.length_append, h, Nat.add_sub_cancel, List.take_left]

theorem marshalBinary_ok (h : f.data.length ≤ udpcMaxData) :
    f.marshalBinary =
      .ok (f.encodeHeader f.data.length ++ f.data ++ List.replicate udpcTrailerSize 0) := by
  have hmax : udpcHdrSize + udpcMaxData + udpcTrailerSize = udpcMaxPkt := by decide
  have hshort : udpcMaxData ≤ 0xFFFF := by decide
  unfold UDPCFrame.marshalBinary
  dsimp only
  rw [if_neg (by omega), if_neg (by omega)]

section

variable {Key : Type} (H : Hmac Key)

theorem length_frameMAC (k : Key) (msg : Bytes) :
    (frameMAC H k msg).length = udpcTrailerSize := by
  rw [frameMAC, List.length_take, H.length_sum]
  rfl

theorem sealFrameMAC_some (h : f.data.length ≤ udpcMaxData) (k : Key) :
    sealFrameMAC H f (some k) = some (f.encodeHeader f.data.length ++ f.data ++
      frameMAC H k (f.encodeHeader f.data.length ++ f.data)) := by
  have hlong : ∀ msg : Bytes, ¬(f.encodeHeader f.data.length ++ f.data ++ msg).length <
      udpcHdrSize + msg.length := by
    intro msg
    rw [List.length_append, List.length_append, length_encodeHeader]
    omega
  have hzero := List.length_replicate (n := udpcTrailerSize) (a := (0 : UInt8))
  have hwire := hlong (List.replicate udpcTrailerSize 0)
  rw [hzero] at hwire
  have hbody := body_append (f.encodeHeader f.data.length ++ f.data) hzero
  unfold body at hbody
  rw [sealFrameMAC, marshalBinary_ok h]
  dsimp only [macWire]
  rw [if_neg hwire, hbody]
  rfl

-- The receiver's check passes on what was sealed under the same key.
theorem verify_sealed (h : f.data.length ≤ udpcMaxData) (k : Key) :
    ∃ wire, sealFrameMAC H f (some k) = some wire ∧ verifyFrameAuth H wire (some k) = .ok () := by
  refine ⟨_, sealFrameMAC_some H h k, ?_⟩
  set msg := f.encodeHeader f.data.length ++ f.data with hmsg
  have htag := length_frameMAC H k msg
  have hbody := body_append msg htag
  unfold body at hbody
  have hlong : ¬(msg ++ frameMAC H k msg).length < udpcHdrSize + udpcTrailerSize := by
    rw [hmsg, List.length_append, List.length_append, length_encodeHeader, ← hmsg, htag]
    omega
  dsimp only [verifyFrameAuth]
  rw [if_neg hlong, hbody, List.drop_left, if_pos rfl]

end

-- What the parser accepts is the encoding of the frame it returns.
theorem body_of_parse {buf : Bytes} {magic : ℕ} (h : parseUDPCFrame buf magic = .ok f) :
    body buf = f.encodeHeader f.data.length ++ f.data ∧ f.data.length ≤ udpcMaxData := by
  obtain ⟨hwf, hreads⟩ := parse_ok h
  have hlen := hwf.length
  have hmax := hwf.le_maxPkt
  have hdata := length_data hwf hreads
  have hpkt : udpcHdrSize + udpcMaxData + udpcTrailerSize = udpcMaxPkt := by decide
  refine ⟨?_, by omega⟩
  rw [header_of_parse h, hreads.data, ← List.take_add]
  unfold body
  congr 1
  omega

theorem codec_exact {Key : Type} (H : Hmac Key) :
    (∀ (f : UDPCFrame) (magic : ℕ) (k : Key), f.Fits → f.version = udpcVersion →
      f.data.length ≤ udpcMaxData → (magic = 0 ∨ f.magic = magic) →
      (∃ wire, f.marshalBinary = .ok wire ∧ parseUDPCFrame wire magic = .ok f) ∧
      ∃ wire, sealFrameMAC H f (some k) = some wire ∧ parseUDPCFrame wire magic = .ok f) ∧
    (∀ (buf : Bytes) (magic : ℕ) (f : UDPCFrame), parseUDPCFrame buf magic = .ok f →
      f.Fits ∧ ∃ wire, f.marshalBinary = .ok wire ∧ wire.length = buf.length ∧
        body wire = body buf) ∧
    (∀ (buf : Bytes) (magic : ℕ),
      (∃ f, parseUDPCFrame buf magic = .ok f) ↔ WellFormed buf magic) ∧
    ∀ (a b : Bytes) (m m' : ℕ) (f : UDPCFrame), parseUDPCFrame a m = .ok f →
      parseUDPCFrame b m' = .ok f → body a = body b := by
  refine ⟨fun f magic k hfits hversion hdata hmagic => ⟨?_, ?_⟩, fun buf magic f h => ⟨?_, ?_⟩,
    fun buf magic => ⟨fun h => (parse_ok h.choose_spec).1, exists_parse⟩,
    fun a b m m' f ha hb => ?_⟩
  · exact ⟨_, marshalBinary_ok hdata,
      parse_encoded hfits hversion hdata hmagic List.length_replicate⟩
  · exact ⟨_, sealFrameMAC_some H hdata k,
      parse_encoded hfits hversion hdata hmagic (length_frameMAC H k _)⟩
  · exact fits_of_parse h
  · obtain ⟨hbody, hdata⟩ := body_of_parse h
    obtain ⟨hwf, hreads⟩ := parse_ok h
    refine ⟨_, marshalBinary_ok hdata, ?_, (body_append _ List.length_replicate).trans hbody.symm⟩
    rw [List.length_append, List.length_append, length_encodeHeader, List.length_replicate,
      hwf.length, length_data hwf hreads]
  · exact (body_of_parse ha).1.trans (body_of_parse hb).1.symm

end UdpCustom.Mac
