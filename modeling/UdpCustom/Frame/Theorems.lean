import UdpCustom.Frame
import Mathlib.Tactic.SplitIfs

namespace UdpCustom.Frame

variable {buf : Bytes} {magic : ℕ} {f : UDPCFrame}

@[simp] theorem ofCode_code (c : Command) : Command.ofCode c.code = some c := by
  cases c <;> rfl

theorem code_of_ofCode {n : ℕ} {c : Command} (h : Command.ofCode n = some c) : c.code = n := by
  unfold Command.ofCode at h
  split at h
  all_goals cases h
  all_goals rfl

theorem code_lt (c : Command) : c.code < 256 ^ 1 := by
  cases c <;> decide

@[simp] theorem length_encodeHeader (f : UDPCFrame) (n : ℕ) :
    (f.encodeHeader n).length = udpcHdrSize := by
  simp [UDPCFrame.encodeHeader, udpcHdrSize]

-- The frame `buf` holds, field by field.
structure Reads (f : UDPCFrame) (buf : Bytes) : Prop where
  magic : f.magic = fieldAt buf 0 4
  version : f.version = fieldAt buf 4 1
  cmd : f.cmd.code = fieldAt buf 5 1
  flags : f.flags = fieldAt buf 6 2
  sessionID : f.sessionID = fieldAt buf 8 4
  packetNo : f.packetNo = fieldAt buf 12 8
  seq : f.seq = fieldAt buf 20 8
  ack : f.ack = fieldAt buf 28 8
  windowSize : f.windowSize = fieldAt buf 36 2
  data : f.data = (buf.drop udpcHdrSize).take (fieldAt buf 38 2)

theorem Reads.eq {f g : UDPCFrame} (hf : Reads f buf) (hg : Reads g buf) : f = g := by
  obtain ⟨fmagic, fversion, fcmd, fflags, fsid, fno, fseq, fack, fwin, fdata⟩ := f
  obtain ⟨gmagic, gversion, gcmd, gflags, gsid, gno, gseq, gack, gwin, gdata⟩ := g
  have hcmd : fcmd = gcmd := by
    have hcode := congrArg Command.ofCode (hf.cmd.trans hg.cmd.symm)
    rwa [ofCode_code, ofCode_code, Option.some.injEq] at hcode
  have hmagic := hf.magic.trans hg.magic.symm
  have hversion := hf.version.trans hg.version.symm
  have hflags := hf.flags.trans hg.flags.symm
  have hsid := hf.sessionID.trans hg.sessionID.symm
  have hno := hf.packetNo.trans hg.packetNo.symm
  have hseq := hf.seq.trans hg.seq.symm
  have hack := hf.ack.trans hg.ack.symm
  have hwin := hf.windowSize.trans hg.windowSize.symm
  have hdata := hf.data.trans hg.data.symm
  dsimp only at hmagic hversion hflags hsid hno hseq hack hwin hdata
  rw [hcmd, hmagic, hversion, hflags, hsid, hno, hseq, hack, hwin, hdata]

-- The buffers the parser accepts.
structure WellFormed (buf : Bytes) (expectedMagic : ℕ) : Prop where
  length : buf.length = udpcHdrSize + fieldAt buf 38 2 + udpcTrailerSize
  le_maxPkt : buf.length ≤ udpcMaxPkt
  magic : expectedMagic = 0 ∨ fieldAt buf 0 4 = expectedMagic
  version : fieldAt buf 4 1 = udpcVersion
  command : ∃ cmd : Command, cmd.code = fieldAt buf 5 1

theorem parse_ok (h : parseUDPCFrame buf magic = .ok f) : WellFormed buf magic ∧ Reads f buf := by
  simp only [parseUDPCFrame] at h
  split_ifs at h with hshort hlong hmagic hversion hlen
  · split at h <;> cases h
  split at h
  · cases h
  rename_i cmd hcmd
  cases h
  have hcode := code_of_ofCode hcmd
  exact ⟨⟨not_not.1 hlen, Nat.not_lt.1 hlong, by tauto, not_not.1 hversion, cmd, hcode⟩,
    ⟨rfl, rfl, hcode, rfl, rfl, rfl, rfl, rfl, rfl, rfl⟩⟩

theorem exists_parse (h : WellFormed buf magic) :
    ∃ f, parseUDPCFrame buf magic = .ok f := by
  obtain ⟨cmd, hcmd⟩ := h.command
  have hshort : ¬buf.length < udpcHdrSize + udpcTrailerSize := by
    have := h.length
    omega
  have hmagic : ¬(magic ≠ 0 ∧ fieldAt buf 0 4 ≠ magic) := fun hne => h.magic.elim hne.1 hne.2
  simp only [parseUDPCFrame]
  rw [if_neg hshort, if_neg (Nat.not_lt.2 h.le_maxPkt), if_neg hmagic, if_neg (not_not.2 h.version),
    ← hcmd, ofCode_code]
  dsimp only
  rw [if_neg (not_not.2 h.length)]
  exact ⟨_, rfl⟩

theorem parse_of_reads (h : WellFormed buf magic)
    (hreads : Reads f buf) : parseUDPCFrame buf magic = .ok f := by
  obtain ⟨g, hg⟩ := exists_parse h
  rw [hg, (parse_ok hg).2.eq hreads]

theorem length_data (h : WellFormed buf magic)
    (hreads : Reads f buf) : f.data.length = fieldAt buf 38 2 := by
  have hlen := h.length
  rw [hreads.data, List.length_take, List.length_drop]
  omega

theorem fieldAt_lt (buf : Bytes) (off w : ℕ) : fieldAt buf off w < 256 ^ w := by
  have hlen : ((buf.drop off).take w).length ≤ w := by
    rw [List.length_take]
    exact Nat.min_le_left _ _
  exact (BigEndian.get_lt _).trans_le (Nat.pow_le_pow_right (by decide) hlen)

theorem put_fieldAt (buf : Bytes) {off w : ℕ} (h : off + w ≤ buf.length) :
    BigEndian.put w (fieldAt buf off w) = (buf.drop off).take w := by
  have hw : ((buf.drop off).take w).length = w := by
    rw [List.length_take, List.length_drop]
    omega
  calc BigEndian.put w (fieldAt buf off w)
      = BigEndian.put ((buf.drop off).take w).length (BigEndian.get ((buf.drop off).take w)) := by
        rw [hw, fieldAt]
    _ = (buf.drop off).take w := BigEndian.put_get _

theorem fits_of_parse (h : parseUDPCFrame buf magic = .ok f) : f.Fits := by
  obtain ⟨-, hreads⟩ := parse_ok h
  have hlt : ∀ {off w v : ℕ}, v = fieldAt buf off w → v < 256 ^ w :=
    fun hv => hv ▸ fieldAt_lt buf _ _
  exact ⟨hlt hreads.magic, hlt hreads.version, hlt hreads.flags, hlt hreads.sessionID,
    hlt hreads.packetNo, hlt hreads.seq, hlt hreads.ack, hlt hreads.windowSize⟩

-- A field of the header is read from the first 40 bytes alone.
theorem fieldAt_take_header (buf : Bytes) {off w : ℕ} (h : off + w ≤ udpcHdrSize) :
    fieldAt (buf.take udpcHdrSize) off w = fieldAt buf off w := by
  unfold fieldAt
  rw [List.drop_take, List.take_take, Nat.min_eq_left (by omega)]

-- Each field of a header is read back from where it was written.
theorem fieldAt_encodeHeader (f : UDPCFrame) (n : ℕ) (hfits : f.Fits) :
    fieldAt (f.encodeHeader n) 0 4 = f.magic ∧ fieldAt (f.encodeHeader n) 4 1 = f.version ∧
      fieldAt (f.encodeHeader n) 5 1 = f.cmd.code ∧ fieldAt (f.encodeHeader n) 6 2 = f.flags ∧
      fieldAt (f.encodeHeader n) 8 4 = f.sessionID ∧
      fieldAt (f.encodeHeader n) 12 8 = f.packetNo ∧ fieldAt (f.encodeHeader n) 20 8 = f.seq ∧
      fieldAt (f.encodeHeader n) 28 8 = f.ack ∧ fieldAt (f.encodeHeader n) 36 2 = f.windowSize := by
  have hpiece : ∀ {off w v : ℕ}, ((f.encodeHeader n).drop off).take w = BigEndian.put w v →
      v < 256 ^ w → fieldAt (f.encodeHeader n) off w = v := by
    intro off w v hpos hlt
    rw [fieldAt, hpos, BigEndian.get_put_of_lt hlt]
  refine ⟨hpiece ?_ hfits.magic, hpiece ?_ hfits.version, hpiece ?_ (code_lt f.cmd),
    hpiece ?_ hfits.flags, hpiece ?_ hfits.sessionID, hpiece ?_ hfits.packetNo,
    hpiece ?_ hfits.seq, hpiece ?_ hfits.ack, hpiece ?_ hfits.windowSize⟩
  all_goals simp (disch := decide) only [UDPCFrame.encodeHeader, List.append_assoc,
    BigEndian.drop_put_append, BigEndian.take_put_append, List.drop_zero, Nat.reduceSub]

theorem dataLen_encodeHeader (f : UDPCFrame) {n : ℕ} (h : n < 256 ^ 2) :
    fieldAt (f.encodeHeader n) 38 2 = n := by
  have hpos : ((f.encodeHeader n).drop 38).take 2 = BigEndian.put 2 n := rfl
  rw [fieldAt, hpos, BigEndian.get_put_of_lt h]

-- The header is the authenticated data: a buffer that carries the header of
-- `g` parses to the fields of `g`.
theorem parse_header_eq {magic n : ℕ} {f g : UDPCFrame}
    (hparse : parseUDPCFrame buf magic = .ok f) (hfits : g.Fits)
    (hheader : buf.take udpcHdrSize = g.encodeHeader n) :
    f.magic = g.magic ∧ f.version = g.version ∧ f.cmd = g.cmd ∧ f.flags = g.flags ∧
      f.sessionID = g.sessionID ∧ f.packetNo = g.packetNo ∧ f.seq = g.seq ∧ f.ack = g.ack ∧
      f.windowSize = g.windowSize := by
  have hfield : ∀ off w, off + w ≤ udpcHdrSize →
      fieldAt buf off w = fieldAt (g.encodeHeader n) off w := by
    intro off w h
    rw [← hheader, fieldAt_take_header buf h]
  obtain ⟨-, hmagic, hversion, hcmd, hflags, hsid, hno, hseq, hack, hwin, -⟩ := parse_ok hparse
  obtain ⟨gmagic, gversion, gcmd, gflags, gsid, gno, gseq, gack, gwin⟩ :=
    fieldAt_encodeHeader g n hfits
  rw [hfield _ _ (by decide)] at hmagic hversion hcmd hflags hsid hno hseq hack hwin
  have hcode := congrArg Command.ofCode (hcmd.trans gcmd)
  rw [ofCode_code, ofCode_code] at hcode
  exact ⟨hmagic.trans gmagic, hversion.trans gversion, Option.some.inj hcode,
    hflags.trans gflags, hsid.trans gsid, hno.trans gno, hseq.trans gseq, hack.trans gack,
    hwin.trans gwin⟩

-- A frame whose header, payload and any trailer make up the buffer is parsed from it.
theorem parse_encoded {trailer : Bytes} (hfits : f.Fits)
    (hversion : f.version = udpcVersion) (hdata : f.data.length ≤ udpcMaxData)
    (hmagic : magic = 0 ∨ f.magic = magic) (htrailer : trailer.length = udpcTrailerSize) :
    parseUDPCFrame (f.encodeHeader f.data.length ++ f.data ++ trailer) magic = .ok f := by
  set buf := f.encodeHeader f.data.length ++ f.data ++ trailer with hbuf
  have hlen : buf.length = udpcHdrSize + f.data.length + udpcTrailerSize := by
    rw [hbuf, List.length_append, List.length_append, length_encodeHeader, htrailer]
  have hmax : udpcHdrSize + udpcMaxData + udpcTrailerSize = udpcMaxPkt := by decide
  have hsmall : f.data.length < 256 ^ 2 := by
    have : udpcMaxData < 256 ^ 2 := by decide
    omega
  have hfield : ∀ off w, off + w ≤ udpcHdrSize →
      fieldAt buf off w = fieldAt (f.encodeHeader f.data.length) off w := by
    intro off w h
    rw [← fieldAt_take_header buf h, hbuf, List.append_assoc,
      List.take_left' (length_encodeHeader f _)]
  have hpayload : (buf.drop udpcHdrSize).take f.data.length = f.data := by
    rw [hbuf, List.append_assoc, List.drop_left' (length_encodeHeader f _), List.take_left]
  obtain ⟨gmagic, gversion, gcmd, gflags, gsid, gno, gseq, gack, gwin⟩ :=
    fieldAt_encodeHeader f f.data.length hfits
  have gdata := dataLen_encodeHeader f hsmall
  rw [← hfield _ _ (by decide)] at gmagic gversion gcmd gflags gsid gno gseq gack gwin gdata
  refine parse_of_reads ⟨?_, ?_, ?_, gversion.trans hversion, f.cmd, gcmd.symm⟩
    ⟨gmagic.symm, gversion.symm, gcmd.symm, gflags.symm, gsid.symm, gno.symm, gseq.symm, gack.symm,
      gwin.symm, ?_⟩
  · rw [gdata, hlen]
  · omega
  · rwa [gmagic]
  · rw [gdata, hpayload]

-- The ten fields of a buffer, written back to back, are its first 40 bytes.
theorem header_of_parse (h : parseUDPCFrame buf magic = .ok f) :
    f.encodeHeader f.data.length = buf.take udpcHdrSize := by
  obtain ⟨hwf, hreads⟩ := parse_ok h
  have hlen := hwf.length
  have hput : ∀ off w, off + w ≤ udpcHdrSize →
      BigEndian.put w (fieldAt buf off w) = (buf.drop off).take w :=
    fun off w hle => put_fieldAt buf (by omega)
  rw [UDPCFrame.encodeHeader, length_data hwf hreads, hreads.magic, hreads.version, hreads.cmd,
    hreads.flags, hreads.sessionID, hreads.packetNo, hreads.seq, hreads.ack, hreads.windowSize,
    hput 0 4 (by decide), hput 4 1 (by decide), hput 5 1 (by decide),
    hput 6 2 (by decide), hput 8 4 (by decide), hput 12 8 (by decide), hput 20 8 (by decide),
    hput 28 8 (by decide), hput 36 2 (by decide), hput 38 2 (by decide), List.drop_zero]
  simp only [← List.take_add]
  rfl

end UdpCustom.Frame
