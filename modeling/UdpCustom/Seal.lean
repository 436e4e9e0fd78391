import UdpCustom.Frame

namespace UdpCustom.Seal

open UdpCustom.Frame

-- The cipher of a record: what `Seal` produces opens to what was sealed and
-- carries a tag of the trailer's size.
structure Aead (Key : Type) where
  encrypt : Key → (nonce plaintext aad : Bytes) → Bytes
  decrypt : Key → (nonce ciphertext aad : Bytes) → Option Bytes
  decrypt_encrypt : ∀ k nonce p aad, decrypt k nonce (encrypt k nonce p aad) aad = some p
  length_encrypt : ∀ k nonce p aad, (encrypt k nonce p aad).length = p.length + udpcTrailerSize

def packetNonce (packetNo : ℕ) : Bytes :=
  List.replicate 4 0 ++ (BigEndian.put 8 packetNo).reverse

variable {Key : Type}

-- The header is the associated data, the payload and its tag follow it.
def sealFrameAEAD (A : Aead Key) (k : Key) (f : UDPCFrame) (plaintext : Bytes) : Option Bytes :=
  if udpcMaxPkt < udpcHdrSize + plaintext.length + udpcTrailerSize then none
  else
    let header := f.encodeHeader plaintext.length
    some (header ++ A.encrypt k (packetNonce f.packetNo) plaintext header)

inductive Direction
  | toServer
  | toClient
  deriving DecidableEq, Repr

-- Each session derives one key per direction, and no two agree.
structure KeySchedule (Session Key : Type) where
  key : Session → Direction → Key
  injective : ∀ s d s' d', key s d = key s' d' → s = s' ∧ d = d'

-- A record as one end of a session sealed it.
structure Sealed (Session : Type) where
  session : Session
  dir : Direction
  frame : UDPCFrame
  plaintext : Bytes
  deriving DecidableEq

section Ideal

variable {Session : Type} [DecidableEq Key] (A : Aead Key) (keys : KeySchedule Session Key)

-- `r` is a record whose sealing produced this triple under this key.
def Sealed.Produced (r : Sealed Session) (k : Key) (nonce ciphertext aad : Bytes) : Prop :=
  let header := r.frame.encodeHeader r.plaintext.length
  keys.key r.session r.dir = k ∧ packetNonce r.frame.packetNo = nonce ∧ header = aad ∧
    A.encrypt k nonce r.plaintext header = ciphertext

instance (r : Sealed Session) (k : Key) (nonce ciphertext aad : Bytes) :
    Decidable (r.Produced A keys k nonce ciphertext aad) := by
  unfold Sealed.Produced
  infer_instance

-- The ideal cipher opens nothing but what has been sealed.
def openSealed (log : List (Sealed Session)) (k : Key) (nonce ciphertext aad : Bytes) :
    Option Bytes :=
  if ∃ r ∈ log, r.Produced A keys k nonce ciphertext aad then A.decrypt k nonce ciphertext aad
  else none

-- `raw` is the whole received buffer `frame` was parsed from.
def openFrameAEAD (log : List (Sealed Session)) (k : Key) (frame : UDPCFrame) (raw : Bytes) :
    Option Bytes :=
  if raw.length < udpcHdrSize + udpcTrailerSize then none
  else openSealed A keys log k (packetNonce frame.packetNo) (raw.drop udpcHdrSize)
    (raw.take udpcHdrSize)

-- Whatever opens was sealed under that key with that header, and opens to its plaintext.
theorem openFrameAEAD_some {log : List (Sealed Session)} {k : Key} {frame : UDPCFrame}
    {raw p : Bytes} (h : openFrameAEAD A keys log k frame raw = some p) :
    ∃ r ∈ log, keys.key r.session r.dir = k ∧
      raw.take udpcHdrSize = r.frame.encodeHeader r.plaintext.length ∧ r.plaintext = p := by
  unfold openFrameAEAD openSealed at h
  split_ifs at h with hlen hmem
  obtain ⟨r, hr, hkey, hnonce, hheader, hct⟩ := hmem
  refine ⟨r, hr, hkey, hheader.symm, ?_⟩
  rw [← hct, ← hheader, A.decrypt_encrypt] at h
  exact Option.some.inj h

end Ideal

end UdpCustom.Seal
