import UdpCustom.Lib.Ascii
import UdpCustom.Lib.Transcript
import UdpCustom.Payload
import UdpCustom.Seal

-- Both ends of Noise_NK_25519_ChaChaPoly_BLAKE2s.
namespace UdpCustom.Noise

open UdpCustom.Frame Ascii
open UdpCustom.Payload (noiseMsg1Size noiseMsg2Size)
open UdpCustom.Seal (Aead packetNonce)

-- 33 bytes, longer than a digest.
def noiseProtocolName : Bytes := text "Noise_NK_25519_ChaChaPoly_BLAKE2s"

def keySize : ℕ := 32

def zeroKey : Bytes := List.replicate keySize 0

-- BLAKE2s, HKDF over it, X25519 and ChaCha20-Poly1305. Scalars are clamped, so a multiple
-- of the base point by one or two of them is never the point whose encoding is zero.
structure Primitives where
  hash : Bytes → Bytes
  length_hash : ∀ x, (hash x).length = keySize
  hkdf : (ikm salt : Bytes) → Bytes × Bytes
  x25519 : (scalar point : Bytes) → Bytes
  basepoint : Bytes
  length_x25519 : ∀ a p, (x25519 a p).length = keySize
  x25519_comm : ∀ a b, x25519 a (x25519 b basepoint) = x25519 b (x25519 a basepoint)
  x25519_base_ne_zero : ∀ a, x25519 a basepoint ≠ zeroKey
  x25519_ne_zero : ∀ a b, x25519 a (x25519 b basepoint) ≠ zeroKey
  aead : Aead Bytes

inductive NoiseError
  | es
  | ee
  | msg1Size (n : ℕ)
  | msg1Built (n : ℕ)
  | msg1Authentication
  | msg2Size (n : ℕ)
  | msg2Authentication
  | alreadyFinished
  deriving DecidableEq, Repr

-- One use of a cipher: its key and nonce, the ciphertext and the associated data.
structure Call where
  key : Bytes
  nonce : Bytes
  ciphertext : Bytes
  ad : Bytes
  deriving DecidableEq

variable (P : Primitives)

def Primitives.publicKey (scalar : Bytes) : Bytes := P.x25519 scalar P.basepoint

def dh (priv pub : Bytes) : Option Bytes :=
  if P.x25519 priv pub = zeroKey then none else some (P.x25519 priv pub)

-- The hash before the prologue.
def protocolHash : Bytes :=
  if noiseProtocolName.length ≤ keySize then
    noiseProtocolName ++ List.replicate (keySize - noiseProtocolName.length) 0
  else P.hash noiseProtocolName

structure SymmetricState where
  ck : Bytes
  h : Bytes
  -- the key of the cipher, none before the first `mixKey`
  aead : Option Bytes
  n : ℕ
  -- history: what was mixed into the hash, and the uses of the cipher
  mixed : List Bytes
  sealed : List Call
  opened : List Call
  h_eq : h = Transcript.digest P.hash (protocolHash P) mixed

variable {P}

theorem SymmetricState.hash_eq (s : SymmetricState P) (data : Bytes) :
    P.hash (s.h ++ data) = Transcript.digest P.hash (protocolHash P) (s.mixed ++ [data]) := by
  rw [Transcript.digest_concat, ← s.h_eq]

def SymmetricState.mixHash (s : SymmetricState P) (data : Bytes) : SymmetricState P :=
  { s with
    h := P.hash (s.h ++ data)
    mixed := s.mixed ++ [data]
    h_eq := s.hash_eq data }

def SymmetricState.mixKey (s : SymmetricState P) (ikm : Bytes) : SymmetricState P :=
  { s with ck := (P.hkdf ikm s.ck).1, aead := some (P.hkdf ikm s.ck).2, n := 0 }

variable (P)

-- The prologue is empty.
def newSymmetricState : SymmetricState P :=
  SymmetricState.mixHash
    { ck := protocolHash P
      h := protocolHash P
      aead := none
      n := 0
      mixed := []
      sealed := []
      opened := []
      h_eq := rfl } []

def nkInit (responderStaticPub : Bytes) : SymmetricState P :=
  (newSymmetricState P).mixHash responderStaticPub

variable {P}

def SymmetricState.call (s : SymmetricState P) (key ciphertext : Bytes) : Call :=
  ⟨key, packetNonce s.n, ciphertext, s.h⟩

def SymmetricState.seals (s : SymmetricState P) (c : Call) : SymmetricState P :=
  { s with sealed := c :: s.sealed }

def SymmetricState.tries (s : SymmetricState P) (c : Call) : SymmetricState P :=
  { s with opened := c :: s.opened }

def SymmetricState.tick (s : SymmetricState P) : SymmetricState P :=
  { s with n := s.n + 1 }

def SymmetricState.encryptAndHash (s : SymmetricState P) (plaintext : Bytes) :
    Bytes × SymmetricState P :=
  match s.aead with
  | none => (plaintext, s.mixHash plaintext)
  | some key =>
    let ct := P.aead.encrypt key (packetNonce s.n) plaintext s.h
    (ct, (s.seals (s.call key ct)).tick.mixHash ct)

def SymmetricState.decryptAndHash (s : SymmetricState P) (ciphertext : Bytes) :
    Option Bytes × SymmetricState P :=
  match s.aead with
  | none => (some ciphertext, s.mixHash ciphertext)
  | some key =>
    let tried := s.tries (s.call key ciphertext)
    match P.aead.decrypt key (packetNonce s.n) ciphertext s.h with
    | none => (none, tried)
    | some plaintext => (some plaintext, tried.tick.mixHash ciphertext)

def SymmetricState.split (s : SymmetricState P) : Bytes × Bytes := P.hkdf [] s.ck

structure NoiseSession where
  sendKey : Bytes
  recvKey : Bytes
  handshakeHash : Bytes
  deriving DecidableEq

variable (P)

structure ClientNK where
  ss : SymmetricState P
  ePriv : Bytes
  ePub : Bytes
  serverPub : Bytes
  msg1 : Option Bytes
  finished : Bool

-- `ePriv` is what `generateEphemeral` draws.
def newClientNK (ePriv serverPub : Bytes) : Except NoiseError (ClientNK P) :=
  let ss := (nkInit P serverPub).mixHash (P.publicKey ePriv)
  match dh P ePriv serverPub with
  | none => .error .es
  | some shared => .ok
    { ss := ss.mixKey shared
      ePriv := ePriv
      ePub := P.publicKey ePriv
      serverPub := serverPub
      msg1 := none
      finished := false }

variable {P}

def ClientNK.message1 (c : ClientNK P) : Except NoiseError Bytes × ClientNK P :=
  match c.msg1 with
  | some msg1 => (.ok msg1, c)
  | none =>
    let tag := c.ss.encryptAndHash []
    let out := c.ePub ++ tag.1
    if out.length ≠ noiseMsg1Size then (.error (.msg1Built out.length), { c with ss := tag.2 })
    else (.ok out, { c with ss := tag.2, msg1 := some out })

def ClientNK.finish (c : ClientNK P) (msg2 : Bytes) : Except NoiseError NoiseSession × ClientNK P :=
  if c.finished then (.error .alreadyFinished, c)
  else if msg2.length ≠ noiseMsg2Size then (.error (.msg2Size msg2.length), c)
  else
    let ss := c.ss.mixHash (msg2.take keySize)
    match dh P c.ePriv (msg2.take keySize) with
    | none => (.error .ee, { c with ss := ss })
    | some shared =>
      match (ss.mixKey shared).decryptAndHash (msg2.drop keySize) with
      | (none, ss) => (.error .msg2Authentication, { c with ss := ss })
      | (some _, ss) =>
        -- the initiator sends with the first key
        (.ok ⟨ss.split.1, ss.split.2, ss.h⟩, { c with ss := ss, finished := true })

variable (P)

-- The responder up to `Split`: its state and message 2.
def respond (serverPrivkey ePriv msg1 : Bytes) : Except NoiseError (SymmetricState P × Bytes) :=
  if msg1.length ≠ noiseMsg1Size then .error (.msg1Size msg1.length)
  else
    let ss := (nkInit P (P.publicKey serverPrivkey)).mixHash (msg1.take keySize)
    match dh P serverPrivkey (msg1.take keySize) with
    | none => .error .es
    | some shared =>
      match (ss.mixKey shared).decryptAndHash (msg1.drop keySize) with
      | (none, _) => .error .msg1Authentication
      | (some _, ss) =>
        let ss := ss.mixHash (P.publicKey ePriv)
        match dh P ePriv (msg1.take keySize) with
        | none => .error .ee
        | some shared =>
          let tag := (ss.mixKey shared).encryptAndHash []
          .ok (tag.2, P.publicKey ePriv ++ tag.1)

def newServerNoiseSession (serverPrivkey ePriv msg1 : Bytes) :
    Except NoiseError (NoiseSession × Bytes) :=
  (respond P serverPrivkey ePriv msg1).map fun r => (⟨r.1.split.2, r.1.split.1, r.1.h⟩, r.2)

end UdpCustom.Noise
