import UdpCustom.Noise

namespace UdpCustom.Noise

open UdpCustom.Frame
open UdpCustom.Payload (noiseMsg1Size noiseMsg2Size)
open UdpCustom.Seal (packetNonce)

variable {P : Primitives}

theorem length_publicKey (scalar : Bytes) : (P.publicKey scalar).length = keySize :=
  P.length_x25519 _ _

-- Two key pairs share one secret.
theorem exists_shared (a b : Bytes) :
    ∃ shared, dh P a (P.publicKey b) = some shared ∧ dh P b (P.publicKey a) = some shared :=
  ⟨_, if_neg (P.x25519_ne_zero a b),
    (if_neg (P.x25519_ne_zero b a)).trans (congrArg some (P.x25519_comm b a))⟩

section Agreement

-- The states of the two ends, apart from what each has done with its cipher.
structure Agree (s t : SymmetricState P) : Prop where
  ck : s.ck = t.ck
  h : s.h = t.h
  aead : s.aead = t.aead
  n : s.n = t.n

variable {s t : SymmetricState P}

theorem Agree.refl (s : SymmetricState P) : Agree s s :=
  ⟨rfl, rfl, rfl, rfl⟩

theorem Agree.symm (hag : Agree s t) : Agree t s :=
  ⟨hag.ck.symm, hag.h.symm, hag.aead.symm, hag.n.symm⟩

theorem Agree.mixHash (hag : Agree s t) (data : Bytes) : Agree (s.mixHash data) (t.mixHash data) :=
  ⟨hag.ck, congrArg (fun h => P.hash (h ++ data)) hag.h, hag.aead, hag.n⟩

theorem Agree.mixKey (hag : Agree s t) (ikm : Bytes) : Agree (s.mixKey ikm) (t.mixKey ikm) :=
  ⟨congrArg (fun ck => (P.hkdf ikm ck).1) hag.ck, hag.h,
    congrArg (fun ck => some (P.hkdf ikm ck).2) hag.ck, rfl⟩

theorem Agree.used (hag : Agree s t) (c c' : Call) :
    Agree (s.seals c).tick (t.tries c').tick :=
  ⟨hag.ck, hag.h, hag.aead, congrArg (· + 1) hag.n⟩

-- What one end seals, the other opens.
theorem Agree.decrypts (hag : Agree s t) (plaintext : Bytes) :
    ∃ t', t.decryptAndHash (s.encryptAndHash plaintext).1 = (some plaintext, t') ∧
      Agree (s.encryptAndHash plaintext).2 t' := by
  unfold SymmetricState.decryptAndHash SymmetricState.encryptAndHash
  rw [← hag.aead]
  cases s.aead with
  | none => exact ⟨_, rfl, hag.mixHash plaintext⟩
  | some key =>
      dsimp only
      rw [← hag.h, ← hag.n, P.aead.decrypt_encrypt]
      exact ⟨_, rfl, (hag.used _ _).mixHash _⟩

end Agreement

theorem length_tag {s : SymmetricState P} {key : Bytes} (hkey : s.aead = some key) :
    (s.encryptAndHash []).1.length = udpcTrailerSize := by
  unfold SymmetricState.encryptAndHash
  rw [hkey]
  exact (P.aead.length_encrypt _ _ _ _).trans (Nat.zero_add _)

-- The initiator's state when it seals message 1, and the responder's when it opens it.
def begun (serverPub ePub shared : Bytes) : SymmetricState P :=
  ((nkInit P serverPub).mixHash ePub).mixKey shared

-- A message is an ephemeral key with the tag of an empty payload behind it.
theorem message_parts {s : SymmetricState P} {key : Bytes} (hkey : s.aead = some key)
    (ePriv : Bytes) :
    (P.publicKey ePriv ++ (s.encryptAndHash []).1).length = keySize + udpcTrailerSize ∧
      (P.publicKey ePriv ++ (s.encryptAndHash []).1).take keySize = P.publicKey ePriv ∧
      (P.publicKey ePriv ++ (s.encryptAndHash []).1).drop keySize = (s.encryptAndHash []).1 := by
  have hpub := length_publicKey (P := P) ePriv
  refine ⟨?_, ?_, ?_⟩
  · rw [List.length_append, hpub, length_tag hkey]
  · rw [← hpub, List.take_left]
  · rw [← hpub, List.drop_left]

@[simp] theorem aead_begun (serverPub ePub shared : Bytes) :
    (begun serverPub ePub shared : SymmetricState P).aead =
      some (P.hkdf shared (protocolHash P)).2 :=
  rfl

def started (ePriv serverPub shared : Bytes) : ClientNK P :=
  { ss := begun serverPub (P.publicKey ePriv) shared
    ePriv := ePriv
    ePub := P.publicKey ePriv
    serverPub := serverPub
    msg1 := none
    finished := false }

variable (P) in
def firstMessage (ePriv serverPub shared : Bytes) : Bytes :=
  P.publicKey ePriv ++ ((begun serverPub (P.publicKey ePriv) shared : SymmetricState P).encryptAndHash []).1

-- The initiator when it waits for message 2.
def waiting (ePriv serverPub shared : Bytes) : ClientNK P :=
  { (started ePriv serverPub shared : ClientNK P) with
    ss := ((begun serverPub (P.publicKey ePriv) shared).encryptAndHash []).2
    msg1 := some (firstMessage P ePriv serverPub shared) }

theorem newClientNK_of_dh {ePriv serverPub shared : Bytes}
    (hdh : dh P ePriv serverPub = some shared) :
    newClientNK P ePriv serverPub = .ok (started ePriv serverPub shared) := by
  unfold newClientNK
  rw [hdh]
  rfl

theorem firstMessage_parts (ePriv serverPub shared : Bytes) :
    (firstMessage P ePriv serverPub shared).length = noiseMsg1Size ∧
      (firstMessage P ePriv serverPub shared).take keySize = P.publicKey ePriv ∧
      (firstMessage P ePriv serverPub shared).drop keySize =
        ((begun serverPub (P.publicKey ePriv) shared : SymmetricState P).encryptAndHash []).1 :=
  message_parts (aead_begun _ _ _) ePriv

theorem message1_started (ePriv serverPub shared : Bytes) :
    (started ePriv serverPub shared : ClientNK P).message1 =
      (.ok (firstMessage P ePriv serverPub shared), waiting ePriv serverPub shared) :=
  if_neg (not_not.2 (firstMessage_parts (P := P) ePriv serverPub shared).1)

-- The responder's state when it seals message 2, and the initiator's when it opens it.
def SymmetricState.answered (s : SymmetricState P) (ePub shared : Bytes) : SymmetricState P :=
  (s.mixHash ePub).mixKey shared

theorem respond_of {serverPrivkey ePriv msg1 shared plaintext shared' : Bytes}
    {opened : SymmetricState P} (hlen : msg1.length = noiseMsg1Size)
    (hes : dh P serverPrivkey (msg1.take keySize) = some shared)
    (hopen : (begun (P.publicKey serverPrivkey) (msg1.take keySize) shared).decryptAndHash
      (msg1.drop keySize) = (some plaintext, opened))
    (hee : dh P ePriv (msg1.take keySize) = some shared') :
    respond P serverPrivkey ePriv msg1 =
      .ok (((opened.answered (P.publicKey ePriv) shared').encryptAndHash []).2,
        P.publicKey ePriv ++ ((opened.answered (P.publicKey ePriv) shared').encryptAndHash []).1) := by
  unfold begun at hopen
  unfold respond
  rw [if_neg (not_not.2 hlen)]
  dsimp only
  rw [hes]
  dsimp only
  rw [hopen]
  dsimp only
  rw [hee]
  rfl

theorem respond_ok {serverPrivkey ePriv msg1 msg2 : Bytes} {ss : SymmetricState P}
    (h : respond P serverPrivkey ePriv msg1 = .ok (ss, msg2)) :
    msg1.length = noiseMsg1Size ∧ ∃ shared plaintext opened shared',
      (begun (P.publicKey serverPrivkey) (msg1.take keySize) shared).decryptAndHash
        (msg1.drop keySize) = (some plaintext, opened) ∧
      ss = ((SymmetricState.answered opened (P.publicKey ePriv) shared').encryptAndHash []).2 ∧
      msg2 = P.publicKey ePriv ++
        ((SymmetricState.answered opened (P.publicKey ePriv) shared').encryptAndHash []).1 := by
  unfold respond at h
  split_ifs at h with hlen
  refine ⟨not_not.1 hlen, ?_⟩
  dsimp only at h
  split at h
  · cases h
  · rename_i shared _
    split at h
    · cases h
    · rename_i plaintext opened hopen
      split at h
      · cases h
      · rename_i shared' _
        cases h
        exact ⟨shared, plaintext, opened, shared', hopen, rfl, rfl⟩

theorem finish_of {c : ClientNK P} {msg2 shared plaintext : Bytes} {opened : SymmetricState P}
    (hfresh : c.finished = false) (hlen : msg2.length = noiseMsg2Size)
    (hee : dh P c.ePriv (msg2.take keySize) = some shared)
    (hopen : (c.ss.answered (msg2.take keySize) shared).decryptAndHash (msg2.drop keySize) =
      (some plaintext, opened)) :
    c.finish msg2 = (.ok ⟨opened.split.1, opened.split.2, opened.h⟩,
      { c with ss := opened, finished := true }) := by
  unfold SymmetricState.answered at hopen
  unfold ClientNK.finish
  rw [hfresh, if_neg Bool.false_ne_true, if_neg (not_not.2 hlen)]
  dsimp only
  rw [hee]
  dsimp only
  rw [hopen]

theorem finish_ok {c : ClientNK P} {msg2 : Bytes} {sess : NoiseSession}
    (h : (c.finish msg2).1 = .ok sess) :
    msg2.length = noiseMsg2Size ∧ ∃ shared plaintext,
      (c.ss.answered (msg2.take keySize) shared).decryptAndHash (msg2.drop keySize) =
        (some plaintext, (c.finish msg2).2.ss) := by
  unfold ClientNK.finish at h ⊢
  split_ifs at h ⊢ with hfinished hlen
  refine ⟨not_not.1 hlen, ?_⟩
  dsimp only at h ⊢
  split at h
  · cases h
  · rename_i shared _
    split at h
    · cases h
    · rename_i plaintext opened hopen
      exact ⟨shared, plaintext, hopen⟩

-- Both ends of a handshake nobody interferes with reach the same keys.
theorem handshake_completes (serverPrivkey ePriv ePriv' : Bytes) :
    ∃ (c c' : ClientNK P) (msg1 msg2 : Bytes) (sess sess' : NoiseSession),
      newClientNK P ePriv (P.publicKey serverPrivkey) = .ok c ∧ c.message1 = (.ok msg1, c') ∧
      newServerNoiseSession P serverPrivkey ePriv' msg1 = .ok (sess', msg2) ∧
      (c'.finish msg2).1 = .ok sess ∧
      sess.sendKey = sess'.recvKey ∧ sess.recvKey = sess'.sendKey ∧
      sess.handshakeHash = sess'.handshakeHash := by
  obtain ⟨shared, hdh, hes⟩ := exists_shared (P := P) ePriv serverPrivkey
  obtain ⟨shared', hee, hee'⟩ := exists_shared (P := P) ePriv' ePriv
  obtain ⟨hlen1, htake1, hdrop1⟩ :=
    firstMessage_parts (P := P) ePriv (P.publicKey serverPrivkey) shared
  -- the responder opens message 1
  obtain ⟨opened, hopen, hagree⟩ := Agree.decrypts
    (Agree.refl (begun (P.publicKey serverPrivkey) (P.publicKey ePriv) shared)) []
  rw [← hdrop1, ← htake1] at hopen
  rw [← htake1] at hes hee
  have hrespond := respond_of hlen1 hes hopen hee
  -- the initiator opens message 2
  have hkey : (opened.answered (P.publicKey ePriv') shared').aead = some _ := rfl
  obtain ⟨hlen2, htake2, hdrop2⟩ := message_parts hkey ePriv'
  obtain ⟨finished, hopen', hagree'⟩ := Agree.decrypts
    ((hagree.symm.mixHash (P.publicKey ePriv')).mixKey shared') []
  rw [← htake2] at hee'
  have hfinish := finish_of (c := waiting ePriv (P.publicKey serverPrivkey) shared) rfl hlen2 hee'
    (by rw [htake2, hdrop2]; exact hopen')
  refine ⟨_, _, _, _, _, _, newClientNK_of_dh hdh, message1_started _ _ _,
    congrArg (Except.map _) hrespond, congrArg Prod.fst hfinish, ?_, ?_, hagree'.h.symm⟩
  · exact congrArg (fun ck => (P.hkdf [] ck).1) hagree'.ck.symm
  · exact congrArg (fun ck => (P.hkdf [] ck).2) hagree'.ck.symm

-- Primitives to run the handshake with: a polynomial hash, and keys that add up.
def sampleHash (x : Bytes) : Bytes :=
  BigEndian.put keySize (x.foldl (fun v b => v * 257 + b.toNat + 1) 0)

def sampleX25519 (scalar point : Bytes) : Bytes :=
  1 :: scalar.foldl UInt8.add (point.getD 1 0) :: List.replicate 30 0

def sampleTag (key nonce plaintext aad : Bytes) : Bytes :=
  (sampleHash (key ++ nonce ++ aad ++ plaintext)).take udpcTrailerSize

theorem length_sampleTag (key nonce plaintext aad : Bytes) :
    (sampleTag key nonce plaintext aad).length = udpcTrailerSize := by
  rw [sampleTag, List.length_take, sampleHash, BigEndian.length_put]
  rfl

theorem length_sampleSeal (key nonce plaintext aad : Bytes) :
    (plaintext ++ sampleTag key nonce plaintext aad).length = plaintext.length + udpcTrailerSize := by
  rw [List.length_append, length_sampleTag]

def sampleOpen (key nonce ciphertext aad : Bytes) : Option Bytes :=
  let plaintext := ciphertext.take (ciphertext.length - udpcTrailerSize)
  if ciphertext = plaintext ++ sampleTag key nonce plaintext aad then some plaintext else none

theorem sampleOpen_seal (key nonce plaintext aad : Bytes) :
    sampleOpen key nonce (plaintext ++ sampleTag key nonce plaintext aad) aad = some plaintext := by
  have htake : (plaintext ++ sampleTag key nonce plaintext aad).take
      ((plaintext ++ sampleTag key nonce plaintext aad).length - udpcTrailerSize) = plaintext := by
    rw [length_sampleSeal, Nat.add_sub_cancel, List.take_left]
  unfold sampleOpen
  dsimp only
  rw [htake, if_pos rfl]

theorem foldl_add_comm (a b : Bytes) (v : UInt8) :
    a.foldl UInt8.add (b.foldl UInt8.add v) = b.foldl UInt8.add (a.foldl UInt8.add v) := by
  rw [← List.foldl_append, ← List.foldl_append]
  refine List.Perm.foldl_eq' List.perm_append_comm (fun x _ y _ z => ?_) v
  show z + x + y = z + y + x
  rw [UInt8.add_assoc, UInt8.add_comm x, ← UInt8.add_assoc]

theorem sampleX25519_comm (a b p : Bytes) :
    sampleX25519 a (sampleX25519 b p) = sampleX25519 b (sampleX25519 a p) :=
  congrArg (fun v => 1 :: v :: List.replicate 30 0) (foldl_add_comm a b (p.getD 1 0))

theorem sampleX25519_ne_zero (a p : Bytes) : sampleX25519 a p ≠ zeroKey :=
  fun h => absurd (List.cons.inj h).1 (by decide)

def sample : Primitives where
  hash := sampleHash
  length_hash := fun _ => BigEndian.length_put _ _
  hkdf := fun ikm salt => (sampleHash (ikm ++ salt), sampleHash (salt ++ ikm ++ [1]))
  x25519 := sampleX25519
  basepoint := List.replicate keySize 0
  length_x25519 := fun _ _ => rfl
  x25519_comm := fun a b => sampleX25519_comm a b _
  x25519_base_ne_zero := fun a => sampleX25519_ne_zero a _
  x25519_ne_zero := fun a _ => sampleX25519_ne_zero a _
  aead :=
    { encrypt := fun key nonce plaintext aad => plaintext ++ sampleTag key nonce plaintext aad
      decrypt := sampleOpen
      decrypt_encrypt := sampleOpen_seal
      length_encrypt := length_sampleSeal }

end UdpCustom.Noise
