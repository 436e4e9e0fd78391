import UdpCustom.Noise.Theorems

-- What a client knows of the server once `Finish` has accepted message 2.
namespace UdpCustom.Noise

open UdpCustom.Frame
open UdpCustom.Payload (noiseMsg1Size)
open UdpCustom.Seal (packetNonce)

variable (P : Primitives)

-- A client that has sent its message 1.
structure Initiator where
  ePriv : Bytes
  serverPub : Bytes
  length_serverPub : serverPub.length = keySize
  fresh : ClientNK P
  newClientNK_eq : newClientNK P ePriv serverPub = .ok fresh
  msg1 : Bytes
  client : ClientNK P
  message1_eq : fresh.message1 = (.ok msg1, client)

-- A server that has answered a message 1.
structure Responder where
  serverPrivkey : Bytes
  ePriv : Bytes
  msg1 : Bytes
  ss : SymmetricState P
  msg2 : Bytes
  respond_eq : respond P serverPrivkey ePriv msg1 = .ok (ss, msg2)

variable {P}

def SymmetricState.hashed (s : SymmetricState P) : List Bytes :=
  Transcript.inputs P.hash (protocolHash P) s.mixed

theorem length_protocolHash : (protocolHash P).length = keySize := by
  have hlong : ¬noiseProtocolName.length ≤ keySize := by decide
  unfold protocolHash
  rw [if_neg hlong]
  exact P.length_hash _

theorem decryptAndHash_ok {s t : SymmetricState P} {key ciphertext plaintext : Bytes}
    (hkey : s.aead = some key) (h : s.decryptAndHash ciphertext = (some plaintext, t)) :
    P.aead.decrypt key (packetNonce s.n) ciphertext s.h = some plaintext ∧
      t = (s.tries (s.call key ciphertext)).tick.mixHash ciphertext := by
  unfold SymmetricState.decryptAndHash at h
  rw [hkey] at h
  dsimp only at h
  split at h
  · cases h
  · rename_i hdec
    cases h
    exact ⟨hdec, rfl⟩

section Transcripts

variable (c : Initiator P) (r : Responder P)

theorem Initiator.waits : ∃ shared, c.msg1 = firstMessage P c.ePriv c.serverPub shared ∧
    c.client = waiting c.ePriv c.serverPub shared := by
  obtain ⟨shared, hfresh⟩ : ∃ shared, started c.ePriv c.serverPub shared = c.fresh := by
    have h := c.newClientNK_eq
    unfold newClientNK at h
    split at h
    · cases h
    · exact ⟨_, Except.ok.inj h⟩
  have hmsg1 := message1_started (P := P) c.ePriv c.serverPub shared
  rw [hfresh, c.message1_eq] at hmsg1
  exact ⟨shared, Except.ok.inj (congrArg Prod.fst hmsg1), congrArg Prod.snd hmsg1⟩

-- The hash of the client covers the server's key, its own and the tag it sent; it has
-- sealed that tag over the first two.
theorem Initiator.transcript :
    ∃ tag, tag.length = udpcTrailerSize ∧ c.msg1 = P.publicKey c.ePriv ++ tag ∧
      c.client.ss.mixed = [[], c.serverPub, P.publicKey c.ePriv, tag] ∧
      ∀ call ∈ c.client.ss.sealed, call.ad = Transcript.digest P.hash (protocolHash P)
        [[], c.serverPub, P.publicKey c.ePriv] := by
  obtain ⟨shared, hmsg1, hclient⟩ := c.waits
  have hkey := aead_begun (P := P) c.serverPub (P.publicKey c.ePriv) shared
  refine ⟨_, length_tag hkey, hmsg1, ?_, ?_⟩
  · rw [hclient]
    rfl
  · intro call hcall
    rw [hclient] at hcall
    rw [List.mem_singleton.1 hcall]
    exact (begun c.serverPub (P.publicKey c.ePriv) shared).h_eq

theorem Responder.transcript :
    ∃ tag, r.msg1.length = keySize + udpcTrailerSize ∧ r.msg2 = P.publicKey r.ePriv ++ tag ∧
      r.ss.mixed = [[], P.publicKey r.serverPrivkey, r.msg1.take keySize, r.msg1.drop keySize,
        P.publicKey r.ePriv, tag] ∧
      ∀ call ∈ r.ss.sealed, call.ciphertext = tag ∧
        call.ad = Transcript.digest P.hash (protocolHash P)
          [[], P.publicKey r.serverPrivkey, r.msg1.take keySize, r.msg1.drop keySize,
            P.publicKey r.ePriv] := by
  obtain ⟨hlen, shared, plaintext, opened, shared', hopen, hss, hmsg2⟩ := respond_ok r.respond_eq
  obtain ⟨-, rfl⟩ := decryptAndHash_ok (aead_begun _ _ _) hopen
  refine ⟨_, hlen, hmsg2, ?_, ?_⟩
  · rw [hss]
    rfl
  · intro call hcall
    rw [hss] at hcall
    rw [List.mem_singleton.1 hcall]
    exact ⟨rfl, (SymmetricState.answered _ (P.publicKey r.ePriv) shared').h_eq⟩

end Transcripts

-- What an accepted message 2 was opened with.
theorem ClientNK.opened_of_finish {c : ClientNK P} {msg2 : Bytes} {sess : NoiseSession}
    (h : (c.finish msg2).1 = .ok sess) :
    (c.finish msg2).2.ss.mixed = c.ss.mixed ++ [msg2.take keySize] ++ [msg2.drop keySize] ∧
      ∃ call ∈ (c.finish msg2).2.ss.opened,
        (P.aead.decrypt call.key call.nonce call.ciphertext call.ad).isSome = true ∧
        call.ciphertext = msg2.drop keySize ∧
        call.ad = Transcript.digest P.hash (protocolHash P) (c.ss.mixed ++ [msg2.take keySize]) := by
  obtain ⟨-, shared, plaintext, hopen⟩ := finish_ok h
  have hkey : (c.ss.answered (msg2.take keySize) shared).aead = some _ := rfl
  obtain ⟨hdec, hss⟩ := decryptAndHash_ok hkey hopen
  rw [hss]
  refine ⟨rfl, _, List.mem_cons_self, ?_, rfl, (c.ss.answered (msg2.take keySize) shared).h_eq⟩
  exact Option.isSome_iff_exists.2 ⟨plaintext, hdec⟩

section Sealers

variable {S : List Bytes} (hfree : Transcript.CollisionFree P.hash S) {c : Initiator P} {call : Call}
  {ePub tag : Bytes}
  (hown : Transcript.inputs P.hash (protocolHash P)
    [[], c.serverPub, P.publicKey c.ePriv, tag, ePub] ⊆ S)
  (had : call.ad = Transcript.digest P.hash (protocolHash P)
    [[], c.serverPub, P.publicKey c.ePriv, tag, ePub])

include hfree hown had

-- No client seals this late in a transcript: the tag would be a key of a server.
theorem Initiator.not_sealed (htag : tag.length = udpcTrailerSize) {d : Initiator P}
    (hd : d.client.ss.hashed ⊆ S) : call ∉ d.client.ss.sealed := by
  intro hsealed
  obtain ⟨tag', -, -, hmixed, hsealed_ad⟩ := d.transcript
  unfold SymmetricState.hashed at hd
  rw [hmixed] at hd
  have hlong : Transcript.inputs P.hash (protocolHash P)
      ([[], c.serverPub, P.publicKey c.ePriv, tag] ++ [ePub]) ⊆ S := hown
  have hlong' : Transcript.inputs P.hash (protocolHash P)
      ([[], c.serverPub, P.publicKey c.ePriv] ++ [tag]) ⊆ S :=
    Transcript.inputs_subset_of_concat hlong
  have hshort : Transcript.inputs P.hash (protocolHash P)
      ([[], d.serverPub] ++ [P.publicKey d.ePriv]) ⊆ S :=
    Transcript.inputs_subset_of_concat (x := tag') hd
  have hshort' : Transcript.inputs P.hash (protocolHash P) ([[]] ++ [d.serverPub]) ⊆ S :=
    Transcript.inputs_subset_of_concat hshort
  obtain ⟨heq, -⟩ := Transcript.of_digest_concat_eq P.length_hash length_protocolHash hfree hlong
    hshort (had.symm.trans (hsealed_ad call hsealed))
  obtain ⟨-, hkey⟩ := Transcript.of_digest_concat_eq P.length_hash length_protocolHash hfree hlong'
    hshort' heq
  have hlen := d.length_serverPub
  rw [← hkey, htag] at hlen
  exact absurd hlen (by decide)

-- A server that sealed it has the same transcript.
theorem Responder.transcript_eq {r : Responder P} (hr : r.ss.hashed ⊆ S)
    (hsealed : call ∈ r.ss.sealed) :
    P.publicKey r.serverPrivkey = c.serverPub ∧ r.msg1 = P.publicKey c.ePriv ++ tag ∧
      r.msg2 = ePub ++ call.ciphertext := by
  obtain ⟨tag', hlen, hmsg2, hmixed, hsealed_ad⟩ := r.transcript
  obtain ⟨hct, hsealed_ad⟩ := hsealed_ad call hsealed
  unfold SymmetricState.hashed at hr
  rw [hmixed] at hr
  have hanswer : Transcript.inputs P.hash (protocolHash P) [[], P.publicKey r.serverPrivkey,
      r.msg1.take keySize, r.msg1.drop keySize, P.publicKey r.ePriv] ⊆ S :=
    Transcript.inputs_subset_of_concat (x := tag') hr
  have hsame := Transcript.digest_injective P.length_hash length_protocolHash hfree hown hanswer
    (had.symm.trans hsealed_ad) rfl
  obtain ⟨hpub, htake, hdrop, hePub⟩ : c.serverPub = P.publicKey r.serverPrivkey ∧
      P.publicKey c.ePriv = r.msg1.take keySize ∧ tag = r.msg1.drop keySize ∧
      ePub = P.publicKey r.ePriv := by
    simpa using hsame
  refine ⟨hpub.symm, ?_, ?_⟩
  · rw [htake, hdrop, List.take_append_drop]
  · rw [hmsg2, hePub, hct]

end Sealers

-- The assumptions on the primitives, for the runs at hand: no two inputs that were
-- hashed collide, and what the client opens was sealed by one of these ends under the
-- same key and with the same associated data.
structure Ideal (c : Initiator P) (msg2 : Bytes) (clients : List (Initiator P))
    (servers : List (Responder P)) : Prop where
  collisionFree : Transcript.CollisionFree P.hash
    ((c.client.finish msg2).2.ss.hashed ++ ((c :: clients).flatMap (·.client.ss.hashed) ++
      servers.flatMap (·.ss.hashed)))
  honest : ∀ call ∈ (c.client.finish msg2).2.ss.opened,
    (P.aead.decrypt call.key call.nonce call.ciphertext call.ad).isSome = true →
    (∃ d ∈ c :: clients, call ∈ d.client.ss.sealed) ∨ ∃ r ∈ servers, call ∈ r.ss.sealed

-- A client finishes only on the answer of a server with the key it expects to the
-- message it sent.
theorem finish_authentic {c : Initiator P} {msg2 : Bytes} {clients : List (Initiator P)}
    {servers : List (Responder P)} (hideal : Ideal c msg2 clients servers) {sess : NoiseSession}
    (h : (c.client.finish msg2).1 = .ok sess) :
    ∃ r ∈ servers, P.publicKey r.serverPrivkey = c.serverPub ∧ r.msg1 = c.msg1 ∧ r.msg2 = msg2 := by
  obtain ⟨hfree, hhonest⟩ := hideal
  generalize hS : (c.client.finish msg2).2.ss.hashed ++ ((c :: clients).flatMap (·.client.ss.hashed) ++
    servers.flatMap (·.ss.hashed)) = S at hfree
  obtain ⟨tag, htag, hmsg1, hmixed, -⟩ := c.transcript
  obtain ⟨hfinal, call, hopened, hdec, hct, had⟩ := ClientNK.opened_of_finish h
  have hown : Transcript.inputs P.hash (protocolHash P) (c.client.ss.mixed ++ [msg2.take keySize]) ⊆ S := by
    have hall : (c.client.finish msg2).2.ss.hashed ⊆ S := hS ▸ List.subset_append_left _ _
    unfold SymmetricState.hashed at hall
    rw [hfinal] at hall
    exact Transcript.inputs_subset_of_concat hall
  rw [hmixed] at had hown
  rcases hhonest call hopened hdec with ⟨d, hd, hsealed⟩ | ⟨r, hr, hsealed⟩
  · refine absurd hsealed (Initiator.not_sealed hfree hown had htag ?_)
    intro x hx
    rw [← hS]
    exact List.mem_append_right _ (List.mem_append_left _ (List.mem_flatMap.2 ⟨d, hd, hx⟩))
  · have hin : r.ss.hashed ⊆ S := by
      intro x hx
      rw [← hS]
      exact List.mem_append_right _ (List.mem_append_right _ (List.mem_flatMap.2 ⟨r, hr, hx⟩))
    obtain ⟨hpub, hfirst, hsecond⟩ := Responder.transcript_eq hfree hown had hin hsealed
    refine ⟨r, hr, hpub, hfirst.trans hmsg1.symm, ?_⟩
    rw [hsecond, hct, List.take_append_drop]

-- Without interference the two ends agree, and with it the client's `Finish` fails.
theorem noise_nk_agreement (P : Primitives) :
    (∀ serverPrivkey ePriv ePriv' : Bytes,
      ∃ (c c' : ClientNK P) (msg1 msg2 : Bytes) (sess sess' : NoiseSession),
        newClientNK P ePriv (P.publicKey serverPrivkey) = .ok c ∧ c.message1 = (.ok msg1, c') ∧
        newServerNoiseSession P serverPrivkey ePriv' msg1 = .ok (sess', msg2) ∧
        (c'.finish msg2).1 = .ok sess ∧
        sess.sendKey = sess'.recvKey ∧ sess.recvKey = sess'.sendKey ∧
        sess.handshakeHash = sess'.handshakeHash) ∧
    ∀ (c : Initiator P) (msg2 : Bytes) (clients : List (Initiator P)) (servers : List (Responder P)),
      Ideal c msg2 clients servers →
      (∀ r ∈ servers, r.msg1 ≠ c.msg1 ∨ r.msg2 ≠ msg2 ∨ P.publicKey r.serverPrivkey ≠ c.serverPub) →
      ∃ err, (c.client.finish msg2).1 = .error err := by
  refine ⟨handshake_completes, fun c msg2 clients servers hideal hdiffer => ?_⟩
  cases hfinish : (c.client.finish msg2).1 with
  | error err => exact ⟨err, rfl⟩
  | ok sess =>
      obtain ⟨r, hr, hpub, hfirst, hsecond⟩ := finish_authentic hideal hfinish
      rcases hdiffer r hr with hne | hne | hne
      · exact absurd hfirst hne
      · exact absurd hsecond hne
      · exact absurd hpub hne

-- A client of the server with key 5, and what that server answers it.
def sampleShared : Bytes :=
  sampleX25519 [3] (sample.publicKey [5])

def sampleInitiator : Initiator sample where
  ePriv := [3]
  serverPub := sample.publicKey [5]
  length_serverPub := length_publicKey _
  fresh := started [3] (sample.publicKey [5]) sampleShared
  newClientNK_eq := newClientNK_of_dh (if_neg (sampleX25519_ne_zero _ _))
  msg1 := firstMessage sample [3] (sample.publicKey [5]) sampleShared
  client := waiting [3] (sample.publicKey [5]) sampleShared
  message1_eq := message1_started _ _ _

def sampleOpened : Option Bytes × SymmetricState sample :=
  (begun (sample.publicKey [5]) (sampleInitiator.msg1.take keySize) sampleShared).decryptAndHash
    (sampleInitiator.msg1.drop keySize)

def sampleAnswer : Bytes × SymmetricState sample :=
  (sampleOpened.2.answered (sample.publicKey [7])
    (sampleX25519 [7] (sampleInitiator.msg1.take keySize))).encryptAndHash []

theorem respond_sample :
    respond sample [5] [7] sampleInitiator.msg1 =
      .ok (sampleAnswer.2, sample.publicKey [7] ++ sampleAnswer.1) := by
  have hes : dh sample [5] (sampleInitiator.msg1.take keySize) = some sampleShared := by
    decide +kernel
  have hplain : sampleOpened.1 = some [] := by
    decide +kernel
  have hopen : sampleOpened = (some [], sampleOpened.2) := by
    rw [← hplain]
  have hlen : sampleInitiator.msg1.length = noiseMsg1Size :=
    (firstMessage_parts [3] (sample.publicKey [5]) sampleShared).1
  exact respond_of hlen hes hopen (if_neg (sampleX25519_ne_zero _ _))

def sampleResponder : Responder sample where
  serverPrivkey := [5]
  ePriv := [7]
  msg1 := sampleInitiator.msg1
  ss := sampleAnswer.2
  msg2 := sample.publicKey [7] ++ sampleAnswer.1
  respond_eq := respond_sample

-- The answer with a bit of its tag flipped.
def forgedAnswer : Bytes :=
  sampleResponder.msg2.modify 40 (· ^^^ 1)

theorem ideal_sample : Ideal sampleInitiator forgedAnswer [] [sampleResponder] := by
  have hclosed : ∀ call ∈ (sampleInitiator.client.finish forgedAnswer).2.ss.opened,
      ¬(sampleOpen call.key call.nonce call.ciphertext call.ad).isSome = true := by
    decide +kernel
  refine ⟨?_, fun call hcall hopen => absurd hopen (hclosed call hcall)⟩
  unfold Transcript.CollisionFree
  decide +kernel

theorem forged_answer_rejected :
    Ideal sampleInitiator forgedAnswer [] [sampleResponder] ∧
      ∃ err, (sampleInitiator.client.finish forgedAnswer).1 = .error err :=
  ⟨ideal_sample, (noise_nk_agreement sample).2 sampleInitiator forgedAnswer [] [sampleResponder]
    ideal_sample (by decide +kernel)⟩

end UdpCustom.Noise
