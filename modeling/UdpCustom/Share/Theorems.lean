import Mathlib.Data.List.Infix
import UdpCustom.Noise.Theorems
import UdpCustom.Share

namespace UdpCustom.Share

open UdpCustom.Frame UdpCustom.Noise Ascii WhiteSpace

@[simp] theorem orElse_nil (fallback : Bytes) : orElse [] fallback = fallback :=
  rfl

theorem orElse_of_ne {value : Bytes} (h : value ≠ []) (fallback : Bytes) : orElse value fallback = value :=
  if_neg h

theorem ofSize_some {key : Bytes} (hlen : key.length = keySize) : ofSize (some key) = some key :=
  Option.filter_some_pos (decide_eq_true hlen)

theorem length_of_ofSize {key : Bytes} {o : Option Bytes} (h : ofSize o = some key) :
    key.length = keySize :=
  of_decide_eq_true (Option.filter_eq_some_iff.1 h).2

theorem length_of_parse {s key : Bytes} (h : parseNoiseKey s = .ok key) : key.length = keySize := by
  unfold parseNoiseKey readKey at h
  split at h
  · rename_i hkey
    cases h
    exact length_of_ofSize hkey
  · split at h
    · rename_i hkey
      cases h
      exact length_of_ofSize hkey
    · split at h
      · rename_i hkey
        cases h
        exact length_of_ofSize hkey
      · cases h

theorem parse_nil : parseNoiseKey [] = .error invalidKey := by
  unfold parseNoiseKey
  rw [trimSpace_of_graphic (s := []) rfl]
  rfl

theorem encode_ne_nil {key : Bytes} (hlen : key.length = keySize) : Base64.encode key ≠ [] := by
  intro hnil
  have h := Base64.length_encode key
  rw [hnil, hlen] at h
  exact absurd h (by decide)

theorem trimSpace_encode (key : Bytes) : trimSpace (Base64.encode key) = Base64.encode key :=
  trimSpace_of_graphic (List.all_eq_true.2 (Base64.graphic_encode key))

-- The text of a key is read as that key.
theorem parse_encode {key : Bytes} (hlen : key.length = keySize) :
    parseNoiseKey (Base64.encode key) = .ok key := by
  have hshort : (Base64.encode key).length ≠ 64 := by
    rw [Base64.length_encode, hlen]
    decide
  unfold parseNoiseKey readKey
  rw [trimSpace_encode, if_neg hshort, Base64.decode_encode, ofSize_some hlen]
  rfl

-- The key text of the output.
theorem noisePublicKey_eq (host port password magic pubKey remark : Bytes) :
    (generateUDPCustomURI host port password magic pubKey remark).profile.noisePublicKey =
      match parseNoiseKey pubKey with
      | .ok pk => Base64.encode pk
      | .error _ => [] := by
  unfold generateUDPCustomURI
  dsimp only
  by_cases hnone : pubKey = []
  · rw [hnone, parse_nil]
    rfl
  · rw [if_pos hnone]
    cases hparse : parseNoiseKey pubKey with
    | error e => rfl
    | ok pk => exact orElse_of_ne (encode_ne_nil (length_of_parse hparse)) _

theorem protoURI_eq {host port password magic pubKey remark : Bytes}
    (hne : (generateUDPCustomURI host port password magic pubKey remark).profile.noisePublicKey ≠ []) :
    ∃ head, (generateUDPCustomURI host port password magic pubKey remark).protoURI =
      head ++ text "&pubkey=" ++
        (generateUDPCustomURI host port password magic pubKey remark).profile.noisePublicKey := by
  refine ⟨_, Eq.trans (congrArg (_ ++ ·) (if_pos hne)) (List.append_assoc _ _ _).symm⟩

theorem clientKey_encode {key : Bytes} (hlen : key.length = keySize) (hne : key ≠ zeroKey) :
    clientKey (Base64.encode key) = .ok (some key) := by
  unfold clientKey
  dsimp only
  rw [trimSpace_encode, if_neg (encode_ne_nil hlen), parse_encode hlen]
  exact congrArg Except.ok (if_neg hne)

-- A client with this key gets through the handshake with a server that holds `priv`.
def Completes (P : Primitives) (pub priv : Bytes) : Prop :=
  ∀ ePriv ePriv', ∃ (c c' : ClientNK P) (msg1 msg2 : Bytes) (sess sess' : NoiseSession),
    newClientNK P ePriv pub = .ok c ∧ c.message1 = (.ok msg1, c') ∧
    newServerNoiseSession P priv ePriv' msg1 = .ok (sess', msg2) ∧ (c'.finish msg2).1 = .ok sess

-- A piece of the text is the key, as bytes or in a form that `parseNoiseKey` reads.
def Shows (key t : Bytes) : Prop :=
  ∃ head ∈ t.inits, ∃ piece ∈ head.tails, piece = key ∨ parseNoiseKey piece = .ok key

theorem shows_of_parse {key t : Bytes} (h : parseNoiseKey t = .ok key) : Shows key t :=
  ⟨t, (List.mem_inits _ _).2 (List.prefix_refl t), t, (List.mem_tails _ _).2 (List.suffix_refl t),
    .inr h⟩

structure Works (P : Primitives) (cfg : Config) (priv : Bytes) (out : Output) : Prop where
  key : parseNoiseKey out.profile.noisePublicKey = .ok (P.publicKey priv)
  link : ∃ head, out.protoURI = head ++ text "&pubkey=" ++ out.profile.noisePublicKey
  completes : ∃ pub priv', clientKey out.profile.noisePublicKey = .ok (some pub) ∧
    serverKey cfg = .ok (some priv') ∧ Completes P pub priv'
  secret : ∀ t ∈ out.texts, ¬Shows priv t

section GenURI

variable {flags : Flags} {cfg : Config} {priv : Bytes}

theorem privKey_ne_nil (hpriv : parseNoiseKey cfg.privKey = .ok priv) : cfg.privKey ≠ [] := by
  intro hnil
  rw [hnil, parse_nil] at hpriv
  cases hpriv

-- Without a public key, that of the configuration is the private key in base64.
theorem sharedKey_eq (hpriv : parseNoiseKey cfg.privKey = .ok priv) (hpub : cfg.pubKey = []) :
    sharedKey flags cfg = orElse flags.pubKey (Base64.encode priv) := by
  have hflag : orElse flags.pubKey [] = flags.pubKey := by
    unfold orElse
    split
    · exact Eq.symm ‹_›
    · rfl
  unfold sharedKey
  dsimp only
  rw [hpub, hflag, if_pos (privKey_ne_nil hpriv), hpriv]
  rfl

theorem noisePublicKey_of_parse {pk : Bytes} (h : parseNoiseKey (sharedKey flags cfg) = .ok pk) :
    (runGenURI flags cfg).profile.noisePublicKey = Base64.encode pk := by
  unfold runGenURI
  rw [noisePublicKey_eq, h]

theorem noisePublicKey_of_error {e : String} (h : parseNoiseKey (sharedKey flags cfg) = .error e) :
    (runGenURI flags cfg).profile.noisePublicKey = [] := by
  unfold runGenURI
  rw [noisePublicKey_eq, h]

-- With a public key on the command line the private one is not read.
theorem runGenURI_of_flag (cfg) (hflag : flags.pubKey ≠ []) (privKey : Bytes) :
    runGenURI flags cfg = runGenURI flags { cfg with privKey := privKey } := by
  have hkey : ∀ cfg, sharedKey flags cfg = flags.pubKey := by
    intro cfg
    unfold sharedKey
    dsimp only
    rw [orElse_of_ne hflag, orElse_of_ne hflag]
  unfold runGenURI
  rw [hkey, hkey]
  rfl

theorem works_iff_of_parse (P : Primitives) {pk : Bytes} (hpriv : parseNoiseKey cfg.privKey = .ok priv)
    (h : parseNoiseKey (sharedKey flags cfg) = .ok pk) :
    Works P cfg priv (runGenURI flags cfg) ↔
      pk = P.publicKey priv ∧ ∀ t ∈ (runGenURI flags cfg).texts, ¬Shows priv t := by
  have htext := noisePublicKey_of_parse h
  have hlen := length_of_parse h
  have hread : parseNoiseKey (runGenURI flags cfg).profile.noisePublicKey = .ok pk := by
    rw [htext, parse_encode hlen]
  constructor
  · intro hworks
    have hkey := hworks.key
    rw [hread] at hkey
    exact ⟨Except.ok.inj hkey, hworks.secret⟩
  · rintro ⟨rfl, hsecret⟩
    have hserver : serverKey cfg = .ok (some priv) := by
      unfold serverKey
      rw [if_neg (privKey_ne_nil hpriv), hpriv]
      rfl
    refine ⟨hread, protoURI_eq (htext ▸ encode_ne_nil hlen), ⟨P.publicKey priv, priv, ?_, hserver, ?_⟩,
      hsecret⟩
    · rw [htext]
      exact clientKey_encode hlen (P.x25519_base_ne_zero priv)
    · intro ePriv ePriv'
      obtain ⟨c, c', msg1, msg2, sess, sess', hc, hmsg1, hserve, hfinish, -⟩ :=
        handshake_completes (P := P) priv ePriv ePriv'
      exact ⟨c, c', msg1, msg2, sess, sess', hc, hmsg1, hserve, hfinish⟩

end GenURI

def sampleKey : Bytes := (List.range keySize).map fun i => UInt8.ofNat (i + 1)

def sampleConfig : Config where
  host := text "203.0.113.7"
  portRange := []
  listen := text ":36712"
  passwords := [text "psk"]
  magic := []
  pubKey := []
  privKey := Hex.encode sampleKey

def noFlags : Flags := ⟨[], [], [], [], [], []⟩

def keyFlag : Flags where
  host := text "h"
  port := text "1"
  password := text "p"
  magic := text "m"
  pubKey := Base64.encode (sample.publicKey sampleKey)
  remark := text "n"

-- Nothing of a printable text is trimmed.
theorem shows_iff_of_graphic {key t : Bytes} (h : t.all graphic = true) :
    Shows key t ↔ ∃ head ∈ t.inits, ∃ piece ∈ head.tails, piece = key ∨ readKey piece = .ok key := by
  refine exists_congr fun head => and_congr_right fun hhead => ?_
  refine exists_congr fun piece => and_congr_right fun hpiece => ?_
  have hgraphic : piece.all graphic = true := by
    refine List.all_eq_true.2 fun c hc => List.all_eq_true.1 h c ?_
    exact ((List.mem_inits _ _).1 hhead).subset (((List.mem_tails _ _).1 hpiece).subset hc)
  rw [parseNoiseKey, trimSpace_of_graphic hgraphic]

end UdpCustom.Share
