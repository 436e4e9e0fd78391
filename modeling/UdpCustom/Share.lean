import UdpCustom.Endpoint
import UdpCustom.Lib.TextCodec
import UdpCustom.Noise
import UdpCustom.PortRange

-- The share profile and link of `gen-uri`, and the keys the two ends read from their
-- configurations.
namespace UdpCustom.Share

open UdpCustom.Frame UdpCustom.Noise Ascii WhiteSpace

def invalidKey : String := "invalid key format: expected 32-byte hex or base64 key"

def ofSize (key : Option Bytes) : Option Bytes := key.filter (·.length = keySize)

-- The forms of a key: hex, and base64 with and without padding.
def readKey (s : Bytes) : Except String Bytes :=
  match ofSize (if s.length = 64 then Hex.decode s else none) with
  | some key => .ok key
  | none =>
    match ofSize (Base64.decode s) with
    | some key => .ok key
    | none =>
      match ofSize (Base64.decodeRaw s) with
      | some key => .ok key
      | none => .error invalidKey

def parseNoiseKey (s : Bytes) : Except String Bytes := readKey (trimSpace s)

def formatNoiseKey (key : Bytes) : Bytes × Bytes := (Hex.encode key, Base64.encode key)

-- The fields of the server's configuration that `gen-uri` reads.
structure Config where
  host : Bytes
  portRange : Bytes
  listen : Bytes
  passwords : List Bytes
  magic : Bytes
  pubKey : Bytes
  privKey : Bytes

-- The flags of `gen-uri`, empty where not given.
structure Flags where
  host : Bytes
  port : Bytes
  password : Bytes
  magic : Bytes
  pubKey : Bytes
  remark : Bytes

structure StunProfile where
  name : Bytes
  sshAddr : Bytes
  user : Bytes
  authType : Bytes
  tunnelType : Bytes
  proxyAddr : Bytes
  udpCustomPsk : Bytes
  udpCustomMagic : Bytes
  noisePublicKey : Bytes
  deriving DecidableEq

-- What is printed: the profile, which the stun link carries under the PIN, and the udpc
-- link in plain text.
structure Output where
  profile : StunProfile
  protoURI : Bytes
  deriving DecidableEq

-- Every text of it.
def Output.texts (out : Output) : List Bytes :=
  [out.profile.name, out.profile.sshAddr, out.profile.user, out.profile.authType,
    out.profile.tunnelType, out.profile.proxyAddr, out.profile.udpCustomPsk,
    out.profile.udpCustomMagic, out.profile.noisePublicKey, out.protoURI]

-- The value if there is one, else the fallback.
def orElse (value fallback : Bytes) : Bytes := if value = [] then fallback else value

def generateUDPCustomURI (host port password magic pubKey remark : Bytes) : Output :=
  let formatted : Bytes × Bytes :=
    if pubKey ≠ [] then
      match parseNoiseKey pubKey with
      | .ok pk => formatNoiseKey pk
      | .error _ => ([], [])
    else ([], [])
  let rawPub := orElse formatted.2 formatted.1
  let serverAddr :=
    if host = [] ∨ host = text "0.0.0.0" ∨ host = text ":" then text "YOUR_SERVER_IP:" ++ port
    else host ++ text ":" ++ port
  { profile :=
      { name := orElse remark (text "UDPCustom - " ++ serverAddr)
        sshAddr := text "127.0.0.1:22"
        user := text "root"
        authType := text "password"
        tunnelType := text "udp_custom"
        proxyAddr := serverAddr
        udpCustomPsk := password
        udpCustomMagic := magic
        noisePublicKey := rawPub }
    protoURI := text "udpc://" ++ serverAddr ++ text "?magic=" ++ magic
      ++ (if password ≠ [] then text "&psk=" ++ password else [])
      ++ (if rawPub ≠ [] then text "&pubkey=" ++ rawPub else []) }

def sharedPort (flags : Flags) (cfg : Config) : Bytes :=
  let port := orElse flags.port
    (if cfg.portRange ≠ [] then
      match Ports.parsePortRangeSpec cfg.portRange with
      | .ok ports => Ports.formatPortList ports
      | .error _ => []
    else [])
  orElse port
    (if cfg.listen ≠ [] then
      match Endpoint.splitHostPort cfg.listen with
      | .ok hp => hp.2
      | .error _ => []
    else [])

-- The Noise key of `runGenURI`. The last case formats the private key.
def sharedKey (flags : Flags) (cfg : Config) : Bytes :=
  let pubKey := orElse flags.pubKey cfg.pubKey
  orElse pubKey
    (if cfg.privKey ≠ [] then
      match parseNoiseKey cfg.privKey with
      | .ok kp => (formatNoiseKey kp).2
      | .error _ => []
    else [])

def runGenURI (flags : Flags) (cfg : Config) : Output :=
  generateUDPCustomURI
    (orElse (orElse flags.host cfg.host) (text "your-server-ip"))
    (orElse (sharedPort flags cfg) (text "36712"))
    (orElse flags.password (cfg.passwords.headD []))
    (orElse (orElse flags.magic cfg.magic) (text "UDPC"))
    (sharedKey flags cfg)
    (orElse flags.remark (text "UDP Custom Node"))

-- The key a client takes from its `pubkey`; without one, or with the zero key, it does
-- not encrypt.
def clientKey (pubKey : Bytes) : Except String (Option Bytes) :=
  let pk := trimSpace pubKey
  if pk = [] then .ok none
  else (parseNoiseKey pk).map fun pub => if pub = zeroKey then none else some pub

-- The key a server takes from its `privkey`.
def serverKey (cfg : Config) : Except String (Option Bytes) :=
  if cfg.privKey = [] then .ok none else (parseNoiseKey cfg.privKey).map some

end UdpCustom.Share
