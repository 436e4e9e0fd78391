import UdpCustom.Lib.Transition
import UdpCustom.Path
import UdpCustom.SynCache

-- One call of the client's `handshake` against the server: the SYNs of its retry
-- loop, a network that loses, delays, repeats and reorders, and the goroutines
-- that run `handleHandshake` for it and for any other nonce.
namespace UdpCustom.Handshake

open UdpCustom.Frame UdpCustom.Path UdpCustom.SynCache Transition

def clientMaxHandshakeAttempts : ℕ := 8
def synTimestampWindow : ℤ := 300
def pskIDSize : ℕ := 16

-- What the call and the two configurations fix.
structure Config where
  -- `DerivePSKHandshakeKeys(psk, nonce).SynMAC`
  synMAC : String → Bytes → Bytes
  clientPasswords : List String
  serverPasswords : List String
  nonce : Bytes
  timestamp : ℤ
  -- what `splitSynPayload` reads from the payload, if the server accepts its length
  requestedTarget : Option String
  targetAllowed : String → Bool
  maxSessions : ℕ

structure SynCacheKey where
  nonce : Bytes
  pskID : Bytes
  deriving DecidableEq

def makeSynCacheKey (nonce synMACKey : Bytes) : SynCacheKey where
  nonce := nonce
  pskID := synMACKey.take pskIDSize

-- A SYN of the call under one of the client's passwords. A MAC verifies under the
-- key that made it and under no other.
structure Syn where
  macKey : Bytes
  deriving DecidableEq

structure Ack where
  key : SynCacheKey
  sessionID : ℕ
  deriving DecidableEq

-- How far a goroutine has come in `handleHandshake`. After `failed` only the
-- deferred Abort is left.
inductive Stage
  | verified
  | owner
  | dialing (sessionID : ℕ)
  | dialed (sessionID : ℕ)
  | registered (sessionID : ℕ)
  | failed
  deriving DecidableEq

structure Task (Addr : Type) where
  key : SynCacheKey
  remoteAddr : AddrPort Addr
  stage : Stage
  deriving DecidableEq

structure State (Addr : Type) where
  attempts : ℕ
  finished : Bool
  -- every SYN and every ACK of the call that was ever sent
  syns : List Syn
  acks : List Ack
  synCache : Cache SynCacheKey Addr Ack
  tasks : List (Task Addr)
  sessions : List ℕ
  closed : Bool
  -- history: the keys other handshakes used, and for which key the target was
  -- dialed and a session registered
  others : Finset SynCacheKey
  dials : List SynCacheKey
  established : List SynCacheKey

inductive Label (Addr : Type)
  | attempt
  | giveUp
  | receiveAck (ack : Ack)
  | receive (syn : Syn) (remoteAddr : AddrPort Addr) (now : ℤ) (live : ℕ)
  | receiveOther (key : SynCacheKey) (remoteAddr : AddrPort Addr)
  | acquire (t : Task Addr) (now : ℕ)
  | dial (t : Task Addr) (sessionID : ℕ)
  | refuse (t : Task Addr)
  | dialed (t : Task Addr) (ok : Bool)
  | register (t : Task Addr) (ok : Bool)
  | complete (t : Task Addr)
  | abort (t : Task Addr)
  | closeSession (sessionID : ℕ)
  | close

def Config.password (cfg : Config) (attempt : ℕ) : String :=
  cfg.clientPasswords.getD (attempt % cfg.clientPasswords.length) ""

def Config.syn (cfg : Config) (attempt : ℕ) : Syn where
  macKey := cfg.synMAC (cfg.password attempt) cfg.nonce

def matchSynPSK (cfg : Config) (syn : Syn) : Option String :=
  cfg.serverPasswords.find? fun psk => cfg.synMAC psk cfg.nonce = syn.macKey

-- `handleHandshake` up to the cache: the key, unless the SYN is rejected.
def admitSyn (cfg : Config) (syn : Syn) (now : ℤ) (live : ℕ) : Option SynCacheKey :=
  match matchSynPSK cfg syn with
  | none => none
  | some psk =>
    if cfg.timestamp < now - synTimestampWindow ∨ now + synTimestampWindow < cfg.timestamp then none
    else
      match cfg.requestedTarget with
      | none => none
      | some target =>
        if target ≠ "" ∧ cfg.targetAllowed target = false then none
        else if 0 < cfg.maxSessions ∧ cfg.maxSessions ≤ live then none
        else some (makeSynCacheKey cfg.nonce (cfg.synMAC psk cfg.nonce))

variable {Addr : Type} [DecidableEq Addr]

def State.drop (s : State Addr) (t : Task Addr) : State Addr :=
  { s with tasks := s.tasks.erase t }

def State.advance (s : State Addr) (t : Task Addr) (stage : Stage) : State Addr :=
  { s with tasks := { t with stage := stage } :: s.tasks.erase t }

def State.spawn (s : State Addr) (key : SynCacheKey) (remoteAddr : AddrPort Addr) : State Addr :=
  { s with tasks := { key := key, remoteAddr := remoteAddr, stage := .verified } :: s.tasks }

def State.acquire (s : State Addr) (t : Task Addr) (now : ℕ) : State Addr :=
  let acquired := s.synCache.acquire t.key now t.remoteAddr.addr
  let s := { s with synCache := acquired.2 }
  match acquired.1 with
  | (some ack, _) => { s.drop t with acks := ack :: s.acks }
  | (none, false) => s.drop t
  | (none, true) => s.advance t .owner

-- An exit with an Abort of its own before the deferred one.
def State.rollback (s : State Addr) (t : Task Addr) : State Addr :=
  { s.advance t .failed with synCache := s.synCache.abort t.key }

def State.dialed (s : State Addr) (t : Task Addr) (sessionID : ℕ) (ok : Bool) : State Addr :=
  if ok = false then s.advance t .failed
  else if s.closed then s.rollback t
  else s.advance t (.dialed sessionID)

def State.register (s : State Addr) (t : Task Addr) (sessionID : ℕ) (ok : Bool) : State Addr :=
  if ok = false then s.advance t .failed
  else if sessionID ∈ s.sessions ∨ s.closed then s.rollback t
  else { s.advance t (.registered sessionID) with
    sessions := sessionID :: s.sessions
    established := t.key :: s.established }

def State.complete (s : State Addr) (t : Task Addr) (sessionID : ℕ) : State Addr :=
  { s.drop t with
    synCache := s.synCache.complete t.key { key := t.key, sessionID := sessionID }
    acks := { key := t.key, sessionID := sessionID } :: s.acks }

def next (cfg : Config) (s : State Addr) : Label Addr → Option (State Addr)
  | .attempt =>
    if s.finished = false ∧ s.attempts < clientMaxHandshakeAttempts then
      some { s with attempts := s.attempts + 1, syns := cfg.syn s.attempts :: s.syns }
    else none
  | .giveUp => some { s with finished := true }
  | .receiveAck ack =>
    if ack ∈ s.acks ∧ ack.key.nonce = cfg.nonce then some { s with finished := true } else none
  | .receive syn remoteAddr now live =>
    if syn ∈ s.syns then
      match admitSyn cfg syn now live with
      | none => some s
      | some key => some (s.spawn key remoteAddr)
    else none
  | .receiveOther key remoteAddr =>
    if key.nonce ≠ cfg.nonce then
      some { s.spawn key remoteAddr with others := insert key s.others }
    else none
  | .acquire t now => if t ∈ s.tasks ∧ t.stage = .verified then some (s.acquire t now) else none
  | .dial t sessionID =>
    if t ∈ s.tasks ∧ t.stage = .owner ∧ sessionID ≠ 0 ∧ sessionID ∉ s.sessions then
      some { s.advance t (.dialing sessionID) with dials := t.key :: s.dials }
    else none
  -- no free slot, a failed Noise exchange, or no randomness
  | .refuse t => if t ∈ s.tasks ∧ t.stage = .owner then some (s.advance t .failed) else none
  | .dialed t ok =>
    match t.stage with
    | .dialing sessionID => if t ∈ s.tasks then some (s.dialed t sessionID ok) else none
    | _ => none
  | .register t ok =>
    match t.stage with
    | .dialed sessionID => if t ∈ s.tasks then some (s.register t sessionID ok) else none
    | _ => none
  | .complete t =>
    match t.stage with
    | .registered sessionID => if t ∈ s.tasks then some (s.complete t sessionID) else none
    | _ => none
  | .abort t =>
    if t ∈ s.tasks ∧ t.stage = .failed then
      some { s.drop t with synCache := s.synCache.abort t.key }
    else none
  | .closeSession sessionID => some { s with sessions := s.sessions.erase sessionID }
  | .close => some { s with closed := true }

def initial : State Addr where
  attempts := 0
  finished := false
  syns := []
  acks := []
  synCache := newSynCache
  tasks := []
  sessions := []
  closed := false
  others := ∅
  dials := []
  established := []

def system (Addr : Type) [DecidableEq Addr] (cfg : Config) : System (State Addr) (Label Addr) where
  init := fun s => s = initial
  next := next cfg

end UdpCustom.Handshake
