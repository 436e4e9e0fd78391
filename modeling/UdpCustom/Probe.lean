import UdpCustom.Outgoing

-- The record size of a client's sessions: the probe after the handshake, the cache the
-- sessions share, and the re-probe of idle sessions.
namespace UdpCustom.Probe

open UdpCustom.Frame UdpCustom.Mtu UdpCustom.Outgoing Transition

def mtuProbeCacheTTL : ℕ := 600 * 10 ^ 9
def mtuCommitSends : ℕ := 2
def weakNetworkMtuFallback : ℤ := mtuProbeFloor

def resolveMaxPkt (configured : ℤ) : SendCap where
  size := if configured = 0 then maxPktCeiling
    else if configured < 0 then maxPktCeiling
    else if configured < maxPktFloor then maxPktFloor
    else if maxPktCeiling < configured then maxPktCeiling
    else configured
  floor_le := by
    have := maxPktFloor_le_ceiling
    split_ifs <;> omega
  le_ceiling := by
    have := maxPktFloor_le_ceiling
    split_ifs <;> omega

structure Config where
  configured : ℤ
  mtuProbe : Bool

def Config.maxPkt (cfg : Config) : SendCap :=
  resolveMaxPkt cfg.configured

def Config.ladder (cfg : Config) : List ℤ :=
  mtuLadderFor cfg.maxPkt.size

def Config.floor (cfg : Config) : ℤ :=
  (mtuInitialCap cfg.maxPkt).size

def conservativeMtuFallback (ceiling : ℤ) : ℤ :=
  if ceiling ≤ weakNetworkMtuFallback then ceiling else weakNetworkMtuFallback

structure ProbeCache where
  n : ℤ
  storedAt : ℕ
  generation : ℕ

def ProbeCache.getFor (m : ProbeCache) (generation now : ℕ) : ℤ :=
  if m.generation ≠ generation then 0
  else if 0 < m.n ∧ now - m.storedAt < mtuProbeCacheTTL then m.n
  else 0

def ProbeCache.storeFor (n : ℤ) (generation now : ℕ) : ProbeCache where
  n := n
  storedAt := now
  generation := generation

-- Whether a probe returns true, given whether its own echo comes back in time.
def probeOnce (size : ℤ) (echo : Bool) : Bool :=
  if payloadCap size < mtuProbeIDSize ∨ mtuProbeMaxPayload < payloadCap size then false else echo

-- `closed` is what `isClosed` says before a rung, `echo` what comes back for each attempt.
def probeLadder (attempts : ℕ) (closed : ℤ → Bool) (echo : ℤ → ℕ → Bool) : List ℤ → ℤ
  | [] => 0
  | size :: rest =>
    if closed size then 0
    else if (List.range attempts).any fun attempt => probeOnce size (echo size attempt) then size
    else probeLadder attempts closed echo rest

def largestRungBelow (ladder : List ℤ) (cur : ℤ) : ℤ :=
  (ladder.find? (· < cur)).getD 0

def nextRungAbove (cur : ℤ) : ℤ → List ℤ → ℤ
  | prev, [] => prev
  | prev, v :: rest => if v ≤ cur then prev else nextRungAbove cur v rest

def nextLadderRungAbove (ladder : List ℤ) (cur : ℤ) : ℤ :=
  nextRungAbove cur 0 ladder

-- The commit records handed to `sendControl`; `ok` is whether it takes the first.
def sendMtuCommit (size : ℤ) (ok : Bool) : List ℤ :=
  if size ≤ 0 ∨ maxPktCeiling < size then []
  else if ok then List.replicate mtuCommitSends size
  else [size]

-- Where `convergeFrameBudget` is; after it `reprobeIdle` runs.
inductive Phase
  | opened
  | begun
  | reading
  | probing
  | storing (n : ℤ)
  | found (n : ℤ)
  | running
  | pinned
  deriving DecidableEq

structure Session where
  sendCap : ℤ
  generation : ℕ
  phase : Phase
  -- history: the commits, and the sizes for which a probe has come back
  commits : List ℤ
  answered : List ℤ
  deriving DecidableEq

def Session.lowerSendCap (s : Session) (n : ℤ) : Session :=
  if s.sendCap ≤ n then s else { s with sendCap := n }

def Session.raiseSendCap (s : Session) (n : ℤ) : Session :=
  if n ≤ s.sendCap then s else { s with sendCap := n }

def Session.commit (s : Session) (n : ℤ) (ok : Bool) : Session :=
  { s with commits := s.commits ++ sendMtuCommit n ok }

def Session.hears (s : Session) (n : ℤ) : Session :=
  { s with answered := s.answered ++ [n] }

-- No size is probed twice in one tick, so `echo` may go by size.
def Session.tryRaiseOneRung (cfg : Config) (s : Session) (cur : ℤ) (echo : ℤ → Bool) (ok : Bool) :
    Session :=
  let next := nextLadderRungAbove cfg.ladder cur
  if next ≤ 0 ∨ cfg.maxPkt.size < next then s
  else if probeOnce next (echo next) = false then s
  else ((s.hears next).raiseSendCap next).commit next ok

-- The loop down the ladder: the rung it stops at, and whether its probe came back.
def walkDown (ladder : List ℤ) (floor : ℤ) (echo : ℤ → Bool) : ℕ → ℤ → Option (ℤ × Bool)
  | 0, _ => none
  | fuel + 1, below =>
    if 0 < below ∧ floor < below then
      if probeOnce below (echo below) then some (below, true)
      else walkDown ladder floor echo fuel (largestRungBelow ladder below)
    else some (below, false)

-- `quiet` is whether the session has been idle long enough.
def Session.reprobeIdleTick (cfg : Config) (fuel : ℕ) (s : Session) (quiet : Bool) (echo : ℤ → Bool)
    (ok : Bool) : Option Session :=
  if quiet = false then some s
  else if cfg.floor < s.sendCap then
    if probeOnce s.sendCap (echo s.sendCap) then
      some ((s.hears s.sendCap).tryRaiseOneRung cfg s.sendCap echo ok)
    else
      match walkDown cfg.ladder cfg.floor echo fuel (largestRungBelow cfg.ladder s.sendCap) with
      | none => none
      | some (below, answered) =>
        let target := if below ≤ 0 then cfg.floor else below
        let s := if answered then s.hears below else s
        if target < s.sendCap then some ((s.lowerSendCap target).commit target ok) else some s
  else some (s.tryRaiseOneRung cfg s.sendCap echo ok)

inductive Action
  | start (ok : Bool)
  | readGeneration
  | lookup
  | probe (attempts : ℕ) (closed : ℤ → Bool) (echo : ℤ → ℕ → Bool)
  | store
  | settle (ok : Bool)
  | tick (quiet : Bool) (echo : ℤ → Bool) (ok : Bool)

-- The rungs below a size run out before the fuel does.
def Config.fuel (cfg : Config) : ℕ :=
  cfg.ladder.length + 1

-- One section of `convergeFrameBudget`, or one tick.
def Session.act (cfg : Config) (generation now : ℕ) (cache : ProbeCache) (s : Session) :
    Action → Option (Session × ProbeCache)
  | .start ok =>
    if s.phase ≠ .opened then none
    else if cfg.mtuProbe = false then
      some ({ s.commit cfg.maxPkt.size ok with phase := .pinned }, cache)
    else some ({ s with sendCap := cfg.floor, phase := .begun }.commit cfg.floor ok, cache)
  | .readGeneration =>
    if s.phase ≠ .begun then none
    else some ({ s with generation := generation, phase := .reading }, cache)
  | .lookup =>
    if s.phase ≠ .reading then none
    else
      let n := cache.getFor s.generation now
      some ({ s with phase := if n = 0 then .probing else .found n }, cache)
  | .probe attempts closed echo =>
    if s.phase ≠ .probing then none
    else
      let n := probeLadder attempts closed echo cfg.ladder
      if 0 < n then some ({ s.hears n with phase := .storing n }, cache)
      else some ({ s with phase := .found (conservativeMtuFallback cfg.maxPkt.size) }, cache)
  | .store =>
    match s.phase with
    | .storing n => some ({ s with phase := .found n }, .storeFor n s.generation now)
    | _ => none
  | .settle ok =>
    match s.phase with
    | .found n =>
      let n := (clampMtuCap n cfg.maxPkt).size
      if n ≠ s.sendCap then some ({ s with sendCap := n, phase := .running }.commit n ok, cache)
      else some ({ s with phase := .running }, cache)
    | _ => none
  | .tick quiet echo ok =>
    if s.phase ≠ .running then none
    else (s.reprobeIdleTick cfg cfg.fuel quiet echo ok).map (·, cache)

structure State where
  sessions : List Session
  cache : ProbeCache
  generation : ℕ
  now : ℕ

inductive Label
  | dial
  | act (i : ℕ) (a : Action)
  | rebuild
  | pass (d : ℕ)

def newSession (cfg : Config) : Session where
  sendCap := (mtuStartCap cfg.maxPkt cfg.mtuProbe).size
  generation := 0
  phase := .opened
  commits := []
  answered := []

def next (cfg : Config) (s : State) : Label → Option State
  | .dial => some { s with sessions := s.sessions ++ [newSession cfg] }
  | .act i a =>
    match s.sessions[i]? with
    | none => none
    | some sess => (sess.act cfg s.generation s.now s.cache a).map fun r =>
      { s with sessions := s.sessions.set i r.1, cache := r.2 }
  | .rebuild => some { s with generation := s.generation + 1 }
  | .pass d => some { s with now := s.now + d }

def newClient : State where
  sessions := []
  cache := { n := 0, storedAt := 0, generation := 0 }
  generation := 0
  now := 0

def system (cfg : Config) : System State Label where
  init := fun s => s = newClient
  next := next cfg

end UdpCustom.Probe
