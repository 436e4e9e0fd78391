import UdpCustom.Frame
import UdpCustom.Lib.SeqMap

-- Where a server session believes its client to be: the authenticated address,
-- the reply paths by destination port, and the challenges still unanswered.
-- Every address here was reported by a socket, so it is valid. Times are in
-- nanoseconds.
namespace UdpCustom.Path

open UdpCustom.Frame

def pathChallengeTTL : ℕ := 5 * 10 ^ 9
def maxPathChallenges : ℕ := 8

structure AddrPort (Addr : Type) where
  addr : Addr
  port : ℕ
  deriving DecidableEq

structure PathEntry (Addr : Type) where
  addr : AddrPort Addr
  usedAt : ℕ
  deriving DecidableEq

-- A `pathChallenge` with the address it is filed under.
structure PathChallenge (Addr : Type) where
  ip : Addr
  token : Bytes
  expires : ℕ
  deriving DecidableEq

structure Paths (Addr : Type) where
  raddr : AddrPort Addr
  pathAddrs : SeqMap (PathEntry Addr)
  lastOrigPort : ℕ
  pathChallenges : List (PathChallenge Addr)
  -- history: the challenges drawn and the ones answered
  issued : List (PathChallenge Addr)
  validated : List (PathChallenge Addr)

-- The paths of a session before its handshake has registered the first one.
def newPaths {Addr : Type} (remoteAddr : AddrPort Addr) (origPort : ℕ) : Paths Addr where
  raddr := remoteAddr
  pathAddrs := ∅
  lastOrigPort := origPort
  pathChallenges := []
  issued := []
  validated := []

variable {Addr : Type} [DecidableEq Addr]

def Paths.sameRemoteIP (p : Paths Addr) (addr : AddrPort Addr) : Bool :=
  p.raddr.addr = addr.addr

def Paths.updateRemoteAddr (p : Paths Addr) (newAddr : AddrPort Addr) (allowIPChange : Bool) :
    Paths Addr :=
  if p.raddr = newAddr then p
  else if p.raddr.addr ≠ newAddr.addr ∧ allowIPChange = false then p
  else { p with raddr := newAddr }

-- The first entry in the order of a scan whose time no later one undercuts.
def leastRecent (paths : SeqMap (PathEntry Addr)) (scan : List ℕ) : Option ℕ :=
  scan.foldl
    (fun best port =>
      match paths.lookup port, best.bind paths.lookup with
      | none, _ => best
      | some _, none => some port
      | some pe, some oldest => if pe.usedAt < oldest.usedAt then some port else best)
    none

-- The last entry in the order of a scan that is newer than all before it.
def mostRecent (paths : SeqMap (PathEntry Addr)) (scan : List ℕ) : Option ℕ :=
  scan.foldl
    (fun best port =>
      match paths.lookup port, best.bind paths.lookup with
      | none, _ => best
      | some _, none => if 0 < port then some port else best
      | some pe, some newest => if 0 < port ∧ newest.usedAt < pe.usedAt then some port else best)
    none

-- `limit` is the size of the pool of reply sockets, `scan` the order in which
-- a full map is searched.
def Paths.setPath (limit : ℕ) (p : Paths Addr) (origPort : ℕ) (addr : AddrPort Addr) (now : ℕ)
    (scan : List ℕ) : Paths Addr :=
  if origPort = 0 then p
  else if p.lastOrigPort = origPort ∧ (p.pathAddrs.lookup origPort).any (·.addr = addr) then p
  else
    let kept := if origPort ∉ p.pathAddrs ∧ limit ≤ SeqMap.size p.pathAddrs then
        p.pathAddrs.erase ((leastRecent p.pathAddrs scan).getD 0)
      else p.pathAddrs
    { p with
      pathAddrs := kept.insert origPort { addr := addr, usedAt := now }
      lastOrigPort := origPort }

-- The token to send to `remoteAddr`, if there is one: an earlier one that has not
-- expired, or what `rand.Read` returned. A full table loses an arbitrary entry.
def Paths.sendPathChallenge (p : Paths Addr) (remoteAddr : AddrPort Addr) (now : ℕ)
    (random : Option Bytes) (evict : ℕ) : Option Bytes × Paths Addr :=
  let live := p.pathChallenges.filter fun c => now ≤ c.expires
  match live.find? (·.ip = remoteAddr.addr) with
  | some pending => (some pending.token, { p with pathChallenges := live })
  | none =>
    match random with
    | none => (none, { p with pathChallenges := live })
    | some token =>
      let kept := if maxPathChallenges ≤ live.length then live.eraseIdx (evict % live.length) else live
      let drawn : PathChallenge Addr :=
        { ip := remoteAddr.addr, token := token, expires := now + pathChallengeTTL }
      (some token, { p with pathChallenges := drawn :: kept, issued := drawn :: p.issued })

-- The challenge that a PATH_RESPONSE from `remoteAddr` with this payload answers.
def Paths.answered (p : Paths Addr) (remoteAddr : AddrPort Addr) (data : Bytes) (now : ℕ) :
    Option (PathChallenge Addr) :=
  if data.length ≠ pathChallengeSize then none
  else (p.pathChallenges.find? (·.ip = remoteAddr.addr)).filter fun pending =>
    now ≤ pending.expires ∧ data = pending.token

def Paths.acceptPathResponse (p : Paths Addr) (remoteAddr : AddrPort Addr) (data : Bytes) (now : ℕ) :
    Bool × Paths Addr :=
  match p.answered remoteAddr data now with
  | none => (false, p)
  | some answered =>
    (true, { p with
      pathChallenges := p.pathChallenges.filter fun c => c.ip ≠ remoteAddr.addr
      validated := answered :: p.validated })

-- Where `sendToSession` sends: the port a reply leaves from, zero for the main
-- socket, and the address it goes to.
def Paths.route (p : Paths Addr) (scan : List ℕ) : (ℕ × AddrPort Addr) × Paths Addr :=
  let port := if p.lastOrigPort ∈ p.pathAddrs then p.lastOrigPort
    else (mostRecent p.pathAddrs scan).getD p.lastOrigPort
  match p.pathAddrs.lookup port with
  | some pe => if 0 < port then ((port, pe.addr), { p with lastOrigPort := port }) else ((0, p.raddr), p)
  | none => ((0, p.raddr), p)

end UdpCustom.Path
