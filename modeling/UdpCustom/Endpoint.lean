import UdpCustom.Frame
import UdpCustom.Lib.WhiteSpace

-- The endpoints a client may request, and the patterns of `allowed_targets`.
namespace UdpCustom.Endpoint

open UdpCustom.Frame Ascii WhiteSpace

-- A star is not a letter of any host or port; this puts a plain one in its place.
def unstar (b : UInt8) : UInt8 := if b = ascii '*' then ascii 'x' else b

-- `strings.ToLower`, which treats a star like any other letter.
structure Text where
  toLower : Bytes → Bytes
  toLower_unstar : ∀ s, toLower (s.map unstar) = (toLower s).map unstar

inductive Network
  | tcp
  | udp
  deriving DecidableEq, Repr

def parseTargetNetworkAndAddr (T : Text) (raw : Bytes) : Network × Bytes :=
  let raw := trimSpace raw
  let lower := T.toLower raw
  if (text "udp://").isPrefixOf lower then (.udp, raw.drop (text "udp://").length)
  else if (text "tcp://").isPrefixOf lower then (.tcp, raw.drop (text "tcp://").length)
  else (.tcp, raw)

def indexByte (s : Bytes) (c : UInt8) : Option ℕ :=
  s.findIdx? (· = c)

def lastIndexByte (s : Bytes) (c : UInt8) : Option ℕ :=
  (s.reverse.findIdx? (· = c)).map (s.length - 1 - ·)

-- The last checks of `net.SplitHostPort`, with the colon at `i`.
def splitAt (hostport host : Bytes) (i j k : ℕ) : Except String (Bytes × Bytes) :=
  if (indexByte (hostport.drop j) (ascii '[')).isSome then .error "unexpected '[' in address"
  else if (indexByte (hostport.drop k) (ascii ']')).isSome then .error "unexpected ']' in address"
  else .ok (host, hostport.drop (i + 1))

-- `net.SplitHostPort`.
def splitHostPort (hostport : Bytes) : Except String (Bytes × Bytes) :=
  match lastIndexByte hostport (ascii ':') with
  | none => .error "missing port in address"
  | some i =>
    if hostport.head? = some (ascii '[') then
      match indexByte hostport (ascii ']') with
      | none => .error "missing ']' in address"
      | some close =>
        if close + 1 = hostport.length then .error "missing port in address"
        else if close + 1 = i then
          splitAt hostport ((hostport.take close).drop 1) i 1 (close + 1)
        else if hostport[close + 1]? = some (ascii ':') then .error "too many colons in address"
        else .error "missing port in address"
    else
      let host := hostport.take i
      if (indexByte host (ascii ':')).isSome then .error "too many colons in address"
      else splitAt hostport host i 0 0

-- Where `wildcardMatch` is: what is left of the pattern and of the string, and behind
-- the last star the rest of the pattern with the rest of the string it was last tried at.
structure Cursor where
  pattern : Bytes
  rest : Bytes
  star : Option (Bytes × Bytes)

def Cursor.retry (cur : Cursor) : Option Cursor :=
  cur.star.map fun star => ⟨star.1, star.2.tail, some (star.1, star.2.tail)⟩

-- One turn of the loop, with `c` the next byte of the string; none if it returns false.
def Cursor.turn (cur : Cursor) (c : UInt8) : Option Cursor :=
  match cur.pattern with
  | [] => cur.retry
  | q :: p =>
    if q = ascii '?' ∨ q = c then some { cur with pattern := p, rest := cur.rest.tail }
    else if q = ascii '*' then some { cur with pattern := p, star := some (p, cur.rest) }
    else cur.retry

def matchLoop : ℕ → Cursor → Option Bool
  | 0, _ => none
  | fuel + 1, cur =>
    match cur.rest with
    | [] => some (cur.pattern.all (· = ascii '*'))
    | c :: _ =>
      match cur.turn c with
      | none => some false
      | some cur => matchLoop fuel cur

-- More turns than the loop can take.
def matchFuel (pattern s : Bytes) : ℕ :=
  (pattern.length + 2) * (s.length + 1) * (pattern.length + 1)

def wildcardMatch (pattern s : Bytes) : Bool :=
  (matchLoop (matchFuel pattern s) ⟨pattern, s, none⟩).getD false

def matchTargetPattern (T : Text) (pattern endpoint : Bytes) : Bool :=
  let p := parseTargetNetworkAndAddr T pattern
  let e := parseTargetNetworkAndAddr T endpoint
  if p.1 ≠ e.1 then false
  else
    match splitHostPort p.2, splitHostPort e.2 with
    | .ok (pHost, pPort), .ok (eHost, ePort) =>
      wildcardMatch (T.toLower pHost) (T.toLower eHost) && wildcardMatch pPort ePort
    | _, _ => wildcardMatch (T.toLower p.2) (T.toLower e.2)

def targetAllowed (T : Text) (endpoint : Bytes) (patterns : List Bytes) : Bool :=
  patterns.any fun p =>
    let p := trimSpace p
    p ≠ [] ∧ matchTargetPattern T p endpoint

end UdpCustom.Endpoint
