import UdpCustom.Path
import Mathlib.Data.List.Dedup

-- The send functions of the transmit queue. A batch goes out in one call of the
-- platform, and what that call left behind in one write for each wire.
namespace UdpCustom.Batch

open UdpCustom.Frame UdpCustom.Path

-- What one write of a datagram comes to; `broken` is an error for which
-- `shouldReopenUDPWriteError` holds.
inductive Verdict
  | sent
  | refused
  | broken
  deriving DecidableEq, Repr

inductive SendError
  | noRoute
  | write
  | rebuild
  deriving DecidableEq, Repr

def Verdict.err : Verdict → Option SendError
  | .sent => none
  | _ => some .write

-- The count `writeUDPBatch` returns for `len` messages. Its error is ignored.
structure BatchCount (len : ℕ) where
  n : ℤ
  neg_one_le : -1 ≤ n
  le_len : n ≤ len

structure Item (δ : Type) where
  sock : ℕ
  dst : δ
  wire : Bytes
  deriving DecidableEq

structure Write (δ : Type) where
  item : Item δ
  verdict : Verdict

-- `single` is the individual send of a wire that a batch call left, `routed` the one
-- of a wire for which no batch call was made.
inductive Event (δ : Type)
  | batch (items : List (Item δ)) (n : ℤ)
  | single (item : Item δ) (writes : List (Write δ))
  | routed (item : Item δ) (writes : List (Write δ))

inductive Result
  | returned (err : Option SendError)
  | panicked
  deriving DecidableEq

structure Outcome (δ : Type) where
  log : List (Event δ)
  result : Result

-- The slice expression `l[n:]`, which panics outside of the bounds.
def sliceFrom {α : Type} (l : List α) (n : ℤ) : Option (List α) :=
  if 0 ≤ n ∧ n ≤ l.length then some (l.drop n.toNat) else none

namespace Client

-- What one `sendAtPort` meets: whether the dialer is closed, what the write on the
-- slot's socket comes to (none if the slot is empty), whether the dialer is closed
-- after it, whether `Reopen` succeeds, and what the write on the socket then in the
-- slot comes to.
structure Attempt where
  closed : Bool
  first : Option Verdict
  closedAfter : Bool
  reopened : Bool
  retry : Option Verdict

-- The index is one that `Next` returned, so it is in range.
def sendAtPort (a : Attempt) (item : Item ℕ) : List (Write ℕ) × Option SendError :=
  if a.closed then ([], some .noRoute)
  else
    let first := a.first.toList.map (Write.mk item)
    match a.first with
    | some .sent => (first, none)
    | some .refused => (first, some .write)
    | _ =>
      if a.closedAfter then (first, some .noRoute)
      else if a.reopened = false then (first, some .rebuild)
      else
        match a.retry with
        | none => (first, some .noRoute)
        | some v => (first ++ [⟨item, v⟩], v.err)

-- What one `sendBatch` meets: the answers of `Next` (none for a negative index), the
-- order in which the map of groups is ranged over, which slots hold a socket, the
-- counts of the batch calls, and the individual sends of each group.
structure Env where
  next : ℕ → Option (ℕ × ℕ)
  range : (keys : List ℕ) → { order : List ℕ // order.Perm keys }
  conn : ℕ → Bool
  count : ℕ → (len : ℕ) → BatchCount len
  attempt : ℕ → ℕ → Attempt

-- The first loop of `sendBatch`, from its `i`th turn on.
def assign (next : ℕ → Option (ℕ × ℕ)) : ℕ → List Bytes → Option (List (Item ℕ))
  | _, [] => some []
  | i, wire :: wires =>
    match next i, assign next (i + 1) wires with
    | some (idx, port), some items => some (⟨idx, port, wire⟩ :: items)
    | _, _ => none

def groupsOf (items : List (Item ℕ)) : ℕ → List (Item ℕ) :=
  items.foldl
    (fun groups item => Function.update groups item.sock (groups item.sock ++ [item]))
    fun _ => []

-- The prefix of the group that need not be sent again, as `sendBatch` has it.
def Env.accepted (env : Env) (idx : ℕ) (group : List (Item ℕ)) : ℤ :=
  if env.conn idx then (env.count idx group.length).n else 0

-- One turn of the second loop; none if it panics.
def sendGroup (env : Env) (idx : ℕ) (group : List (Item ℕ)) :
    List (Event ℕ) × Option (Option SendError) :=
  let n := env.accepted idx group
  let batch := if env.conn idx then [.batch group n] else []
  match sliceFrom group n with
  | none => (batch, none)
  | some rest =>
    let sends := rest.mapIdx fun i item => (item, sendAtPort (env.attempt idx i) item)
    (batch ++ sends.map fun s => .single s.1 s.2.1, some (sends.findSome? (·.2.2)))

def Result.first (err : Option SendError) : Result → Result
  | .returned err' => .returned (err.or err')
  | .panicked => .panicked

def sendGroups (env : Env) (groups : ℕ → List (Item ℕ)) : List ℕ → Outcome ℕ
  | [] => ⟨[], .returned none⟩
  | idx :: order =>
    match sendGroup env idx (groups idx) with
    | (log, none) => ⟨log, .panicked⟩
    | (log, some err) =>
      let out := sendGroups env groups order
      ⟨log ++ out.log, Result.first err out.result⟩

def sendBatch (env : Env) (wires : List Bytes) : Outcome ℕ :=
  match assign env.next 0 wires with
  | none => ⟨[], .returned (some .noRoute)⟩
  | some items => sendGroups env (groupsOf items) (env.range (items.map Item.sock).dedup).1

end Client

namespace Session

variable {Addr : Type}

-- What `repairAndRetry` meets after a broken write: the pool is closed, the port
-- cannot be bound again, it is bound again and written to once, or another goroutine
-- has put a socket in its place.
inductive Repair
  | closed
  | rebindFails
  | rebound (v : Verdict)
  | replaced (v : Verdict) (r : Repair)

def Repair.verdicts : Repair → List Verdict
  | .closed => []
  | .rebindFails => []
  | .rebound v => [v]
  | .replaced v r => v :: if v = .broken then r.verdicts else []

-- The writes of `pooledConn.WriteToUDPAddrPort`.
def pooledVerdicts (v : Verdict) (r : Repair) : List Verdict :=
  v :: if v = .broken then r.verdicts else []

-- What one `replyFromOrigPort` meets: the socket `Get` returns, and the main one.
structure Reply where
  pool : Option (Verdict × Repair)
  main : Verdict

-- The main socket is number zero.
def replyFromOrigPort (bindPort : ℕ) (r : Reply) (origPort : ℕ) (addr : AddrPort Addr) (data : Bytes) :
    List (Write (AddrPort Addr)) :=
  let main : Write (AddrPort Addr) := ⟨⟨0, addr, data⟩, r.main⟩
  if 0 < origPort ∧ origPort ≠ bindPort then
    match r.pool with
    | none => [main]
    | some (v, rep) =>
      let verdicts := pooledVerdicts v rep
      let writes := verdicts.map (Write.mk ⟨origPort, addr, data⟩)
      if .sent ∈ verdicts then writes else writes ++ [main]
  else [main]

-- What one `sendToSession` meets: the paths of the session, the order in which they
-- are ranged over, and its reply.
structure Cold (Addr : Type) where
  paths : Paths Addr
  scan : List ℕ
  reply : Reply

def Cold.item (c : Cold Addr) (data : Bytes) : Item (AddrPort Addr) :=
  ⟨(c.paths.route c.scan).1.1, (c.paths.route c.scan).1.2, data⟩

def sendToSession (bindPort : ℕ) (c : Cold Addr) (data : Bytes) : Event (AddrPort Addr) :=
  .routed (c.item data) (replyFromOrigPort bindPort c.reply (c.item data).sock (c.item data).dst data)

-- What one `sendToSessionBatch` meets: whether the pool has a socket for the port,
-- the count of the batch call, and the individual sends of each branch.
structure Env (Addr : Type) where
  pool : Bool
  count : (len : ℕ) → BatchCount len
  pooled : ℕ → Verdict × Repair
  reply : ℕ → Reply
  cold : ℕ → Cold Addr

-- A batch call on one socket, and an individual send for each wire behind its count.
def sendFrom (items : List (Item (AddrPort Addr))) (n : ℤ)
    (single : ℕ → Item (AddrPort Addr) → List (Write (AddrPort Addr))) : Outcome (AddrPort Addr) :=
  match sliceFrom items n with
  | none => ⟨[.batch items n], .panicked⟩
  | some rest =>
    ⟨.batch items n :: rest.mapIdx fun i item => .single item (single i item), .returned none⟩

def sendToSessionBatch (bindPort : ℕ) (paths : Paths Addr) (env : Env Addr) (wires : List Bytes) :
    Outcome (AddrPort Addr) :=
  let port := paths.lastOrigPort
  let cold : Outcome (AddrPort Addr) :=
    ⟨wires.mapIdx fun i wire => sendToSession bindPort (env.cold i) wire, .returned none⟩
  match paths.pathAddrs.lookup port with
  | none => cold
  | some pe =>
    let n := (env.count wires.length).n
    if 0 < port ∧ port ≠ bindPort then
      if env.pool then
        sendFrom (wires.map (Item.mk port pe.addr)) n fun i item =>
          (pooledVerdicts (env.pooled i).1 (env.pooled i).2).map (Write.mk item)
      else cold
    else
      sendFrom (wires.map (Item.mk 0 pe.addr)) n fun i item =>
        replyFromOrigPort bindPort (env.reply i) 0 item.dst item.wire

end Session

end UdpCustom.Batch
