import UdpCustom.Mtu

-- How large a record a server session may send: the size its client committed,
-- what the client has been seen to send, and the server's own limit.
namespace UdpCustom.Budget

open UdpCustom.Frame UdpCustom.Mtu

-- `maxPkt` is zero before the first commit.
structure FrameBudget where
  gateOpen : Bool
  maxPkt : ℤ
  observedPayload : ℕ
  deriving DecidableEq

def FrameBudget.initial : FrameBudget where
  gateOpen := false
  maxPkt := 0
  observedPayload := 0

def FrameBudget.openMtuGate (b : FrameBudget) : FrameBudget :=
  { b with gateOpen := true }

-- What a committed size comes to on a server that is configured for `limit`.
def clampCommit (limit : SendCap) (n : ℤ) : ℤ :=
  let n := if n < maxPktFloor then maxPktFloor else n
  if limit.size < n then limit.size else n

def FrameBudget.applyMtuCommit (limit : SendCap) (b : FrameBudget) (n : ℤ) : FrameBudget :=
  let b := b.openMtuGate
  let n := clampCommit limit n
  if b.maxPkt ≠ 0 ∧ b.maxPkt = n then b
  else { b with
    observedPayload := if 0 < b.maxPkt ∧ n < b.maxPkt then 0 else b.observedPayload
    maxPkt := n }

def FrameBudget.noteObservedPayload (b : FrameBudget) (n : ℕ) : FrameBudget :=
  { b with observedPayload := max b.observedPayload n }

def FrameBudget.maxPayload (limit : SendCap) (fec : Bool) (b : FrameBudget) : ℤ :=
  let ceiling := effectivePayloadCap limit.size
  let budget := if 0 < b.maxPkt ∧ payloadCap b.maxPkt < ceiling then payloadCap b.maxPkt else ceiling
  let budget := if fec then fecDataPayloadCap budget else budget
  if budget < b.observedPayload ∧ (b.observedPayload : ℤ) ≤ ceiling then b.observedPayload else budget

-- A commit leaves nothing of the size before it.
theorem maxPkt_applyMtuCommit (limit : SendCap) (b : FrameBudget) (n : ℤ) :
    (b.applyMtuCommit limit n).maxPkt = clampCommit limit n := by
  unfold FrameBudget.applyMtuCommit
  dsimp only [FrameBudget.openMtuGate]
  split
  · rename_i h
    exact h.2
  · rfl

end UdpCustom.Budget
