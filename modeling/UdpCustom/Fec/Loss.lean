import UdpCustom.Fec

-- What the two halves of FEC know about loss, in binary64 as the source computes it.
namespace UdpCustom.Fec

open UdpCustom.Frame

def fecLossAlpha : Float := 64
def fecBootstrapLossRate : Float := 0.005

structure LossEstimator where
  value : Float
  deriving DecidableEq

def LossEstimator.zero : LossEstimator where
  value := 0

def LossEstimator.observeOutcome (e : LossEstimator) (lost : Bool) : LossEstimator :=
  { value := e.value + ((if lost then 1 else 0) - e.value) / fecLossAlpha }

def LossEstimator.observeValue (e : LossEstimator) (sample alpha : Float) : LossEstimator :=
  let sample := if sample < 0 then 0 else if 1 < sample then 1 else sample
  let alpha := if alpha ≤ 0 ∨ 1 < alpha then 0.25 else alpha
  { value := e.value + (sample - e.value) * alpha }

def LossEstimator.basisPoints (e : LossEstimator) : ℕ :=
  if e.value ≤ 0 then 0
  else if 1 ≤ e.value then 10000
  else (e.value * 10000 + 0.5).toUInt16.toNat

structure AdaptiveLoss where
  ownLoss : LossEstimator
  peerLoss : LossEstimator
  deriving DecidableEq

def AdaptiveLoss.zero : AdaptiveLoss where
  ownLoss := .zero
  peerLoss := .zero

def AdaptiveLoss.observeAck (a : AdaptiveLoss) (retransmitted : Bool) : AdaptiveLoss :=
  { a with ownLoss := a.ownLoss.observeOutcome retransmitted }

-- The loss rate a report of `bp` basis points stands for.
def reportedLoss (bp : ℕ) : Float :=
  Float.ofNat (min bp 10000) / 10000

def AdaptiveLoss.observeRemoteBasisPoints (a : AdaptiveLoss) (bp : ℕ) : AdaptiveLoss :=
  { a with peerLoss := a.peerLoss.observeValue (reportedLoss bp) 0.25 }

def AdaptiveLoss.loss (a : AdaptiveLoss) : Float :=
  if a.peerLoss.value ≤ a.ownLoss.value then a.ownLoss.value
  else
    let ceiling := 2 * a.ownLoss.value + fecBootstrapLossRate
    if ceiling < a.peerLoss.value then ceiling else a.peerLoss.value

-- How many blocks `tryBlocks` rebuilds records from.
def FecReceiver.rebuiltBlocks (code : ErasureCode UInt8) (seq : ℕ) : List ℕ → FecReceiver → ℕ
  | [], _ => 0
  | base :: rest, r =>
    match r.blocks.lookup base with
    | none => rebuiltBlocks code seq rest r
    | some b =>
      if b.contains seq then
        let tried := r.tryRecover code b
        (if tried.1 = [] then 0 else 1) + rebuiltBlocks code seq rest tried.2
      else rebuiltBlocks code seq rest r

-- What `onData` reports to the estimator: a record that had not arrived before,
-- and every block it completes.
def FecReceiver.observeData (code : ErasureCode UInt8) (r : FecReceiver) (e : LossEstimator)
    (seq : ℕ) (payload : Bytes) (scan : List ℕ) : LossEstimator :=
  if seq = 0 then e
  else
    let retained := if seq ∈ r.recent then r else
      { r with recent := r.recent.insert seq payload, highest := max r.highest seq }
    let e := if seq ∈ r.recent then e else e.observeOutcome false
    (·.observeOutcome true)^[FecReceiver.rebuiltBlocks code seq scan retained.pruneRecent] e

end UdpCustom.Fec
