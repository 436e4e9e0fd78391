import UdpCustom.Frame
import Mathlib.Tactic.SplitIfs

namespace UdpCustom.Mtu

open UdpCustom.Frame

def maxPktCeiling : ℤ := udpcMaxPkt
def maxPktFloor : ℤ := udpcHdrSize + udpcTrailerSize + 64

def payloadCap (maxPkt : ℤ) : ℤ :=
  maxPkt - udpcHdrSize - udpcTrailerSize

def effectivePayloadCap (maxPkt : ℤ) : ℤ :=
  if maxPkt ≤ 0 then payloadCap maxPktCeiling else payloadCap maxPkt

def fecDataPayloadCap (recordPayloadCap : ℤ) : ℤ :=
  let n := recordPayloadCap - fecLengthPrefixSize
  if n < 1 then 1 else n

theorem maxPktFloor_le_ceiling : maxPktFloor ≤ maxPktCeiling := by
  decide

-- The record size a session may hold: `resolveMaxPkt` and `clampMtuCap` keep
-- every value stored in `sendCap` inside this range.
structure SendCap where
  size : ℤ
  floor_le : maxPktFloor ≤ size
  le_ceiling : size ≤ maxPktCeiling

def SendCap.ceiling : SendCap where
  size := maxPktCeiling
  floor_le := maxPktFloor_le_ceiling
  le_ceiling := le_refl _

def SendCap.maxPayload (fec : Bool) (c : SendCap) : ℕ :=
  let cap := effectivePayloadCap c.size
  (if fec then fecDataPayloadCap cap else cap).toNat

-- Every record carries at least one byte and at most what the read buffer holds.
theorem maxPayload_bounds (fec : Bool) (c : SendCap) :
    0 < c.maxPayload fec ∧ c.maxPayload fec ≤ udpcMaxData := by
  have hlow := c.floor_le
  have hhigh := c.le_ceiling
  simp only [maxPktFloor, maxPktCeiling, udpcHdrSize, udpcTrailerSize, udpcMaxPkt] at hlow hhigh
  simp only [SendCap.maxPayload, effectivePayloadCap, fecDataPayloadCap, payloadCap, maxPktCeiling,
    udpcMaxData, udpcHdrSize, udpcTrailerSize, udpcMaxPkt, fecLengthPrefixSize]
  split_ifs <;> omega

end UdpCustom.Mtu
