import Mathlib.Algebra.Order.Ring.Int

-- The round-trip estimator of a session. Durations are in nanoseconds and
-- division truncates toward zero.
namespace UdpCustom.Rtt

def rttInitialGuess : ℤ := 200 * 10 ^ 6
def rttMinRTO : ℤ := 10 ^ 6
def rttMaxRTO : ℤ := 10 * 10 ^ 9

structure RttEstimator where
  srtt : ℤ
  rttvar : ℤ
  rto : ℤ
  hasData : Bool
  deriving DecidableEq

def newDefaultRTTEstimator : RttEstimator where
  srtt := rttInitialGuess
  rttvar := rttInitialGuess.tdiv 2
  rto := rttInitialGuess
  hasData := false

def RttEstimator.sample (e : RttEstimator) (rtt : ℤ) : RttEstimator :=
  if rtt ≤ 0 then e
  else
    let err := rtt - e.srtt
    let srtt := if e.hasData then e.srtt + err.tdiv 8 else rtt
    let rttvar := if e.hasData then e.rttvar + (|err| - e.rttvar).tdiv 4 else rtt.tdiv 2
    { srtt := srtt
      rttvar := rttvar
      rto := min (max (max (srtt + 4 * rttvar) (srtt * 2)) rttMinRTO) rttMaxRTO
      hasData := true }

def RttEstimator.smoothed (e : RttEstimator) : ℤ :=
  if e.hasData then e.srtt else 0

end UdpCustom.Rtt
