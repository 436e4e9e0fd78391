import UdpCustom.Delivery

-- The congestion window of a session that negotiated recovery. Times are
-- nanoseconds; `none` is the zero time.
namespace UdpCustom.Flow

open UdpCustom.Delivery

def millisecond : ℕ := 1000000

def initialCwnd : ℕ := 256
def minRTTDrift : ℕ := 64
def congestedFactor : ℕ := 2

-- The delivery-rate estimate is not kept here: where `loss` consults it, the
-- product of rate and RTT is an argument.
structure SendFlow where
  max : ℕ
  cwnd : ℕ
  credit : ℕ
  ssthresh : ℕ
  growth : ℕ
  lastLoss : Option ℕ
  lastLossCut : ℕ
  lastLossSSThresh : ℕ
  feedbackNo : ℕ
  lastProbe : Option ℕ
  fastRepairs : ℕ
  minRTT : ℕ
  westwood : Bool
  restartTo : ℕ
  cwnd_le : cwnd ≤ max

def newSendFlow (maximum : ℕ) (automatic westwood wide : Bool) : SendFlow :=
  let ceiling := deliveryLimitFor wide
  let maximum := min (Nat.max (if automatic then ceiling else maximum) 1) ceiling
  { max := maximum
    cwnd := min initialCwnd maximum
    credit := ceiling
    ssthresh := maximum
    growth := 0
    lastLoss := none
    lastLossCut := 0
    lastLossSSThresh := 0
    feedbackNo := 0
    lastProbe := none
    fastRepairs := 0
    minRTT := 0
    westwood := westwood
    restartTo := 0
    cwnd_le := Nat.min_le_right _ _ }

def SendFlow.window (f : SendFlow) : ℕ :=
  min f.cwnd f.credit

def SendFlow.observeRTT (f : SendFlow) (sample : ℕ) : SendFlow :=
  if sample = 0 then f
  else if f.minRTT = 0 ∨ sample < f.minRTT then { f with minRTT := sample }
  else { f with minRTT := f.minRTT + (sample - f.minRTT) / minRTTDrift }

-- The first step of `acknowledged`: a pending restart re-enters slow start.
def SendFlow.restart (f : SendFlow) : SendFlow :=
  if 0 < f.restartTo then
    { f with ssthresh := Nat.max f.cwnd (min f.max f.restartTo), restartTo := 0 }
  else f

def SendFlow.acknowledged (f : SendFlow) (n : ℕ) : SendFlow :=
  let f := f.restart
  if f.cwnd < f.ssthresh then
    { f with cwnd := min f.max (f.cwnd + n), cwnd_le := Nat.min_le_left _ _ }
  else if f.cwnd ≤ f.growth + n then
    { f with
      growth := f.growth + n - f.cwnd
      cwnd := min f.max (f.cwnd + 1)
      cwnd_le := Nat.min_le_left _ _ }
  else { f with growth := f.growth + n }

def SendFlow.congested (f : SendFlow) (rtt : ℕ) : Bool :=
  f.minRTT = 0 ∨ f.minRTT * congestedFactor ≤ rtt

-- Where a loss cuts to and how far the next ACK may climb back, or `none` when
-- the measured bandwidth already fits the window.
def SendFlow.lossTarget (f : SendFlow) (rtt bdp : ℕ) : Option (ℕ × ℕ) :=
  let floor := Nat.max 2 (f.cwnd - f.cwnd / 4)
  let half := Nat.max 2 (f.cwnd / 2)
  if f.minRTT = 0 then some (half, f.cwnd)
  else if f.westwood ∧ f.congested rtt = false then
    if floor ≤ bdp then none
    else if 2 ≤ bdp then some (Nat.max bdp floor, f.max)
    else some (floor, f.max)
  else some (half, 0)

def SendFlow.loss (f : SendFlow) (now rtt : ℕ) (undoable : Bool) (bdp : ℕ) : SendFlow :=
  let rtt := Nat.max rtt (10 * millisecond)
  if f.lastLoss.any (fun last => now - last < rtt) then f
  else
    let f := { f with lastLoss := some now }
    let f := if undoable then { f with lastLossCut := f.cwnd, lastLossSSThresh := f.ssthresh } else f
    match f.lossTarget rtt bdp with
    | none => f
    | some (target, restartTo) =>
      let ssthresh := Nat.max 2 (min f.cwnd target)
      { f with
        ssthresh := ssthresh
        cwnd := min f.max ssthresh
        growth := 0
        restartTo := restartTo
        lastLossCut := if undoable then f.lastLossCut else 0
        lastLossSSThresh := if undoable then f.lastLossSSThresh else 0
        cwnd_le := Nat.min_le_left _ _ }

def SendFlow.undoLoss (f : SendFlow) : Bool × SendFlow :=
  let cut := f.lastLossCut
  let f := { f with lastLossCut := 0 }
  if cut ≤ f.cwnd then (false, f)
  else
    (true, { f with
      cwnd := min f.max cut
      ssthresh := if f.ssthresh < f.lastLossSSThresh then f.lastLossSSThresh else f.ssthresh
      growth := 0
      cwnd_le := Nat.min_le_left _ _ })

-- What the congestion window's own bookkeeping leaves alone: the configured
-- maximum and all that only the peer's feedback changes.
structure SendFlow.Steady (f f' : SendFlow) : Prop where
  max : f'.max = f.max
  credit : f'.credit = f.credit
  feedbackNo : f'.feedbackNo = f.feedbackNo

theorem SendFlow.Steady.refl (f : SendFlow) : f.Steady f :=
  ⟨rfl, rfl, rfl⟩

theorem SendFlow.Steady.trans {f f₁ f' : SendFlow} (h : f.Steady f₁) (h' : f₁.Steady f') :
    f.Steady f' :=
  ⟨h'.max.trans h.max, h'.credit.trans h.credit, h'.feedbackNo.trans h.feedbackNo⟩

theorem steady_observeRTT (f : SendFlow) (sample : ℕ) : f.Steady (f.observeRTT sample) := by
  unfold SendFlow.observeRTT
  split_ifs <;> exact ⟨rfl, rfl, rfl⟩

theorem steady_restart (f : SendFlow) : f.Steady f.restart := by
  unfold SendFlow.restart
  split_ifs <;> exact ⟨rfl, rfl, rfl⟩

theorem steady_acknowledged (f : SendFlow) (n : ℕ) : f.Steady (f.acknowledged n) := by
  refine (steady_restart f).trans ?_
  unfold SendFlow.acknowledged
  dsimp only
  split_ifs <;> exact ⟨rfl, rfl, rfl⟩

theorem steady_undoLoss (f : SendFlow) : f.Steady f.undoLoss.2 := by
  unfold SendFlow.undoLoss
  dsimp only
  split_ifs <;> exact ⟨rfl, rfl, rfl⟩

theorem steady_loss (f : SendFlow) (now rtt : ℕ) (undoable : Bool) (bdp : ℕ) :
    f.Steady (f.loss now rtt undoable bdp) := by
  unfold SendFlow.loss
  dsimp only
  split
  · exact .refl f
  · split
    · cases undoable <;> exact ⟨rfl, rfl, rfl⟩
    · cases undoable <;> exact ⟨rfl, rfl, rfl⟩

theorem window_le_max (f : SendFlow) : f.window ≤ f.max :=
  (Nat.min_le_left _ _).trans f.cwnd_le

theorem max_newSendFlow_le (maximum : ℕ) (automatic westwood wide : Bool) :
    (newSendFlow maximum automatic westwood wide).max ≤ deliveryLimitFor wide :=
  Nat.min_le_right _ _

end UdpCustom.Flow
