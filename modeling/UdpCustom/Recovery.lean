import UdpCustom.Flow
import UdpCustom.Sack

-- The records a sender keeps until they are acknowledged: everything its
-- session guards with `unackedMu`.
namespace UdpCustom.Recovery

open UdpCustom.Frame UdpCustom.Delivery UdpCustom.Flow UdpCustom.Sack

def clientMaxRetries : ℕ := 15
def rttMaxRTO : ℕ := 10000 * millisecond
def sackFastRepairMax : ℕ := 3
def retryBurstMax : ℕ := 64
def idleRetryDelay : ℤ := 10 * millisecond

-- What a subtraction of the zero time from any later one saturates at.
def maxDuration : ℤ := 2 ^ 63 - 1

-- The wire of a record is the record itself: what a retransmission repeats.
structure UnackedPkt where
  wire : UDPCFrame
  firstSent : ℕ
  sentTime : ℕ
  rto : ℕ
  sacked : Bool
  queued : Bool
  retries : ℕ

structure Outstanding where
  unacked : SeqMap UnackedPkt
  lowestOutstanding : ℕ
  flow : Option SendFlow

def Outstanding.new (flow : Option SendFlow) : Outstanding where
  unacked := ∅
  lowestOutstanding := 0
  flow := flow

-- `sendRecord` files a sealed record before it hands it to the transmit queue.
def Outstanding.file (o : Outstanding) (wire : UDPCFrame) (now rto : ℕ) : Outstanding :=
  { o with
    lowestOutstanding := if SeqMap.size o.unacked = 0 then wire.seq else o.lowestOutstanding
    unacked := o.unacked.insert wire.seq
      { wire := wire, firstSent := now, sentTime := now, rto := rto,
        sacked := false, queued := true, retries := 0 } }

def UnackedPkt.transmitted (now : ℕ) (p : UnackedPkt) : UnackedPkt :=
  { p with firstSent := if p.queued then now else p.firstSent, queued := false, sentTime := now }

def Outstanding.markTransmitted (o : Outstanding) (wires : List UDPCFrame) (now : ℕ) : Outstanding :=
  { o with
    unacked := SeqMap.modifyAll (.transmitted now) o.unacked
      ((wires.filter (·.cmd = .data)).map (·.seq)) }

-- The next rung of the backoff ladder.
def UnackedPkt.backOff (now maximumRTO : ℕ) (p : UnackedPkt) : UnackedPkt :=
  { p with retries := p.retries + 1, sentTime := now, rto := min (p.rto * 3 / 2) maximumRTO }

def undoIfSpurious (f : SendFlow) (p : UnackedPkt) (now srtt : ℕ) : Bool × SendFlow :=
  if p.retries = 0 ∨ srtt = 0 then (false, f)
  else if srtt ≤ now - p.sentTime then (false, f)
  else f.undoLoss

-- The loop over an acknowledged prefix looks for the first record that proves
-- a timeout spurious.
def retract (unacked : SeqMap UnackedPkt) (now srtt : ℕ) : List ℕ → SendFlow → SendFlow
  | [], f => f
  | seq :: rest, f =>
    match unacked.lookup seq with
    | none => retract unacked now srtt rest f
    | some p =>
      let (spurious, f) := undoIfSpurious f p now srtt
      if spurious then f else retract unacked now srtt rest f

def Outstanding.handleAck (o : Outstanding) (sendSeq ackSeq now srtt : ℕ) : Outstanding :=
  if 0 < sendSeq ∧ sendSeq ≤ ackSeq then o
  else if SeqMap.size o.unacked = 0 ∨ ackSeq < o.lowestOutstanding then o
  else
    let covered := List.range' o.lowestOutstanding (ackSeq + 1 - o.lowestOutstanding)
    let acknowledged := (covered.filter (· ∈ o.unacked)).length
    let sampled := fun f : SendFlow =>
      match o.unacked.lookup ackSeq with
      | none => f
      | some p => if p.retries = 0 ∧ p.queued = false then f.observeRTT (now - p.firstSent) else f
    let unacked := SeqMap.eraseAll o.unacked covered
    { unacked := unacked
      lowestOutstanding :=
        if SeqMap.size unacked = 0 then ackSeq + 1
        else if ackSeq + 1 ∈ unacked then ackSeq + 1
        else (SeqMap.ascending unacked).headD (2 ^ 64 - 1)
      flow := o.flow.map fun f =>
        (retract o.unacked now srtt covered (sampled f)).acknowledged acknowledged }

-- Whether `updateSACK` takes the record into account.
def validSACK (f : SendFlow) (frame : UDPCFrame) (highest : ℕ) : Bool :=
  highest ≠ 0 ∧ 2 ≤ frame.data.length ∧ frame.data.length ≤ sackWordsWidePayload ∧
    (frame.data.length - 2) % 8 = 0 ∧ frame.ack ≤ highest ∧ f.feedbackNo < frame.packetNo ∧
    ∀ i < (sackWords frame.data).length,
      (sackWords frame.data).getD i 0 = 0 ∨
        i * 64 + len64 ((sackWords frame.data).getD i 0) ≤ highest - frame.ack

-- The sequences whose admission bit is set.
def sackedSeqs (frame : UDPCFrame) : List ℕ :=
  ((List.range ((sackWords frame.data).length * 64)).filter
    (BitWindow.bit (sackWords frame.data))).map (frame.ack + 1 + ·)

def UnackedPkt.markSacked (p : UnackedPkt) : UnackedPkt :=
  { p with sacked := true }

-- A hole old enough for fast repair. A repeated repair waits longer.
def UnackedPkt.repairable (guard now : ℕ) (p : UnackedPkt) : Bool :=
  p.sacked = false ∧ p.queued = false ∧
    (if 0 < p.retries then max guard (p.rto / 4) else guard) ≤ now - p.sentTime ∧
    p.retries < clientMaxRetries

def fastRepairs (unacked : SeqMap UnackedPkt) (frame : UDPCFrame) (highest now rtt : ℕ) : List ℕ :=
  if BitWindow.ones (sackWords frame.data) < 3 then []
  else
    let horizon := min ((sackWords frame.data).length * 64) (highest - frame.ack)
    let holes := (List.range' (frame.ack + 1) horizon).filter fun seq =>
      (unacked.lookup seq).any (·.repairable (max (5 * millisecond) (rtt / 4)) now)
    holes.take sackFastRepairMax

def wiresAt (unacked : SeqMap UnackedPkt) (seqs : List ℕ) : List UDPCFrame :=
  seqs.filterMap fun seq => (unacked.lookup seq).map (·.wire)

-- `updateSACK`: the wires to repeat, and whether the feedback was taken.
def Outstanding.updateSACK (o : Outstanding) (frame : UDPCFrame) (highest now rtt : ℕ) :
    (List UDPCFrame × Bool) × Outstanding :=
  match o.flow with
  | none => (([], false), o)
  | some f =>
    if validSACK f frame highest then
      let marked := SeqMap.modifyAll UnackedPkt.markSacked o.unacked (sackedSeqs frame)
      let due := fastRepairs marked frame highest now rtt
      ((wiresAt marked due, true),
        { o with
          unacked := SeqMap.modifyAll (.backOff now rttMaxRTO) marked due
          flow := some { f with
            feedbackNo := frame.packetNo
            credit := min (sackCredit frame.data) deliveryWindowWide
            fastRepairs := f.fastRepairs + due.length } })
    else (([], false), o)

def creditProbeInterval (o : Outstanding) : ℤ × Bool :=
  match o.flow with
  | none => (0, false)
  | some f =>
    let held := SeqMap.ascending o.unacked
    let sacked := held.any fun seq => (o.unacked.lookup seq).any (·.sacked)
    let gap := held.any fun seq =>
      (o.unacked.lookup seq).any fun p => p.sacked = false ∧ p.queued = false
    if sacked ∧ gap then (25 * millisecond, true)
    else (100 * millisecond, f.credit = 0 ∨ sacked)

-- Not waiting for its first transmission, not known to have arrived, and past
-- its timeout.
def UnackedPkt.expired (now : ℕ) (p : UnackedPkt) : Bool :=
  p.queued = false ∧ p.sacked = false ∧ p.rto < now - p.sentTime

structure Retry where
  wires : List UDPCFrame
  abandoned : Bool
  delay : ℤ
  probe : Bool

def Retry.abandon : Retry where
  wires := []
  abandoned := true
  delay := 0
  probe := false

-- The time since the last probe; a fresh flow has probed at the zero time.
def sinceProbe (f : SendFlow) (now : ℕ) : ℤ :=
  match f.lastProbe with
  | none => maxDuration
  | some last => (now : ℤ) - last

-- The wait until the first frame that is not due yet times out, the next probe
-- is due, or a frame just repaired times out again.
def Outstanding.nextDelay (o : Outstanding) (repaired : SeqMap UnackedPkt) (due : List ℕ) (now : ℕ) :
    ℤ :=
  let pending := (SeqMap.ascending o.unacked).filterMap fun seq =>
    (o.unacked.lookup seq).bind fun p =>
      if p.queued ∨ p.sacked ∨ p.rto < now - p.sentTime then none
      else some ((p.rto : ℤ) - ((now : ℤ) - p.sentTime))
  let probing := if (creditProbeInterval o).2 then
      o.flow.map fun f => (creditProbeInterval o).1 - sinceProbe f now
    else none
  let backedOff := due.filterMap fun seq => (repaired.lookup seq).map fun p => (p.rto : ℤ)
  max millisecond ((pending ++ probing.toList ++ backedOff).foldl min idleRetryDelay)

def Outstanding.retryDue (o : Outstanding) (now maximumRTO rtt bdp : ℕ) : Retry × Outstanding :=
  let expired := (SeqMap.ascending o.unacked).filter fun seq =>
    (o.unacked.lookup seq).any (·.expired now)
  if expired.any fun seq => (o.unacked.lookup seq).any fun p => clientMaxRetries ≤ p.retries then
    (.abandon, o)
  else
    let probe := (creditProbeInterval o).2
    let due := expired.take retryBurstMax
    let repaired := SeqMap.modifyAll (.backOff now maximumRTO) o.unacked due
    let probed := fun f : SendFlow => if probe then { f with lastProbe := some now } else f
    let cut := fun f : SendFlow => if due = [] then f else f.loss now rtt true bdp
    ({ wires := wiresAt o.unacked due
       abandoned := false
       delay := o.nextDelay repaired due now
       probe := probe ∧ SeqMap.size o.unacked ≠ 0 },
      { o with unacked := repaired, flow := o.flow.map (cut ∘ probed) })

end UdpCustom.Recovery
