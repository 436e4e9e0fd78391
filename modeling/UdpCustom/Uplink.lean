import UdpCustom.Mtu

-- The client's uplink pump: reads of the local connection gathered in an
-- accumulator and cut into records.
namespace UdpCustom.Uplink

open UdpCustom.Frame UdpCustom.Mtu

-- What the session answers to one record of a flush: the cap it holds when the
-- record is cut, and whether `sendRecord` succeeds.
structure RecordEnv where
  cap : SendCap
  sent : Bool

inductive ReadResult
  -- `available` bytes were there to read; the cap is the one tested after the read
  | data (available : Bytes) (cap : SendCap) (env : ℕ → RecordEnv)
  | timeout (env : ℕ → RecordEnv)
  | ended
  -- the session was found closed at the head of the loop
  | closed

inductive Stop
  | running
  | localEnded
  | sendFailed
  | sessionClosed
  deriving DecidableEq, Repr

-- The payloads passed to `sendRecord`, and whether none of them failed.
structure Flushed where
  records : List Bytes
  ok : Bool

-- `sendData`: the cap is re-read for each record. The fuel is the number of
-- bytes, one record taking at least one.
def sendData (fec : Bool) (env : ℕ → RecordEnv) : (fuel i : ℕ) → Bytes → Flushed
  | 0, _, _ => { records := [], ok := true }
  | fuel + 1, i, payload =>
    if payload = [] then { records := [], ok := true }
    else
      let n := min ((env i).cap.maxPayload fec) payload.length
      if (env i).sent then
        let rest := sendData fec env fuel (i + 1) (payload.drop n)
        { records := payload.take n :: rest.records, ok := rest.ok }
      else { records := [payload.take n], ok := false }

def flushUplink (fec : Bool) (env : ℕ → RecordEnv) (acc : Bytes) : Flushed :=
  sendData fec env acc.length 0 acc

def bufSize : ℕ := (effectivePayloadCap udpcMaxPkt).toNat

-- What the pump has done: the bytes `Read` returned, the payloads passed to
-- `sendRecord`, and why it stopped.
structure Pumped where
  read : Bytes
  sent : List Bytes
  stop : Stop

def Pumped.after (read : Bytes) (sent : List Bytes) (p : Pumped) : Pumped :=
  { read := read ++ p.read, sent := sent ++ p.sent, stop := p.stop }

-- One turn of the loop per read. A read fills at most the free tail of the
-- buffer, and a read of nothing without an error starts the next turn.
def localToRemote (fec : Bool) : List ReadResult → Bytes → Pumped
  | [], _ => { read := [], sent := [], stop := .running }
  | .closed :: _, _ => { read := [], sent := [], stop := .sessionClosed }
  | .ended :: _, _ => { read := [], sent := [], stop := .localEnded }
  | .timeout env :: rest, acc =>
    let f := flushUplink fec env acc
    if f.ok then (localToRemote fec rest []).after [] f.records
    else { read := [], sent := f.records, stop := .sendFailed }
  | .data available cap env :: rest, acc =>
    let got := available.take (bufSize - acc.length)
    if got = [] then localToRemote fec rest acc
    else
      let gathered := acc ++ got
      if cap.maxPayload fec ≤ gathered.length then
        let f := flushUplink fec env gathered
        if f.ok then (localToRemote fec rest []).after got f.records
        else { read := got, sent := f.records, stop := .sendFailed }
      else (localToRemote fec rest gathered).after got []

-- How many bytes the reads have gathered since the last flush.
def unflushed (fec : Bool) : List ReadResult → ℕ → ℕ
  | [], n => n
  | .closed :: _, n => n
  | .ended :: _, n => n
  | .timeout _ :: rest, _ => unflushed fec rest 0
  | .data available cap _ :: rest, n =>
    let got := min (bufSize - n) available.length
    if got = 0 then unflushed fec rest n
    else if cap.maxPayload fec ≤ n + got then unflushed fec rest 0
    else unflushed fec rest (n + got)

def ReadResult.goesOn : ReadResult → Bool
  | .data .. => true
  | .timeout _ => true
  | .ended => false
  | .closed => false

-- The reads of a loop, newest first: after the last data there was a timeout, or
-- that data filled a record.
def Settled (fec : Bool) : List ReadResult → Prop
  | [] => True
  | .timeout _ :: _ => True
  | .data available cap _ :: older =>
    if available = [] then Settled fec older
    else
      let gathered := unflushed fec older.reverse 0
      cap.maxPayload fec ≤ gathered + min (bufSize - gathered) available.length
  | .ended :: older => Settled fec older
  | .closed :: older => Settled fec older

end UdpCustom.Uplink
