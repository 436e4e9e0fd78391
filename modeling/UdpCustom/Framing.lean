import UdpCustom.Frame

-- Length-prefixed messages over a byte stream, with the assembler's buffer as the
-- bytes it holds.
namespace UdpCustom.Framing

open UdpCustom.Frame

def frameHeaderSize : ℕ := 4
def maxFramedMessage : ℕ := 2 ^ 20
def maxInt : ℤ := 2 ^ 63 - 1

inductive FramingError
  | messageTooLarge (n limit : ℕ)
  | batchTooLarge
  | assemblerBroken
  -- `FrameHeaderSize+n` wraps around in a uint32, and slicing panics
  | sliceBounds
  deriving DecidableEq

def frame (msg : Bytes) : Bytes :=
  BigEndian.put frameHeaderSize msg.length ++ msg

def frames (msgs : List Bytes) : Bytes :=
  (msgs.map frame).flatten

def encodeMessage (msg : Bytes) : Except FramingError Bytes :=
  if maxFramedMessage < msg.length then .error (.messageTooLarge msg.length maxFramedMessage)
  else .ok (frame msg)

-- The size of a batch, from the `total` of the messages before.
def batchSize : ℤ → List Bytes → Except FramingError ℤ
  | total, [] => .ok total
  | total, m :: rest =>
    if maxFramedMessage < m.length then .error (.messageTooLarge m.length maxFramedMessage)
    else if maxInt - total - frameHeaderSize < m.length then .error .batchTooLarge
    else batchSize (total + frameHeaderSize + m.length) rest

def encodeMessages (msgs : List Bytes) : Except FramingError Bytes :=
  match batchSize 0 msgs with
  | .error e => .error e
  | .ok _ => .ok (frames msgs)

structure MessageAssembler where
  buf : Bytes
  maxPayload : ℕ
  broken : Bool
  deriving DecidableEq

-- The limit is a uint32.
def newMessageAssembler (maxPayload : ℕ) : MessageAssembler where
  buf := []
  maxPayload := if maxPayload = 0 then maxFramedMessage else maxPayload
  broken := false

-- The loop of `Feed`. Every turn that goes on takes at least a header off the buffer,
-- so the length of the buffer is enough fuel.
def drain (maxPayload : ℕ) : ℕ → Bytes → List Bytes → Except FramingError (List Bytes × Bytes)
  | 0, buf, msgs => .ok (msgs, buf)
  | fuel + 1, buf, msgs =>
    if buf.length < frameHeaderSize then .ok (msgs, buf)
    else
      let n := fieldAt buf 0 frameHeaderSize
      if maxPayload < n then .error (.messageTooLarge n maxPayload)
      else if buf.length < frameHeaderSize + n then .ok (msgs, buf)
      else if 2 ^ 32 ≤ frameHeaderSize + n then .error .sliceBounds
      else
        drain maxPayload fuel (buf.drop (frameHeaderSize + n))
          (msgs ++ [(buf.drop frameHeaderSize).take n])

def MessageAssembler.feed (a : MessageAssembler) (chunk : Bytes) :
    Except FramingError (List Bytes) × MessageAssembler :=
  if a.broken then (.error .assemblerBroken, a)
  else
    let buf := a.buf ++ chunk
    match drain a.maxPayload buf.length buf [] with
    | .error e => (.error e, { a with buf := [], broken := true })
    | .ok (msgs, rest) => (.ok msgs, { a with buf := rest })

def MessageAssembler.pending (a : MessageAssembler) : ℕ :=
  a.buf.length

def MessageAssembler.reset (a : MessageAssembler) : MessageAssembler :=
  { a with buf := [], broken := false }

-- The results of feeding chunks one after another.
def MessageAssembler.feedAll (a : MessageAssembler) :
    List Bytes → List (Except FramingError (List Bytes)) × MessageAssembler
  | [] => ([], a)
  | chunk :: rest =>
    let fed := a.feed chunk
    let later := fed.2.feedAll rest
    (fed.1 :: later.1, later.2)

-- The messages that end within the first `n` bytes of their encoding.
def whole : List Bytes → ℕ → List Bytes
  | [], _ => []
  | m :: rest, n => if (frame m).length ≤ n then m :: whole rest (n - (frame m).length) else []

end UdpCustom.Framing
