import UdpCustom.Delivery

-- The payload of a SACK record: the receive credit and the admission words
-- above the cumulative Ack.
namespace UdpCustom.Sack

open UdpCustom.Frame UdpCustom.Delivery

def sackWordsNarrow : ℕ := 8

def sackMaxWords (wide : Bool) : ℕ :=
  if wide then sackWordsWide else sackWordsNarrow

-- How many of the first words are left once trailing zero words are trimmed.
def trimWords (words : List (BitVec 64)) : ℕ → ℕ
  | 0 => 0
  | n + 1 => if words.getD n 0 = 0 then trimWords words n else n + 1

def encodeSACKWords (credit : ℕ) (words : List (BitVec 64)) (maxWords : ℕ) : Bytes :=
  BigEndian.put 2 credit ++
    (words.take (trimWords words maxWords)).flatMap fun word => BigEndian.put 8 word.toNat

-- The same payload with the first `n` words, however many zeros end it.
def sackPayload (credit : ℕ) (words : List (BitVec 64)) (n : ℕ) : Bytes :=
  BigEndian.put 2 credit ++ (words.take n).flatMap fun word => BigEndian.put 8 word.toNat

def sackCredit (data : Bytes) : ℕ :=
  fieldAt data 0 2

def sackWords (data : Bytes) : List (BitVec 64) :=
  (List.range ((data.length - 2) / 8)).map fun i => BitVec.ofNat 64 (fieldAt data (2 + i * 8) 8)

-- `bits.Len64`.
def len64 (word : BitVec 64) : ℕ :=
  if word = 0 then 0 else word.toNat.log2 + 1

end UdpCustom.Sack
