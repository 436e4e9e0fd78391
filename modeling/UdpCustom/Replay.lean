import UdpCustom.Lib.BitWindow

namespace UdpCustom.Replay

def replayWindowPackets : ℕ := 4096
def replayWindowWords : ℕ := replayWindowPackets / 64

def zeroWindow : List (BitVec 64) := List.replicate replayWindowWords 0

-- Bit `i` of the window stands for packet number `maxSeq - i`. The filter
-- starts with an empty window, and nothing is recorded before `seenMax`.
structure ReplayFilter where
  maxSeq : ℕ
  seenMax : Bool
  window : List (BitVec 64)
  length_window : window.length = replayWindowWords
  fresh : seenMax = false → window = zeroWindow
  deriving DecidableEq

def ReplayFilter.new : ReplayFilter where
  maxSeq := 0
  seenMax := false
  window := zeroWindow
  length_window := by simp [zeroWindow]
  fresh := fun _ => rfl

-- The window after `maxSeq` has moved up by `diff`.
def slideWindow (window : List (BitVec 64)) (diff : ℕ) : List (BitVec 64) :=
  if replayWindowPackets ≤ diff then zeroWindow else BitWindow.slide diff diff window

theorem length_slideWindow {window : List (BitVec 64)} (diff : ℕ)
    (h : window.length = replayWindowWords) :
    (slideWindow window diff).length = replayWindowWords := by
  unfold slideWindow
  split
  · simp [zeroWindow]
  · rw [BitWindow.length_slide, h]
    rintro rfl
    simp [replayWindowWords, replayWindowPackets] at h

def ReplayFilter.seen (rf : ReplayFilter) (seq : ℕ) : Bool :=
  if seq = 0 then true
  else if rf.seenMax = false then false
  else if rf.maxSeq < seq then false
  else if replayWindowPackets ≤ rf.maxSeq - seq then true
  else BitWindow.bit rf.window (rf.maxSeq - seq)

def ReplayFilter.acceptLocked (rf : ReplayFilter) (seq : ℕ) : Bool × ReplayFilter :=
  if seq = 0 then (false, rf)
  else if rf.seenMax = false then
    (true, {
      maxSeq := seq
      seenMax := true
      window := rf.window.set 0 1
      length_window := by simp [rf.length_window]
      fresh := by simp })
  else if rf.maxSeq < seq then
    (true, {
      maxSeq := seq
      seenMax := true
      window := BitWindow.setBit (slideWindow rf.window (seq - rf.maxSeq)) 0
      length_window := by simp [length_slideWindow _ rf.length_window]
      fresh := by simp })
  else if replayWindowPackets ≤ rf.maxSeq - seq then (false, rf)
  else if BitWindow.bit rf.window (rf.maxSeq - seq) then (false, rf)
  else
    (true, {
      maxSeq := rf.maxSeq
      seenMax := true
      window := BitWindow.setBit rf.window (rf.maxSeq - seq)
      length_window := by simp [rf.length_window]
      fresh := by simp })

def ReplayFilter.accept (rf : ReplayFilter) (seq : ℕ) : Bool × ReplayFilter :=
  rf.acceptLocked seq

def ReplayFilter.remove (rf : ReplayFilter) (seq : ℕ) : ReplayFilter :=
  if seq = 0 then rf
  else if h : rf.seenMax = false ∨ rf.maxSeq < seq ∨ replayWindowPackets ≤ rf.maxSeq - seq then rf
  else {
    maxSeq := rf.maxSeq
    seenMax := rf.seenMax
    window := BitWindow.clearBit rf.window (rf.maxSeq - seq)
    length_window := by simp [rf.length_window]
    fresh := fun hs => absurd (Or.inl hs) h }

def ReplayFilter.checkAndAdd (rf : ReplayFilter) (seq : ℕ) : Bool × ReplayFilter :=
  let accepted := rf.acceptLocked seq
  (!accepted.1, accepted.2)

inductive Call
  | accept (seq : ℕ)
  | checkAndAdd (seq : ℕ)
  | seen (seq : ℕ)
  | remove (seq : ℕ)
  deriving DecidableEq, Repr

-- One call with its result; `Remove` returns nothing.
def ReplayFilter.call (rf : ReplayFilter) : Call → Option Bool × ReplayFilter
  | .accept seq => let accepted := rf.accept seq; (some accepted.1, accepted.2)
  | .checkAndAdd seq => let checked := rf.checkAndAdd seq; (some checked.1, checked.2)
  | .seen seq => (some (rf.seen seq), rf)
  | .remove seq => (none, rf.remove seq)

end UdpCustom.Replay
