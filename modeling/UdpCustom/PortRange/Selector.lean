import UdpCustom.PortRange
import UdpCustom.Lib.Transition

-- The choice of a destination port for each packet, by any number of goroutines. One step
-- is one section under the lock of the selector.
namespace UdpCustom.Ports.Selector

open Transition

inductive SelectorMode
  | random
  | roundRobin
  deriving DecidableEq

def shuffleBagMaxPorts : ℤ := 4096

structure PortSelector where
  pr : Option PortRange
  mode : SelectorMode
  rr : UInt64
  bag : Option (Array UInt16)
  bagPos : ℕ
  -- history: what nextUniform has returned
  drawn : List ℤ

-- What the generator does for a draw: the exchanges of rng.Shuffle, or rng.Intn.
structure Rand where
  swaps : List (ℕ × ℕ)
  intn : ℕ

def shuffle (swaps : List (ℕ × ℕ)) (bag : Array UInt16) : Array UInt16 :=
  swaps.foldl (fun bag ij => bag.swapIfInBounds ij.1 ij.2) bag

def fillBag (pr : PortRange) (swaps : List (ℕ × ℕ)) : Array UInt16 :=
  shuffle swaps ((Intervals.elements pr.intervals).map fun p => UInt16.ofNat p.toNat).toArray

def newPortSelector (pr : Option PortRange) (mode : SelectorMode) (swaps : List (ℕ × ℕ)) :
    PortSelector where
  pr := pr
  mode := mode
  rr := 0
  bag := pr.bind fun pr =>
    if mode = .random ∧ 0 < pr.total ∧ pr.total ≤ shuffleBagMaxPorts then some (fillBag pr swaps)
    else none
  bagPos := 0
  drawn := []

-- The bag to draw from and the place in it.
def PortSelector.reshuffle (s : PortSelector) (bag : Array UInt16) (swaps : List (ℕ × ℕ)) :
    Array UInt16 × ℕ :=
  if bag.size ≤ s.bagPos then (shuffle swaps bag, 0) else (bag, s.bagPos)

def PortSelector.nextUniform (s : PortSelector) (r : Rand) : ℤ × PortSelector :=
  match s.bag with
  | none =>
      let port := (s.pr.map (·.portAt r.intn)).getD 0
      (port, { s with drawn := s.drawn ++ [port] })
  | some bag =>
      let (bag, pos) := s.reshuffle bag r.swaps
      let port := ((bag.getD pos 0).toNat : ℤ)
      (port, { s with bag := some bag, bagPos := pos + 1, drawn := s.drawn ++ [port] })

def PortSelector.next (s : PortSelector) (r : Rand) : ℤ × PortSelector :=
  match s.pr with
  | none => (0, s)
  | some pr =>
      if pr.total = 0 then (0, s)
      else
        match s.mode with
        | .roundRobin => (pr.portAt ((s.rr.toNat : ℤ) % pr.total), { s with rr := s.rr + 1 })
        | .random => s.nextUniform r

def maxAttempts : ℕ := 16

-- Weights and the numbers of rng.Float64 are only compared.
section
variable {W : Type}

-- A call of Next or NextWeighted.
inductive Call (W : Type)
  -- turn `i` of the loop, before the candidate is accepted or not
  | testing (i : ℕ) (port : ℤ) (w : W)
  -- the same turn, before the next candidate is drawn
  | drawing (i : ℕ)
  | returned (port : ℤ)
  deriving DecidableEq

structure State (W : Type) where
  selector : PortSelector
  calls : List (Call W)

inductive Label (W : Type)
  -- Next, or NextWeighted without a scorer
  | next (r : Rand)
  -- NextWeighted up to the weight of its first candidate
  | nextWeighted (r : Rand) (w : W)
  | test (c : ℕ) (u : W)
  | draw (c : ℕ) (r : Rand) (w : W)

variable [One W] [LE W] [LT W] [DecidableLE W] [DecidableLT W]

def State.nextWeighted (s : State W) (r : Rand) (w : W) : State W :=
  match s.selector.pr with
  | none => { s with calls := s.calls ++ [.returned 0] }
  | some pr =>
      if pr.total = 0 then { s with calls := s.calls ++ [.returned 0] }
      else
        let (port, selector) := s.selector.nextUniform r
        ⟨selector, s.calls ++ [if 1 ≤ w then .returned port else .testing 1 port w]⟩

def next (s : State W) : Label W → Option (State W)
  | .next r =>
      let (port, selector) := s.selector.next r
      some ⟨selector, s.calls ++ [.returned port]⟩
  | .nextWeighted r w => some (s.nextWeighted r w)
  | .test c u =>
      match s.calls[c]? with
      | some (.testing i port w) =>
          some { s with calls := s.calls.set c (if u < w then .returned port else .drawing i) }
      | _ => none
  | .draw c r w =>
      match s.calls[c]? with
      | some (.drawing i) =>
          let (port, selector) := s.selector.nextUniform r
          some ⟨selector, s.calls.set c (if i + 1 < maxAttempts then .testing (i + 1) port w else .returned port)⟩
      | _ => none

def system (pr : Option PortRange) (mode : SelectorMode) : System (State W) (Label W) where
  init s := ∃ swaps, s = ⟨newPortSelector pr mode swaps, []⟩
  next := next

end

end UdpCustom.Ports.Selector
