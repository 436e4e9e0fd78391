import UdpCustom.Lib.Intervals
import UdpCustom.Lib.Decimal
import UdpCustom.Lib.WhiteSpace
import Mathlib.Data.List.Sort

-- Sets of ports: the merged intervals of a list, the lookups on them, and their text.
namespace UdpCustom.Ports

open WhiteSpace

variable {sorted : List ℤ}

abbrev Text := List UInt8

abbrev PortInterval := Intervals.Interval

-- The loop over a sorted list with the interval that is being extended.
def mergeLoop (lo hi : ℤ) : List ℤ → List PortInterval
  | [] => [⟨lo, hi⟩]
  | p :: rest =>
      if p = hi then mergeLoop lo hi rest
      else if p = hi + 1 then mergeLoop lo p rest
      else ⟨lo, hi⟩ :: mergeLoop p p rest

def merge : List ℤ → List PortInterval
  | [] => []
  | p :: rest => mergeLoop p p rest

-- Over a sorted list the next port repeats the last one, follows it, or leaves a gap.
theorem mergeLoop_induction {motive : ℤ → ℤ → List ℤ → List PortInterval → Prop}
    (nil : ∀ lo hi, lo ≤ hi → motive lo hi [] [⟨lo, hi⟩])
    (same : ∀ lo hi rest out, lo ≤ hi → motive lo hi rest out → motive lo hi (hi :: rest) out)
    (next : ∀ lo hi rest out, lo ≤ hi → motive lo (hi + 1) rest out → motive lo hi ((hi + 1) :: rest) out)
    (gap : ∀ lo hi p rest out, lo ≤ hi → hi + 1 < p → motive p p rest out →
      motive lo hi (p :: rest) (⟨lo, hi⟩ :: out))
    {lo hi : ℤ} {rest : List ℤ} (hlohi : lo ≤ hi) (h : (hi :: rest).Pairwise (· ≤ ·)) :
    motive lo hi rest (mergeLoop lo hi rest) := by
  induction rest generalizing lo hi with
  | nil => exact nil lo hi hlohi
  | cons p rest ih =>
      obtain ⟨hhead, htail⟩ := List.pairwise_cons.1 h
      have hp := hhead p List.mem_cons_self
      unfold mergeLoop
      split_ifs with hsame hnext
      · subst hsame
        exact same lo p rest _ hlohi (ih hlohi htail)
      · subst hnext
        exact next lo hi rest _ hlohi (ih (by omega) htail)
      · exact gap lo hi p rest _ hlohi (by omega) (ih le_rfl htail)

theorem separated_mergeLoop {lo hi : ℤ} {rest : List ℤ} (hlohi : lo ≤ hi)
    (h : (hi :: rest).Pairwise (· ≤ ·)) :
    Intervals.Separated (mergeLoop lo hi rest) ∧ ∀ iv ∈ mergeLoop lo hi rest, lo ≤ iv.lo := by
  refine mergeLoop_induction (motive := fun lo _ _ out => Intervals.Separated out ∧ ∀ iv ∈ out, lo ≤ iv.lo)
    ?nil ?same ?next ?gap hlohi h
  case nil =>
    intro lo hi hlohi
    refine ⟨⟨by simpa using hlohi, List.pairwise_singleton _ _⟩, fun iv hiv => ?_⟩
    rw [List.mem_singleton.1 hiv]
  case same =>
    intro lo hi rest out _ ih
    exact ih
  case next =>
    intro lo hi rest out _ ih
    exact ih
  case gap =>
    intro lo hi p rest out hlohi hgap ih
    refine ⟨ih.1.cons hlohi fun iv hiv => hgap.trans_le (ih.2 iv hiv), fun iv hiv => ?_⟩
    rcases List.mem_cons.1 hiv with rfl | hiv
    · exact le_rfl
    · have hle := ih.2 iv hiv
      omega

theorem separated_merge (h : sorted.Pairwise (· ≤ ·)) :
    Intervals.Separated (merge sorted) := by
  cases sorted with
  | nil => exact ⟨nofun, List.Pairwise.nil⟩
  | cons p rest => exact (separated_mergeLoop le_rfl h).1

theorem contains_mergeLoop {lo hi : ℤ} {rest : List ℤ} (hlohi : lo ≤ hi)
    (h : (hi :: rest).Pairwise (· ≤ ·)) (q : ℤ) :
    (∃ iv ∈ mergeLoop lo hi rest, iv.Contains q) ↔ lo ≤ q ∧ q ≤ hi ∨ q ∈ rest := by
  refine mergeLoop_induction
    (motive := fun lo hi rest out => (∃ iv ∈ out, iv.Contains q) ↔ lo ≤ q ∧ q ≤ hi ∨ q ∈ rest)
    ?nil ?same ?next ?gap hlohi h
  case nil =>
    intro lo hi _
    simp [Intervals.Interval.Contains]
  case same =>
    intro lo hi rest out hlohi ih
    rw [ih, List.mem_cons]
    constructor
    · rintro (hin | hrest)
      · exact .inl hin
      · exact .inr (.inr hrest)
    · rintro (hin | rfl | hrest)
      · exact .inl hin
      · exact .inl ⟨hlohi, le_rfl⟩
      · exact .inr hrest
  case next =>
    intro lo hi rest out hlohi ih
    rw [ih, List.mem_cons]
    constructor
    · rintro (hin | hrest)
      · by_cases hq : q = hi + 1
        · exact .inr (.inl hq)
        · exact .inl ⟨hin.1, by omega⟩
      · exact .inr (.inr hrest)
    · rintro (hin | rfl | hrest)
      · exact .inl ⟨hin.1, by omega⟩
      · exact .inl ⟨by omega, le_rfl⟩
      · exact .inr hrest
  case gap =>
    intro lo hi p rest out hlohi hgap ih
    simp only [List.mem_cons, exists_eq_or_imp, ih]
    unfold Intervals.Interval.Contains
    constructor
    · rintro (hin | hin | hrest)
      · exact .inl hin
      · exact .inr (.inl (by omega))
      · exact .inr (.inr hrest)
    · rintro (hin | rfl | hrest)
      · exact .inl hin
      · exact .inr (.inl ⟨le_rfl, le_rfl⟩)
      · exact .inr (.inr hrest)

theorem mem_elements_merge (h : sorted.Pairwise (· ≤ ·)) {q : ℤ} :
    q ∈ Intervals.elements (merge sorted) ↔ q ∈ sorted := by
  rw [Intervals.mem_elements]
  cases sorted with
  | nil => simp [merge]
  | cons p rest =>
      rw [merge, contains_mergeLoop le_rfl h, List.mem_cons]
      exact or_congr_left ⟨fun hq => le_antisymm hq.2 hq.1, fun hq => ⟨hq.ge, hq.le⟩⟩

-- A range as NewPortRange makes it.
structure PortRange where
  intervals : List PortInterval
  total : ℤ
  separated : Intervals.Separated intervals
  ports : ∀ p ∈ Intervals.elements intervals, 1 ≤ p ∧ p ≤ 65535
  total_eq : total = Intervals.width intervals
  total_pos : 0 < total

inductive RangeError
  | noPorts
  | outOfRange
  deriving DecidableEq

theorem width_merge_pos (hne : sorted ≠ []) (h : sorted.Pairwise (· ≤ ·)) :
    0 < Intervals.width (merge sorted) := by
  obtain ⟨p, hp⟩ := List.exists_mem_of_ne_nil sorted hne
  have hlen := List.length_pos_of_mem ((mem_elements_merge h).2 hp)
  rw [← (separated_merge h).length_elements]
  exact_mod_cast hlen

theorem bounds_of_sorted (h : sorted.Pairwise (· ≤ ·))
    (hbounds : ¬(sorted.headD 0 < 1 ∨ 65535 < sorted.getLastD 0)) {p : ℤ} (hp : p ∈ sorted) :
    1 ≤ p ∧ p ≤ 65535 := by
  obtain ⟨hhead, hlast⟩ := not_or.1 hbounds
  constructor
  · cases sorted with
    | nil => cases hp
    | cons q rest =>
        rcases List.mem_cons.1 hp with rfl | hmem
        · exact not_lt.1 hhead
        · have hle := (List.pairwise_cons.1 h).1 p hmem
          exact (not_lt.1 hhead).trans hle
  · rcases List.eq_nil_or_concat sorted with rfl | ⟨front, q, rfl⟩
    · cases hp
    · have hq : q ≤ 65535 := by simpa using hlast
      rw [List.concat_eq_append] at h hp
      rcases List.mem_append.1 hp with hmem | hmem
      · exact ((List.pairwise_append.1 h).2.2 p hmem q (List.mem_singleton.2 rfl)).trans hq
      · exact (List.mem_singleton.1 hmem).le.trans hq

def newPortRange (ports : List ℤ) : Except RangeError PortRange :=
  if hne : ports = [] then .error .noPorts
  else
    let sorted := ports.insertionSort (· ≤ ·)
    have hsorted : sorted.Pairwise (· ≤ ·) := List.pairwise_insertionSort _ _
    have hsome : sorted ≠ [] := fun hnil => hne (List.perm_nil.1 (hnil ▸ (List.perm_insertionSort _ _).symm))
    if hbounds : sorted.headD 0 < 1 ∨ 65535 < sorted.getLastD 0 then .error .outOfRange
    else .ok
      { intervals := merge sorted
        total := Intervals.width (merge sorted)
        separated := separated_merge hsorted
        ports := fun _ hp => bounds_of_sorted hsorted hbounds ((mem_elements_merge hsorted).1 hp)
        total_eq := rfl
        total_pos := width_merge_pos hsome hsorted }

def PortRange.contains (pr : PortRange) (port : ℤ) : Bool :=
  BinarySearch.search (Intervals.compare port) pr.intervals

def PortRange.portAt (pr : PortRange) (i : ℤ) : ℤ :=
  if pr.total = 0 then 0
  else
    let i := if i < 0 then 0 else i
    let i := if pr.total ≤ i then pr.total - 1 else i
    (Intervals.nth pr.intervals i).getD ((pr.intervals.getLast?.map (·.hi)).getD 0)

-- An interval as a port or as two with a separator between them.
def intervalToken (sep : Text) (iv : PortInterval) : Text :=
  if iv.lo = iv.hi then Decimal.itoa iv.lo else Decimal.itoa iv.lo ++ sep ++ Decimal.itoa iv.hi

def comma : UInt8 := 44

def dash : UInt8 := 45

def PortRange.string (pr : PortRange) : Text :=
  if pr.intervals = [] then [] else [comma].intercalate (pr.intervals.map (intervalToken [dash]))

def formatPortList (ports : List ℤ) : Text :=
  match newPortRange ports with
  | .error _ => []
  | .ok pr => pr.string

inductive SpecError
  | emptySpec
  | emptySegment (spec : Text)
  | invalidRange (seg : Text)
  | outOfRange (seg : Text)
  | startAfterEnd (lo hi : ℤ) (seg : Text)
  | invalidPort (seg : Text)
  | portOutOfRange (p : ℤ)
  | noPorts (spec : Text)
  deriving DecidableEq

-- `seen` holds the ports of the list.
def addPort (ports : List ℤ) (p : ℤ) : List ℤ :=
  if p ∈ ports then ports else ports ++ [p]

def parseRange (ports : List ℤ) (seg : Text) (i : ℕ) : Except SpecError (List ℤ) :=
  match Decimal.atoi (trimSpace (seg.take i)), Decimal.atoi (trimSpace (seg.drop (i + 1))) with
  | some lo, some hi =>
      if lo < 1 ∨ 65535 < hi then .error (.outOfRange seg)
      else if hi < lo then .error (.startAfterEnd lo hi seg)
      else .ok ((Intervals.Interval.elements ⟨lo, hi⟩).foldl addPort ports)
  | _, _ => .error (.invalidRange seg)

def parsePort (ports : List ℤ) (seg : Text) : Except SpecError (List ℤ) :=
  match Decimal.atoi seg with
  | none => .error (.invalidPort seg)
  | some p => if p < 1 ∨ 65535 < p then .error (.portOutOfRange p) else .ok (addPort ports p)

-- The body of the loop over the segments.
def parseSegment (spec : Text) (ports : List ℤ) (seg : Text) : Except SpecError (List ℤ) :=
  let seg := trimSpace seg
  if seg = [] then .error (.emptySegment spec)
  else
    match seg.findIdx? (· = dash) with
    | some i => parseRange ports seg i
    | none => parsePort ports seg

def parsePortRangeSpec (spec : Text) : Except SpecError (List ℤ) :=
  let spec := trimSpace spec
  if spec = [] then .error .emptySpec
  else
    match (spec.splitOn comma).foldlM (parseSegment spec) [] with
    | .error e => .error e
    | .ok ports => if ports = [] then .error (.noPorts spec) else .ok (ports.insertionSort (· ≤ ·))

end UdpCustom.Ports
