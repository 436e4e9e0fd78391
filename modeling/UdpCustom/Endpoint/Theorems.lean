import Mathlib.Data.List.Find
import UdpCustom.Endpoint.Glob

namespace UdpCustom.Endpoint

open UdpCustom.Frame Ascii WhiteSpace

variable {T : Text} {pattern endpoint host port : Bytes}

-- Which patterns the allow list is meant to admit an endpoint by.
def Names (T : Text) (pattern : Bytes) (network : Network) (host port : Bytes) : Prop :=
  ∃ pHost pPort, splitHostPort (parseTargetNetworkAndAddr T pattern).2 = .ok (pHost, pPort) ∧
    (parseTargetNetworkAndAddr T pattern).1 = network ∧
    Expands (T.toLower pHost) (T.toLower host) ∧ Expands pPort port

def NamesPort (T : Text) (pattern : Bytes) : Prop :=
  ∃ pHost pPort, splitHostPort (parseTargetNetworkAndAddr T pattern).2 = .ok (pHost, pPort)

theorem names_of_match (hport : NamesPort T pattern)
    (hsplit : splitHostPort (parseTargetNetworkAndAddr T endpoint).2 = .ok (host, port))
    (h : matchTargetPattern T pattern endpoint = true) :
    Names T pattern (parseTargetNetworkAndAddr T endpoint).1 host port := by
  obtain ⟨pHost, pPort, hp⟩ := hport
  unfold matchTargetPattern at h
  dsimp only at h
  rw [hp, hsplit] at h
  split_ifs at h with hnet
  obtain ⟨hhost, hport⟩ := Bool.and_eq_true_iff.1 h
  exact ⟨pHost, pPort, hp, not_not.1 hnet, expands_of_wildcardMatch hhost,
    expands_of_wildcardMatch hport⟩

-- Without a port of its own the pattern is matched against host and port as one string.
theorem match_of_not_namesPort (hport : ¬NamesPort T pattern) :
    matchTargetPattern T pattern endpoint = true ↔
      (parseTargetNetworkAndAddr T endpoint).1 = (parseTargetNetworkAndAddr T pattern).1 ∧
      wildcardMatch (T.toLower (parseTargetNetworkAndAddr T pattern).2)
        (T.toLower (parseTargetNetworkAndAddr T endpoint).2) = true := by
  unfold matchTargetPattern
  dsimp only
  cases hp : splitHostPort (parseTargetNetworkAndAddr T pattern).2 with
  | ok split => exact absurd ⟨split.1, split.2, hp⟩ hport
  | error e =>
      dsimp only
      split_ifs with hnet
      · exact iff_of_false not_false fun h => hnet h.1.symm
      · exact (and_iff_right (not_not.1 hnet).symm).symm

-- An endpoint stays the same request when its stars are replaced by a plain letter.
section Unstar

variable {c : UInt8} {s : Bytes}

def plain (c : UInt8) : Bool := c ≠ ascii '*' ∧ c ≠ ascii 'x'

theorem unstar_of_ne {b : UInt8} (h : b ≠ ascii '*') : unstar b = b :=
  if_neg h

theorem unstar_eq_iff (hc : plain c = true) {b : UInt8} : unstar b = c ↔ b = c := by
  obtain ⟨hstar, hx⟩ := of_decide_eq_true hc
  unfold unstar
  split_ifs with hb
  · rw [hb]
    exact iff_of_false (Ne.symm hx) (Ne.symm hstar)
  · exact Iff.rfl

theorem star_notMem_unstar : ascii '*' ∉ s.map unstar := by
  rw [List.mem_map]
  rintro ⟨b, -, hb⟩
  unfold unstar at hb
  split_ifs at hb with hstar
  · exact absurd hb (by decide)
  · exact hstar hb

theorem isPrefixOf_unstar {lit : Bytes} (hlit : lit.all plain = true) :
    lit.isPrefixOf (s.map unstar) = lit.isPrefixOf s := by
  induction lit generalizing s with
  | nil => rfl
  | cons c lit ih =>
      rw [List.all_cons, Bool.and_eq_true] at hlit
      obtain ⟨hc, hlit⟩ := hlit
      cases s with
      | nil => rfl
      | cons b s =>
          have hb : (c == unstar b) = (c == b) := by
            rw [Bool.eq_iff_iff, beq_iff_eq, beq_iff_eq, eq_comm, unstar_eq_iff hc, eq_comm]
          rw [List.map_cons, List.isPrefixOf, List.isPrefixOf, hb, ih hlit]

theorem dropCodes_unstar {codes : List Bytes} (hcodes : ∀ code ∈ codes, code.all plain = true)
    (n : ℕ) (s : Bytes) : dropCodes codes n (s.map unstar) = (dropCodes codes n s).map unstar := by
  induction n generalizing s with
  | zero => rfl
  | succ n ih =>
      have hfind : codes.find? (·.isPrefixOf (s.map unstar)) = codes.find? (·.isPrefixOf s) :=
        List.find?_congr fun code hcode => isPrefixOf_unstar (hcodes code hcode)
      rw [dropCodes, dropCodes, hfind]
      cases codes.find? (·.isPrefixOf s) with
      | none => rfl
      | some code =>
          dsimp only
          rw [← List.map_drop, ih]

theorem trimSpace_unstar (s : Bytes) : trimSpace (s.map unstar) = (trimSpace s).map unstar := by
  rw [trimSpace, trimSpace, trimLeft, trimLeft, trimRight, trimRight, List.length_map,
    dropCodes_unstar (by decide), List.length_map, ← List.map_reverse,
    dropCodes_unstar (by decide), List.map_reverse]

theorem parseTargetNetworkAndAddr_unstar :
    parseTargetNetworkAndAddr T (endpoint.map unstar) =
      ((parseTargetNetworkAndAddr T endpoint).1,
        (parseTargetNetworkAndAddr T endpoint).2.map unstar) := by
  have hudp : (text "udp://").all plain = true := by decide
  have htcp : (text "tcp://").all plain = true := by decide
  unfold parseTargetNetworkAndAddr
  dsimp only
  rw [trimSpace_unstar, T.toLower_unstar, isPrefixOf_unstar hudp, isPrefixOf_unstar htcp,
    ← List.map_drop, ← List.map_drop]
  split_ifs
  · rfl
  · rfl
  · rfl

theorem findIdx?_unstar (hc : plain c = true) :
    (s.map unstar).findIdx? (· = c) = s.findIdx? (· = c) := by
  rw [List.findIdx?_map]
  congr 1
  funext b
  exact decide_eq_decide.2 (unstar_eq_iff hc)

theorem indexByte_unstar (hc : plain c = true) : indexByte (s.map unstar) c = indexByte s c :=
  findIdx?_unstar hc

theorem lastIndexByte_unstar (hc : plain c = true) : lastIndexByte (s.map unstar) c = lastIndexByte s c := by
  unfold lastIndexByte
  rw [← List.map_reverse, findIdx?_unstar hc, List.length_map]

def unstarSplit (hp : Bytes × Bytes) : Bytes × Bytes := (hp.1.map unstar, hp.2.map unstar)

theorem splitAt_unstar {i j k : ℕ} :
    splitAt (s.map unstar) (host.map unstar) i j k = (splitAt s host i j k).map unstarSplit := by
  unfold splitAt
  rw [← List.map_drop, ← List.map_drop, ← List.map_drop,
    indexByte_unstar (show plain (ascii '[') = true by decide),
    indexByte_unstar (show plain (ascii ']') = true by decide)]
  split_ifs
  · rfl
  · rfl
  · rfl

theorem splitHostPort_unstar :
    splitHostPort (s.map unstar) = (splitHostPort s).map unstarSplit := by
  have hcolon : plain (ascii ':') = true := by decide
  have hopen : plain (ascii '[') = true := by decide
  have hclose : plain (ascii ']') = true := by decide
  have hget : ∀ {o : Option UInt8} {c : UInt8}, plain c = true → (o.map unstar = some c ↔ o = some c) := by
    intro o c hc
    cases o with
    | none => exact Iff.rfl
    | some b => simp only [Option.map_some, Option.some.injEq, unstar_eq_iff hc]
  unfold splitHostPort
  rw [lastIndexByte_unstar hcolon, indexByte_unstar hclose, List.head?_map, List.length_map]
  simp only [hget hopen, List.getElem?_map, hget hcolon, ← List.map_take, ← List.map_drop,
    indexByte_unstar hcolon, splitAt_unstar]
  cases lastIndexByte s (ascii ':') with
  | none => rfl
  | some i =>
      dsimp only
      split_ifs
      · cases indexByte s (ascii ']') with
        | none => rfl
        | some close =>
            dsimp only
            split_ifs
            · rfl
            · rfl
            · rfl
            · rfl
      · rfl
      · rfl

end Unstar

-- The pattern admits only what it names exactly if it names a port, or if as a whole it
-- expands to no address with one.
theorem allow_list_sound_iff (T : Text) (pattern : Bytes) :
    (∀ endpoint host port,
        splitHostPort (parseTargetNetworkAndAddr T endpoint).2 = .ok (host, port) →
        matchTargetPattern T pattern endpoint = true →
        Names T pattern (parseTargetNetworkAndAddr T endpoint).1 host port) ↔
      NamesPort T pattern ∨ ∀ endpoint host port,
        splitHostPort (parseTargetNetworkAndAddr T endpoint).2 = .ok (host, port) →
        (parseTargetNetworkAndAddr T endpoint).1 = (parseTargetNetworkAndAddr T pattern).1 →
        ¬Expands (T.toLower (parseTargetNetworkAndAddr T pattern).2)
          (T.toLower (parseTargetNetworkAndAddr T endpoint).2) := by
  constructor
  · intro hsound
    refine or_iff_not_imp_left.2 fun hport endpoint host port hsplit hnet hexp => hport ?_
    -- the same endpoint without stars is matched
    have haddr : parseTargetNetworkAndAddr T (endpoint.map unstar) = (_, _) :=
      parseTargetNetworkAndAddr_unstar
    have hsplit' : splitHostPort (parseTargetNetworkAndAddr T (endpoint.map unstar)).2 =
        .ok (unstarSplit (host, port)) := by
      rw [haddr, splitHostPort_unstar, hsplit]
      rfl
    have hmatch : matchTargetPattern T pattern (endpoint.map unstar) = true := by
      rw [match_of_not_namesPort hport, haddr, T.toLower_unstar]
      exact ⟨hnet, wildcardMatch_of_expands star_notMem_unstar
        (Glob.Expands.map (fun c hc => unstar_of_ne hc) hexp)⟩
    obtain ⟨pHost, pPort, hp, -⟩ := hsound _ _ _ hsplit' hmatch
    exact ⟨pHost, pPort, hp⟩
  · rintro (hport | hnone) endpoint host port hsplit hmatch
    · exact names_of_match hport hsplit hmatch
    · by_cases hport : NamesPort T pattern
      · exact names_of_match hport hsplit hmatch
      · obtain ⟨hnet, hglob⟩ := (match_of_not_namesPort hport).1 hmatch
        exact absurd (expands_of_wildcardMatch hglob) (hnone endpoint host port hsplit hnet)

-- A request is let through only by a pattern of the list, and if all of them name a
-- port by one that names the endpoint's.
theorem named_of_targetAllowed {patterns : List Bytes}
    (hports : ∀ p ∈ patterns, NamesPort T (trimSpace p))
    (hsplit : splitHostPort (parseTargetNetworkAndAddr T endpoint).2 = .ok (host, port))
    (h : targetAllowed T endpoint patterns = true) :
    ∃ p ∈ patterns, Names T (trimSpace p) (parseTargetNetworkAndAddr T endpoint).1 host port := by
  obtain ⟨p, hp, hmatch⟩ := List.any_eq_true.1 h
  exact ⟨p, hp, names_of_match (hports p hp) hsplit (of_decide_eq_true hmatch).2⟩

def lowerByte (b : UInt8) : UInt8 :=
  if ascii 'A' ≤ b ∧ b ≤ ascii 'Z' then b + 32 else b

theorem lowerByte_ne_star {b : UInt8} (h : b ≠ ascii '*') : lowerByte b ≠ ascii '*' := by
  unfold lowerByte
  split_ifs with hupper
  · rintro he
    have hb : b = 10 := by
      have hsub := congrArg (· - 32) he
      simp only [UInt8.add_sub_cancel] at hsub
      exact hsub
    rw [hb] at hupper
    exact absurd hupper (by decide)
  · exact h

theorem lowerByte_unstar (b : UInt8) : lowerByte (unstar b) = unstar (lowerByte b) := by
  by_cases hb : b = ascii '*'
  · rw [hb]
    decide
  · rw [unstar_of_ne hb, unstar_of_ne (lowerByte_ne_star hb)]

theorem toLower_unstar (s : Bytes) :
    (s.map unstar).map lowerByte = (s.map lowerByte).map unstar := by
  rw [List.map_map, List.map_map]
  exact congrArg (s.map ·) (funext lowerByte_unstar)

-- `strings.ToLower` on ASCII.
def asciiText : Text where
  toLower := List.map lowerByte
  toLower_unstar := toLower_unstar

-- `*` names no port and admits every endpoint that has one.
theorem star_admits_port :
    splitHostPort (parseTargetNetworkAndAddr asciiText (text "tcp://10.0.0.1:22")).2 =
      .ok (text "10.0.0.1", text "22") ∧
    matchTargetPattern asciiText (text "*") (text "tcp://10.0.0.1:22") = true ∧
    ¬Names asciiText (text "*")
      (parseTargetNetworkAndAddr asciiText (text "tcp://10.0.0.1:22")).1
      (text "10.0.0.1") (text "22") := by
  refine ⟨by rfl, by decide +kernel, ?_⟩
  rintro ⟨pHost, pPort, h, -⟩
  have hnone : splitHostPort (parseTargetNetworkAndAddr asciiText (text "*")).2 =
      .error "missing port in address" := by rfl
  rw [hnone] at h
  cases h

end UdpCustom.Endpoint
