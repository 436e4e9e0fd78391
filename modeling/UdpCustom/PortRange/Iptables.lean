import UdpCustom.PortRange.Theorems
import UdpCustom.Lib.Chunks

-- The REDIRECT rules that are printed for a range, and how iptables reads them.
namespace UdpCustom.Ports.Iptables

open Ascii Chunks

def newline : UInt8 := 10

def space : UInt8 := 32

def colon : UInt8 := 58

def maxMultiport : ℕ := 15

def dnatDportsArg (tokens : List Text) : List Text :=
  (chunks maxMultiport tokens).map [comma].intercalate

def intervalTokens (pr : Option PortRange) (sep : Text) : List Text :=
  match pr with
  | none => []
  | some pr => pr.intervals.map (intervalToken sep)

def banner : Text := text "=== Iptables Port Redirection / Hopping Rules ==="

-- Without a range.
def redirectAll (internalPort : ℤ) : List Text :=
  [text "Redirecting all incoming UDP (ports 1000-65535) to local port " ++ Decimal.itoa internalPort ++
      text ":",
    [],
    text "sudo iptables -t nat -A PREROUTING -p udp --dport 1000:65535 -j REDIRECT --to-ports " ++
      Decimal.itoa internalPort]

def heading (range : Text) (internalPort : ℤ) : Text :=
  text "Redirecting incoming UDP on port range " ++ range ++ text " to local port " ++
    Decimal.itoa internalPort ++ text ":"

def redirect (internalPort : ℤ) (dports : Text) : Text :=
  text "sudo iptables -t nat -A PREROUTING -p udp -m multiport --dports " ++ dports ++
    text " -j REDIRECT --to-ports " ++ Decimal.itoa internalPort

def verify : Text := text "# Verify:  sudo iptables -t nat -L PREROUTING -n --line-numbers"

def redirectLines (internalPort : ℤ) (pr : Option PortRange) : List Text :=
  match pr with
  | none => redirectAll internalPort
  | some pr =>
      if pr.total = 0 then redirectAll internalPort
      else
        [heading pr.string internalPort, []] ++
          (dnatDportsArg (intervalTokens (some pr) [colon])).map (redirect internalPort) ++ [[], verify]

-- What is printed, every line with its end.
def generateIptables (internalPort : ℤ) (pr : Option PortRange) : Text :=
  Split.ended newline (banner :: redirectLines internalPort pr)

-- The words of the command before the ports and after them.
def matchWords : List Text :=
  ["sudo", "iptables", "-t", "nat", "-A", "PREROUTING", "-p", "udp", "-m", "multiport", "--dports"].map text

def targetWords : List Text :=
  ["-j", "REDIRECT", "--to-ports"].map text

-- The ports of a line that adds a multiport rule.
def dportsOf (line : Text) : Option Text :=
  let words := line.splitOn space
  if words.take 11 = matchWords ∧ (words.drop 12).take 3 = targetWords then words[11]? else none

def readPort (s : Text) : Option ℤ :=
  (Decimal.unsigned s).bind fun n => if n ≤ 65535 then some (n : ℤ) else none

-- A port, or two of which the first is the lower one.
def readToken (token : Text) : Option PortInterval :=
  match token.findIdx? (· = colon) with
  | none => (readPort token).map fun p => ⟨p, p⟩
  | some i =>
      match readPort (token.take i), readPort (token.drop (i + 1)) with
      | some lo, some hi => if lo < hi then some ⟨lo, hi⟩ else none
      | _, _ => none

def readDports (dports : Text) : Option (List PortInterval) :=
  (dports.splitOn comma).mapM readToken

-- The multiport rules in a text of commands.
def multiportRules (output : Text) : Option (List (List PortInterval)) :=
  ((output.splitOn newline).filterMap dportsOf).mapM readDports

def ruleMatches (p : ℤ) (rule : List PortInterval) : Bool :=
  rule.any fun iv => iv.lo ≤ p ∧ p ≤ iv.hi

-- What a rule takes of the 15 ports that multiport holds.
def slots (rule : List PortInterval) : ℕ :=
  (rule.map fun iv => if iv.lo = iv.hi then 1 else 2).sum

theorem readPort_itoa {n : ℤ} (hn : 0 ≤ n) (hle : n ≤ 65535) : readPort (Decimal.itoa n) = some n := by
  obtain ⟨m, rfl⟩ := Int.eq_ofNat_of_zero_le hn
  rw [readPort, Decimal.itoa_of_nonneg hn, Decimal.unsigned_render, Option.bind_some,
    if_pos (by omega)]
  rfl

theorem readToken_intervalToken {iv : PortInterval} (hlo : 1 ≤ iv.lo) (hle : iv.lo ≤ iv.hi)
    (hhi : iv.hi ≤ 65535) : readToken (intervalToken [colon] iv) = some iv := by
  have hlo0 : 0 ≤ iv.lo := by omega
  unfold readToken
  by_cases hsame : iv.lo = iv.hi
  · rw [intervalToken, if_pos hsame, findIdx?_itoa (by decide) hlo0]
    dsimp only
    rw [readPort_itoa hlo0 (by omega), Option.map_some]
    nth_rewrite 2 [hsame]
    rfl
  · rw [intervalToken, if_neg hsame, findIdx?_pair (by decide) hlo0]
    dsimp only
    rw [take_pair, drop_pair, readPort_itoa hlo0 (by omega), readPort_itoa (by omega) hhi]
    dsimp only
    rw [if_pos (by omega)]

theorem mapM_map_of_inverse {α β : Type*} {f : β → Option α} {g : α → β} {l : List α}
    (h : ∀ a ∈ l, f (g a) = some a) : (l.map g).mapM f = some l := by
  induction l with
  | nil => rfl
  | cons a rest ih =>
      rw [List.map_cons, List.mapM_cons, h a List.mem_cons_self,
        ih fun b hb => h b (List.mem_cons_of_mem _ hb)]
      rfl

-- A rule reads back as the intervals it was written for.
theorem readDports_intercalate {group : List PortInterval} (hne : group ≠ [])
    (h : ∀ iv ∈ group, 1 ≤ iv.lo ∧ iv.lo ≤ iv.hi ∧ iv.hi ≤ 65535) :
    readDports ([comma].intercalate (group.map (intervalToken [colon]))) = some group := by
  have hcomma : ∀ token ∈ group.map (intervalToken [colon]), comma ∉ token := by
    intro token htoken
    obtain ⟨iv, hiv, rfl⟩ := List.mem_map.1 htoken
    have hbounds := h iv hiv
    exact comma_notMem_intervalToken (by omega) (by omega) (by decide)
  rw [readDports, List.splitOn_intercalate comma hcomma (by simpa using hne)]
  refine mapM_map_of_inverse fun iv hiv => ?_
  obtain ⟨hlo, hle, hhi⟩ := h iv hiv
  exact readToken_intervalToken hlo hle hhi

theorem splitOn_redirect (internalPort : ℤ) {dports : Text} (h : dports.all graphic = true) :
    (redirect internalPort dports).splitOn space =
      matchWords ++ [dports] ++ targetWords ++ [Decimal.itoa internalPort] := by
  have hbefore : ∀ word ∈ matchWords, space ∉ word := by decide +kernel
  have hafter : ∀ word ∈ targetWords, space ∉ word := by decide +kernel
  have hwords : ∀ word ∈ matchWords ++ [dports] ++ targetWords, space ∉ word := by
    intro word hword
    rcases List.mem_append.1 hword with hword | hword
    · rcases List.mem_append.1 hword with hword | hword
      · exact hbefore word hword
      · rw [List.mem_singleton.1 hword]
        exact notMem_of_graphic h (by decide)
    · exact hafter word hword
  have hline : redirect internalPort dports =
      Split.ended space (matchWords ++ [dports] ++ targetWords) ++ Decimal.itoa internalPort := by
    have hmatch : text "sudo iptables -t nat -A PREROUTING -p udp -m multiport --dports " =
        Split.ended space matchWords := by decide +kernel
    have htarget : text " -j REDIRECT --to-ports " = [space] ++ Split.ended space targetWords := by
      decide
    rw [redirect, hmatch, htarget]
    simp [Split.ended]
  rw [hline, Split.splitOn_ended_append hwords,
    Split.splitOn_of_notMem (notMem_of_graphic (Decimal.all_graphic_itoa _) (by decide))]

theorem dportsOf_redirect (internalPort : ℤ) {dports : Text} (h : dports.all graphic = true) :
    dportsOf (redirect internalPort dports) = some dports := by
  have hbefore : matchWords.length = 11 := rfl
  have hafter : targetWords.length = 3 := rfl
  have htake : (matchWords ++ [dports] ++ targetWords ++ [Decimal.itoa internalPort]).take 11 = matchWords := by
    rw [List.append_assoc, List.append_assoc, List.take_left' hbefore]
  have hdrop : ((matchWords ++ [dports] ++ targetWords ++ [Decimal.itoa internalPort]).drop 12).take 3 =
      targetWords := by
    rw [List.append_assoc, List.drop_left' (by simp [hbefore]), List.take_left' hafter]
  have hget : (matchWords ++ [dports] ++ targetWords ++ [Decimal.itoa internalPort])[11]? = some dports := by
    rw [List.append_assoc, List.append_assoc, List.getElem?_append_right hbefore.le, hbefore]
    rfl
  rw [dportsOf, splitOn_redirect internalPort h, if_pos ⟨htake, hdrop⟩, hget]

theorem dportsOf_heading (range : Text) (internalPort : ℤ) : dportsOf (heading range internalPort) = none := by
  have hline : heading range internalPort =
      Split.ended space [text "Redirecting"] ++ (text "incoming UDP on port range " ++ range ++
        text " to local port " ++ Decimal.itoa internalPort ++ text ":") := by
    have hfirst : text "Redirecting incoming UDP on port range " =
        Split.ended space [text "Redirecting"] ++ text "incoming UDP on port range " := by decide
    rw [heading, hfirst]
    simp only [List.append_assoc]
  rw [dportsOf, hline, Split.splitOn_ended_append (by decide)]
  refine if_neg fun hwords => ?_
  have hhead := congrArg List.head? hwords.1
  exact absurd hhead (by simp [matchWords]; decide)

section
variable (internalPort : ℤ) (pr : PortRange)

-- The intervals of each rule.
def groups : List (List PortInterval) :=
  chunks maxMultiport pr.intervals

def dports (group : List PortInterval) : Text :=
  [comma].intercalate (group.map (intervalToken [colon]))

theorem dnatDportsArg_intervalTokens :
    dnatDportsArg (intervalTokens (some pr) [colon]) = (groups pr).map dports := by
  rw [dnatDportsArg, intervalTokens, chunks_map, List.map_map]
  rfl

theorem redirectLines_eq : redirectLines internalPort (some pr) =
    [heading pr.string internalPort, []] ++ ((groups pr).map dports).map (redirect internalPort) ++
      [[], verify] := by
  have htotal : pr.total ≠ 0 := pr.total_pos.ne'
  rw [redirectLines, if_neg htotal, dnatDportsArg_intervalTokens]

theorem group_bounds {group : List PortInterval} (hgroup : group ∈ groups pr) {iv : PortInterval}
    (hiv : iv ∈ group) : 1 ≤ iv.lo ∧ iv.lo ≤ iv.hi ∧ iv.hi ≤ 65535 :=
  interval_bounds pr (mem_of_mem_chunks (by decide) hgroup hiv)

theorem all_graphic_dports {group : List PortInterval} (hgroup : group ∈ groups pr) :
    (dports group).all graphic = true := by
  refine List.all_eq_true.2 fun c hc => ?_
  rcases Split.of_mem_intercalate hc with rfl | ⟨token, htoken, hc⟩
  · decide +kernel
  · obtain ⟨iv, hiv, rfl⟩ := List.mem_map.1 htoken
    have hbounds := group_bounds pr hgroup hiv
    exact List.all_eq_true.1 (all_graphic_intervalToken (by decide) (by omega) (by omega)) c hc

theorem newline_notMem_redirectLines :
    ∀ line ∈ banner :: redirectLines internalPort (some pr), newline ∉ line := by
  have hport : newline ∉ Decimal.itoa internalPort :=
    notMem_of_graphic (Decimal.all_graphic_itoa _) (by decide)
  rw [redirectLines_eq]
  intro line hline
  simp only [List.mem_cons, List.mem_append, List.not_mem_nil, or_false, List.mem_map] at hline
  rcases hline with rfl | (((rfl | rfl) | ⟨_, ⟨group, hgroup, rfl⟩, rfl⟩) | rfl | rfl)
  · decide +kernel
  · have hrange : newline ∉ pr.string := notMem_of_graphic (all_graphic_string pr) (by decide)
    simp only [heading, List.mem_append, not_or]
    exact ⟨⟨⟨⟨by decide +kernel, hrange⟩, by decide +kernel⟩, hport⟩, by decide⟩
  · exact List.not_mem_nil
  · have hdports : newline ∉ dports group := notMem_of_graphic (all_graphic_dports pr hgroup) (by decide)
    simp only [redirect, List.mem_append, not_or]
    exact ⟨⟨⟨by decide +kernel, hdports⟩, by decide +kernel⟩, hport⟩
  · exact List.not_mem_nil
  · decide +kernel

-- What iptables reads in the text that is printed.
theorem multiportRules_generateIptables :
    multiportRules (generateIptables internalPort (some pr)) = some (groups pr) := by
  have hsplit := Split.splitOn_ended_append (newline_notMem_redirectLines internalPort pr) []
  have hrules : (((groups pr).map dports).map (redirect internalPort)).filterMap dportsOf =
      (groups pr).map dports := by
    rw [List.filterMap_map, List.filterMap_map, ← List.filterMap_eq_map]
    refine List.filterMap_congr fun group hgroup => ?_
    rw [Function.comp_apply, Function.comp_apply, Function.comp_apply]
    exact dportsOf_redirect internalPort (all_graphic_dports pr hgroup)
  rw [List.append_nil] at hsplit
  rw [multiportRules, generateIptables, hsplit, redirectLines_eq]
  simp only [List.filterMap_append, List.filterMap_cons, List.filterMap_nil, hrules, dportsOf_heading]
  have hbanner : dportsOf banner = none := by decide +kernel
  have hverify : dportsOf verify = none := by decide +kernel
  have hempty : dportsOf [] = none := by decide +kernel
  simp only [hbanner, hverify, hempty, List.splitOn_nil, List.filterMap_cons, List.filterMap_nil,
    List.nil_append, List.append_nil]
  refine mapM_map_of_inverse fun group hgroup => ?_
  exact readDports_intercalate (ne_nil_of_mem_chunks (by decide) hgroup) fun iv hiv =>
    group_bounds pr hgroup hiv

theorem ruleMatches_iff (p : ℤ) (rule : List PortInterval) :
    ruleMatches p rule = true ↔ p ∈ Intervals.elements rule := by
  simp [ruleMatches, Intervals.mem_elements, Intervals.Interval.Contains]

-- A port of the range is matched by one rule and any other by none.
theorem countP_ruleMatches (p : ℤ) :
    (groups pr).countP (ruleMatches p) = if pr.contains p then 1 else 0 := by
  have hflatten : ((groups pr).map Intervals.elements).flatten = Intervals.elements pr.intervals := by
    have hintervals : (groups pr).flatten = pr.intervals := flatten_chunks (by decide) _
    rw [← List.flatMap_def, ← hintervals, ← List.flatMap_id, Intervals.elements, List.flatMap_assoc]
    rfl
  have hnodup : (Intervals.elements pr.intervals).Nodup := pr.separated.pairwise_elements.imp ne_of_lt
  have heach : ∀ l ∈ (groups pr).map Intervals.elements, l.Nodup := by
    rw [← hflatten, List.nodup_flatten] at hnodup
    exact hnodup.1
  have hmatches : ∀ rule ∈ groups pr, ruleMatches p rule = true ↔
      ((decide <| p ∈ ·) ∘ Intervals.elements) rule = true := by
    intro rule _
    rw [ruleMatches_iff, Function.comp_apply, decide_eq_true_eq]
  rw [List.countP_congr hmatches, ← List.countP_map, countP_mem_eq_count_flatten heach, hflatten,
    hnodup.count]
  exact if_congr (contains_iff pr p).symm rfl rfl

-- The printed rules are right where no 15 intervals that share a rule take more than 15 ports.
theorem iptables_rules_iff :
    (∃ rules, multiportRules (generateIptables internalPort (some pr)) = some rules ∧
      (∀ p, rules.countP (ruleMatches p) = if pr.contains p then 1 else 0) ∧
      ∀ rule ∈ rules, slots rule ≤ 15) ↔
    ∀ group ∈ chunks 15 pr.intervals, slots group ≤ 15 := by
  rw [multiportRules_generateIptables]
  constructor
  · rintro ⟨rules, hrules, -, hslots⟩
    rw [← Option.some.inj hrules] at hslots
    exact hslots
  · intro hslots
    exact ⟨groups pr, rfl, countP_ruleMatches pr, hslots⟩

end

-- Eight ranges of two ports share a rule.
theorem eight_ranges_over_limit :
    ∃ pr rules, newPortRange [1, 2, 4, 5, 7, 8, 10, 11, 13, 14, 16, 17, 19, 20, 22, 23] = .ok pr ∧
      multiportRules (generateIptables 36712 (some pr)) = some rules ∧
      rules.map slots = [16] := by
  obtain ⟨pr, hnew, hintervals⟩ :=
    @exists_newPortRange [1, 2, 4, 5, 7, 8, 10, 11, 13, 14, 16, 17, 19, 20, 22, 23] (by decide) (by decide)
  refine ⟨pr, groups pr, hnew, multiportRules_generateIptables 36712 pr, ?_⟩
  rw [groups, hintervals]
  decide

end UdpCustom.Ports.Iptables
