import UdpCustom.PortRange
import UdpCustom.Lib.Split

-- What is written for one interval, with any separator that is not a digit.
namespace UdpCustom.Ports

section
variable {sep : UInt8} {iv : PortInterval}

-- The bytes of a token are digits and its separator.
theorem of_mem_intervalToken (hlo : 0 ≤ iv.lo) (hhi : 0 ≤ iv.hi) {c : UInt8}
    (hc : c ∈ intervalToken [sep] iv) : Decimal.isDigit c = true ∨ c = sep := by
  unfold intervalToken at hc
  split at hc
  · exact .inl (Decimal.isDigit_of_mem_itoa hlo hc)
  · rcases List.mem_append.1 hc with hc | hc
    · rcases List.mem_append.1 hc with hc | hc
      · exact .inl (Decimal.isDigit_of_mem_itoa hlo hc)
      · exact .inr (List.mem_singleton.1 hc)
    · exact .inl (Decimal.isDigit_of_mem_itoa hhi hc)

theorem comma_notMem_intervalToken (hlo : 0 ≤ iv.lo) (hhi : 0 ≤ iv.hi) (hsep : sep ≠ comma) :
    comma ∉ intervalToken [sep] iv := by
  intro hmem
  rcases of_mem_intervalToken hlo hhi hmem with hdigit | heq
  · exact absurd hdigit (by decide)
  · exact hsep heq.symm

theorem all_graphic_intervalToken (hsep : Ascii.graphic sep = true) (hlo : 0 ≤ iv.lo) (hhi : 0 ≤ iv.hi) :
    (intervalToken [sep] iv).all Ascii.graphic = true := by
  refine List.all_eq_true.2 fun c hc => ?_
  rcases of_mem_intervalToken hlo hhi hc with hdigit | rfl
  · exact Decimal.graphic_of_isDigit hdigit
  · exact hsep

theorem intervalToken_ne_nil {sep : Text} (hlo : 0 ≤ iv.lo) : intervalToken sep iv ≠ [] := by
  unfold intervalToken
  split
  · exact Decimal.itoa_ne_nil hlo
  · simp [Decimal.itoa_ne_nil hlo]

end

section
variable {sep : UInt8} {lo hi : ℤ}

theorem findIdx?_itoa (hsep : Decimal.isDigit sep = false) (hlo : 0 ≤ lo) :
    (Decimal.itoa lo).findIdx? (· = sep) = none := by
  rw [List.findIdx?_eq_none_iff]
  intro c hc
  have hdigit := Decimal.isDigit_of_mem_itoa hlo hc
  refine decide_eq_false fun heq => ?_
  rw [heq, hsep] at hdigit
  cases hdigit

theorem findIdx?_pair (hsep : Decimal.isDigit sep = false) (hlo : 0 ≤ lo) :
    (Decimal.itoa lo ++ [sep] ++ Decimal.itoa hi).findIdx? (· = sep) = some (Decimal.itoa lo).length := by
  rw [List.append_assoc, List.findIdx?_append, findIdx?_itoa hsep hlo, List.findIdx?_append]
  simp

theorem take_pair :
    (Decimal.itoa lo ++ [sep] ++ Decimal.itoa hi).take (Decimal.itoa lo).length = Decimal.itoa lo := by
  rw [List.append_assoc, List.take_left]

theorem drop_pair :
    (Decimal.itoa lo ++ [sep] ++ Decimal.itoa hi).drop ((Decimal.itoa lo).length + 1) =
      Decimal.itoa hi :=
  List.drop_left' (by simp)

end

theorem interval_bounds (pr : PortRange) {iv : PortInterval} (hiv : iv ∈ pr.intervals) :
    1 ≤ iv.lo ∧ iv.lo ≤ iv.hi ∧ iv.hi ≤ 65535 := by
  have hle := pr.separated.nonempty iv hiv
  have hlo := pr.ports iv.lo (Intervals.mem_elements.2 ⟨iv, hiv, le_rfl, hle⟩)
  have hhi := pr.ports iv.hi (Intervals.mem_elements.2 ⟨iv, hiv, hle, le_rfl⟩)
  exact ⟨hlo.1, hle, hhi.2⟩

theorem total_eq_length (pr : PortRange) : pr.total = (Intervals.elements pr.intervals).length := by
  rw [pr.total_eq, pr.separated.length_elements]

theorem elements_ne_nil (pr : PortRange) : Intervals.elements pr.intervals ≠ [] := by
  intro hnil
  have htotal := total_eq_length pr
  rw [hnil] at htotal
  exact pr.total_pos.ne' htotal

theorem intervals_ne_nil (pr : PortRange) : pr.intervals ≠ [] := by
  intro hnil
  refine elements_ne_nil pr ?_
  rw [hnil]
  rfl

theorem string_eq (pr : PortRange) :
    pr.string = [comma].intercalate (pr.intervals.map (intervalToken [dash])) :=
  if_neg (intervals_ne_nil pr)

theorem all_graphic_string (pr : PortRange) : pr.string.all Ascii.graphic = true := by
  refine List.all_eq_true.2 fun c hc => ?_
  rw [string_eq] at hc
  rcases Split.of_mem_intercalate hc with rfl | ⟨token, htoken, hc⟩
  · decide
  · obtain ⟨iv, hiv, rfl⟩ := List.mem_map.1 htoken
    have hbounds := interval_bounds pr hiv
    exact List.all_eq_true.1 (all_graphic_intervalToken (by decide) (by omega) (by omega)) c hc

end UdpCustom.Ports
