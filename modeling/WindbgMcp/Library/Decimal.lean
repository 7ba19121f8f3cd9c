import WindbgMcp.Library.Text

/-! Padded decimal numbers, written and read back. -/
namespace WindbgMcp.Library.Text

/-- Decimal digits padded on the left with zeros to at least `width`. -/
def decimalPadded (width value : Nat) : List Char :=
  let digits := Nat.toDigits 10 value
  List.replicate (width - digits.length) '0' ++ digits

variable {width value : Nat}

theorem isDigit_of_mem_decimalPadded {c : Char} (h : c ∈ decimalPadded width value) :
    c.isDigit = true := by
  rcases List.mem_append.mp h with hmem | hmem
  · rw [(List.mem_replicate.mp hmem).2]
    decide
  · exact Nat.isDigit_of_mem_toDigits (by decide) (by decide) hmem

theorem not_mem_decimalPadded {mark : Char} (h : mark.isDigit = false) :
    mark ∉ decimalPadded width value := by
  intro hmem
  rw [isDigit_of_mem_decimalPadded hmem] at h
  cases h

theorem ne_of_mem_decimalPadded {mark : Char} (h : mark.isDigit = false) :
    ∀ c ∈ decimalPadded width value, decide (c = mark) = false := by
  intro c hc
  rw [decide_eq_false_iff_not]
  rintro rfl
  exact not_mem_decimalPadded h hc

theorem decimalPadded_ne_nil (width value : Nat) : decimalPadded width value ≠ [] :=
  List.append_ne_nil_of_right_ne_nil _ (List.ne_nil_of_length_pos Nat.length_toDigits_pos)

theorem parseUnsigned_decimalPadded {bound : Nat} (h : value ≤ bound) (width : Nat) :
    parseUnsigned bound (String.ofList (decimalPadded width value)) = some value := by
  have hdigits : ∀ c ∈ decimalPadded width value, c.isDigit = true := fun c =>
    isDigit_of_mem_decimalPadded
  have hvalue : (decimalPadded width value).foldl
      (fun value c => value * 10 + (c.toNat - '0'.toNat)) 0 = value := by
    have hread : Nat.ofDigitChars 10 (decimalPadded width value) 0 = value := by
      unfold decimalPadded
      simp [Nat.ofDigitChars_append]
    rw [Nat.ofDigitChars_eq_foldl] at hread
    simpa only [Nat.mul_comm 10] using hread
  obtain ⟨first, rest, hchars⟩ := List.exists_cons_of_ne_nil (decimalPadded_ne_nil width value)
  rw [hchars] at hdigits hvalue ⊢
  have hplus : first ≠ '+' := by
    rintro rfl
    exact absurd (hdigits '+' List.mem_cons_self) (by decide)
  unfold parseUnsigned
  rw [String.toList_ofList]
  split
  · rename_i heq
    exact absurd (List.cons.inj heq).1 hplus
  · simp only [List.isEmpty_cons, Bool.false_or, List.all_eq_true.mpr hdigits, Bool.not_true,
      Bool.false_eq_true, if_false, hvalue, h, if_true]

end WindbgMcp.Library.Text
