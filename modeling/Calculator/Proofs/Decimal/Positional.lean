import Calculator.Decimal.Positional
import Calculator.Proofs.Numeral

/-!
# Reading positional notation

What `positional n places` writes is a numeral, and the numeral has the digits
of `n`, the last `places` of them after the dot: read again it is the fraction
`n / 10 ^ places` (`read?_positional`).
-/

namespace Calculator.Decimal

open Numeral (Digits ofDigits)

/-! ## Padded digits -/

section Padded

variable (width n : Nat)

theorem isDigit_of_mem_paddedDigits : ∀ c ∈ paddedDigits width n, c.isDigit = true := by
  intro c hc
  rcases List.mem_append.1 hc with hzero | hdigit
  · obtain rfl := List.eq_of_mem_replicate hzero
    rfl
  · exact Nat.isDigit_of_mem_toDigits (by decide) (by decide) hdigit

theorem le_length_paddedDigits : width ≤ (paddedDigits width n).length := by
  simp only [paddedDigits, List.length_append, List.length_replicate]
  omega

/-- Zeros in front do not change the number. -/
theorem ofDigits_paddedDigits : ofDigits (paddedDigits width n) = n := by
  simp only [ofDigits, paddedDigits, Nat.ofDigitChars_append, Nat.ofDigitChars_replicate_zero,
    Nat.mul_zero]
  exact Nat.ofDigitChars_ten_toDigits

end Padded

/-! ## The numeral -/

/-- The numeral that `positional n places` writes. -/
def numeral (n places : Nat) : Numeral :=
  let digits := paddedDigits (places + 1) n
  ⟨digits.take (digits.length - places), digits.drop (digits.length - places)⟩

section Numeral

variable (n places : Nat)

theorem numerator_numeral : (numeral n places).numerator = n := by
  rw [Numeral.numerator, numeral, List.take_append_drop, ofDigits_paddedDigits]

theorem places_numeral : (numeral n places).places = places := by
  have hlength := le_length_paddedDigits (places + 1) n
  rw [Numeral.places, numeral, List.length_drop]
  omega

theorem digits_whole : Digits (numeral n places).whole := by
  have hlength := le_length_paddedDigits (places + 1) n
  refine ⟨List.ne_nil_of_length_pos ?_, fun c hc => ?_⟩
  · rw [numeral, List.length_take]
    omega
  · exact isDigit_of_mem_paddedDigits _ _ c (List.mem_of_mem_take hc)

theorem digits_fraction (hplaces : places ≠ 0) : Digits (numeral n places).fraction := by
  have hlength := places_numeral n places
  refine ⟨List.ne_nil_of_length_pos ?_, fun c hc => ?_⟩
  · rw [Numeral.places] at hlength
    omega
  · exact isDigit_of_mem_paddedDigits _ _ c (List.mem_of_mem_drop hc)

theorem positional_zero : positional n 0 = (numeral n 0).whole := by
  simp [positional, numeral]

theorem positional_of_ne_zero (hplaces : places ≠ 0) :
    positional n places = (numeral n places).whole ++ '.' :: (numeral n places).fraction :=
  if_neg hplaces

/-- Positional notation is read as the numeral that it writes. -/
theorem read?_positional : Numeral.read? (positional n places) = some (numeral n places) := by
  by_cases hplaces : places = 0
  · subst hplaces
    have hfraction : (numeral n 0).fraction = [] :=
      List.eq_nil_of_length_eq_zero (places_numeral n 0)
    rw [positional_zero, Numeral.read?_digits (digits_whole n 0), ← hfraction]
  · rw [positional_of_ne_zero n places hplaces,
      Numeral.read?_pointed (digits_whole n places) (digits_fraction n places hplaces)]

theorem wellFormed_positional : Numeral.WellFormed (positional n places) :=
  Numeral.wellFormed_of_read? (read?_positional n places)

theorem value_numeral :
    (numeral n places).value = Binary64.ofMagnitude (Binary64.nearest n (Nat.pow 10 places)) := by
  rw [Numeral.value, numerator_numeral, places_numeral]

end Numeral

end Calculator.Decimal
