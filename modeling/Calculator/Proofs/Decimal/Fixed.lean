import Mathlib
import Calculator.Report
import Calculator.Proofs.Decimal.Positional
import Calculator.Proofs.Nearest.Numeral

/-!
# Fixed decimals

With a number of decimals a value is reported as the nearest decimal with so many of
them: its absolute value, times a power of ten, is rounded to a whole number, a tie going
to the even one, and the digits of this number are written with a dot between them
(`render_fixed`).  The minus tells the sign of the value and not of what is written, so
that a small negative value is written with a minus and zeros.  What is written grows with
the value.
-/

namespace Calculator

open Binary64 (eq_of_magnitude_eq isInf_of_isFinite isNaN_of_isFinite isNegative le_iff
  lt_zero_iff magnitude rational signedMagnitude_of_lt_zero signedMagnitude_of_not_lt_zero)

namespace Decimal

/-! ## Digits without superfluous zeros -/

/-- The digits of a number other than zero do not begin with a zero. -/
theorem head?_toDigits_ne {n : Nat} (hn : n ≠ 0) : (Nat.toDigits 10 n).head? ≠ some '0' := by
  induction n using Nat.strongRecOn with
  | ind n ih =>
      rcases Nat.lt_or_ge n 10 with hlt | hge
      · rw [Nat.toDigits_of_lt_base hlt]
        interval_cases n <;> simp_all [Nat.digitChar]
      · have hhead := ih (n / 10) (by omega) (by omega)
        rw [Nat.toDigits_of_base_le (by decide) hge,
          List.head?_append_of_ne_nil _ Nat.toDigits_ne_nil]
        exact hhead

theorem whole_of_le {n places : Nat} (h : (Nat.toDigits 10 n).length ≤ places) :
    (numeral n places).whole = ['0'] := by
  obtain ⟨zeros, hzeros⟩ := Nat.exists_eq_add_of_le h
  have hcount : places + 1 - (Nat.toDigits 10 n).length = zeros + 1 := by omega
  have hlength : zeros + 1 + (Nat.toDigits 10 n).length - places = 1 := by omega
  simp only [numeral, paddedDigits, hcount, List.length_append, List.length_replicate, hlength]
  rfl

theorem whole_of_lt {n places : Nat} (h : places < (Nat.toDigits 10 n).length) :
    (numeral n places).whole =
      (Nat.toDigits 10 n).take ((Nat.toDigits 10 n).length - places) := by
  have hcount : places + 1 - (Nat.toDigits 10 n).length = 0 := by omega
  simp only [numeral, paddedDigits, hcount, List.replicate_zero, List.nil_append]

/-- The digits before the dot have no superfluous zero. -/
theorem whole_of_head?_eq_zero {n places : Nat} (h : (numeral n places).whole.head? = some '0') :
    (numeral n places).whole = ['0'] := by
  rcases Nat.lt_or_ge places (Nat.toDigits 10 n).length with hlt | hge
  · by_cases hn : n = 0
    · subst hn
      rw [whole_of_lt hlt]
      obtain rfl : places = 0 := by simpa using hlt
      rfl
    · rw [whole_of_lt hlt, List.head?_take, if_neg (by omega)] at h
      exact absurd h (head?_toDigits_ne hn)
  · exact whole_of_le hge

end Decimal

/-! ## The number that is written -/

/-- What a value with fixed decimals comes to without its dot and its sign. -/
def fixedCount (places : Nat) (v : Float) : Nat :=
  roundDiv (Binary64.units (magnitude v) * Nat.pow 10 places) (1 <<< 1074)

theorem nearest_fixedCount (places : Nat) (v : Float) :
    Nearest (fun k => (k : ℚ)) (|rational v| * 10 ^ places) (fixedCount places v) := by
  have hscaled : |rational v| * (10 : ℚ) ^ places =
      ((Binary64.units (magnitude v) * Nat.pow 10 places : Nat) : ℚ) / (1 <<< 1074 : Nat) := by
    rw [Binary64.abs_rational, Binary64.point]
    generalize 1074 = least
    rw [Nat.shiftLeft_eq, Nat.one_mul, Nat.pow_eq]
    push_cast
    ring
  rw [hscaled]
  exact nearest_roundDiv _ (by decide)

/-- A greater absolute value is not rounded to a smaller number. -/
theorem fixedCount_mono (places : Nat) {v w : Float} (hle : magnitude v ≤ magnitude w) :
    fixedCount places v ≤ fixedCount places w := by
  have habs : |rational v| ≤ |rational w| := by
    rw [Binary64.abs_rational, Binary64.abs_rational]
    exact Binary64.strictMono_point.monotone hle
  exact (nearest_fixedCount places v).mono Nat.strictMono_cast (nearest_fixedCount places w)
    (mul_le_mul_of_nonneg_right habs (by positivity))

namespace Numeral

/-- The number that a text in decimal writes, with a minus in front or without. -/
def signedDecimal : List Char → ℚ
  | '-' :: text => -decimal text
  | text => decimal text

theorem signedDecimal_of_wellFormed {text : List Char} (h : WellFormed text) :
    signedDecimal text = decimal text := by
  have hminus : '-' ∉ text := fun hmem =>
    absurd (Token.isNumeral_of_wellFormed h _ hmem) (by decide)
  unfold signedDecimal
  split
  · exact absurd (List.mem_cons_self ..) hminus
  · rfl

end Numeral

theorem Decimal.decimal_positional (n places : Nat) :
    Numeral.decimal (Decimal.positional n places) = n / 10 ^ places := by
  rw [Numeral.decimal_of_read? (Decimal.read?_positional n places), Decimal.numerator_numeral,
    Decimal.places_numeral, Nat.pow_eq]
  push_cast
  rfl

/-! ## Reports with fixed decimals -/

theorem Decimal.toList_signed {x : Float} (hx : x.isFinite = true) (body : Nat → List Char) :
    (Decimal.signed body x).toList =
      (if isNegative x then ['-'] else []) ++ body (magnitude x) := by
  rw [Decimal.signed, isNaN_of_isFinite hx, isInf_of_isFinite hx]
  cases isNegative x <;> simp

theorem eq_zero_of_magnitude {v : Float} (hmagnitude : magnitude v = 0) : v = 0 ∨ v = -0 := by
  cases hsign : isNegative v with
  | false =>
      left
      exact eq_of_magnitude_eq (hsign.trans (by decide +kernel))
        (hmagnitude.trans (by decide +kernel))
  | true =>
      right
      exact eq_of_magnitude_eq (hsign.trans (by decide +kernel))
        (hmagnitude.trans (by decide +kernel))

/-- A value with fixed decimals is a minus, if it is less than zero, and its count with a dot. -/
theorem toList_render_fixed {v : Float} (hv : v.isFinite = true) (places : Nat) (source : String) :
    (Report.render { decimals := some places } source (.ok v)).toList =
      (if v < 0 then ['-'] else []) ++ Decimal.positional (fixedCount places v) places := by
  have hrender : Report.render { decimals := some places } source (.ok v) =
      Decimal.fixed places (if v == 0 then 0 else v) := rfl
  have hnegative := lt_zero_iff hv
  rw [hrender, Decimal.fixed]
  by_cases hzero : (v == 0) = true
  · have hmagnitude : magnitude v = 0 := by
      rcases (beq_zero_iff v).1 hzero with rfl | rfl <;> decide +kernel
    have hnot : ¬ v < 0 := fun hlt => (hnegative.1 hlt).2 hmagnitude
    have hsign : isNegative 0 = false := by decide +kernel
    have hleast : magnitude 0 = 0 := by decide +kernel
    rw [if_pos hzero, Decimal.toList_signed (by decide +kernel), hsign, if_neg hnot, fixedCount,
      hmagnitude, hleast]
    rfl
  · have hmagnitude : magnitude v ≠ 0 :=
      fun hleast => hzero ((beq_zero_iff v).2 (eq_zero_of_magnitude hleast))
    have hsign : (isNegative v = true) = (v < 0) := by
      rw [hnegative, and_iff_left hmagnitude]
    rw [if_neg hzero, Decimal.toList_signed hv]
    simp only [hsign]
    rfl

/-- `WritesFixed places v text`: a text writes a value with fixed decimals.  There is a minus just in
front of what is less than zero, no superfluous zero in front of the dot, no dot without decimals,
and the number that is written is the nearest one with so many decimals, a tie going to the even
digit. -/
def WritesFixed (places : Nat) (v : Float) (text : List Char) : Prop :=
  ∃ (whole fraction : List Char) (count : Nat),
    text = (if v < 0 then ['-'] else []) ++
      (whole ++ if places = 0 then [] else '.' :: fraction) ∧
    Numeral.Digits whole ∧ (whole.head? = some '0' → whole = ['0']) ∧
    fraction.length = places ∧ (∀ c ∈ fraction, c.isDigit = true) ∧
    Numeral.decimal (whole ++ if places = 0 then [] else '.' :: fraction) = count / 10 ^ places ∧
    Nearest (fun k => (k : ℚ)) (|rational v| * 10 ^ places) count

theorem Decimal.positional_eq (n places : Nat) :
    Decimal.positional n places = (Decimal.numeral n places).whole ++
      if places = 0 then [] else '.' :: (Decimal.numeral n places).fraction := by
  by_cases hplaces : places = 0
  · subst hplaces
    rw [Decimal.positional_zero, if_pos rfl, List.append_nil]
  · rw [Decimal.positional_of_ne_zero n places hplaces, if_neg hplaces]

theorem writesFixed_render {v : Float} (hv : v.isFinite = true) (places : Nat) (source : String) :
    WritesFixed places v
      (Report.render { decimals := some places } source (.ok v)).toList := by
  have hdecimal := Decimal.decimal_positional (fixedCount places v) places
  rw [Decimal.positional_eq] at hdecimal
  have hlength := Decimal.places_numeral (fixedCount places v) places
  refine ⟨(Decimal.numeral (fixedCount places v) places).whole,
    (Decimal.numeral (fixedCount places v) places).fraction, fixedCount places v, ?_,
    Decimal.digits_whole _ _, Decimal.whole_of_head?_eq_zero, hlength, ?_, hdecimal,
    nearest_fixedCount places v⟩
  · rw [toList_render_fixed hv, Decimal.positional_eq]
  · intro c hc
    exact Decimal.isDigit_of_mem_paddedDigits _ _ c (List.mem_of_mem_drop hc)

theorem signedDecimal_render {v : Float} (hv : v.isFinite = true) (places : Nat) (source : String) :
    Numeral.signedDecimal (Report.render { decimals := some places } source (.ok v)).toList =
      if v < 0 then -((fixedCount places v : ℚ) / 10 ^ places)
      else (fixedCount places v : ℚ) / 10 ^ places := by
  rw [toList_render_fixed hv]
  split
  · exact congrArg (-·) (Decimal.decimal_positional _ _)
  · rw [List.nil_append, Numeral.signedDecimal_of_wellFormed (Decimal.wellFormed_positional _ _),
      Decimal.decimal_positional]

/-- With fixed decimals a finite value is reported as the nearest decimal, and a greater value is
never reported as a smaller number. -/
theorem render_fixed {v : Float} (hv : v.isFinite = true) (places : Nat) (source : String) :
    WritesFixed places v (Report.render { decimals := some places } source (.ok v)).toList ∧
    ∀ (w : Float) (source' : String), w.isFinite = true → v ≤ w →
      Numeral.signedDecimal (Report.render { decimals := some places } source (.ok v)).toList ≤
        Numeral.signedDecimal
          (Report.render { decimals := some places } source' (.ok w)).toList := by
  refine ⟨writesFixed_render hv places source, fun w source' hw hle => ?_⟩
  rw [signedDecimal_render hv, signedDecimal_render hw]
  rw [le_iff hv hw] at hle
  have hscale : (0 : ℚ) < 10 ^ places := by positivity
  have hmono : ∀ {x y : Float}, magnitude x ≤ magnitude y →
      (fixedCount places x : ℚ) / 10 ^ places ≤ fixedCount places y / 10 ^ places :=
    fun hmagnitude => div_le_div_of_nonneg_right
      (Nat.cast_le.2 (fixedCount_mono places hmagnitude)) hscale.le
  by_cases hvneg : v < 0 <;> by_cases hwneg : w < 0
  · rw [signedMagnitude_of_lt_zero hv hvneg, signedMagnitude_of_lt_zero hw hwneg] at hle
    rw [if_pos hvneg, if_pos hwneg]
    exact neg_le_neg (hmono (by omega))
  · rw [if_pos hvneg, if_neg hwneg]
    have hleft : 0 ≤ (fixedCount places v : ℚ) / 10 ^ places := by positivity
    have hright : 0 ≤ (fixedCount places w : ℚ) / 10 ^ places := by positivity
    linarith
  · -- what is less than zero is not above what is not
    have hmagnitude := ((lt_zero_iff hw).1 hwneg).2
    rw [signedMagnitude_of_not_lt_zero hv hvneg, signedMagnitude_of_lt_zero hw hwneg] at hle
    omega
  · rw [signedMagnitude_of_not_lt_zero hv hvneg, signedMagnitude_of_not_lt_zero hw hwneg] at hle
    rw [if_neg hvneg, if_neg hwneg]
    exact hmono (by omega)

/-- A small negative value keeps its minus, and 1/8 lies in the middle between two decimals. -/
theorem render_fixed_small :
    Report.render { decimals := some 2 } "-1/1000" (.ok (-0.001)) = "-0.00" ∧
    Report.render { decimals := some 2 } "1/8" (.ok 0.125) = "0.12" ∧
    (-0.001 : Float).isFinite = true ∧ (0.125 : Float).isFinite = true ∧
    (-0.001 : Float) ≤ 0.125 ∧
    WritesFixed 2 (-0.001) "-0.00".toList ∧
    Numeral.signedDecimal "-0.00".toList ≤ Numeral.signedDecimal "0.12".toList := by
  have hsmall : Report.render { decimals := some 2 } "-1/1000" (.ok (-0.001)) = "-0.00" := by
    decide +kernel
  have hquotient : Report.render { decimals := some 2 } "1/8" (.ok 0.125) = "0.12" := by
    decide +kernel
  have hle : (-0.001 : Float) ≤ 0.125 := by decide +kernel
  obtain ⟨hwrites, hmono⟩ := render_fixed (v := -0.001) (by decide +kernel) 2 "-1/1000"
  have horder := hmono 0.125 "1/8" (by decide +kernel) hle
  rw [hsmall] at hwrites
  rw [hsmall, hquotient] at horder
  exact ⟨hsmall, hquotient, by decide +kernel, by decide +kernel, hle, hwrites, horder⟩

end Calculator
