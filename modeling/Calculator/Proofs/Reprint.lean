import Mathlib
import Calculator.Report
import Calculator.Proofs.Composition
import Calculator.Proofs.Decimal.Shortest
import Calculator.Proofs.Unpacked

/-!
# Results as expressions

The text of a finite double is an expression again: a numeral, or a minus and a
numeral.  It asks for one level at most, is far shorter than the default limit, and
has the value that it was printed from (`evaluate_text`).  So a report without
decimals can be evaluated, and it is the report on its own value
(`evaluate_reported`).
-/

namespace Calculator

open Binary64 (infinite isNegative magnitude magnitude_lt_infinite ofMagnitude shift significand
  significand_lt neg_ofMagnitude_magnitude)
open Grammar (Writes)

/-! ## Length -/

namespace Decimal

theorem length_paddedDigits (width n : Nat) :
    (paddedDigits width n).length = max width (Nat.toDigits 10 n).length := by
  rw [paddedDigits, List.length_append, List.length_replicate]
  omega

theorem length_positional_le (n places : Nat) :
    (positional n places).length ≤ max (places + 1) (Nat.toDigits 10 n).length + 1 := by
  have hlength := length_paddedDigits (places + 1) n
  unfold positional
  dsimp only
  split
  · rw [List.length_take]
    omega
  · rw [List.length_append, List.length_cons, List.length_take, List.length_drop]
    omega

theorem shift_lt {m : Nat} (hm : m < infinite) : shift m < 2046 := by
  have hinfinite : infinite = 2047 * 2 ^ 52 := by decide
  rw [Binary64.shift_eq]
  omega

theorem quarter_le {m e : Nat} (hfive : 1076 - shift m ≤ e) (htwo : shift m - 1076 ≤ e) :
    quarter m ≤ 10 ^ e := by
  have hten : 10 ^ e = 5 ^ e * 2 ^ e := Nat.mul_pow 5 2 e
  rw [quarter_eq, hten]
  exact Nat.mul_le_mul (Nat.pow_le_pow_right (by decide) hfive)
    (Nat.pow_le_pow_right (by decide) htwo)

/-- The number that is written without its dot is at most the upper end of the interval. -/
theorem shortest_lt {m e : Nat} (hm : m ≠ 0) (hquarter : quarter m ≤ 10 ^ e) :
    (roundingInterval m).shortest.1 *
      Nat.pow 10 ((roundingInterval m).shortest.2 - quarterPlaces m) < 10 ^ (17 + e) := by
  have hcontains := Interval.contains_shortest (contains_value hm)
  obtain ⟨-, hhigh, -⟩ := bounds_of_contains hcontains
  generalize (roundingInterval m).shortest = found at hhigh
  obtain ⟨count, zeros⟩ := found
  have hsignificand := significand_lt m
  have hend : 4 * significand m + 2 < 10 ^ 17 := by omega
  calc count * 10 ^ (zeros - quarterPlaces m)
      ≤ count * 10 ^ zeros :=
        Nat.mul_le_mul_left _ (Nat.pow_le_pow_right (by decide) (Nat.sub_le _ _))
    _ ≤ (4 * significand m + 2) * quarter m := by
        rw [Nat.add_mul, Nat.mul_assoc]
        exact hhigh
    _ < 10 ^ 17 * 10 ^ e :=
        Nat.mul_lt_mul_of_lt_of_le hend hquarter (Nat.pow_pos (by decide))
    _ = 10 ^ (17 + e) := (Nat.pow_add 10 17 e).symm

theorem length_shortestText_le {m : Nat} (hfinite : m < infinite) :
    (shortestText m).length ≤ 1094 := by
  by_cases hm : m = 0
  · rw [shortestText, if_pos hm]
    decide
  · have hshift := shift_lt hfinite
    obtain ⟨e, he⟩ : ∃ e, e = 1076 := ⟨_, rfl⟩
    have hquarter : quarter m ≤ 10 ^ e := quarter_le (by omega) (by omega)
    have hdigits :=
      (Nat.length_toDigits_le_iff (by decide) (by omega)).2 (shortest_lt hm hquarter)
    have hplaces : quarterPlaces m ≤ 1076 := Nat.sub_le _ _
    rw [shortestText_eq hm]
    refine (length_positional_le _ _).trans ?_
    omega

end Decimal

/-! ## The text of a double -/

section Text

variable {x : Float}

theorem length_text_le (hfinite : x.isFinite = true) : (Decimal.text x).length ≤ 1095 := by
  have hlength := Decimal.length_shortestText_le (magnitude_lt_infinite hfinite)
  rw [← String.length_toList, Decimal.toList_text_of_isFinite hfinite]
  cases isNegative x with
  | true =>
      rw [if_pos rfl, List.length_append]
      exact Nat.add_comm 1 _ ▸ Nat.add_le_add_right hlength 1
  | false => exact Nat.le_succ_of_le hlength

/-- The text of a finite double writes the double, a negative one as the negative of a number. -/
theorem exists_writes_text (hfinite : x.isFinite = true) :
    ∃ tree, ∃ levels ≤ 1, Writes .expression (Decimal.text x).toList tree levels ∧
      tree.value = .ok x := by
  have hm := magnitude_lt_infinite hfinite
  obtain ⟨numeral, hread, hvalue⟩ := Decimal.exists_read?_shortestText hm
  have hnumber := Writes.number hread
  rw [hvalue] at hnumber
  have hunsigned : (Expr.number (ofMagnitude (magnitude x))).value =
      .ok (ofMagnitude (magnitude x)) :=
    if_pos (Binary64.isFinite_ofMagnitude hm)
  rw [Decimal.toList_text_of_isFinite hfinite]
  -- a double with the sign bit comes back by a unary minus before its magnitude
  cases hsign : isNegative x with
  | true =>
      refine ⟨_, 1, Nat.le_refl 1,
        hnumber.factor_of_primary.neg.term_of_factor.expression_of_term, ?_⟩
      rw [Expr.value_neg, hunsigned]
      change requireFinite (-ofMagnitude (magnitude x)) = .ok x
      rw [neg_ofMagnitude_magnitude hfinite hsign]
      exact if_pos hfinite
  | false =>
      refine ⟨_, 0, Nat.zero_le 1, hnumber.of_primary .expression, ?_⟩
      rw [hunsigned, Binary64.ofMagnitude_magnitude hsign]

/-- The text of a finite double is evaluated to the double. -/
theorem evaluate_text (hfinite : x.isFinite = true) {limits : Limits} (hdepth : 1 ≤ limits.depth)
    (hlength : (Decimal.text x).length ≤ limits.length) :
    evaluate limits (Decimal.text x) = .ok x := by
  obtain ⟨tree, levels, hlevels, hwrites, hvalue⟩ := exists_writes_text hfinite
  rw [evaluate_of_writes hwrites hlength (hlevels.trans hdepth), hvalue]

end Text

/-! ## Reports -/

/-- A report shows the zero with the sign as the other zero. -/
theorem shown_eq (value : Float) :
    (if value == 0 then 0 else value) = if value = -0 then 0 else value := by
  by_cases hpositive : value = 0
  · subst hpositive
    decide +kernel
  · have hzero : value == 0 ↔ value = -0 := by
      rw [beq_zero_iff, or_iff_right hpositive]
    simp only [hzero]

theorem shown_ne (value : Float) : (if value = -0 then 0 else value) ≠ -0 := by
  split
  · decide +kernel
  · assumption

theorem isFinite_shown {value : Float} (hfinite : value.isFinite = true) :
    (if value = -0 then 0 else value).isFinite = true := by
  split
  · decide +kernel
  · exact hfinite

/-- A value, reported without decimals, is an expression for the value, but for the sign of a zero,
and the value of this expression has the same report. -/
theorem evaluate_reported {limits : Limits} {source : String} {value : Float}
    (h : evaluate limits source = .ok value) :
    let printed := Report.render {} source (.ok value)
    let again := if value = -0 then 0 else value
    evaluate {} printed = .ok again ∧
      (∀ limits' : Limits, 1 ≤ limits'.depth → printed.length ≤ limits'.length →
        evaluate limits' printed = .ok again) ∧
      ∀ text, Report.render {} text (.ok again) = printed := by
  intro printed again
  have hfinite : again.isFinite = true := isFinite_shown (isFinite_of_evaluate h)
  have hprinted : printed = Decimal.text again := congrArg Decimal.text (shown_eq value)
  have hshown : (if again == 0 then 0 else again) = again := by
    rw [shown_eq]
    exact if_neg (shown_ne value)
  refine ⟨?_, ?_, ?_⟩
  · have hlength := length_text_le hfinite
    rw [hprinted]
    exact evaluate_text hfinite (by decide) (hlength.trans (by decide))
  · intro limits' hdepth hlength
    rw [hprinted] at hlength ⊢
    exact evaluate_text hfinite hdepth hlength
  · intro text
    rw [hprinted]
    exact congrArg Decimal.text hshown

theorem evaluate_reported_quotient :
    evaluate {} "1 / -4" = .ok (-0.25) ∧
      Report.render {} "1 / -4" (.ok (-0.25)) = "-0.25" ∧
      evaluate {} "-0.25" = .ok (-0.25) := by
  have hvalue : evaluate {} "1 / -4" = .ok (-0.25) := by decide +kernel
  have hprinted : Report.render {} "1 / -4" (.ok (-0.25)) = "-0.25" := by decide +kernel
  have hagain := (evaluate_reported hvalue).1
  rw [hprinted] at hagain
  exact ⟨hvalue, hprinted, hagain.trans (congrArg Except.ok (by decide +kernel))⟩

end Calculator
