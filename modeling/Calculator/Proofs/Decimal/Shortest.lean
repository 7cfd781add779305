import Mathlib.Tactic.LinearCombination
import Mathlib.Tactic.Ring
import Calculator.Decimal.OfFloat
import Calculator.Proofs.Decimal.Positional
import Calculator.Proofs.Binary64
import Calculator.Proofs.Nearest

/-!
# The shortest text reads back

The shortest decimal of a double lies in the interval of the decimals that round
to it (`Interval.contains_shortest`), and this is the interval of
`Binary64.Rounds` (`rounds_of_contains`).  So the text of a finite double without
a sign is a numeral, and the double is the value of the numeral (`exists_read?_text`).
-/

namespace Calculator.Decimal

open Binary64 (infinite isInf_of_isFinite isNaN_of_isFinite isNegative magnitude
  magnitude_lt_infinite nearest nearest_eq_of_rounds ofMagnitude ofMagnitude_magnitude quartersBelow
  quartersBelow_eq Rounds shift significand significand_pos)

/-! ## The search for a decimal -/

namespace Interval

variable {i : Interval}

theorem contains_of_onGrid? {step count : Nat} (h : i.onGrid? step = some count) :
    i.contains (count * step) = true := by
  unfold onGrid? at h
  dsimp only at h
  split at h
  · next hbelow habove =>
      split at h
      · cases h
        exact hbelow
      · cases h
        rwa [Nat.add_mul, Nat.one_mul]
  · next hbelow habove =>
      cases h
      exact hbelow
  · next hbelow habove =>
      cases h
      rwa [Nat.add_mul, Nat.one_mul]
  · cases h

/-- The decimal that is found lies in the interval. -/
theorem contains_shortest (hvalue : i.contains i.value = true) :
    i.contains (i.shortest.1 * Nat.pow 10 i.shortest.2) = true := by
  unfold shortest
  induction i.high.log2 / 3 + 1 with
  | zero => simpa [shortestBelow] using hvalue
  | succ exponent ih =>
      unfold shortestBelow
      cases hgrid : i.onGrid? (Nat.pow 10 (exponent + 1)) with
      | none => exact ih
      | some count => exact contains_of_onGrid? hgrid

end Interval

/-! ## The interval of a double -/

/-- A quarter of a unit of the last binary place, counted in the last decimal place. -/
def quarter (m : Nat) : Nat :=
  Nat.pow 5 (1076 - shift m) <<< (shift m - 1076)

theorem quarter_eq (m : Nat) : quarter m = 5 ^ (1076 - shift m) * 2 ^ (shift m - 1076) :=
  Nat.shiftLeft_eq _ _

theorem quarter_pos (m : Nat) : 0 < quarter m := by
  rw [quarter_eq]
  exact Nat.mul_pos (pow_pos (by decide) _) (Nat.two_pow_pos _)

/-- In units of 2⁻¹⁰⁷⁶ a quarter is as long as the last binary place. -/
theorem quarter_mul (m : Nat) :
    quarter m * 2 ^ 1076 = 2 ^ shift m * 10 ^ quarterPlaces m := by
  rw [quarter_eq, quarterPlaces]
  generalize 1076 = least
  rcases Nat.le_total (shift m) least with hle | hge
  · have hten : 10 ^ (least - shift m) = 5 ^ (least - shift m) * 2 ^ (least - shift m) :=
      Nat.mul_pow 5 2 _
    have htwo : 2 ^ least = 2 ^ shift m * 2 ^ (least - shift m) := by
      rw [← Nat.pow_add, Nat.add_sub_cancel' hle]
    rw [hten, htwo, Nat.sub_eq_zero_of_le hle]
    ring
  · have htwo : 2 ^ shift m = 2 ^ (shift m - least) * 2 ^ least := by
      rw [← Nat.pow_add, Nat.sub_add_cancel hge]
    rw [htwo, Nat.sub_eq_zero_of_le hge]
    ring

/-- The interval of a double, in quarters. -/
theorem roundingInterval_eq (m : Nat) :
    roundingInterval m =
      { low := (4 * significand m - quartersBelow m) * quarter m
        value := 4 * significand m * quarter m
        high := (4 * significand m + 2) * quarter m
        closed := decide (significand m % 2 = 0) } :=
  rfl

/-- The ends of an interval belong to it only if the significand is even. -/
theorem bounds_of_contains {m n : Nat} (h : (roundingInterval m).contains n = true) :
    4 * (significand m * quarter m) ≤ n + quartersBelow m * quarter m ∧
      n ≤ 4 * (significand m * quarter m) + 2 * quarter m ∧
      (4 * (significand m * quarter m) = n + quartersBelow m * quarter m ∨
        n = 4 * (significand m * quarter m) + 2 * quarter m → significand m % 2 = 0) := by
  rw [roundingInterval_eq, Interval.contains] at h
  dsimp only at h
  rw [Nat.sub_mul, Nat.add_mul, Nat.mul_assoc] at h
  by_cases heven : significand m % 2 = 0
  · rw [if_pos (decide_eq_true heven), decide_eq_true_eq] at h
    exact ⟨by omega, by omega, fun _ => heven⟩
  · rw [if_neg (by simpa using heven), decide_eq_true_eq] at h
    exact ⟨by omega, by omega, by omega⟩

theorem contains_value {m : Nat} (hm : m ≠ 0) :
    (roundingInterval m).contains (roundingInterval m).value = true := by
  have hquarter := quarter_pos m
  have hbelow : 0 < quartersBelow m * quarter m := by
    rcases quartersBelow_eq m with hquarters | hquarters <;> rw [hquarters] <;> omega
  have hvalue : 0 < significand m * quarter m := Nat.mul_pos (significand_pos hm) hquarter
  rw [roundingInterval_eq, Interval.contains]
  dsimp only
  rw [Nat.sub_mul, Nat.add_mul, Nat.mul_assoc]
  split <;> exact decide_eq_true (by omega)

/-- Products with one and the same factor compare as what they are products of. -/
theorem compare_of_mul_eq {x x' y y' factor factor' : Nat} (hfactor : 0 < factor)
    (hfactor' : 0 < factor') (hx : x * factor = x' * factor') (hy : y * factor = y' * factor') :
    (x ≤ y ↔ x' ≤ y') ∧ (x = y ↔ x' = y') := by
  constructor
  · rw [← Nat.mul_le_mul_right_iff hfactor, hx, hy, Nat.mul_le_mul_right_iff hfactor']
  · rw [← Nat.mul_left_inj (Nat.ne_of_gt hfactor), hx, hy, Nat.mul_left_inj (Nat.ne_of_gt hfactor')]

/-- A decimal in the interval of a double rounds to it. -/
theorem rounds_of_contains {m n num den : Nat} (hden : 0 < den)
    (hratio : num * 10 ^ quarterPlaces m = n * den)
    (hcontains : (roundingInterval m).contains n = true) : Rounds m num den := by
  obtain ⟨hlow, hhigh, htie⟩ := bounds_of_contains hcontains
  -- the binary unit is `quarter m` and the fraction is `n`, both counted in the last decimal place
  have hunit : 2 ^ shift m * den * 10 ^ quarterPlaces m = quarter m * (2 ^ 1076 * den) := by
    rw [← Nat.mul_assoc, quarter_mul]
    ring
  have hnum : 4 * (num * 2 ^ 1074) * 10 ^ quarterPlaces m = n * (2 ^ 1076 * den) := by
    have hfour : 4 = 2 * 2 := rfl
    have hpower : 2 ^ 1076 = 4 * 2 ^ 1074 := by
      rw [hfour, pow_succ, pow_succ, mul_assoc, mul_comm]
    rw [hpower]
    generalize 2 ^ 1074 = units
    linear_combination 4 * units * hratio
  have hfactor : 0 < 10 ^ quarterPlaces m := Nat.pow_pos (by decide)
  have hunits : 0 < 2 ^ 1076 := pow_pos (by decide) _
  have hscale := Nat.mul_pos hunits hden
  generalize 2 ^ 1076 * den = scale at hunit hnum hscale
  have hbelow := compare_of_mul_eq hfactor hscale
    (show 4 * (significand m * (2 ^ shift m * den)) * 10 ^ quarterPlaces m =
        4 * (significand m * quarter m) * scale by
      linear_combination 4 * significand m * hunit)
    (show (4 * (num * 2 ^ 1074) + quartersBelow m * (2 ^ shift m * den)) * 10 ^ quarterPlaces m =
        (n + quartersBelow m * quarter m) * scale by
      rw [Nat.add_mul, hnum]
      linear_combination quartersBelow m * hunit)
  have habove := compare_of_mul_eq hfactor hscale hnum
    (show (4 * (significand m * (2 ^ shift m * den)) + 2 * (2 ^ shift m * den)) *
          10 ^ quarterPlaces m =
        (4 * (significand m * quarter m) + 2 * quarter m) * scale by
      linear_combination (4 * significand m + 2) * hunit)
  refine ⟨hbelow.1.2 hlow, habove.1.2 hhigh, fun hmiddle => htie ?_⟩
  exact hmiddle.imp hbelow.2.1 habove.2.1

/-! ## The text of a double -/

/-- The fraction that the shortest text of a magnitude writes rounds to the magnitude. -/
theorem nearest_shortest {m : Nat} (hm : m ≠ 0) (hfinite : m < infinite) :
    nearest ((roundingInterval m).shortest.1 *
        Nat.pow 10 ((roundingInterval m).shortest.2 - quarterPlaces m))
      (Nat.pow 10 (quarterPlaces m - (roundingInterval m).shortest.2)) = m := by
  have hcontains := Interval.contains_shortest (contains_value hm)
  generalize (roundingInterval m).shortest = found at hcontains
  obtain ⟨count, zeros⟩ := found
  refine nearest_eq_of_rounds hfinite (Nat.pow_pos (by decide))
    (rounds_of_contains (Nat.pow_pos (by decide)) ?_ hcontains)
  -- the zeros to write and the places to leave out are the two parts of one difference
  have hexponents : zeros - quarterPlaces m + quarterPlaces m =
      zeros + (quarterPlaces m - zeros) := by omega
  simp only [Nat.pow_eq, Nat.mul_assoc, ← Nat.pow_add, hexponents]

theorem shortestText_eq {m : Nat} (hm : m ≠ 0) :
    shortestText m = positional ((roundingInterval m).shortest.1 *
        Nat.pow 10 ((roundingInterval m).shortest.2 - quarterPlaces m))
      (quarterPlaces m - (roundingInterval m).shortest.2) :=
  if_neg hm

theorem exists_read?_shortestText {m : Nat} (hfinite : m < infinite) :
    ∃ numeral, Numeral.read? (shortestText m) = some numeral ∧ numeral.value = ofMagnitude m := by
  by_cases hm : m = 0
  · subst hm
    exact ⟨⟨['0'], []⟩, by decide, by decide +kernel⟩
  · rw [shortestText_eq hm]
    refine ⟨numeral _ _, read?_positional _ _, ?_⟩
    rw [value_numeral, nearest_shortest hm hfinite]

/-- The text of a double that is no NaN, but for the sign. -/
def unsignedText (x : Float) : List Char :=
  if x.isInf then "inf".toList else shortestText (magnitude x)

section Text

variable {x : Float}

theorem toList_text (hnan : x.isNaN = false) :
    (text x).toList = (if isNegative x then ['-'] else []) ++ unsignedText x := by
  rw [text, signed, hnan, unsignedText]
  cases isNegative x <;> cases x.isInf <;> simp

theorem toList_text_of_isFinite (hfinite : x.isFinite = true) :
    (text x).toList = (if isNegative x then ['-'] else []) ++ shortestText (magnitude x) := by
  rw [toList_text (isNaN_of_isFinite hfinite), unsignedText, isInf_of_isFinite hfinite]
  rfl

/-- The text of a finite double without a sign is a numeral, and the double is its value. -/
theorem exists_read?_text (hfinite : x.isFinite = true) (hsign : isNegative x = false) :
    ∃ numeral, Numeral.read? (text x).toList = some numeral ∧ numeral.value = x := by
  have htext : (text x).toList = shortestText (magnitude x) := by
    rw [toList_text_of_isFinite hfinite, hsign]
    rfl
  obtain ⟨numeral, hread, hvalue⟩ := exists_read?_shortestText (magnitude_lt_infinite hfinite)
  exact ⟨numeral, htext ▸ hread, hvalue.trans (ofMagnitude_magnitude hsign)⟩

end Text

end Calculator.Decimal
