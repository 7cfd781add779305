import Mathlib.Data.Nat.Log
import Mathlib.Tactic.Ring
import Calculator.Binary64

/-!
# The double nearest to a fraction

The magnitude of a double is found again from every fraction that is nearer to
the double than to its neighbours.  How far this may be is said by `Rounds`, in
quarters of a unit of the last binary place: half a unit on both sides, except
below a power of two, where the neighbour is only half as far.  A fraction in
the middle between two doubles belongs to the one with the even significand.

`nearest_eq_of_rounds` is the law.  Its proof is about the binary place at which
`nearest` rounds: it is the place of the double, or, for a fraction just below a
power of two, the place before it, where the significand is rounded up to 2⁵³.
-/

namespace Calculator

/-- Two whole numbers within half a unit of a fraction are neighbours, and the fraction lies in the
middle between them. -/
theorem tie_of_lt {num den lower upper : Nat} (hden : 0 < den) (hlt : lower < upper)
    (hhigh : 2 * num ≤ 2 * (lower * den) + den) (hlow : 2 * (upper * den) ≤ 2 * num + den) :
    upper = lower + 1 ∧ 2 * num = 2 * (lower * den) + den ∧
      2 * (upper * den) = 2 * num + den ∧ 2 * (num % den) = den := by
  obtain ⟨gap, rfl⟩ := Nat.exists_eq_add_of_lt hlt
  have hsplit : (lower + gap + 1) * den = lower * den + gap * den + den := by ring
  rw [hsplit] at hlow ⊢
  have hgap : gap * den = 0 := by omega
  obtain rfl : gap = 0 := (Nat.mul_eq_zero.1 hgap).resolve_right (by omega)
  obtain ⟨rest, rfl⟩ := Nat.exists_eq_add_of_le (show lower * den ≤ num by omega)
  have hmod : (lower * den + rest) % den = rest := by
    rw [Nat.mul_add_mod_self_right, Nat.mod_eq_of_lt (by omega)]
  exact ⟨rfl, by omega, by omega, by omega⟩

/-- The result is the only whole number within half a unit that is even in a tie. -/
theorem roundDiv_eq {num den quotient : Nat} (hden : 0 < den)
    (hlow : 2 * (quotient * den) ≤ 2 * num + den)
    (hhigh : 2 * num ≤ 2 * (quotient * den) + den)
    (htie : 2 * (quotient * den) = 2 * num + den ∨ 2 * num = 2 * (quotient * den) + den →
      quotient % 2 = 0) :
    roundDiv num den = quotient := by
  have hle := roundDiv_mul_le num hden
  have hge := le_roundDiv_mul num hden
  have heven : 2 * (num % den) = den → roundDiv num den % 2 = 0 := roundDiv_even_of_tie
  generalize roundDiv num den = result at hle hge heven
  -- two different numbers within half a unit are neighbours, and both would be even
  rcases Nat.lt_trichotomy result quotient with hlt | heq | hgt
  · obtain ⟨hnext, -, hmiddle, hmod⟩ := tie_of_lt hden hlt hge hlow
    have hresult := heven hmod
    have hquotient := htie (.inl hmiddle)
    omega
  · exact heq
  · obtain ⟨hnext, hmiddle, -, hmod⟩ := tie_of_lt hden hgt hhigh hle
    have hresult := heven hmod
    have hquotient := htie (.inr hmiddle)
    omega

namespace Binary64

/-! ## Significands -/

theorem significand_lt (m : Nat) : significand m < 2 ^ 53 := by
  have hmod := Nat.mod_lt m (show 0 < 1 <<< 52 by decide)
  unfold significand
  split <;> omega

theorem significand_pos {m : Nat} (hm : m ≠ 0) : 0 < significand m := by
  unfold significand
  split <;> omega

theorem le_significand {m : Nat} (hshift : 0 < shift m) : 2 ^ 52 ≤ significand m := by
  unfold shift at hshift
  rw [Nat.shiftRight_eq_div_pow] at hshift
  unfold significand
  split <;> omega

/-- The exponent counts the binades above the first normal one. -/
theorem magnitude_eq (m : Nat) : shift m * 2 ^ 52 + significand m = m := by
  have hone : 1 <<< 52 = 2 ^ 52 := by decide
  unfold shift significand
  rw [Nat.shiftRight_eq_div_pow, hone]
  split <;> omega

/-! ## The fractions that round to a double -/

/-- The distance to the middle between a double and the next one below, in quarters of a unit of
its last place. -/
def quartersBelow (m : Nat) : Nat :=
  if significand m = 1 <<< 52 ∧ 0 < shift m then 1 else 2

theorem quartersBelow_eq (m : Nat) : quartersBelow m = 1 ∨ quartersBelow m = 2 := by
  unfold quartersBelow
  split
  · exact .inl rfl
  · exact .inr rfl

theorem quartersBelow_eq_one {m : Nat} (hsignificand : significand m = 2 ^ 52)
    (hshift : 0 < shift m) : quartersBelow m = 1 :=
  if_pos ⟨hsignificand, hshift⟩

/-- `Rounds m num den`: the fraction `num / den` lies between the middles around the double with
magnitude `m`; on one of them only if the significand is even. -/
structure Rounds (m num den : Nat) : Prop where
  low : 4 * (significand m * (2 ^ shift m * den)) ≤
    4 * (num * 2 ^ 1074) + quartersBelow m * (2 ^ shift m * den)
  high : 4 * (num * 2 ^ 1074) ≤
    4 * (significand m * (2 ^ shift m * den)) + 2 * (2 ^ shift m * den)
  tie : 4 * (significand m * (2 ^ shift m * den)) =
      4 * (num * 2 ^ 1074) + quartersBelow m * (2 ^ shift m * den) ∨
    4 * (num * 2 ^ 1074) =
      4 * (significand m * (2 ^ shift m * den)) + 2 * (2 ^ shift m * den) →
    significand m % 2 = 0

theorem log2_div_eq {num den exponent : Nat} (hden : 0 < den) (hlow : 2 ^ exponent * den ≤ num)
    (hhigh : num < 2 ^ (exponent + 1) * den) : (num / den).log2 = exponent := by
  have hle : 2 ^ exponent ≤ num / den := (Nat.le_div_iff_mul_le hden).2 hlow
  have hpos := Nat.two_pow_pos exponent
  exact (Nat.log2_eq_iff (by omega)).2 ⟨hle, (Nat.div_lt_iff_lt_mul hden).2 hhigh⟩

theorem log2_div_le {num den exponent : Nat} (hden : 0 < den)
    (hhigh : num < 2 ^ (exponent + 1) * den) : (num / den).log2 ≤ exponent := by
  have hlt : num / den < 2 ^ (exponent + 1) := (Nat.div_lt_iff_lt_mul hden).2 hhigh
  rcases Nat.eq_zero_or_pos (num / den) with hzero | hpos
  · rw [hzero, Nat.log2_zero]
    exact Nat.zero_le _
  · exact Nat.lt_succ_iff.1 ((Nat.log2_lt (by omega)).2 hlt)

/-- What is rounded at the place `places` to a finite magnitude. -/
theorem nearest_eq {m num den places : Nat} (hm : m < infinite)
    (hplaces : (num * 2 ^ 1074 / den).log2 - 52 = places)
    (hround : places * 2 ^ 52 + roundDiv (num * 2 ^ 1074) (2 ^ places * den) = m) :
    nearest num den = m := by
  unfold nearest
  simp only [Nat.shiftLeft_eq, hplaces, Nat.mul_comm den, hround]
  exact Nat.min_eq_left (Nat.le_of_lt hm)

namespace Rounds

variable {m num den : Nat}

theorem lt_next (h : Rounds m num den) (hden : 0 < den) :
    num * 2 ^ 1074 < 2 ^ 53 * (2 ^ shift m * den) := by
  have hhigh := h.high
  have hunit : 0 < 2 ^ shift m * den := Nat.mul_pos (Nat.two_pow_pos _) hden
  have hwide := Nat.mul_le_mul_right (2 ^ shift m * den) (Nat.le_sub_one_of_lt (significand_lt m))
  omega

/-- At the place of the double its significand is the nearest whole number. -/
theorem nearest_eq_of_places (h : Rounds m num den) (hm : m < infinite) (hden : 0 < den)
    (hplaces : (num * 2 ^ 1074 / den).log2 - 52 = shift m) : nearest num den = m := by
  obtain ⟨hlow, hhigh, htie⟩ := h
  have hunit : 0 < 2 ^ shift m * den := Nat.mul_pos (Nat.two_pow_pos _) hden
  have hround : roundDiv (num * 2 ^ 1074) (2 ^ shift m * den) = significand m := by
    rcases quartersBelow_eq m with hquarters | hquarters
    all_goals
      rw [hquarters] at hlow htie
      exact roundDiv_eq hunit (by omega) (by omega) (by omega)
  exact nearest_eq hm hplaces (by rw [hround, magnitude_eq])

/-- A fraction below a power of two that rounds to it: the place is the one before. -/
theorem nearest_eq_of_lt (h : Rounds m num den) (hm : m < infinite) (hden : 0 < den)
    (hshift : 0 < shift m) (hlt : num * 2 ^ 1074 < 2 ^ 52 * (2 ^ shift m * den)) :
    nearest num den = m := by
  obtain ⟨hlow, -, -⟩ := h
  obtain ⟨place, hplace⟩ := Nat.exists_eq_succ_of_ne_zero (Nat.ne_of_gt hshift)
  have hhalf : 2 ^ shift m * den = 2 * (2 ^ place * den) := by
    rw [hplace, Nat.pow_succ]
    ring
  have hunit : 0 < 2 ^ place * den := Nat.mul_pos (Nat.two_pow_pos _) hden
  -- a greater significand would leave the fraction more than half a unit below the double
  have hsignificand : significand m = 2 ^ 52 := by
    by_contra hne
    have hwide := Nat.mul_le_mul_right (2 ^ shift m * den)
      (Nat.succ_le_of_lt (Nat.lt_of_le_of_ne (le_significand hshift) (Ne.symm hne)))
    rcases quartersBelow_eq m with hquarters | hquarters
    all_goals
      rw [hquarters] at hlow
      omega
  rw [quartersBelow_eq_one hsignificand hshift, hsignificand, hhalf] at hlow
  rw [hhalf] at hlt
  have hround : roundDiv (num * 2 ^ 1074) (2 ^ place * den) = 2 ^ 53 :=
    roundDiv_eq hunit (by omega) (by omega) (by omega)
  have hlog : (num * 2 ^ 1074 / den).log2 = place + 52 := by
    have hpower : 2 ^ (place + 52) * den = 2 ^ 52 * (2 ^ place * den) := by ring
    have hpower' : 2 ^ (place + 52 + 1) * den = 2 ^ 53 * (2 ^ place * den) := by ring
    exact log2_div_eq hden (by omega) (by omega)
  have hplaces : (num * 2 ^ 1074 / den).log2 - 52 = place := by omega
  have hmagnitude : place * 2 ^ 52 + 2 ^ 53 = m := by
    calc place * 2 ^ 52 + 2 ^ 53 = (place + 1) * 2 ^ 52 + 2 ^ 52 := by ring
      _ = shift m * 2 ^ 52 + significand m := by rw [hplace, hsignificand]
      _ = m := magnitude_eq m
  exact nearest_eq hm hplaces (by rw [hround, hmagnitude])

end Rounds

theorem nearest_le (num den : Nat) : nearest num den ≤ infinite :=
  Nat.min_le_right ..

/-- A fraction is rounded to the double that it lies next to. -/
theorem nearest_eq_of_rounds {m num den : Nat} (hm : m < infinite) (hden : 0 < den)
    (h : Rounds m num den) : nearest num den = m := by
  have hnext := h.lt_next hden
  have hpower : 2 ^ (shift m + 52 + 1) * den = 2 ^ 53 * (2 ^ shift m * den) := by ring
  rcases Nat.lt_or_ge (num * 2 ^ 1074) (2 ^ 52 * (2 ^ shift m * den)) with hlt | hge
  · rcases Nat.eq_zero_or_pos (shift m) with hshift | hshift
    · -- there is no place below the first one
      have hlog := log2_div_le hden (hnext.trans_eq hpower.symm)
      exact h.nearest_eq_of_places hm hden (by omega)
    · exact h.nearest_eq_of_lt hm hden hshift hlt
  · have hpower' : 2 ^ (shift m + 52) * den = 2 ^ 52 * (2 ^ shift m * den) := by ring
    have hlog := log2_div_eq hden (hpower'.trans_le hge) (hnext.trans_eq hpower.symm)
    exact h.nearest_eq_of_places hm hden (by omega)

end Binary64

end Calculator
