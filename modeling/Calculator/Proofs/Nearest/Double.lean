import Mathlib
import Calculator.Proofs.Exact.WholeNumbers
import Calculator.Proofs.Nearest.Grid

/-!
# Doubles as a grid

The numbers of the doubles without a sign are a grid: they ascend with the magnitude
(`strictMono_point`).  The grid goes on above the largest finite double as if exponents
had no end; its next point, 2¹⁰²⁴, is that of infinity.  On this grid `nearest` finds
the nearest point (`nearest_point`).  A number comes to infinity if it lies in the
middle between the last finite point and 2¹⁰²⁴, or above (`infinite_le_iff`).
-/

namespace Calculator.Binary64

/-! ## The grid -/

/-- The number of the double with the magnitude `m`; the first power of two that is too large for
infinity. -/
def point (m : Nat) : ℚ :=
  units m / 2 ^ 1074

/-- What is counted at a binary place and fits the significand, or just does not fit it any more. -/
theorem units_add {places q : Nat} (hle : q ≤ 2 ^ 53) (hfull : places = 0 ∨ 2 ^ 52 ≤ q) :
    units (places * 2 ^ 52 + q) = q * 2 ^ places := by
  by_cases hnormal : 2 ^ 52 ≤ q
  · rcases Nat.lt_or_eq_of_le hle with hlt | rfl
    · exact units_of_places hnormal hlt
    · have hcarry : places * 2 ^ 52 + 2 ^ 53 = (places + 1) * 2 ^ 52 + 2 ^ 52 := by omega
      rw [hcarry, units_of_places le_rfl (by decide), Nat.pow_succ]
      omega
  · obtain rfl : places = 0 := hfull.resolve_right hnormal
    have hshift : shift q = 0 := by
      rw [shift_eq]
      omega
    rw [Nat.zero_mul, Nat.zero_add, units_eq, hshift, significand_of_lt (by omega)]

theorem units_lt_units_succ (m : Nat) : units m < units (m + 1) := by
  have hlt := significand_lt m
  have hnext : m + 1 = shift m * 2 ^ 52 + (significand m + 1) := by
    rw [← Nat.add_assoc, magnitude_eq]
  have hfull : shift m = 0 ∨ 2 ^ 52 ≤ significand m + 1 := by
    rcases Nat.eq_zero_or_pos (shift m) with hshift | hshift
    · exact .inl hshift
    · exact .inr (Nat.le_succ_of_le (le_significand hshift))
  rw [hnext, units_add hlt hfull, units_eq]
  exact Nat.mul_lt_mul_of_pos_right (Nat.lt_succ_self _) (Nat.two_pow_pos _)

theorem strictMono_units : StrictMono units :=
  strictMono_nat_of_lt_succ units_lt_units_succ

theorem strictMono_point : StrictMono point := by
  intro m n hlt
  have hunits : (units m : ℚ) < units n := Nat.cast_lt.2 (strictMono_units hlt)
  exact div_lt_div_of_pos_right hunits (by positivity)

theorem point_nonneg (m : Nat) : 0 ≤ point m := by
  unfold point
  positivity

theorem rational_eq_point (x : Float) :
    rational x = (if isNegative x then -1 else 1) * point (magnitude x) := by
  rw [rational, mul_div_assoc, point]

theorem abs_rational (x : Float) : |rational x| = point (magnitude x) := by
  have hnonneg := point_nonneg (magnitude x)
  rw [rational_eq_point]
  cases isNegative x <;> simp [abs_of_nonneg hnonneg]

/-! ## The nearest point -/

/-- What `nearest` comes to before it is cut off at infinity. -/
def rounded (num den : Nat) : Nat :=
  (((num <<< 1074 / den).log2 - 52) <<< 52) +
    roundDiv (num <<< 1074) (den <<< ((num <<< 1074 / den).log2 - 52))

theorem nearest_eq_min (num den : Nat) : nearest num den = min (rounded num den) infinite :=
  rfl

/-- The binary place at which a fraction is rounded: as a whole number of units of this place the
fraction has 53 bits, unless it is the least place. -/
theorem exists_places (scaled : Nat) {den : Nat} (hden : 0 < den) :
    ∃ places, (scaled / den).log2 - 52 = places ∧ scaled < 2 ^ 53 * (2 ^ places * den) ∧
      (places = 0 ∨ 2 ^ 52 * (2 ^ places * den) ≤ scaled) := by
  refine ⟨_, rfl, ?_, ?_⟩
  · have hlt : scaled / den < 2 ^ ((scaled / den).log2 - 52 + 53) :=
      Nat.lt_log2_self.trans_le (Nat.pow_le_pow_right (by decide) (by omega))
    rw [Nat.div_lt_iff_lt_mul hden] at hlt
    calc scaled < 2 ^ ((scaled / den).log2 - 52 + 53) * den := hlt
      _ = 2 ^ 53 * (2 ^ ((scaled / den).log2 - 52) * den) := by ring
  · by_cases hzero : (scaled / den).log2 - 52 = 0
    · exact .inl hzero
    · right
      have hpos : scaled / den ≠ 0 := by
        intro hnone
        rw [hnone, Nat.log2_zero] at hzero
        exact hzero rfl
      have hexponent : 52 + ((scaled / den).log2 - 52) = (scaled / den).log2 := by omega
      calc 2 ^ 52 * (2 ^ ((scaled / den).log2 - 52) * den)
          = 2 ^ (scaled / den).log2 * den := by rw [← Nat.mul_assoc, ← Nat.pow_add, hexponent]
        _ ≤ scaled / den * den := Nat.mul_le_mul_right den (Nat.log2_self_le hpos)
        _ ≤ scaled := Nat.div_mul_le_self scaled den

/-- A magnitude whose last place is not finer counts whole units of a place; one whose last place is
finer lies below the significands that have all their bits there. -/
theorem units_eq_mul_or_lt (k places : Nat) :
    (∃ c, units k = c * 2 ^ places) ∨ (places ≠ 0 ∧ units k < 2 ^ 52 * 2 ^ places) := by
  rw [units_eq]
  rcases Nat.lt_or_ge (shift k) places with hlt | hge
  · refine .inr ⟨by omega, ?_⟩
    calc significand k * 2 ^ shift k < 2 ^ 53 * 2 ^ shift k :=
          Nat.mul_lt_mul_of_pos_right (significand_lt k) (Nat.two_pow_pos _)
      _ = 2 ^ 52 * 2 ^ (shift k + 1) := by ring
      _ ≤ 2 ^ 52 * 2 ^ places :=
          Nat.mul_le_mul_left _ (Nat.pow_le_pow_right (by decide) hlt)
  · left
    refine ⟨significand k * 2 ^ (shift k - places), ?_⟩
    rw [Nat.mul_assoc, ← Nat.pow_add, Nat.sub_add_cancel hge]

/-- A fraction, counted in units of a binary place. -/
theorem div_eq_scaled (num den places least : Nat) :
    (num : ℚ) / den =
      2 ^ places / 2 ^ least * ((num <<< least : Nat) / (2 ^ places * den : Nat)) := by
  rw [Nat.shiftLeft_eq]
  push_cast
  field_simp

section Place

variable {num den places q : Nat}

/-- A point of the grid is a whole number of units of the place at which a fraction is rounded, or
it is farther from the fraction than the whole number next to it. -/
theorem point_eq_mul_or_lt (hden : 0 < den)
    (hfull : places = 0 ∨ 2 ^ 52 * (2 ^ places * den) ≤ num <<< 1074)
    (h : Nearest (fun c => (2 ^ places / 2 ^ 1074 : ℚ) * c) (num / den) q) (k : Nat) :
    (∃ c : Nat, point k = 2 ^ places / 2 ^ 1074 * c) ∨
      |(num : ℚ) / den - 2 ^ places / 2 ^ 1074 * q| < |(num : ℚ) / den - point k| := by
  have hle := h.le (2 ^ 52)
  unfold point
  generalize 1074 = least at hfull h hle ⊢
  rcases units_eq_mul_or_lt k places with ⟨c, hc⟩ | ⟨hplaces, hlt⟩
  · left
    refine ⟨c, ?_⟩
    rw [hc]
    push_cast
    ring
  · right
    have hleast : (0 : ℚ) < 2 ^ least := by positivity
    have hpos : (0 : ℚ) < den := Nat.cast_pos.2 hden
    have hbound : (2 : ℚ) ^ places / 2 ^ least * (2 ^ 52 : Nat) ≤ num / den := by
      have hcast : ((2 ^ 52 * (2 ^ places * den) : Nat) : ℚ) ≤ (num <<< least : Nat) :=
        Nat.cast_le.2 (hfull.resolve_left hplaces)
      rw [Nat.shiftLeft_eq] at hcast
      push_cast at hcast ⊢
      rw [div_mul_eq_mul_div, div_le_div_iff₀ hleast hpos]
      linarith
    have hbelow : (units k : ℚ) / 2 ^ least < 2 ^ places / 2 ^ least * (2 ^ 52 : Nat) := by
      have hcast : (units k : ℚ) < (2 ^ 52 * 2 ^ places : Nat) := Nat.cast_lt.2 hlt
      push_cast at hcast ⊢
      rw [div_mul_eq_mul_div]
      exact div_lt_div_of_pos_right (by linarith) hleast
    rw [abs_of_nonneg (sub_nonneg.2 hbound)] at hle
    rw [abs_of_nonneg (sub_nonneg.2 (hbelow.le.trans hbound))]
    linarith

end Place

/-- A fraction is rounded to the nearest point of the grid. -/
theorem nearest_point (num : Nat) {den : Nat} (hden : 0 < den) :
    Nearest point (num / den) (rounded num den) := by
  obtain ⟨places, hplaces, hlt, hfull⟩ := exists_places (num <<< 1074) hden
  have hunit : 0 < 2 ^ places * den := Nat.mul_pos (Nat.two_pow_pos _) hden
  have hscale : (0 : ℚ) < 2 ^ places / 2 ^ 1074 := by positivity
  have hwhole := (nearest_roundDiv (num <<< 1074) hunit).scale hscale
  rw [← div_eq_scaled] at hwhole
  have hrounded : rounded num den =
      places * 2 ^ 52 + roundDiv (num <<< 1074) (2 ^ places * den) := by
    rw [rounded, hplaces, Nat.shiftLeft_eq places, Nat.shiftLeft_eq den, Nat.mul_comm den]
  have hle := roundDiv_le hunit hlt.le
  have hbits := hfull.imp_right (le_roundDiv hunit)
  generalize roundDiv (num <<< 1074) (2 ^ places * den) = q at hwhole hrounded hle hbits
  have hpoint : point (rounded num den) = 2 ^ places / 2 ^ 1074 * q := by
    rw [point, hrounded, units_add hle hbits, Nat.cast_mul, Nat.cast_pow, Nat.cast_ofNat,
      mul_div_assoc, mul_comm]
  have heven : Even q → Even (rounded num den) := by
    rw [hrounded, Nat.even_iff, Nat.even_iff]
    omega
  constructor
  · intro k
    rw [hpoint]
    rcases point_eq_mul_or_lt hden hfull hwhole k with ⟨c, hc⟩ | hfar
    · rw [hc]
      exact hwhole.le c
    · exact hfar.le
  · intro k hk heq
    rw [hpoint] at heq
    rcases point_eq_mul_or_lt hden hfull hwhole k with ⟨c, hc⟩ | hfar
    · rw [hc] at heq
      refine heven (hwhole.even c ?_ heq)
      rintro rfl
      exact hk (strictMono_point.injective (hc.trans hpoint.symm))
    · exact absurd heq hfar.ne'

/-! ## Infinity -/

theorem point_eq (m : Nat) : point m = significand m * 2 ^ ((shift m : Int) - 1074) :=
  units_div m

theorem point_infinite : point infinite = 2 ^ 1024 := by
  have hsignificand : significand infinite = 2 ^ 52 := by decide
  have hexponent : ((shift infinite : Nat) : Int) - 1074 = (972 : Nat) := by decide
  rw [point_eq, hsignificand, hexponent, zpow_natCast, Nat.cast_pow, Nat.cast_ofNat, ← pow_add]

/-- The largest finite double. -/
theorem point_infinite_pred : point (infinite - 1) = 2 ^ 1024 - 2 ^ 971 := by
  have hsignificand : significand (infinite - 1) + 1 = 2 ^ 53 := by decide
  have hexponent : ((shift (infinite - 1) : Nat) : Int) - 1074 = (971 : Nat) := by decide
  have hcast : (significand (infinite - 1) : ℚ) = 2 ^ 53 - 1 := by
    rw [eq_sub_iff_add_eq, ← Nat.cast_succ, Nat.succ_eq_add_one, hsignificand, Nat.cast_pow,
      Nat.cast_ofNat]
  rw [point_eq, hcast, hexponent, zpow_natCast, sub_mul, ← pow_add, one_mul]

/-- A number comes to infinity if it is at least in the middle between the largest finite double and
the next power of two; the middle itself goes to the power of two, whose significand is even. -/
theorem infinite_le_iff {q : ℚ} {m : Nat} (h : Nearest point q m) :
    infinite ≤ m ↔ 2 ^ 1024 - 2 ^ 970 ≤ q := by
  have hodd : ¬ Even (infinite - 1) := by decide
  have hnext : infinite - 1 + 1 = infinite := by decide
  have hpower : (2 : ℚ) ^ 971 = 2 * 2 ^ 970 := pow_succ' 2 970
  have hiff := h.succ_le_iff strictMono_point hodd
  rw [hnext, point_infinite, point_infinite_pred, hpower] at hiff
  rw [hiff]
  generalize (2 : ℚ) ^ 1024 = above
  generalize (2 : ℚ) ^ 970 = half
  constructor <;> intro hle <;> linarith

end Calculator.Binary64
