import Mathlib
import Calculator.Proofs.Unpacked
import Calculator.Proofs.Alike

/-!
# The numbers that doubles denote

A finite double denotes a rational number: its absolute value in units of 2⁻¹⁰⁷⁴,
with its sign (`rational`).  Taken apart it is a significand times a power of two,
and the significand has all its bits unless the exponent is the least one
(`Canonical`).  Hence numbers have one form only: doubles that denote the same number
are alike (`Denotes.alike`).
-/

namespace Calculator.Binary64

open Float.Model (Format UnpackedFloat totalExponent)
open Float.Model.UnpackedFloat (Sign)

/-- The number that a finite double denotes. -/
def rational (x : Float) : ℚ :=
  (if isNegative x then -1 else 1) * units (magnitude x) / 2 ^ 1074

/-! ## Scaled whole numbers -/

section Scaled

variable {m c : Nat} {e t : Int}

/-- A number that is scaled by less has more bits. -/
theorem eq_mul_of_scaled_eq (h : (m : ℚ) * 2 ^ e = c * 2 ^ t) (hle : e ≤ t) :
    m = c * 2 ^ (t - e).toNat := by
  have hsplit : t = (t - e).toNat + e := by omega
  rw [hsplit, zpow_add₀ two_ne_zero, zpow_natCast, ← mul_assoc] at h
  have hcancel := mul_right_cancel₀ (zpow_ne_zero e two_ne_zero) h
  exact_mod_cast hcancel

theorem log2_mul_two_pow (hm : 0 < m) (k : Nat) : (m * 2 ^ k).log2 = m.log2 + k := by
  have hpos := Nat.two_pow_pos k
  rw [Nat.log2_eq_iff (Nat.mul_pos hm hpos).ne', Nat.add_right_comm, Nat.pow_add, Nat.pow_add]
  exact ⟨Nat.mul_le_mul_right _ (Nat.log2_self_le hm.ne'),
    Nat.mul_lt_mul_of_pos_right Nat.lt_log2_self hpos⟩

/-- The place of the leading bit is a matter of the number alone. -/
theorem totalExponent_eq (hm : 0 < m) (hc : 0 < c) (h : (m : ℚ) * 2 ^ e = c * 2 ^ t) :
    totalExponent m e = totalExponent c t := by
  unfold totalExponent
  rcases le_total e t with hle | hle
  · have hlog := log2_mul_two_pow hc (t - e).toNat
    rw [← eq_mul_of_scaled_eq h hle] at hlog
    omega
  · have hlog := log2_mul_two_pow hm (e - t).toNat
    rw [← eq_mul_of_scaled_eq h.symm hle] at hlog
    omega

end Scaled

/-! ## Canonical form -/

/-- A significand and an exponent as they stand in a double. -/
structure Canonical (m : Nat) (e : Int) : Prop where
  pos : 0 < m
  lt : m < 2 ^ 53
  least : -1074 ≤ e
  full : 2 ^ 52 ≤ m ∨ e = -1074

theorem targetExponent_binary64 (exponent : Int) :
    Format.binary64.targetExponent exponent = max (exponent - 53) (-1074) := by
  have hbits : (Format.binary64.mantissaBits : Int) = 53 := rfl
  have hleast : Format.binary64.minExponent = -1074 := by decide
  rw [Format.targetExponent, hbits, hleast]

namespace Canonical

variable {m c : Nat} {e t : Int}

/-- Rounding leaves the exponent of a canonical form where it is. -/
theorem targetExponent_eq (h : Canonical m e) :
    Format.binary64.targetExponent (totalExponent m e) = e := by
  have hpos := h.pos
  have hlt : m.log2 < 53 := (Nat.log2_lt (by omega)).2 h.lt
  have hleast := h.least
  rw [targetExponent_binary64, totalExponent]
  rcases h.full with hfull | hexponent
  · have hle : 52 ≤ m.log2 := (Nat.le_log2 (by omega)).2 hfull
    omega
  · omega

/-- A number has one canonical form. -/
theorem unique (h : Canonical m e) (h' : Canonical c t) (hvalue : (m : ℚ) * 2 ^ e = c * 2 ^ t) :
    m = c ∧ e = t := by
  have htotal := totalExponent_eq h.pos h'.pos hvalue
  have hexponent : e = t := by
    rw [← h.targetExponent_eq, htotal, h'.targetExponent_eq]
  subst hexponent
  refine ⟨?_, rfl⟩
  simpa using eq_mul_of_scaled_eq hvalue le_rfl

end Canonical

/-! ## The number of a form -/

/-- `Denotes u q`: the form `u` is canonical and denotes the number `q`. -/
inductive Denotes : UnpackedFloat → ℚ → Prop
  | zero (s : Sign) : Denotes (.zero s) 0
  | finite (s : Sign) {m : Nat} {e : Int} (h : Canonical m e) :
      Denotes (.finite s m e h.pos) (s.apply m * 2 ^ e)

theorem apply_neg (s : Sign) (m : Nat) : (-s).apply m = -s.apply m := by
  cases s with
  | negative => exact (neg_neg (m : Int)).symm
  | positive => rfl

theorem cast_apply_negative (m : Nat) : (Sign.negative.apply m : ℚ) = -m := by
  rw [Sign.apply, Int.cast_neg, Int.cast_natCast]

theorem cast_apply_positive (m : Nat) : (Sign.positive.apply m : ℚ) = m :=
  Int.cast_natCast m

/-- A number that is not zero has one sign and one absolute value. -/
theorem apply_scaled_inj {s s' : Sign} {m c : Nat} {e t : Int} (hm : 0 < m)
    (h : (s.apply m : ℚ) * 2 ^ e = s'.apply c * 2 ^ t) :
    s = s' ∧ (m : ℚ) * 2 ^ e = c * 2 ^ t := by
  have hpos : (0 : ℚ) < m * 2 ^ e := by positivity
  have hnonneg : (0 : ℚ) ≤ c * 2 ^ t := by positivity
  cases s with
  | negative =>
      rw [cast_apply_negative, neg_mul] at h
      cases s' with
      | negative =>
          rw [cast_apply_negative, neg_mul] at h
          exact ⟨rfl, neg_inj.1 h⟩
      | positive =>
          rw [cast_apply_positive] at h
          linarith
  | positive =>
      rw [cast_apply_positive] at h
      cases s' with
      | negative =>
          rw [cast_apply_negative, neg_mul] at h
          linarith
      | positive =>
          rw [cast_apply_positive] at h
          exact ⟨rfl, h⟩

theorem apply_scaled_ne_zero (s : Sign) {m : Nat} (hm : 0 < m) (e : Int) :
    (s.apply m : ℚ) * 2 ^ e ≠ 0 := by
  have happly : s.apply m ≠ 0 := by
    cases s <;> simp only [Sign.apply] <;> omega
  exact mul_ne_zero (Int.cast_ne_zero.2 happly) (zpow_ne_zero e two_ne_zero)

namespace Denotes

variable {u v : UnpackedFloat} {q r : ℚ}

theorem neg (h : Denotes u q) : Denotes u.neg (-q) := by
  cases h with
  | zero s =>
      rw [neg_zero]
      exact .zero _
  | finite s h =>
      have hneg := Denotes.finite (-s) h
      rw [apply_neg, Int.cast_neg, neg_mul] at hneg
      exact hneg

/-- Forms of the same number are the same, or both are zero. -/
theorem alike (h : Denotes u q) (h' : Denotes v r) (hvalue : q = r) : UnpackedAlike u v := by
  cases h with
  | zero s =>
      cases h' with
      | zero s' => exact .zero s s'
      | finite s' h' => exact absurd hvalue.symm (apply_scaled_ne_zero s' h'.pos _)
  | finite s h =>
      cases h' with
      | zero s' => exact absurd hvalue (apply_scaled_ne_zero s h.pos _)
      | finite s' h' =>
          obtain ⟨rfl, hscaled⟩ := apply_scaled_inj h.pos hvalue
          obtain ⟨rfl, rfl⟩ := h.unique h' hscaled
          exact .refl _

theorem eq_zero_iff (h : Denotes u q) : q = 0 ↔ ∃ s, u = .zero s := by
  cases h with
  | zero s => exact ⟨fun _ => ⟨s, rfl⟩, fun _ => rfl⟩
  | finite s h =>
      refine ⟨fun hzero => absurd hzero (apply_scaled_ne_zero s h.pos _), ?_⟩
      rintro ⟨t, ht⟩
      cases ht

end Denotes

/-! ## The number of a double -/

theorem canonical_of_ne_zero {m : Nat} (hm : m ≠ 0) :
    Canonical (significand m) (shift m - 1074) where
  pos := significand_pos hm
  lt := significand_lt m
  least := by omega
  full := by
    rcases Nat.eq_zero_or_pos (shift m) with hshift | hshift
    · exact .inr (by omega)
    · exact .inl (le_significand hshift)

/-- Counted in units of 2⁻¹⁰⁷⁴ or by its exponent, a magnitude is the same number. -/
theorem units_div (m : Nat) :
    (units m : ℚ) / 2 ^ 1074 = significand m * 2 ^ ((shift m : Int) - 1074) := by
  have hleast : (2 : ℚ) ^ (1074 : Int) = 2 ^ 1074 := zpow_natCast 2 1074
  rw [units, Nat.shiftLeft_eq, Nat.cast_mul, Nat.cast_pow, Nat.cast_two, mul_div_assoc,
    zpow_sub₀ two_ne_zero, zpow_natCast, hleast]

theorem rational_eq (x : Float) :
    rational x = ((sign x).apply (significand (magnitude x)) : ℚ) *
      2 ^ ((shift (magnitude x) : Int) - 1074) := by
  rw [rational, mul_div_assoc, units_div, sign]
  cases isNegative x with
  | true => rw [if_pos rfl, if_pos rfl, cast_apply_negative, neg_one_mul, neg_mul]
  | false =>
      rw [if_neg Bool.false_ne_true, if_neg Bool.false_ne_true, cast_apply_positive, one_mul]

/-- A finite double, taken apart, denotes its number. -/
theorem denotes_unpack {x : Float} (hfinite : x.isFinite = true) :
    Denotes x.toModel.unpack (rational x) := by
  rw [unpack_of_isFinite hfinite, rational_eq]
  unfold unpacked
  split
  · next hzero =>
      have happly : (sign x).apply (significand 0) = 0 := by cases sign x <;> rfl
      rw [hzero, happly, Int.cast_zero, zero_mul]
      exact .zero _
  · next hm => exact .finite (sign x) (canonical_of_ne_zero hm)

theorem rational_eq_zero_iff {x : Float} (hfinite : x.isFinite = true) :
    rational x = 0 ↔ isZero x = true := by
  rw [isZero_iff_unpack]
  exact (denotes_unpack hfinite).eq_zero_iff

/-- Alike doubles denote the same number. -/
theorem rational_eq_of_alike {x y : Float} (h : Alike x y) : rational x = rational y := by
  rcases h with rfl | ⟨hx, hy⟩
  · rfl
  · rw [(rational_eq_zero_iff (isFinite_of_isZero hx)).2 hx,
      (rational_eq_zero_iff (isFinite_of_isZero hy)).2 hy]

end Calculator.Binary64
