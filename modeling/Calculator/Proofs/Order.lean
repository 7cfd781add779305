import Mathlib
import Calculator.Proofs.Exact.Denotes

/-!
# The order of doubles

IEEE arithmetic compares two finite doubles by their signs, then by their exponents, and
then by their significands.  All three together are the magnitude with its sign, read as a
whole number (`signedMagnitude`), and two finite doubles are in the same order as these
numbers (`le_iff`, `lt_iff`).  The two zeros have the same one.
-/

namespace Calculator.Binary64

open Float.Model (UnpackedFloat)
open Float.Model.UnpackedFloat (Sign)

/-- The magnitude of a double with its sign; 0 for the zero with a sign too. -/
def signedMagnitude (x : Float) : Int :=
  (sign x).apply (magnitude x)

/-- Exponent and significand, compared one after the other, are compared as a magnitude. -/
theorem compare_places (m n : Nat) :
    (compare ((shift m : Int) - 1074) (shift n - 1074)).then
      (compare (significand m) (significand n)) = compare m n := by
  have hm := magnitude_eq m
  have hn := magnitude_eq n
  have hmlt := significand_lt m
  have hnlt := significand_lt n
  rcases Nat.lt_trichotomy (shift m) (shift n) with hlt | heq | hgt
  · have hfull := le_significand (Nat.zero_lt_of_lt hlt)
    have hexponent : compare ((shift m : Int) - 1074) (shift n - 1074) = .lt :=
      Int.compare_eq_lt.2 (by omega)
    have hmagnitude : compare m n = .lt := Nat.compare_eq_lt.2 (by omega)
    rw [hexponent, hmagnitude]
    rfl
  · rw [heq, Std.compare_self, Ordering.eq_then]
    rw [heq] at hm
    rcases Nat.lt_trichotomy m n with h | h | h
    · rw [Nat.compare_eq_lt.2 h, Nat.compare_eq_lt.2 (by omega)]
    · rw [h]
      simp
    · rw [Nat.compare_eq_gt.2 h, Nat.compare_eq_gt.2 (by omega)]
  · have hfull := le_significand (Nat.zero_lt_of_lt hgt)
    have hexponent : compare ((shift m : Int) - 1074) (shift n - 1074) = .gt :=
      Int.compare_eq_gt.2 (by omega)
    have hmagnitude : compare m n = .gt := Nat.compare_eq_gt.2 (by omega)
    rw [hexponent, hmagnitude]
    rfl

theorem compare_natCast (m n : Nat) : compare (m : Int) n = compare m n := by
  rcases Nat.lt_trichotomy m n with h | rfl | h
  · rw [Nat.compare_eq_lt.2 h, Int.compare_eq_lt.2 (by omega)]
  · simp
  · rw [Nat.compare_eq_gt.2 h, Int.compare_eq_gt.2 (by omega)]

/-- With a minus in front of both, the greater magnitude is the smaller number. -/
theorem compare_neg_natCast (m n : Nat) : compare (-(m : Int)) (-n) = (compare m n).swap := by
  rcases Nat.lt_trichotomy m n with h | rfl | h
  · rw [Nat.compare_eq_lt.2 h, Int.compare_eq_gt.2 (by omega)]
    rfl
  · simp
  · rw [Nat.compare_eq_gt.2 h, Int.compare_eq_lt.2 (by omega)]
    rfl

theorem some_lt_eq {a b : Int} (h : a < b) : some Ordering.lt = some (compare a b) := by
  rw [Int.compare_eq_lt.2 h]

theorem some_gt_eq {a b : Int} (h : b < a) : some Ordering.gt = some (compare a b) := by
  rw [Int.compare_eq_gt.2 h]

theorem compare_unpacked (s t : Sign) (m n : Nat) :
    (unpacked s m).compare (unpacked t n) = some (compare (s.apply m) (t.apply n)) := by
  have hplaces := compare_places m n
  unfold unpacked
  by_cases hm : m = 0 <;> by_cases hn : n = 0
  · subst hm hn
    cases s <;> cases t <;> rfl
  · -- only the sign of the other one counts
    subst hm
    rw [dif_pos rfl, dif_neg hn]
    cases t with
    | negative => exact some_gt_eq (by cases s <;> simp only [Sign.apply] <;> omega)
    | positive => exact some_lt_eq (by cases s <;> simp only [Sign.apply] <;> omega)
  · subst hn
    rw [dif_neg hm, dif_pos rfl]
    cases s with
    | negative => exact some_lt_eq (by cases t <;> simp only [Sign.apply] <;> omega)
    | positive => exact some_gt_eq (by cases t <;> simp only [Sign.apply] <;> omega)
  · rw [dif_neg hm, dif_neg hn]
    cases s <;> cases t
    · rw [Sign.apply, Sign.apply, compare_neg_natCast, ← hplaces]
      rfl
    · exact some_lt_eq (by simp only [Sign.apply]; omega)
    · exact some_gt_eq (by simp only [Sign.apply]; omega)
    · rw [Sign.apply, Sign.apply, compare_natCast, ← hplaces]
      rfl

section Finite

variable {x y : Float} (hx : x.isFinite = true) (hy : y.isFinite = true)

include hx hy

theorem compare_unpack : x.toModel.unpack.compare y.toModel.unpack =
    some (compare (signedMagnitude x) (signedMagnitude y)) := by
  rw [unpack_of_isFinite hx, unpack_of_isFinite hy, compare_unpacked]
  rfl

theorem le_iff : x ≤ y ↔ signedMagnitude x ≤ signedMagnitude y := by
  have hmodel : x ≤ y ↔ x.toModel.unpack.le y.toModel.unpack = true := decide_eq_true_iff
  rw [hmodel, UnpackedFloat.le, compare_unpack hx hy, Option.any_some, Int.isLE_compare]

theorem lt_iff : x < y ↔ signedMagnitude x < signedMagnitude y := by
  have hmodel : x < y ↔ x.toModel.unpack.lt y.toModel.unpack = true := decide_eq_true_iff
  rw [hmodel, UnpackedFloat.lt, compare_unpack hx hy, beq_iff_eq, Option.some.injEq,
    Int.compare_eq_lt]

end Finite

theorem lt_zero_iff {x : Float} (hx : x.isFinite = true) :
    x < 0 ↔ isNegative x = true ∧ magnitude x ≠ 0 := by
  have hzero : signedMagnitude 0 = 0 := by decide +kernel
  rw [lt_iff hx (by decide +kernel), hzero, signedMagnitude, sign]
  cases isNegative x with
  | true =>
      simp [Sign.apply]
      omega
  | false => simp [Sign.apply]

theorem signedMagnitude_of_lt_zero {x : Float} (hx : x.isFinite = true) (h : x < 0) :
    signedMagnitude x = -magnitude x := by
  rw [signedMagnitude, sign, if_pos ((lt_zero_iff hx).1 h).1]
  rfl

/-- The zero with a sign is not less than zero. -/
theorem signedMagnitude_of_not_lt_zero {x : Float} (hx : x.isFinite = true) (h : ¬ x < 0) :
    signedMagnitude x = magnitude x := by
  rw [lt_zero_iff hx, not_and, not_not] at h
  rw [signedMagnitude, sign]
  cases hsign : isNegative x with
  | true =>
      rw [h hsign]
      rfl
  | false => rfl

/-! ## Doubles without a sign -/

theorem signedMagnitude_ofMagnitude {m : Nat} (hm : m < infinite) :
    signedMagnitude (ofMagnitude m) = m := by
  rw [signedMagnitude, sign, isNegative_ofMagnitude hm, magnitude_ofMagnitude hm]
  rfl

theorem unpack_infinite : (ofMagnitude infinite).toModel.unpack = .infinity .positive :=
  rfl

/-- Without a sign the greater magnitude is the greater double, infinity included. -/
theorem ofMagnitude_le_ofMagnitude {m n : Nat} (hle : m ≤ n) (hn : n ≤ infinite) :
    ofMagnitude m ≤ ofMagnitude n := by
  rcases Nat.lt_or_eq_of_le hn with hlt | rfl
  · have hm : m < infinite := hle.trans_lt hlt
    rw [le_iff (isFinite_ofMagnitude hm) (isFinite_ofMagnitude hlt),
      signedMagnitude_ofMagnitude hm, signedMagnitude_ofMagnitude hlt]
    exact Int.ofNat_le.2 hle
  · rcases Nat.lt_or_eq_of_le hle with hlt | rfl
    · have hmodel : (ofMagnitude m).toModel.unpack.le (ofMagnitude infinite).toModel.unpack =
          true := by
        rw [unpack_ofMagnitude hlt, unpack_infinite]
        unfold unpacked
        split <;> rfl
      exact decide_eq_true hmodel
    · decide +kernel

end Calculator.Binary64
