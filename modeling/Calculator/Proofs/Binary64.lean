import Mathlib
import Calculator.Binary64
import Calculator.Proofs.Value

/-!
# The bits of a double

A finite double has a magnitude below that of infinity, an infinity has just that
magnitude, and every other double is a NaN.  A double is given by its sign and its
magnitude.
-/

namespace Calculator.Binary64

open Float.Model (Format UnpackedFloat)

variable {x : Float}

/-- The exponent field of a finite double is not filled with ones. -/
theorem toNat_unpackExponent_ne {bits : BitVec Format.binary64.numBits}
    (hfinite : (UnpackedFloat.unpack Format.binary64 bits).isFinite = true) :
    bits.toNat / 2 ^ 52 % 2 ^ 11 ≠ 2047 := by
  rw [← toNat_unpackExponent]
  intro htoNat
  have hones : UnpackedFloat.unpackExponent bits = -1#_ :=
    BitVec.eq_of_toNat_eq (htoNat.trans (by decide))
  unfold UnpackedFloat.unpack at hfinite
  dsimp only at hfinite
  rw [if_pos hones] at hfinite
  split at hfinite <;> cases hfinite

theorem magnitude_lt_infinite (hfinite : x.isFinite = true) : magnitude x < infinite := by
  have hexponent : x.toBits.toNat / 2 ^ 52 % 2 ^ 11 ≠ 2047 := toNat_unpackExponent_ne hfinite
  have hsign : 1 <<< 63 = 2 ^ 63 := by decide
  rw [magnitude, infinite, hsign]
  omega

theorem isNaN_of_isFinite (hfinite : x.isFinite = true) : x.isNaN = false := by
  have hunpacked : x.toModel.unpack.isFinite = true := hfinite
  change x.toModel.unpack.isNaN = false
  cases hcases : x.toModel.unpack with
  | notANumber =>
      rw [hcases] at hunpacked
      cases hunpacked
  | infinity sign | zero sign | finite sign => rfl

theorem isInf_of_isFinite (hfinite : x.isFinite = true) : x.isInf = false := by
  have hunpacked : x.toModel.unpack.isFinite = true := hfinite
  change x.toModel.unpack.isInf = false
  cases hcases : x.toModel.unpack with
  | infinity sign =>
      rw [hcases] at hunpacked
      cases hunpacked
  | notANumber | zero sign | finite sign => rfl

theorem isFinite_of_isNaN_isInf (hnan : x.isNaN = false) (hinf : x.isInf = false) :
    x.isFinite = true := by
  have hnumber : x.toModel.unpack.isNaN = false := hnan
  have hbounded : x.toModel.unpack.isInf = false := hinf
  change x.toModel.unpack.isFinite = true
  cases hcases : x.toModel.unpack with
  | notANumber =>
      rw [hcases] at hnumber
      cases hnumber
  | infinity sign =>
      rw [hcases] at hbounded
      cases hbounded
  | zero sign | finite sign => rfl

/-- An infinity has a full exponent field and no bits below it. -/
theorem toNat_of_unpack_isInf {bits : BitVec Format.binary64.numBits}
    (hinf : (UnpackedFloat.unpack Format.binary64 bits).isInf = true) :
    bits.toNat % 2 ^ 63 = 2047 * 2 ^ 52 := by
  have hexponent := toNat_unpackExponent bits
  have hmantissa := toNat_unpackMantissa bits
  unfold UnpackedFloat.unpack at hinf
  dsimp only at hinf
  by_cases hones : UnpackedFloat.unpackExponent bits = -1#_
  · rw [if_pos hones] at hinf
    by_cases hzero : UnpackedFloat.unpackMantissa bits = 0#_
    · have hfull : (UnpackedFloat.unpackExponent bits).toNat = 2047 := by
        rw [hones]
        decide
      rw [hzero, BitVec.toNat_ofNat, Nat.zero_mod] at hmantissa
      omega
    · rw [if_neg hzero] at hinf
      cases hinf
  · rw [if_neg hones] at hinf
    split at hinf
    · split at hinf <;> cases hinf
    · cases hinf

theorem magnitude_of_isInf (hinf : x.isInf = true) : magnitude x = infinite :=
  toNat_of_unpack_isInf hinf

/-- A double is given by its sign and its magnitude. -/
theorem eq_of_magnitude_eq {y : Float} (hsign : isNegative x = isNegative y)
    (hmagnitude : magnitude x = magnitude y) : x = y := by
  have hshift : 1 <<< 63 = 2 ^ 63 := by decide
  have hx := x.toBits.toNat_lt
  have hy := y.toBits.toNat_lt
  have hbits : x.toBits.toNat = y.toBits.toNat := by
    rw [isNegative, isNegative, decide_eq_decide] at hsign
    rw [magnitude, magnitude, hshift] at hmagnitude
    rw [hshift] at hsign
    omega
  exact eq_of_toNat_toBits hbits

/-- Without the sign bit a double is its magnitude. -/
theorem ofMagnitude_magnitude (hsign : isNegative x = false) : ofMagnitude (magnitude x) = x := by
  have hlt : x.toBits.toNat < 1 <<< 63 := by simpa [isNegative] using hsign
  rw [ofMagnitude, magnitude, Nat.mod_eq_of_lt hlt, UInt64.ofNat_toNat, Float.ofBits_toBits]

end Calculator.Binary64
