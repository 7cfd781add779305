import Mathlib
import Calculator.Proofs.Binary64
import Calculator.Proofs.Nearest

/-!
# Finite doubles, taken apart

The arithmetic of doubles works on a sign, a significand and an exponent.  For a
finite double these are read off its magnitude (`unpacked`): the significand has
its leading bit put back, and the exponent counts from 2⁻¹⁰⁷⁴.  Hence a double is
its magnitude with a sign, and every magnitude below infinity is that of a finite
double.
-/

namespace Calculator.Binary64

open Float.Model (Format UnpackedFloat)
open Float.Model.UnpackedFloat (Sign unpackExponent unpackMantissa unpackSign)

/-- The sign of a double. -/
def sign (x : Float) : Sign :=
  if isNegative x then .negative else .positive

theorem toNat_unpackSign (b : BitVec Format.binary64.numBits) :
    (unpackSign b).toNat = b.toNat / 2 ^ 63 % 2 := by
  simp [unpackSign, BitVec.extractLsb_toNat, Nat.shiftRight_eq_div_pow]

theorem ofBitVec_unpackSign (b : BitVec Format.binary64.numBits) :
    Sign.ofBitVec (unpackSign b) = if 2 ^ 63 ≤ b.toNat then .negative else .positive := by
  have hsign := toNat_unpackSign b
  have hlt : b.toNat < 2 ^ 64 := b.isLt
  have hzero : unpackSign b = 0#1 ↔ ¬ 2 ^ 63 ≤ b.toNat := by
    rw [← BitVec.toNat_inj, hsign, BitVec.toNat_ofNat]
    omega
  unfold Sign.ofBitVec
  by_cases hge : 2 ^ 63 ≤ b.toNat
  · rw [if_pos hge, if_neg (by rwa [hzero, not_not])]
  · rw [if_neg hge, if_pos (hzero.2 hge)]

/-- The sign, significand and exponent of the finite double with a sign and a magnitude. -/
def unpacked (s : Sign) (m : Nat) : UnpackedFloat :=
  if h : m = 0 then .zero s
  else .finite s (significand m) (shift m - 1074) (significand_pos h)

theorem shift_eq (m : Nat) : shift m = m / 2 ^ 52 - 1 := by
  rw [shift, Nat.shiftRight_eq_div_pow]

theorem significand_of_lt {m : Nat} (h : m < 2 ^ 52) : significand m = m :=
  if_pos h

theorem significand_of_le {m : Nat} (h : 2 ^ 52 ≤ m) : significand m = 2 ^ 52 + m % 2 ^ 52 :=
  if_neg (Nat.not_lt.2 h)

theorem unpack_of_subnormal {b : BitVec Format.binary64.numBits} (h : b.toNat % 2 ^ 63 < 2 ^ 52) :
    UnpackedFloat.unpack Format.binary64 b =
      unpacked (Sign.ofBitVec (unpackSign b)) (b.toNat % 2 ^ 63) := by
  have hexponent : unpackExponent b = 0#_ := by
    have hfield := toNat_unpackExponent b
    rw [← BitVec.toNat_inj, hfield, BitVec.toNat_ofNat, Nat.zero_mod]
    omega
  have hmantissa : (unpackMantissa b).toNat = b.toNat % 2 ^ 63 := by
    have hfield := toNat_unpackMantissa b
    omega
  have hzero : unpackMantissa b = 0#_ ↔ b.toNat % 2 ^ 63 = 0 := by
    rw [← BitVec.toNat_inj, hmantissa, BitVec.toNat_ofNat, Nat.zero_mod]
  have hshift : shift (b.toNat % 2 ^ 63) = 0 := by
    rw [shift_eq]
    omega
  have hones : (0#_ : BitVec Format.binary64.exponentBits) ≠ -1#_ := by decide
  unfold UnpackedFloat.unpack unpacked
  dsimp only
  rw [hexponent, if_neg hones, if_pos rfl]
  by_cases hmagnitude : b.toNat % 2 ^ 63 = 0
  · rw [dif_pos hmagnitude, dif_pos (hzero.2 hmagnitude)]
  · rw [dif_neg hmagnitude, dif_neg (mt hzero.1 hmagnitude)]
    simp only [hmantissa, significand_of_lt h, hshift]
    rfl

theorem unpack_of_normal {b : BitVec Format.binary64.numBits} (hnormal : 2 ^ 52 ≤ b.toNat % 2 ^ 63)
    (h : b.toNat % 2 ^ 63 < infinite) :
    UnpackedFloat.unpack Format.binary64 b =
      unpacked (Sign.ofBitVec (unpackSign b)) (b.toNat % 2 ^ 63) := by
  have hinfinite : infinite = 2047 * 2 ^ 52 := by decide
  have hfield := toNat_unpackExponent b
  have hones : unpackExponent b ≠ -1#_ := by
    intro hones
    have hfull : (unpackExponent b).toNat = 2047 := by
      rw [hones]
      decide
    omega
  have hzero : unpackExponent b ≠ 0#_ := by
    rw [Ne, ← BitVec.toNat_inj, BitVec.toNat_ofNat, Nat.zero_mod]
    omega
  have hleading : (1#1 ++ unpackMantissa b).toNat = significand (b.toNat % 2 ^ 63) := by
    have hmantissa := toNat_unpackMantissa b
    have hlt : (unpackMantissa b).toNat < 2 ^ 52 := (unpackMantissa b).isLt
    have hrest : b.toNat % 2 ^ 63 % 2 ^ 52 = (unpackMantissa b).toNat := by omega
    rw [significand_of_le hnormal, hrest, BitVec.toNat_append]
    exact (Nat.shiftLeft_add_eq_or_of_lt hlt 1).symm
  have hexponent : ((shift (b.toNat % 2 ^ 63) : Nat) : Int) - 1074 =
      (unpackExponent b).toNat - (1023 + 52) := by
    rw [shift_eq]
    omega
  unfold UnpackedFloat.unpack unpacked
  dsimp only
  rw [if_neg hones, if_neg hzero, dif_neg (by omega)]
  simp only [hleading, hexponent]
  rfl

theorem unpack_eq_unpacked {b : BitVec Format.binary64.numBits} (h : b.toNat % 2 ^ 63 < infinite) :
    UnpackedFloat.unpack Format.binary64 b =
      unpacked (Sign.ofBitVec (unpackSign b)) (b.toNat % 2 ^ 63) := by
  rcases Nat.lt_or_ge (b.toNat % 2 ^ 63) (2 ^ 52) with hsubnormal | hnormal
  · exact unpack_of_subnormal hsubnormal
  · exact unpack_of_normal hnormal h

variable {x : Float} {m : Nat}

theorem isFinite_unpacked (s : Sign) (m : Nat) : (unpacked s m).isFinite = true := by
  unfold unpacked
  split <;> rfl

theorem unpack_of_magnitude_lt (h : magnitude x < infinite) :
    x.toModel.unpack = unpacked (sign x) (magnitude x) := by
  have hsign : sign x = Sign.ofBitVec (@unpackSign .binary64 x.toBits.toBitVec) := by
    rw [ofBitVec_unpackSign]
    unfold sign isNegative
    simp only [decide_eq_true_eq]
    rfl
  rw [hsign]
  exact unpack_eq_unpacked h

theorem isFinite_iff (x : Float) : x.isFinite = true ↔ magnitude x < infinite := by
  refine ⟨magnitude_lt_infinite, fun h => ?_⟩
  change x.toModel.unpack.isFinite = true
  rw [unpack_of_magnitude_lt h]
  exact isFinite_unpacked _ _

theorem unpack_of_isFinite (hfinite : x.isFinite = true) :
    x.toModel.unpack = unpacked (sign x) (magnitude x) :=
  unpack_of_magnitude_lt (magnitude_lt_infinite hfinite)

/-- A double is put together again from its parts. -/
theorem ofModel_pack_unpack (x : Float) : .ofModel (.pack x.toModel.unpack) = x :=
  x.ofBits_toBits

/-- The bits of a finite double come back from it. -/
theorem toBits_ofBits {bits : UInt64} (h : bits.toNat % 2 ^ 63 < infinite) :
    (Float.ofBits bits).toBits = bits := by
  have hinfinite : infinite = 2047 * 2 ^ 52 := by decide
  have hnat : bits.toBitVec.toNat % 2 ^ 63 < infinite := h
  have hordinary : @UnpackedFloat.isNaNBits .binary64 bits.toBitVec = false := by
    unfold UnpackedFloat.isNaNBits
    rw [decide_eq_false_iff_not]
    rintro ⟨hones, -⟩
    have hexponent := toNat_unpackExponent bits.toBitVec
    have hfull : (@unpackExponent .binary64 bits.toBitVec).toNat = 2047 := by
      rw [hones]
      decide
    omega
  have hpack := @UnpackedFloat.pack_unpack .binary64 bits.toBitVec
  rw [hordinary] at hpack
  exact UInt64.toBitVec_inj.1 hpack

theorem toNat_toBits_ofBits {n : Nat} (hn : n < 2 ^ 64) (h : n % 2 ^ 63 < infinite) :
    (Float.ofBits (UInt64.ofNat n)).toBits.toNat = n := by
  have hbits : (UInt64.ofNat n).toNat = n := UInt64.toNat_ofNat_of_lt' hn
  rw [toBits_ofBits (by rwa [hbits]), hbits]

theorem toNat_toBits_ofMagnitude (hm : m < infinite) : (ofMagnitude m).toBits.toNat = m := by
  have hinfinite : infinite = 2047 * 2 ^ 52 := by decide
  exact toNat_toBits_ofBits (by omega) (by omega)

/-- Every magnitude below infinity is also that of a double with the sign bit. -/
theorem exists_isNegative (hm : m < infinite) :
    ∃ x, isNegative x = true ∧ magnitude x = m := by
  have hinfinite : infinite = 2047 * 2 ^ 52 := by decide
  have hbits := @toNat_toBits_ofBits (2 ^ 63 + m) (by omega) (by omega)
  refine ⟨Float.ofBits (UInt64.ofNat (2 ^ 63 + m)), ?_, ?_⟩
  · rw [isNegative, hbits, decide_eq_true_eq]
    exact Nat.le_add_right _ m
  · rw [magnitude, hbits]
    exact (Nat.add_mod_left _ m).trans (Nat.mod_eq_of_lt (by omega))

theorem magnitude_ofMagnitude (hm : m < infinite) : magnitude (ofMagnitude m) = m := by
  have hinfinite : infinite = 2047 * 2 ^ 52 := by decide
  rw [magnitude, toNat_toBits_ofMagnitude hm]
  exact Nat.mod_eq_of_lt (by omega)

theorem isNegative_ofMagnitude (hm : m < infinite) : isNegative (ofMagnitude m) = false := by
  have hinfinite : infinite = 2047 * 2 ^ 52 := by decide
  rw [isNegative, toNat_toBits_ofMagnitude hm, decide_eq_false_iff_not]
  omega

theorem isFinite_ofMagnitude (hm : m < infinite) : (ofMagnitude m).isFinite = true :=
  (isFinite_iff _).2 (by rwa [magnitude_ofMagnitude hm])

/-- No magnitude up to that of infinity gives a NaN or a sign. -/
theorem unsigned_ofMagnitude (hm : m ≤ infinite) :
    (ofMagnitude m).isNaN = false ∧ isNegative (ofMagnitude m) = false := by
  rcases Nat.lt_or_eq_of_le hm with hlt | rfl
  · exact ⟨isNaN_of_isFinite (isFinite_ofMagnitude hlt), isNegative_ofMagnitude hlt⟩
  · decide +kernel

theorem unpack_ofMagnitude (hm : m < infinite) :
    (ofMagnitude m).toModel.unpack = unpacked .positive m := by
  rw [unpack_of_isFinite (isFinite_ofMagnitude hm), magnitude_ofMagnitude hm, sign,
    isNegative_ofMagnitude hm]
  rfl

theorem neg_unpacked (s : Sign) (m : Nat) : (unpacked s m).neg = unpacked (-s) m := by
  unfold unpacked
  split <;> rfl

/-- A finite double with the sign bit is its magnitude with a minus. -/
theorem neg_ofMagnitude_magnitude (hfinite : x.isFinite = true) (hsign : isNegative x = true) :
    -ofMagnitude (magnitude x) = x := by
  have hneg : -ofMagnitude (magnitude x) =
      .ofModel (.pack (ofMagnitude (magnitude x)).toModel.unpack.neg) := rfl
  have hunpack : x.toModel.unpack = unpacked .negative (magnitude x) := by
    rw [unpack_of_isFinite hfinite, sign, if_pos hsign]
  rw [hneg, unpack_ofMagnitude (magnitude_lt_infinite hfinite), neg_unpacked]
  change Float.ofModel (.pack (unpacked .negative (magnitude x))) = x
  rw [← hunpack, ofModel_pack_unpack]

end Calculator.Binary64
