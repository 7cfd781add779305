import Calculator.Rounding

/-!
# Doubles as whole numbers

A double is a sign and a magnitude, its other 63 bits.  Read as numbers, the
magnitudes of the finite doubles are 0, 1, 2, … in the order of their absolute
values, and each absolute value is a whole number of units of 2⁻¹⁰⁷⁴
(`units`).  `nearest` goes the other way: it finds the magnitude of the double
nearest to a fraction.  All arithmetic here is exact.
-/

namespace Calculator.Binary64

/-! ## From a double to whole numbers -/

/-- All bits but the sign, as a number. -/
def magnitude (x : Float) : Nat :=
  x.toBits.toNat % (1 <<< 63)

/-- Whether the sign bit is set; the zero with the sign is negative too. -/
def isNegative (x : Float) : Bool :=
  decide (1 <<< 63 ≤ x.toBits.toNat)

/-- The magnitude of infinity: one more than that of the largest finite double. -/
def infinite : Nat :=
  2047 <<< 52

/-- How many places the significand of a magnitude stands left of the last unit. -/
def shift (m : Nat) : Nat :=
  (m >>> 52) - 1

/-- The significand of a magnitude, with the leading bit that is not stored. -/
def significand (m : Nat) : Nat :=
  if m < 1 <<< 52 then m else (1 <<< 52) + m % (1 <<< 52)

/-- The absolute value of a finite magnitude, counted in units of 2⁻¹⁰⁷⁴. -/
def units (m : Nat) : Nat :=
  significand m <<< shift m

/-! ## From a fraction to a double -/

/-- The magnitude of the double nearest to `num / den`, a tie going to the even
significand; what is too large for a finite double gives infinity.  A
significand that rounds up to 2⁵³ carries into the exponent by the addition. -/
def nearest (num den : Nat) : Nat :=
  let scaled := num <<< 1074
  let places := (scaled / den).log2 - 52
  min ((places <<< 52) + roundDiv scaled (den <<< places)) infinite

/-- The double with the sign bit clear and the given magnitude. -/
def ofMagnitude (m : Nat) : Float :=
  Float.ofBits (UInt64.ofNat m)

end Calculator.Binary64
