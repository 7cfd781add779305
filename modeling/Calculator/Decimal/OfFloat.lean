import Calculator.Binary64
import Calculator.Decimal.Positional
import Calculator.Decimal.Shortest

/-!
# Doubles in decimal

Two ways to write a double, both in positional notation and both computed on
whole numbers:

- `text` has the fewest digits that read back as the same double, and of those
  decimals the one nearest to it;
- `fixed` has a given number of digits after the dot; the exact value is
  rounded to the nearest such decimal, a tie going to the even digit.

Both keep the sign of every negative double, zero included, and write `inf`
and `NaN` for what is no finite number.
-/

namespace Calculator.Decimal

/-- The number of decimal places in which a quarter of a unit of the last
binary place of a magnitude is a whole number. -/
def quarterPlaces (m : Nat) : Nat :=
  1076 - Binary64.shift m

/-- The decimals that round to the double with magnitude `m`, as an interval of
whole numbers with `quarterPlaces m` decimal places.  Below a power of two the
next double is nearer than above it. -/
def roundingInterval (m : Nat) : Interval :=
  let significand := Binary64.significand m
  let shift := Binary64.shift m
  let quarter := Nat.pow 5 (1076 - shift) <<< (shift - 1076)
  let below := if significand = 1 <<< 52 ∧ 0 < shift then 1 else 2
  { low := (4 * significand - below) * quarter
    value := 4 * significand * quarter
    high := (4 * significand + 2) * quarter
    closed := decide (significand % 2 = 0) }

/-- The shortest decimal text of the finite double with magnitude `m`. -/
def shortestText (m : Nat) : List Char :=
  if m = 0 then ['0']
  else
    let (count, zeros) := (roundingInterval m).shortest
    let places := quarterPlaces m
    positional (count * Nat.pow 10 (zeros - places)) (places - zeros)

/-- The text of the finite double with magnitude `m`, rounded to `places` decimals. -/
def fixedText (places m : Nat) : List Char :=
  positional (roundDiv (Binary64.units m * Nat.pow 10 places) (1 <<< 1074)) places

/-- Writes a double, given how to write the magnitude of a finite one. -/
def signed (body : Nat → List Char) (x : Float) : String :=
  if x.isNaN then "NaN"
  else
    (if Binary64.isNegative x then "-" else "") ++
      (if x.isInf then "inf" else String.ofList (body (Binary64.magnitude x)))

/-- The shortest text that reads back as the same double. -/
def text (x : Float) : String :=
  signed shortestText x

/-- The text with exactly `places` digits after the dot. -/
def fixed (places : Nat) (x : Float) : String :=
  signed (fixedText places) x

end Calculator.Decimal
