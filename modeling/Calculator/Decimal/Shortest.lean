/-!
# The shortest decimal in an interval

Given a whole number and an interval around it, `Interval.shortest` finds the
coarsest power of ten that has a multiple in the interval, and on it the
multiple nearest to the number; of two equally near ones it takes the larger.
The coarsest power leaves the fewest digits to write.  The finest power, 1, has
the number itself, so there is always an answer.
-/

namespace Calculator.Decimal

/-- A whole number between two ends. -/
structure Interval where
  /-- The lower end. -/
  low : Nat
  /-- The number to write. -/
  value : Nat
  /-- The upper end. -/
  high : Nat
  /-- Whether the ends belong to the interval. -/
  closed : Bool

namespace Interval

/-- Whether a whole number lies in the interval. -/
def contains (i : Interval) (n : Nat) : Bool :=
  if i.closed then decide (i.low ≤ n ∧ n ≤ i.high) else decide (i.low < n ∧ n < i.high)

/-- How often `step` goes into the multiple of `step` in the interval that is
nearest to the value, if one of the two multiples around the value lies there. -/
def onGrid? (i : Interval) (step : Nat) : Option Nat :=
  let count := i.value / step
  let below := count * step
  let above := below + step
  match i.contains below, i.contains above with
  | true, true => some (if 2 * i.value < below + above then count else count + 1)
  | true, false => some count
  | false, true => some (count + 1)
  | false, false => none

/-- The coarsest power of ten with an exponent of at most `exponent` with a multiple in the
interval: how often it goes into the nearest multiple, and its exponent. -/
def shortestBelow (i : Interval) : (exponent : Nat) → Nat × Nat
  | 0 => (i.value, 0)
  | exponent + 1 =>
      match i.onGrid? (Nat.pow 10 (exponent + 1)) with
      | some count => (count, exponent + 1)
      | none => i.shortestBelow exponent

/-- The digits to write and the number of zeros after them.  The search starts
at a power of ten above the upper end, since 10 is more than 2³. -/
def shortest (i : Interval) : Nat × Nat :=
  i.shortestBelow (i.high.log2 / 3 + 1)

end Interval

end Calculator.Decimal
