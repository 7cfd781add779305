import Calculator.Binary64

/-!
# Numerals

A numeral is one or more decimal digits, optionally followed by a dot and one
or more digits.  It writes the fraction `numerator / 10 ^ places`, and its
value is the double nearest to that fraction.
-/

namespace Calculator

/-- A well-formed numeral, taken apart at its dot. -/
structure Numeral where
  /-- The digits before the dot. -/
  whole : List Char
  /-- The digits after the dot, none if there is no dot. -/
  fraction : List Char
deriving DecidableEq

namespace Numeral

/-- The number that a run of decimal digits writes. -/
def ofDigits (digits : List Char) : Nat :=
  Nat.ofDigitChars 10 digits 0

/-- Whether a text consists of decimal digits, at least one. -/
def isDigits (text : List Char) : Bool :=
  !text.isEmpty && text.all Char.isDigit

/-- Takes a text without blanks apart if it is a numeral. -/
def read? (text : List Char) : Option Numeral :=
  match text.span (· != '.') with
  | (whole, []) =>
      if isDigits whole then some ⟨whole, []⟩ else none
  | (whole, _ :: fraction) =>
      if isDigits whole && isDigits fraction then some ⟨whole, fraction⟩ else none

/-- The number of digits after the dot. -/
def places (n : Numeral) : Nat :=
  n.fraction.length

/-- What the digits write when the dot is left out. -/
def numerator (n : Numeral) : Nat :=
  ofDigits (n.whole ++ n.fraction)

/-- The double nearest to the number that is written. -/
def value (n : Numeral) : Float :=
  Binary64.ofMagnitude (Binary64.nearest n.numerator (Nat.pow 10 n.places))

end Numeral

end Calculator
