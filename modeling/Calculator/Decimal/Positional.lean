/-!
# Positional notation

A decimal fraction `n / 10 ^ places` is written with its whole digits, without
superfluous zeros in front, and exactly `places` digits after the dot; there is
no dot without digits after it.  No exponent is ever written.
-/

namespace Calculator.Decimal

/-- The digits of `n`, filled up with zeros in front to at least `width`. -/
def paddedDigits (width n : Nat) : List Char :=
  let digits := Nat.toDigits 10 n
  List.replicate (width - digits.length) '0' ++ digits

/-- The text of `n / 10 ^ places`. -/
def positional (n places : Nat) : List Char :=
  let digits := paddedDigits (places + 1) n
  let whole := digits.take (digits.length - places)
  if places = 0 then whole else whole ++ '.' :: digits.drop (digits.length - places)

end Calculator.Decimal
