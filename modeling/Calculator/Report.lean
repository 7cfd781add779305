import Calculator.Decimal.OfFloat
import Calculator.Evaluate
import Calculator.Text.Markup

/-!
# Reporting a result

A result is reported as plain text or as a fragment of HTML that echoes the
text of the expression.  Numbers are written in their shortest form or with a
fixed number of decimals.  A zero is written without its sign; a negative
number that is rounded to zero keeps the sign.
-/

namespace Calculator

/-- How results are reported. -/
structure Report where
  /-- The number of decimals, if it is fixed. -/
  decimals : Option Nat := none
  /-- Whether the report is a fragment of HTML. -/
  html : Bool := false
deriving DecidableEq

namespace Report

/-- The text of a value. -/
def number (r : Report) (value : Float) : String :=
  let value := if value == 0 then 0 else value
  match r.decimals with
  | none => Decimal.text value
  | some places => Decimal.fixed places value

/-- The report on an expression with the given text and result. -/
def render (r : Report) (source : String) (result : Except Failure Float) : String :=
  if r.html then
    "<div class=\"expression\">" ++ Text.escape source ++ "</div>" ++
      match result with
      | .ok value =>
          "<div class=\"result\"><strong>Result:</strong> " ++ r.number value ++ "</div>"
      | .error failure =>
          "<div class=\"error\"><strong>Error:</strong> " ++ Text.escape failure.message ++ "</div>"
  else
    match result with
    | .ok value => r.number value
    | .error failure => "error: " ++ failure.message

end Report

end Calculator
