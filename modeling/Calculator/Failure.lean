/-!
# Why an expression has no value

One constructor for each cause.  A cause that lies at a place in the text
holds the position of its character, counted in characters from 0; the causes
that only evaluation shows, and those about the text as a whole, have none.
The wording stands in `Failure.message` alone.
-/

namespace Calculator

/-- A reason why an expression is refused. -/
inductive Failure where
  /-- A character outside the alphabet of expressions. -/
  | foreignCharacter (character : Char) (position : Nat)
  /-- A run of digits and dots that writes no number; `numeral` is free of blanks. -/
  | malformedNumeral (numeral : String) (position : Nat)
  /-- Something where the grammar admits no such thing. -/
  | unexpected (found : String) (position : Nat)
  /-- A parenthesis without its partner. -/
  | unbalanced (position : Nat)
  /-- Nothing to evaluate. -/
  | emptyExpression
  /-- A divisor equal to zero. -/
  | divisionByZero
  /-- A value, of the whole or of a part, that is no finite number. -/
  | notFinite
  /-- More characters than the limit. -/
  | tooLong (length limit : Nat)
  /-- A group or a unary minus below more levels than the limit. -/
  | tooDeep (limit position : Nat)
deriving DecidableEq

namespace Failure

/-- What is found where the text ends too early. -/
def endOfInput : String := "end of input"

/-- What is found where a token stands that does not fit. -/
def quoted (lexeme : List Char) : String :=
  "'" ++ String.ofList lexeme ++ "'"

/-- The sentence that reports a failure. -/
def message : Failure → String
  | foreignCharacter character position =>
      "Invalid character '" ++ character.toString ++ "' at position " ++ toString position ++
        ". Only numbers and basic operators (+, -, *, /, parentheses) are allowed."
  | malformedNumeral numeral position =>
      "Malformed number '" ++ numeral ++ "' at position " ++ toString position ++ "."
  | unexpected found position =>
      "Unexpected " ++ found ++ " at position " ++ toString position ++ "."
  | unbalanced position =>
      "Unbalanced parentheses at position " ++ toString position ++ "."
  | emptyExpression => "Empty expression."
  | divisionByZero => "Division by zero."
  | notFinite => "Result must be a finite number."
  | tooLong length limit =>
      "Expression is too long (" ++ toString length ++ " characters, at most " ++
        toString limit ++ " allowed)."
  | tooDeep limit position =>
      "Expression nested too deeply at position " ++ toString position ++ " (at most " ++
        toString limit ++ " levels allowed)."

/-- The position in the text that a failure points at. -/
def position? : Failure → Option Nat
  | foreignCharacter _ position | malformedNumeral _ position | unexpected _ position
  | unbalanced position | tooDeep _ position => some position
  | emptyExpression | divisionByZero | notFinite | tooLong _ _ => none

end Failure

end Calculator
