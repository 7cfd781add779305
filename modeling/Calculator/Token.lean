/-!
# Tokens

A token is a number, an operator or a parenthesis, together with the slice of
the text that writes it.  The slice is kept as it stands, blanks inside it
included; its end follows from its start and its length.
-/

namespace Calculator

/-- What a token stands for. -/
inductive Token.Kind where
  | opening
  | closing
  | plus
  | minus
  | star
  | slash
  | number (value : Float)
deriving DecidableEq

/-- A token and the slice of the text that writes it. -/
structure Token where
  /-- What the token stands for. -/
  kind : Token.Kind
  /-- The characters of the slice. -/
  lexeme : List Char
  /-- The position of the first character of the slice. -/
  start : Nat
deriving DecidableEq

namespace Token

/-- The position after the last character of the slice. -/
def stop (t : Token) : Nat :=
  t.start + t.lexeme.length

/-- The token that a single character stands for. -/
def Kind.ofSymbol? : Char → Option Kind
  | '(' => some .opening
  | ')' => some .closing
  | '+' => some .plus
  | '-' => some .minus
  | '*' => some .star
  | '/' => some .slash
  | _ => none

end Token

end Calculator
