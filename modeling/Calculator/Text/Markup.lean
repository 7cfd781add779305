/-!
# Text inside markup

The five characters that have a meaning in HTML are written as entities, so
that no text can leave the place where it is put, be it between two tags or
inside a quoted attribute.
-/

namespace Calculator.Text

/-- The characters that stand for one character inside markup. -/
def escapeChar : Char → List Char
  | '&' => ['&', 'a', 'm', 'p', ';']
  | '<' => ['&', 'l', 't', ';']
  | '>' => ['&', 'g', 't', ';']
  | '"' => ['&', 'q', 'u', 'o', 't', ';']
  | '\'' => ['&', '#', '0', '3', '9', ';']
  | c => [c]

/-- The text as it stands inside markup. -/
def escape (text : String) : String :=
  String.ofList (text.toList.flatMap escapeChar)

end Calculator.Text
