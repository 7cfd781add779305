/-!
# Quoted text

A text in quotes, on one line: quotes, backslashes, and all characters that are not plain
are written as escape sequences.  A character is plain if it is printable and does not
extend the character before it, as an accent does.  For the characters of ASCII this is
fixed; for the others it is up to the version of Unicode, so that the table is given with
the text.
-/

namespace Calculator.Text

/-- The characters that stand for one character inside quotes. -/
def quoteChar (isPlain : Char → Bool) (c : Char) : List Char :=
  match c with
  | '"' => ['\\', '"']
  | '\\' => ['\\', '\\']
  | '\n' => ['\\', 'n']
  | '\r' => ['\\', 'r']
  | '\t' => ['\\', 't']
  | '\x00' => ['\\', '0']
  | c =>
      if 0x20 ≤ c.toNat ∧ c.toNat < 0x7F ∨ 0x7F < c.toNat ∧ isPlain c then [c]
      else ['\\', 'u', '\x7b'] ++ Nat.toDigits 16 c.toNat ++ ['\x7d']

/-- The text between quotes. -/
def quote (isPlain : Char → Bool) (text : List Char) : String :=
  String.ofList ('"' :: text.flatMap (quoteChar isPlain) ++ ['"'])

end Calculator.Text
