/-!
# White space

A blank is a character with the Unicode property `White_Space`.  Blanks carry
no meaning in an expression, not even between two digits.  The table lists the
whole property; the ASCII blanks alone would leave out the no-break space and
the line separators.
-/

namespace Calculator.Text

/-- Code points with the property `White_Space`: inclusive ranges, ascending. -/
def blankRanges : List (Nat × Nat) :=
  [(0x0009, 0x000D), (0x0020, 0x0020), (0x0085, 0x0085), (0x00A0, 0x00A0),
   (0x1680, 0x1680), (0x2000, 0x200A), (0x2028, 0x2029), (0x202F, 0x202F),
   (0x205F, 0x205F), (0x3000, 0x3000)]

/-- Whether a character is a blank. -/
def isBlank (c : Char) : Bool :=
  blankRanges.any fun (first, last) => first ≤ c.toNat && c.toNat ≤ last

/-- A text without its blanks. -/
def dropBlanks (text : List Char) : List Char :=
  text.filter fun c => !isBlank c

end Calculator.Text
