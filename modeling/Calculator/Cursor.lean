import Calculator.Text.Bytes
import Calculator.Text.Quoted

/-!
# A place in a text

A cursor stands between two characters of a text.  It stores the text, what lies
ahead, and how many characters it has passed, counted on the way: nothing in a
cursor by itself says that the three agree.  Places are compared, and stretches
are cut out, by what lies ahead and its length in bytes; the count is only
reported.  A span is the stretch between two cursors on the same text.
-/

namespace Calculator

/-- A place between two characters of a text. -/
structure Cursor where
  /-- The characters of the text as a whole. -/
  source : List Char
  /-- The characters after the place, the nearest first. -/
  ahead : List Char
  /-- The number of characters passed. -/
  offset : Nat

namespace Cursor

/-- Two places are the same if the texts and what lies ahead are; the counts are not looked at. -/
instance : BEq Cursor where
  beq c c' := c.source == c'.source && c.ahead == c'.ahead

/-- The place before the first character. -/
def ofString (text : String) : Cursor :=
  ⟨text.toList, text.toList, 0⟩

/-- Whether no character lies ahead. -/
def atEnd (c : Cursor) : Bool :=
  c.ahead.isEmpty

/-- The next character. -/
def peek? (c : Cursor) : Option Char :=
  c.ahead.head?

/-- The character after the next one. -/
def peekNext? (c : Cursor) : Option Char :=
  c.ahead.tail.head?

/-- The place after the next character; at the end, the same place. -/
def next (c : Cursor) : Cursor :=
  match c.ahead with
  | [] => c
  | _ :: rest => ⟨c.source, rest, c.offset + 1⟩

/-- Passes characters while they satisfy `accept`, and counts on from `offset`. -/
def passWhile (accept : Char → Bool) (source : List Char) (offset : Nat) : List Char → Cursor
  | [] => ⟨source, [], offset⟩
  | x :: rest =>
      if accept x then passWhile accept source (offset + 1) rest else ⟨source, x :: rest, offset⟩

/-- The first place at or after this one whose next character does not satisfy
`accept`, or the end. -/
def advanceWhile (accept : Char → Bool) (c : Cursor) : Cursor :=
  passWhile accept c.source c.offset c.ahead

/-- The bytes before the place: those of the text without those ahead. -/
def byteOffset? (c : Cursor) : Option Nat :=
  if Text.byteLength c.ahead ≤ Text.byteLength c.source then
    some (Text.byteLength c.source - Text.byteLength c.ahead)
  else none

/-- The characters between two places on the same text, if the second is not
before the first. -/
def sliceUntil? (start stop : Cursor) : Option (List Char) :=
  if start.source = stop.source then
    match start.byteOffset?, stop.byteOffset? with
    | some first, some last => Text.sliceBytes? first last start.source
    | _, _ => none
  else none

/-- A short description: the position alone. -/
def summary (c : Cursor) : String :=
  "Cursor \x7b offset: Offset(" ++ toString c.offset ++ ") \x7d"

/-- A description on several lines: the position and the text.  Without a table only characters of
ASCII are plain. -/
def details (c : Cursor) (isPlain : Char → Bool := fun _ => false) : String :=
  "Cursor \x7b\n    offset: Offset(\n        " ++ toString c.offset ++
    ",\n    ),\n    source: " ++ Text.quote isPlain c.source ++ ",\n\x7d"

end Cursor

/-- A stretch of a text. -/
structure Span where
  /-- The place before its first character. -/
  start : Cursor
  /-- The place after its last character. -/
  stop : Cursor
  source_eq : start.source = stop.source
  ahead_le : Text.byteLength stop.ahead ≤ Text.byteLength start.ahead

namespace Span

/-- The stretch between two places, if they are places of one text in order. -/
def between? (start stop : Cursor) : Option Span :=
  if h : start.source = stop.source ∧
      Text.byteLength stop.ahead ≤ Text.byteLength start.ahead then
    some ⟨start, stop, h.1, h.2⟩
  else none

/-- The characters of a span.  There is a slice between its places as long as
their cursors agree with their text. -/
def lexeme (s : Span) : List Char :=
  (s.start.sliceUntil? s.stop).getD []

end Span

end Calculator
