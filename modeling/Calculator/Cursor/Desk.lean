import Calculator.Cursor

/-!
# Named cursors

Several cursors under different names, and the moves that make and advance
them.  A move touches the cursor of one name only; a copy goes its own way
from then on.
-/

namespace Calculator.Cursor

/-- The cursors in use, by name. -/
abbrev Desk := String → Option Cursor

namespace Desk

/-- No cursors. -/
def empty : Desk :=
  fun _ => none

/-- Makes or replaces the cursor of a name. -/
def put (desk : Desk) (name : String) (cursor : Cursor) : Desk :=
  fun other => if other = name then some cursor else desk other

end Desk

/-- A change to the cursor of one name. -/
inductive Move where
  /-- A new cursor at the start of a text. -/
  | create (name source : String)
  /-- A copy of the cursor called `origin`. -/
  | copy (name origin : String)
  /-- One character on. -/
  | next (name : String)
  /-- On while the next character is accepted. -/
  | advanceWhile (name : String) (accept : Char → Bool)

/-- The desk after a move.  A move of a cursor that does not exist changes nothing. -/
def Desk.apply (desk : Desk) : Move → Desk
  | .create name source => desk.put name (.ofString source)
  | .copy name origin =>
      match desk origin with
      | none => desk
      | some cursor => desk.put name cursor
  | .next name =>
      match desk name with
      | none => desk
      | some cursor => desk.put name cursor.next
  | .advanceWhile name accept =>
      match desk name with
      | none => desk
      | some cursor => desk.put name (cursor.advanceWhile accept)

/-- The desk after a list of moves. -/
def Desk.run (desk : Desk) (moves : List Move) : Desk :=
  moves.foldl apply desk

end Calculator.Cursor
