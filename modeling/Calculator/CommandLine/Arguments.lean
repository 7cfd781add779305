/-!
# Arguments

A command does not read its arguments itself.  It declares which ones it takes:
those that have a name, and one that has none.  An argument parser looks for them
in a list of arguments, and answers with what it has found, or with a text to be
shown, or with a refusal.  The parser is not part of this library.
-/

namespace Calculator.CommandLine

/-- The numbers that the value of an argument may write. -/
inductive ValueType where
  /-- The unsigned numbers of 64 bits. -/
  | size
  /-- The numbers from 0 to `last`, which has 16 bits at most.  A signed number is
  read and then compared with the bounds. -/
  | upTo (last : Nat)
deriving DecidableEq

/-- What an argument with a name is there for. -/
inductive Use where
  | flag
  | value (type : ValueType)
deriving DecidableEq

/-- An argument with a name. -/
structure Named where
  name : String
  use : Use
deriving DecidableEq

/-- The arguments that a command takes. -/
structure Declaration where
  named : List Named
  /-- Whether the argument without a name may begin with a hyphen. -/
  hyphens : Bool

/-- What a parser has found in a list of arguments. -/
structure Found where
  /-- The names of the flags. -/
  flags : List String := []
  /-- The numbers, each with the name of its argument. -/
  numbers : List (String × Nat) := []
  /-- The argument without a name. -/
  text : Option String := none

/-- The number that is found for a name. -/
def Found.number? (found : Found) (name : String) : Option Nat :=
  found.numbers.lookup name

/-- What a parser answers. -/
inductive Answer where
  | found (found : Found)
  /-- Help was asked for, and this is its text. -/
  | shown (text : String)
  /-- The arguments are not as declared. -/
  | refused (message : String)

end Calculator.CommandLine
