import Calculator.CommandLine.Arguments
import Calculator.Numeral

/-!
# An argument parser

The argument parser that the command runs with where it is given no other.

An argument with a name has its value joined to it by `=`, or as the next argument.
Each one may be given once.  An argument that begins with a hyphen is a name, or a
mistake; but as long as the argument without a name may still come and may begin with
a hyphen, it is an ordinary text if it is no name.  After `--` everything is a text.
`--help` and `-h` ask for help.  Neither the help nor a refusal has any wording here.
-/

namespace Calculator.CommandLine

/-! ## Numbers -/

/-- An unsigned decimal number with an optional plus sign. -/
def readUnsigned? (text : List Char) : Option Nat :=
  let digits := match text with
    | '+' :: rest => rest
    | _ => text
  if Numeral.isDigits digits then some (Numeral.ofDigits digits) else none

namespace ValueType

/-- The number that a text writes, if it is one of the type. -/
def read? (text : List Char) : ValueType → Option Nat
  | size => (readUnsigned? text).filter fun n => decide (n < UInt64.size)
  | upTo last =>
      match text with
      | '-' :: digits =>
          if Numeral.isDigits digits && Numeral.ofDigits digits == 0 then some 0 else none
      | _ => (readUnsigned? text).filter fun n => decide (n ≤ last)

end ValueType

/-! ## What has been found so far -/

namespace Found

def addFlag? (found : Found) (name : String) : Option Found :=
  if found.flags.contains name then none else some { found with flags := name :: found.flags }

def addNumber? (found : Found) (name : String) (type : ValueType) (text : String) :
    Option Found :=
  if (found.number? name).isSome then none
  else (type.read? text.toList).map fun n =>
    { found with numbers := (name, n) :: found.numbers }

def addText? (found : Found) (text : String) : Option Found :=
  if found.text.isSome then none else some { found with text := some text }

end Found

/-! ## Names -/

/-- Splits an argument at its first `=`. -/
def splitJoined (argument : String) : String × Option String :=
  match argument.toList.span (· != '=') with
  | (name, []) => (String.ofList name, none)
  | (name, _ :: value) => (String.ofList name, some (String.ofList value))

/-- Whether an argument begins with a hyphen and is more than that. -/
def isHyphenated (argument : String) : Bool :=
  match argument.toList with
  | '-' :: _ :: _ => true
  | _ => false

/-- Whether an argument is made up of short names.  The only one is that of the help. -/
def isShort (argument : String) : Bool :=
  match argument.toList with
  | '-' :: letter :: more => (letter :: more).all (· == 'h')
  | _ => false

namespace Declaration

def find? (d : Declaration) (name : String) : Option Named :=
  d.named.find? fun named => named.name == name

/-- Whether an argument is a name, alone or with a value. -/
def knows (d : Declaration) (argument : String) : Bool :=
  let name := (splitJoined argument).1
  name == "--help" || (d.find? name).isSome || isShort argument

/-- Whether an argument is an ordinary text, where `given` tells whether there has been an argument
without a name. -/
def takesText (d : Declaration) (given : Bool) (argument : String) : Bool :=
  !isHyphenated argument ||
    d.hyphens && !given && argument != "--" && !d.knows argument

/-! ## The parser -/

/-- Goes on from what has been found so far. -/
def parseFrom (d : Declaration) (found : Found) : List String → Answer
  | [] => .found found
  | argument :: rest =>
      if argument = "--" then
        match rest.foldlM Found.addText? found with
        | some found => .found found
        | none => .refused ""
      else if d.takesText found.text.isSome argument then
        match found.addText? argument with
        | some found => d.parseFrom found rest
        | none => .refused ""
      else
        let (name, joined) := splitJoined argument
        match d.find? name, joined with
        | some ⟨name, .flag⟩, none =>
            match found.addFlag? name with
            | some found => d.parseFrom found rest
            | none => .refused ""
        | some ⟨_, .flag⟩, some _ => .refused ""
        | some ⟨name, .value type⟩, some value =>
            match found.addNumber? name type value with
            | some found => d.parseFrom found rest
            | none => .refused ""
        | some ⟨name, .value type⟩, none =>
            match rest with
            | [] => .refused ""
            | value :: rest =>
                if d.takesText found.text.isSome value then
                  match found.addNumber? name type value with
                  | some found => d.parseFrom found rest
                  | none => .refused ""
                else .refused ""
        | none, _ =>
            if argument = "--help" ∨ argument.toList.take 2 = ['-', 'h'] then .shown ""
            else .refused ""

/-- Looks for the declared arguments in a list of arguments. -/
def parse (d : Declaration) (arguments : List String) : Answer :=
  d.parseFrom {} arguments

end Declaration

end Calculator.CommandLine
