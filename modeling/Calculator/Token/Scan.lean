import Calculator.Alphabet
import Calculator.Failure
import Calculator.Numeral
import Calculator.Token

/-!
# From text to tokens

`Token.scan` reads a text from left to right and stops at the first fault.
Blanks are dropped wherever they stand, so they do not separate digits: `1 2`
is one numeral with the value 12.  A run of digits and dots is one numeral as a
whole; it ends with a digit or a dot, and blanks after it are left over.

`Token.screenAndScan` looks for a foreign character anywhere in the text before
it scans, so that a foreign character is reported before a malformed numeral
to its left.
-/

namespace Calculator.Token

open Alphabet (isNumeral firstForeign?)
open Text (isBlank dropBlanks)

/-- Splits a text after the part that continues a numeral begun before it: the
digits and dots at its front with the blanks between them. -/
def splitRun : List Char → List Char × List Char
  | [] => ([], [])
  | c :: rest =>
      if isNumeral c then
        let (run, after) := splitRun rest
        (c :: run, after)
      else if isBlank c then
        match splitRun rest with
        | ([], _) => ([], c :: rest)
        | (d :: run, after) => (c :: d :: run, after)
      else ([], c :: rest)

/-- The two parts of a split make up the text. -/
theorem splitRun_append (text : List Char) :
    (splitRun text).1 ++ (splitRun text).2 = text := by
  induction text with
  | nil => rfl
  | cons c rest ih =>
      by_cases hnumeral : isNumeral c
      · simp [splitRun, hnumeral, ih]
      · by_cases hblank : isBlank c
        · cases hrun : splitRun rest with
          | mk run after =>
              cases run with
              | nil => simp [splitRun, hnumeral, hblank, hrun]
              | cons d run => simp_all [splitRun]
        · simp [splitRun, hnumeral, hblank]

theorem splitRun_length_le (text : List Char) :
    (splitRun text).2.length ≤ text.length := by
  have hlength := congrArg List.length (splitRun_append text)
  simp only [List.length_append] at hlength
  omega

/-- The tokens of a text whose first character has position `start`. -/
def scanFrom (start : Nat) : List Char → Except Failure (List Token)
  | [] => .ok []
  | c :: rest =>
      if isBlank c then scanFrom (start + 1) rest
      else match Kind.ofSymbol? c with
        | some kind =>
            match scanFrom (start + 1) rest with
            | .error failure => .error failure
            | .ok tokens => .ok (⟨kind, [c], start⟩ :: tokens)
        | none =>
            if isNumeral c then
              let lexeme := c :: (splitRun rest).1
              match Numeral.read? (dropBlanks lexeme) with
              | none => .error (.malformedNumeral (String.ofList (dropBlanks lexeme)) start)
              | some numeral =>
                  match scanFrom (start + lexeme.length) (splitRun rest).2 with
                  | .error failure => .error failure
                  | .ok tokens => .ok (⟨.number numeral.value, lexeme, start⟩ :: tokens)
            else .error (.foreignCharacter c start)
termination_by text => text.length
decreasing_by
  · simp
  · simp
  · exact Nat.lt_succ_of_le (splitRun_length_le rest)

/-- The tokens of a text, read from left to right up to the first fault. -/
def scan (text : List Char) : Except Failure (List Token) :=
  scanFrom 0 text

/-- Refuses a text with a foreign character. -/
def screen (text : List Char) : Except Failure Unit :=
  match firstForeign? 0 text with
  | none => .ok ()
  | some (c, position) => .error (.foreignCharacter c position)

/-- The tokens of a text that holds no foreign character. -/
def screenAndScan (text : List Char) : Except Failure (List Token) :=
  match screen text with
  | .error failure => .error failure
  | .ok () => scan text

end Calculator.Token
