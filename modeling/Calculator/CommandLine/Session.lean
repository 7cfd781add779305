import Calculator.Report
import Calculator.Text.Blank

/-!
# Sessions

A session answers the lines of its input one by one.  Before each line, and
before the end of the input, it writes a prompt.  A line of blanks has an empty
answer; any other has one line with the report on it.  A line that is not UTF-8
ends the session with a failure, and nothing after it is read.
-/

namespace Calculator.CommandLine

/-- What a command leaves behind. -/
structure Outcome where
  /-- The exit code: 0 for success, 1 for a failure, 2 for a misuse. -/
  exitCode : Nat
  /-- What is written to the standard output. -/
  output : String
  /-- What is written to the standard error output. -/
  errors : String
deriving DecidableEq

namespace Session

/-- Stands before each line of input. -/
def prompt : String := "> "

/-- The complaint about a line that is not UTF-8. -/
def notUnicode : String := "Error: stream did not contain valid UTF-8\n"

/-- Cuts the input after each newline; a last line may lack the newline. -/
def lines : List UInt8 → List (List UInt8)
  | [] => []
  | byte :: rest =>
      if byte = 10 then [byte] :: lines rest
      else match lines rest with
        | [] => [[byte]]
        | line :: more => (byte :: line) :: more

/-- A line without the carriage returns and newlines at its end. -/
def trimEnd (line : List Char) : List Char :=
  (line.reverse.dropWhile fun c => c == '\r' || c == '\n').reverse

/-- The answer to a line of text. -/
def answer (limits : Limits) (report : Report) (line : String) : String :=
  let text := trimEnd line.toList
  if text.all Text.isBlank then ""
  else
    let source := String.ofList text
    report.render source (evaluate limits source) ++ "\n"

/-- The answer to a line of bytes, if it is UTF-8. -/
def reply? (limits : Limits) (report : Report) (line : List UInt8) : Option String :=
  (String.fromUTF8? line.toByteArray).map (answer limits report)

/-- What a session on the given lines comes to. -/
def runLines (limits : Limits) (report : Report) : List (List UInt8) → Outcome
  | [] => ⟨0, prompt ++ "\n", ""⟩
  | line :: rest =>
      match reply? limits report line with
      | none => ⟨1, prompt, notUnicode⟩
      | some reply =>
          let later := runLines limits report rest
          { later with output := prompt ++ reply ++ later.output }

/-- What a session on the given input comes to. -/
def run (limits : Limits) (report : Report) (input : List UInt8) : Outcome :=
  runLines limits report (lines input)

end Session

end Calculator.CommandLine
