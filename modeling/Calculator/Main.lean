import Calculator.CommandLine

/-!
# The program

Connects the command to the standard streams.  A session is answered line by
line as the lines arrive; all decisions are made in `Calculator.CommandLine`.
-/

namespace Calculator.CommandLine

/-- Reads bytes up to and including the next newline, or up to the end. -/
partial def readLine (input : IO.FS.Stream) (line : List UInt8) : IO (List UInt8) := do
  match (← input.read 1).toList with
  | [] => return line.reverse
  | byte :: _ => if byte = 10 then return (byte :: line).reverse else readLine input (byte :: line)

/-- Answers the lines of the standard input until it ends. -/
partial def converse (limits : Limits) (report : Report) : IO UInt32 := do
  let output ← IO.getStdout
  output.putStr Session.prompt
  output.flush
  let line ← readLine (← IO.getStdin) []
  if line.isEmpty then
    output.putStr "\n"
    return 0
  match Session.reply? limits report line with
  | some reply =>
      output.putStr reply
      converse limits report
  | none =>
      IO.eprint Session.notUnicode
      return 1

/-- Writes an outcome. -/
def finish (outcome : Outcome) : IO UInt32 := do
  IO.print outcome.output
  IO.eprint outcome.errors
  return outcome.exitCode.toUInt32

end Calculator.CommandLine

open Calculator.CommandLine

/-- Runs the command on its arguments. -/
def main (arguments : List String) : IO UInt32 :=
  match declaration.parse arguments with
  | .found found =>
      let request := Request.ofFound found
      if request.expression.isNone then converse request.limits request.report
      else finish (request.run [])
  | .shown text => finish ⟨0, text, ""⟩
  | .refused message => finish ⟨2, "", message⟩
