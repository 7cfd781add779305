import Calculator.CommandLine.Parser
import Calculator.CommandLine.Request
import Calculator.CommandLine.Session

/-!
# The command

With an expression the command evaluates it and ends; without one it holds a
session.  If the argument parser refuses the arguments, its message is all that is
written: nothing is evaluated and nothing read.
-/

namespace Calculator.CommandLine

/-- What the command does with one expression.  In plain text a failure is
reported among the errors alone, in HTML also on the output. -/
def evaluateOnce (limits : Limits) (report : Report) (expression : String) : Outcome :=
  let result := evaluate limits expression
  let line := report.render expression result ++ "\n"
  match result with
  | .ok _ => ⟨0, line, ""⟩
  | .error failure =>
      ⟨1, if report.html then line else "", "Error: " ++ failure.message ++ "\n"⟩

/-- What the command does on a request. -/
def Request.run (request : Request) (input : List UInt8) : Outcome :=
  match request.expression with
  | some expression => evaluateOnce request.limits request.report expression
  | none => Session.run request.limits request.report input

/-- What the command does on a list of arguments, with an argument parser. -/
def runWith (parser : Declaration → List String → Answer) (arguments : List String)
    (input : List UInt8) : Outcome :=
  match parser declaration arguments with
  | .found found => (Request.ofFound found).run input
  | .shown text => ⟨0, text, ""⟩
  | .refused message => ⟨2, "", message⟩

/-- What the command does on a list of arguments. -/
def run (arguments : List String) (input : List UInt8) : Outcome :=
  runWith Declaration.parse arguments input

end Calculator.CommandLine
