import Calculator.CommandLine.Arguments
import Calculator.Report

/-!
# What a command line asks for

The command takes settings and at most one expression.  An expression may begin
with a unary minus, so that it may look like the name of a setting.
-/

namespace Calculator.CommandLine

/-- The arguments of the command. -/
def declaration : Declaration where
  named :=
    [⟨"--precision", .value (.upTo 100)⟩, ⟨"--html", .flag⟩,
      ⟨"--max-input-len", .value .size⟩, ⟨"--max-depth", .value .size⟩]
  hyphens := true

/-- What a command line asks for; what it leaves out is `none`. -/
structure Request where
  /-- The number of decimals of a result. -/
  precision : Option Nat := none
  /-- Whether to report in HTML. -/
  html : Bool := false
  /-- The greatest number of characters. -/
  maxLength : Option Nat := none
  /-- The greatest number of levels. -/
  maxDepth : Option Nat := none
  /-- The expression; without one there is a session. -/
  expression : Option String := none
deriving DecidableEq

namespace Request

/-- The request of the arguments that were found. -/
def ofFound (found : Found) : Request where
  precision := found.number? "--precision"
  html := found.flags.contains "--html"
  maxLength := found.number? "--max-input-len"
  maxDepth := found.number? "--max-depth"
  expression := found.text

/-- The limits that a request sets. -/
def limits (r : Request) : Limits :=
  { length := r.maxLength.getD ({} : Limits).length
    depth := r.maxDepth.getD ({} : Limits).depth }

/-- The report that a request asks for. -/
def report (r : Request) : Report :=
  { decimals := r.precision, html := r.html }

end Request

end Calculator.CommandLine
