import Calculator.Expr.Parse
import Calculator.Expr.Value
import Calculator.Token.Scan

/-!
# Evaluating a text

`evaluate` takes a text through all stages: its length, the search for foreign
characters, the tokens, the tree and the value.  The first stage that fails
decides the failure.  The two limits keep the work small on texts from unknown
hands; they do not change the value of a text that they admit.
-/

namespace Calculator

/-- How much an expression may ask for. -/
structure Limits where
  /-- The greatest number of characters, blanks included. -/
  length : Nat := 4096
  /-- The greatest number of groups and unary minuses around any number. -/
  depth : Nat := 256
deriving DecidableEq

/-- The tree that a text writes, if it has at most `maxDepth` levels. -/
def Expr.read (maxDepth : Nat) (source : String) : Except Failure Expr :=
  let text := source.toList
  match Token.screenAndScan text with
  | .error failure => .error failure
  | .ok tokens => Expr.ofTokens maxDepth text.length tokens

/-- The value of a text within the limits. -/
def evaluate (limits : Limits) (source : String) : Except Failure Float :=
  if limits.length < source.length then .error (.tooLong source.length limits.length)
  else
    match Expr.read limits.depth source with
    | .error failure => .error failure
    | .ok tree => tree.value

end Calculator
