import Calculator.Decimal.OfFloat
import Calculator.Token

/-!
# Expressions

The tree of an expression: numbers, unary minus and the four operators.  Groups
in the text leave no node behind.  `Expr.same` compares two trees as values are
compared, so that the two zeros are the same number and a NaN differs from
itself.  `Expr.polish` writes a tree with each operator before its operands.
-/

namespace Calculator

/-- The operators with two operands. -/
inductive Operator where
  | add
  | sub
  | mul
  | div
deriving DecidableEq

namespace Operator

/-- The sign that writes an operator. -/
def symbol : Operator → Char
  | add => '+'
  | sub => '-'
  | mul => '*'
  | div => '/'

/-- The operator that a token stands for between two operands. -/
def ofToken? : Token.Kind → Option Operator
  | .plus => some add
  | .minus => some sub
  | .star => some mul
  | .slash => some div
  | .opening | .closing | .number _ => none

/-- Whether an operator joins the members of a sum; the others join the members
of a product. -/
def isAdditive : Operator → Bool
  | add | sub => true
  | mul | div => false

end Operator

/-- The tree of an expression. -/
inductive Expr where
  | number (value : Float)
  | neg (operand : Expr)
  | binary (op : Operator) (left right : Expr)
deriving DecidableEq

namespace Expr

/-- Same shape, same operators, and numbers that are equal as numbers. -/
def same : Expr → Expr → Bool
  | number x, number y => x == y
  | neg e, neg f => e.same f
  | binary op left right, binary op' left' right' =>
      op == op' && left.same left' && right.same right'
  | _, _ => false

/-- The text of a tree with each operator before its operands. -/
def polish : Expr → String
  | number value => Decimal.text value
  | neg operand => "(- " ++ operand.polish ++ ")"
  | binary op left right =>
      "(" ++ op.symbol.toString ++ " " ++ left.polish ++ " " ++ right.polish ++ ")"

end Expr

end Calculator
