import Calculator.Expr
import Calculator.Failure

/-!
# The value of a tree

A tree is evaluated from the leaves up, the left operand before the right one.
No node may have a value other than a finite number, and no divisor may equal
zero, whatever its sign.  The first node that breaks one of these rules decides
the failure; a divisor is looked at before the quotient.
-/

namespace Calculator

/-- Lets only a finite number through. -/
def requireFinite (value : Float) : Except Failure Float :=
  if value.isFinite then .ok value else .error .notFinite

/-- The result of an operator on the values of its operands. -/
def Operator.apply (op : Operator) (left right : Float) : Except Failure Float :=
  match op with
  | .add => requireFinite (left + right)
  | .sub => requireFinite (left - right)
  | .mul => requireFinite (left * right)
  | .div => if right == 0 then .error .divisionByZero else requireFinite (left / right)

/-- The value of a tree. -/
def Expr.value : Expr → Except Failure Float
  | number value => requireFinite value
  | neg operand =>
      match operand.value with
      | .error failure => .error failure
      | .ok value => requireFinite (-value)
  | binary op left right =>
      match left.value with
      | .error failure => .error failure
      | .ok leftValue =>
          match right.value with
          | .error failure => .error failure
          | .ok rightValue => op.apply leftValue rightValue

theorem requireFinite_eq_ok_iff (value result : Float) :
    requireFinite value = .ok result ↔ value.isFinite = true ∧ value = result := by
  by_cases hfinite : value.isFinite <;> simp [requireFinite, hfinite]

theorem Operator.isFinite_of_apply {op : Operator} {left right result : Float}
    (hresult : op.apply left right = .ok result) : result.isFinite = true := by
  cases op with
  | add | sub | mul =>
      obtain ⟨hfinite, rfl⟩ := (requireFinite_eq_ok_iff _ _).1 hresult
      exact hfinite
  | div =>
      simp only [Operator.apply] at hresult
      split at hresult
      · simp at hresult
      · obtain ⟨hfinite, rfl⟩ := (requireFinite_eq_ok_iff _ _).1 hresult
        exact hfinite

/-- A value is always finite. -/
theorem Expr.isFinite_of_value {tree : Expr} {result : Float}
    (hresult : tree.value = .ok result) : result.isFinite = true := by
  cases tree with
  | number value =>
      obtain ⟨hfinite, rfl⟩ := (requireFinite_eq_ok_iff _ _).1 hresult
      exact hfinite
  | neg operand =>
      simp only [Expr.value] at hresult
      split at hresult
      · simp at hresult
      · obtain ⟨hfinite, rfl⟩ := (requireFinite_eq_ok_iff _ _).1 hresult
        exact hfinite
  | binary op left right =>
      simp only [Expr.value] at hresult
      split at hresult
      · simp at hresult
      · split at hresult
        · simp at hresult
        · exact Operator.isFinite_of_apply hresult

end Calculator
