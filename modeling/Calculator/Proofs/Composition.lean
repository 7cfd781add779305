import Calculator.Proofs.Phrase

/-!
# Putting texts together

A text that is read as a tree keeps this tree inside a longer text, as long as
it stands in parentheses there: what comes before a group and after it changes
neither how the group is read nor how it is evaluated.  At the front of a sum
not even the parentheses are needed.

The parts have to be texts with a tree of their own.  `1)+(2` is none, and yet
`(1)+(2)` has a tree.
-/

namespace Calculator

open Grammar (Writes)
open Text (isBlank)

/-! ## Texts -/

/-- A text in parentheses. -/
def Text.group (text : String) : String :=
  "(" ++ text ++ ")"

/-- Two texts with an operator between them, and gaps around the operator. -/
def Operator.join (op : Operator) (before after left right : String) : String :=
  left ++ before ++ op.symbol.toString ++ after ++ right

theorem Text.toList_group (text : String) :
    (Text.group text).toList = '(' :: text.toList ++ [')'] := by
  simp [Text.group]

theorem Text.length_group (text : String) : (Text.group text).length = text.length + 2 := by
  simp only [← String.length_toList, toList_group, List.length_append, List.length_cons,
    List.length_nil]

theorem Operator.toList_join (op : Operator) (before after left right : String) :
    (op.join before after left right).toList =
      (left.toList ++ before.toList) ++ op.symbol :: (after.toList ++ right.toList) := by
  simp [Operator.join]

theorem Operator.length_le_join (op : Operator) (before after left right : String) :
    left.length ≤ (op.join before after left right).length ∧
      right.length ≤ (op.join before after left right).length := by
  simp only [← String.length_toList, toList_join, List.length_append, List.length_cons]
  omega

/-! ## Results -/

/-- The result of an operator on two results; the left one is asked for first. -/
def Operator.combine (op : Operator) (left right : Except Failure Float) :
    Except Failure Float :=
  match left, right with
  | .error failure, _ => .error failure
  | .ok _, .error failure => .error failure
  | .ok x, .ok y =>
      if op = .div ∧ isZero y = true then .error .divisionByZero
      else if (op.ideal x y).isFinite then .ok (op.ideal x y)
      else .error .notFinite

/-- The result of a unary minus on a result. -/
def negated : Except Failure Float → Except Failure Float
  | .error failure => .error failure
  | .ok x => if (-x).isFinite then .ok (-x) else .error .notFinite

theorem Operator.combine_ok (op : Operator) (x y : Float) :
    op.combine (.ok x) (.ok y) = op.apply x y := by
  rw [combine]
  cases op with
  | add | sub | mul => rfl
  | div =>
      have hzero : isZero y = (y == 0) := by rw [Bool.eq_iff_iff, isZero_iff, beq_zero_iff]
      simp only [true_and, hzero]
      rfl

theorem Expr.value_binary (op : Operator) (left right : Expr) :
    (Expr.binary op left right).value = op.combine left.value right.value := by
  rw [Expr.value]
  cases left.value with
  | error failure => rfl
  | ok x =>
      cases right.value with
      | error failure => rfl
      | ok y => exact (op.combine_ok x y).symm

theorem Expr.value_neg (operand : Expr) : (Expr.neg operand).value = negated operand.value := by
  rw [Expr.value]
  cases operand.value <;> rfl

/-! ## Readings -/

/-- `Gives depth text tree result`: within `depth` levels the text is read as the tree; it asks for
no more levels than that; and under all limits that grant the length and the levels it asks for, it
has the given result. -/
def Gives (depth : Nat) (text : String) (tree : Expr) (result : Limits → Except Failure Float) :
    Prop :=
  Expr.read depth text = .ok tree ∧ askedLevels text ≤ depth ∧
    ∀ limits : Limits, text.length ≤ limits.length → askedLevels text ≤ limits.depth →
      evaluate limits text = result limits

section Read

variable {s t before after : String} {a b : Expr} {levels levels' depth : Nat}

/-- The levels of a phrase are those that the limits have to grant. -/
theorem gives_of_writes {text : String} {tree : Expr} {result : Limits → Except Failure Float}
    (h : Writes .expression text.toList tree levels) (hdepth : levels ≤ depth)
    (hresult : ∀ limits : Limits, text.length ≤ limits.length → levels ≤ limits.depth →
      tree.value = result limits) :
    Gives depth text tree result := by
  rw [Gives, askedLevels_of_writes h]
  refine ⟨(Expr.read_eq_ok_iff ..).2 ⟨levels, hdepth, h⟩, hdepth, fun limits hlength hlevels => ?_⟩
  rw [evaluate_of_writes h hlength hlevels, hresult limits hlength hlevels]

theorem gives_group (hs : Writes .expression s.toList a levels) (hdepth : levels ≤ depth) :
    Gives (depth + 1) (Text.group s) a fun limits => evaluate limits s := by
  have hgroup : Writes .expression (Text.group s).toList a (levels + 1) := by
    rw [Text.toList_group]
    exact hs.group.of_primary .expression
  refine gives_of_writes hgroup (by omega) fun limits hlength hlevels => ?_
  rw [Text.length_group] at hlength
  rw [evaluate_of_writes hs (by omega) (by omega)]

theorem gives_neg (hs : Writes .expression s.toList a levels) (hdepth : levels ≤ depth) :
    Gives (depth + 2) ("-" ++ Text.group s) (.neg a) fun limits => negated (evaluate limits s) := by
  have hneg : Writes .expression ("-" ++ Text.group s).toList (.neg a) (levels + 1 + 1) := by
    rw [String.toList_append, Text.toList_group]
    exact hs.group.factor_of_primary.neg.term_of_factor.expression_of_term
  refine gives_of_writes hneg (by omega) fun limits hlength hlevels => ?_
  rw [String.length_append, Text.length_group] at hlength
  rw [evaluate_of_writes hs (by omega) (by omega), Expr.value_neg]

/-- The result of a text with an operator at the root is put together from those of its parts. -/
theorem gives_join {op : Operator} {left right : String}
    (hs : Writes .expression s.toList a levels) (ht : Writes .expression t.toList b levels')
    (hleft : s.length ≤ left.length) (hright : t.length ≤ right.length) {outer : Nat}
    (hjoin : Writes .expression (op.join before after left right).toList (.binary op a b) outer)
    (hdepth : outer ≤ depth) (hlevels : levels ≤ outer) (hlevels' : levels' ≤ outer) :
    Gives depth (op.join before after left right) (.binary op a b)
      fun limits => op.combine (evaluate limits s) (evaluate limits t) := by
  refine gives_of_writes hjoin hdepth fun limits hlength houter => ?_
  obtain ⟨hleft', hright'⟩ := op.length_le_join before after left right
  rw [Expr.value_binary, evaluate_of_writes hs (by omega) (by omega),
    evaluate_of_writes ht (by omega) (by omega)]

theorem writes_join_groups (op : Operator) (hs : Writes .expression s.toList a levels)
    (ht : Writes .expression t.toList b levels') (hbefore : ∀ c ∈ before.toList, isBlank c = true)
    (hafter : ∀ c ∈ after.toList, isBlank c = true) :
    Writes .expression (op.join before after (Text.group s) (Text.group t)).toList
      (.binary op a b) (max (levels + 1) (levels' + 1)) := by
  rw [Operator.toList_join, Text.toList_group, Text.toList_group]
  exact .operation op (hs.group.append_blanks hbefore) (ht.group.blanks_append hafter)

/-- The left operand of a sum may go without parentheses. -/
theorem writes_join_sum {op : Operator} (hop : op = .add ∨ op = .sub)
    (hs : Writes .expression s.toList a levels) (ht : Writes .expression t.toList b levels')
    (hbefore : ∀ c ∈ before.toList, isBlank c = true)
    (hafter : ∀ c ∈ after.toList, isBlank c = true) :
    Writes .expression (op.join before after s (Text.group t)).toList (.binary op a b)
      (max levels (levels' + 1)) := by
  rw [Operator.toList_join, Text.toList_group]
  exact .sum hop (hs.append_blanks hbefore) ((ht.group.blanks_append hafter).of_primary .term)

/-- Two texts with trees are put together with any operator, in parentheses or, at the front of a
sum, without them; the tree is put together from the trees and the result from the results. -/
theorem gives_composed (op : Operator) (hs : Expr.read depth s = .ok a)
    (ht : Expr.read depth t = .ok b) (hbefore : ∀ c ∈ before.toList, isBlank c = true)
    (hafter : ∀ c ∈ after.toList, isBlank c = true) :
    Gives (depth + 1) (Text.group s) a (fun limits => evaluate limits s) ∧
    Gives (depth + 1) (op.join before after (Text.group s) (Text.group t)) (.binary op a b)
      (fun limits => op.combine (evaluate limits s) (evaluate limits t)) ∧
    (op = .add ∨ op = .sub →
      Gives (depth + 1) (op.join before after s (Text.group t)) (.binary op a b)
        (fun limits => op.combine (evaluate limits s) (evaluate limits t))) ∧
    Gives (depth + 2) ("-" ++ Text.group s) (.neg a)
      (fun limits => negated (evaluate limits s)) := by
  obtain ⟨levels, hlevels, hs⟩ := (Expr.read_eq_ok_iff ..).1 hs
  obtain ⟨levels', hlevels', ht⟩ := (Expr.read_eq_ok_iff ..).1 ht
  have hgroup : s.length ≤ (Text.group s).length := by
    rw [Text.length_group]
    omega
  have hgroup' : t.length ≤ (Text.group t).length := by
    rw [Text.length_group]
    omega
  refine ⟨gives_group hs hlevels, ?_, fun hop => ?_, gives_neg hs hlevels⟩
  · exact gives_join hs ht hgroup hgroup' (writes_join_groups op hs ht hbefore hafter)
      (by omega) (by omega) (by omega)
  · exact gives_join hs ht (Nat.le_refl _) hgroup' (writes_join_sum hop hs ht hbefore hafter)
      (by omega) (by omega) (by omega)

theorem gives_composed_difference :
    Expr.read 1 "8*-2" = .ok (.binary .mul (.number 8) (.neg (.number 2))) ∧
    Expr.read 1 "1-1" = .ok (.binary .sub (.number 1) (.number 1)) ∧
    Gives 2 "8*-2 -(1-1)"
      (.binary .sub (.binary .mul (.number 8) (.neg (.number 2)))
        (.binary .sub (.number 1) (.number 1)))
      (fun limits => Operator.sub.combine (evaluate limits "8*-2") (evaluate limits "1-1")) := by
  have hs : Expr.read 1 "8*-2" = .ok (.binary .mul (.number 8) (.neg (.number 2))) := by
    decide +kernel
  have ht : Expr.read 1 "1-1" = .ok (.binary .sub (.number 1) (.number 1)) := by
    decide +kernel
  have hbefore : ∀ c ∈ " ".toList, isBlank c = true := List.all_eq_true.1 (by decide)
  have hafter : ∀ c ∈ "".toList, isBlank c = true := List.all_eq_true.1 (by decide)
  obtain ⟨-, -, hsum, -⟩ := gives_composed .sub hs ht hbefore hafter
  have htext : Operator.sub.join " " "" "8*-2" (Text.group "1-1") = "8*-2 -(1-1)" := by
    decide +kernel
  exact ⟨hs, ht, htext ▸ hsum (.inr rfl)⟩

end Read

end Calculator
