import Calculator.Proofs.Decimal.Shortest
import Calculator.Proofs.Grammar.Inorder
import Calculator.Proofs.Phrase

/-!
# Writing a tree down

`Expr.written` writes a tree as people do, with each operator between its
operands and with no more parentheses than the grammar asks for.  The text is
read as the tree that was written (`read_written`).

Which phrases of the grammar the text of a tree can be is a matter of its root
(`Expr.fits`).  An operand whose text is no phrase of the kind that is needed
stands in parentheses; in them any text is a primary.
-/

namespace Calculator

open Binary64 (isNegative)
open Grammar (Symbol Writes)

namespace Expr

/-! ## Infix notation -/

/-- Whether the root of a tree is an operator with two operands. -/
def isBinary : Expr → Bool
  | binary .. => true
  | number _ | neg _ => false

/-- Whether the root of a tree joins the members of a sum. -/
def isSum : Expr → Bool
  | binary .add _ _ | binary .sub _ _ => true
  | binary .mul _ _ | binary .div _ _ | number _ | neg _ => false

/-- Whether the left operand of an operator stands in parentheses. -/
def groupsLeft (op : Operator) (left : Expr) : Bool :=
  match op with
  | .add | .sub => false
  | .mul | .div => left.isSum

/-- Whether the right operand of an operator stands in parentheses. -/
def groupsRight (op : Operator) (right : Expr) : Bool :=
  match op with
  | .add | .sub => right.isSum
  | .mul | .div => right.isBinary

/-- A text, in parentheses if asked for. -/
def grouped (group : Bool) (text : List Char) : List Char :=
  if group then '(' :: text ++ [')'] else text

/-- The characters of a tree in infix notation. -/
def spelling : Expr → List Char
  | number value => (Decimal.text value).toList
  | neg operand => '-' :: grouped operand.isBinary operand.spelling
  | binary op left right =>
      grouped (groupsLeft op left) left.spelling ++
        op.symbol :: grouped (groupsRight op right) right.spelling

/-- The text of a tree in infix notation. -/
def written (tree : Expr) : String :=
  String.ofList tree.spelling

/-- The greatest number of groups and unary minuses around a number of the text. -/
def nesting : Expr → Nat
  | number _ => 0
  | neg operand => operand.nesting + operand.isBinary.toNat + 1
  | binary op left right =>
      max (left.nesting + (groupsLeft op left).toNat) (right.nesting + (groupsRight op right).toNat)

/-- Whether all numbers of a tree are finite and free of a sign, as those of a text are. -/
def IsUnsigned (tree : Expr) : Prop :=
  ∀ x ∈ tree.numbers, x.isFinite = true ∧ isNegative x = false

instance (tree : Expr) : Decidable tree.IsUnsigned :=
  inferInstanceAs (Decidable (∀ x ∈ tree.numbers, x.isFinite = true ∧ isNegative x = false))

theorem isUnsigned_neg_iff (operand : Expr) : (neg operand).IsUnsigned ↔ operand.IsUnsigned := by
  rw [IsUnsigned, numbers_neg]
  rfl

theorem isUnsigned_binary_iff (op : Operator) (left right : Expr) :
    (binary op left right).IsUnsigned ↔ left.IsUnsigned ∧ right.IsUnsigned := by
  rw [IsUnsigned, numbers_binary]
  exact List.forall_mem_append

/-! ## Trees as phrases -/

/-- Whether the text of a tree is a phrase of the grammar without parentheses around it. -/
def fits (symbol : Symbol) (tree : Expr) : Bool :=
  match symbol, tree with
  | _, number _ => true
  | .primary, neg _ => false
  | _, neg _ => true
  | .expression, binary .. => true
  | .term, binary .add _ _ | .term, binary .sub _ _ => false
  | .term, binary .mul _ _ | .term, binary .div _ _ => true
  | .factor, binary .. | .primary, binary .. => false

theorem fits_expression (tree : Expr) : tree.fits .expression = true := by
  cases tree <;> rfl

theorem fits_term (tree : Expr) : tree.fits .term = !tree.isSum := by
  cases tree with
  | number | neg => rfl
  | binary op left right => cases op <;> rfl

theorem fits_factor (tree : Expr) : tree.fits .factor = !tree.isBinary := by
  cases tree <;> rfl

/-- The phrase that stands to the left of an operator. -/
def leftSymbol : Operator → Symbol
  | .add | .sub => .expression
  | .mul | .div => .term

/-- The phrase that stands to the right of an operator. -/
def rightSymbol : Operator → Symbol
  | .add | .sub => .term
  | .mul | .div => .factor

theorem fits_of_groupsLeft {op : Operator} {left : Expr} (h : groupsLeft op left = false) :
    left.fits (leftSymbol op) = true := by
  cases op with
  | add | sub => exact left.fits_expression
  | mul | div => exact left.fits_term.trans (congrArg Bool.not h)

theorem fits_of_groupsRight {op : Operator} {right : Expr} (h : groupsRight op right = false) :
    right.fits (rightSymbol op) = true := by
  cases op with
  | add | sub => exact right.fits_term.trans (congrArg Bool.not h)
  | mul | div => exact right.fits_factor.trans (congrArg Bool.not h)

section Phrases

variable {tree left right : Expr}

/-- In parentheses a tree may stand anywhere; without them it has to fit. -/
theorem writes_grouped (h : ∀ symbol, tree.fits symbol = true →
      Writes symbol tree.spelling tree tree.nesting) (group : Bool) (symbol : Symbol)
    (hfits : group = false → tree.fits symbol = true) :
    Writes symbol (grouped group tree.spelling) tree (tree.nesting + group.toNat) := by
  cases group with
  | false => exact h symbol (hfits rfl)
  | true => exact ((h .expression tree.fits_expression).group).of_primary symbol

theorem writes_binary {op : Operator} {text text' : List Char} {levels levels' : Nat}
    (hleft : Writes (leftSymbol op) text left levels)
    (hright : Writes (rightSymbol op) text' right levels') {symbol : Symbol}
    (hfits : (binary op left right).fits symbol = true) :
    Writes symbol (text ++ op.symbol :: text') (binary op left right) (max levels levels') := by
  cases op with
  | add | sub =>
      cases symbol with
      | expression =>
          refine .sum ?_ hleft hright
          simp
      | term | factor | primary => cases hfits
  | mul | div =>
      cases symbol with
      | expression =>
          refine (Writes.product ?_ hleft hright).expression_of_term
          simp
      | term =>
          refine .product ?_ hleft hright
          simp
      | factor | primary => cases hfits

theorem writes_neg {text : List Char} {levels : Nat} (h : Writes .factor text tree levels)
    {symbol : Symbol} (hfits : (neg tree).fits symbol = true) :
    Writes symbol ('-' :: text) (neg tree) (levels + 1) := by
  cases symbol with
  | expression => exact h.neg.term_of_factor.expression_of_term
  | term => exact h.neg.term_of_factor
  | factor => exact h.neg
  | primary => cases hfits

end Phrases

/-- The text of a tree is the phrase that its root makes it. -/
theorem writes_spelling (tree : Expr) (hunsigned : tree.IsUnsigned) (symbol : Symbol)
    (hfits : tree.fits symbol = true) : Writes symbol tree.spelling tree tree.nesting := by
  -- the symbol varies: an operand is needed as an expression once it stands in parentheses
  induction tree generalizing symbol with
  | number value =>
      obtain ⟨hfinite, hsign⟩ := hunsigned value (List.mem_singleton.2 rfl)
      obtain ⟨numeral, hread, hvalue⟩ := Decimal.exists_read?_text hfinite hsign
      rw [← hvalue] at hread ⊢
      exact (Writes.number hread).of_primary symbol
  | neg operand ih =>
      rw [isUnsigned_neg_iff] at hunsigned
      have hoperand : Writes .factor (grouped operand.isBinary operand.spelling) operand
          (operand.nesting + operand.isBinary.toNat) :=
        writes_grouped (ih hunsigned) _ _ fun h => by rw [fits_factor, h]; rfl
      exact writes_neg hoperand hfits
  | binary op left right ihleft ihright =>
      obtain ⟨hleft, hright⟩ := (isUnsigned_binary_iff op left right).1 hunsigned
      exact writes_binary (writes_grouped (ihleft hleft) _ _ fits_of_groupsLeft)
        (writes_grouped (ihright hright) _ _ fits_of_groupsRight) hfits

/-- A tree without signs in its numbers is written down and read back unchanged, under every limit
that the nesting of its text allows and no other, and the text is evaluated to the value of the
tree. -/
theorem read_written {tree : Expr} (hunsigned : tree.IsUnsigned) :
    (∀ maxDepth, Expr.read maxDepth tree.written = .ok tree ↔ tree.nesting ≤ maxDepth) ∧
    ∀ limits : Limits, tree.written.length ≤ limits.length → tree.nesting ≤ limits.depth →
      evaluate limits tree.written = tree.value := by
  have hwrites : Writes .expression tree.written.toList tree tree.nesting := by
    rw [written, String.toList_ofList]
    exact tree.writes_spelling hunsigned .expression tree.fits_expression
  refine ⟨fun maxDepth => ?_, fun limits => evaluate_of_writes hwrites⟩
  constructor
  · intro hread
    obtain ⟨levels, hlevels, hwrites'⟩ := (read_eq_ok_iff ..).1 hread
    rwa [← askedLevels_of_writes hwrites, askedLevels_of_writes hwrites']
  · exact fun hdepth => (read_eq_ok_iff ..).2 ⟨tree.nesting, hdepth, hwrites⟩

/-- A tree whose text needs all of its groups. -/
def sample : Expr :=
  .binary .sub
    (.binary .mul (.binary .add (.number 1) (.neg (.binary .sub (.number 1) (.number 2))))
      (.number 3))
    (.binary .sub (.number 0.25) (.neg (.neg (.number 4))))

theorem written_sample : sample.written = "(1+-(1-2))*3-(0.25---4)" := by
  decide +kernel

theorem read_written_sample :
    sample.IsUnsigned ∧ Expr.read 3 "(1+-(1-2))*3-(0.25---4)" = .ok sample ∧
    evaluate ⟨23, 3⟩ "(1+-(1-2))*3-(0.25---4)" = sample.value := by
  have hunsigned : sample.IsUnsigned := by decide +kernel
  obtain ⟨hread, hevaluate⟩ := read_written hunsigned
  rw [written_sample] at hread hevaluate
  exact ⟨hunsigned, (hread 3).2 (by decide), hevaluate ⟨23, 3⟩ (by decide) (by decide)⟩

end Expr

end Calculator
