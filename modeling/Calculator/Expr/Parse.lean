import Calculator.Expr
import Calculator.Failure

/-!
# From tokens to a tree

The grammar, lowest precedence first:

```text
expression := term (('+' | '-') term)*
term       := factor (('*' | '/') factor)*
factor     := '-' factor | primary
primary    := NUMBER | '(' expression ')'
```

Chains group to the left, and a group leaves no node.  A unary minus and a
group each open a level, and no level above the limit is opened.

Each production takes the state of the reading and gives back a tree with the
state after it, or a failure with the state in which it arose.  A production
that gives a tree has used up at least one token, and its result carries the
proof; this bounds the recursion, and no fuel is needed.
-/

namespace Calculator.Parse

/-- What stays fixed while a list of tokens is read. -/
structure Frame where
  /-- The number of levels that may be open at once. -/
  maxDepth : Nat
  /-- The position after the last character of the text. -/
  stop : Nat

/-- The state of a reading. -/
structure Reading where
  /-- The tokens not yet used up. -/
  ahead : List Token
  /-- The number of open levels. -/
  depth : Nat := 0
  /-- The positions of the open parentheses, the innermost first. -/
  openGroups : List Nat := []

/-- What a production comes to, where no more tokens lie ahead than `entry` has. -/
inductive Progress (entry : List Token) where
  /-- A tree, and the state after it with fewer tokens ahead. -/
  | parsed (tree : Expr) (rest : Reading) (hrest : rest.ahead.length < entry.length)
  /-- A failure, and the state in which it arose. -/
  | failed (failure : Failure) (rest : Reading)

namespace Progress

/-- Closes the level that was opened at `depth`, and makes a node of the tree
inside it. -/
def closeLevel {inner entry : List Token} (depth : Nat) (node : Expr → Expr)
    (hinner : inner.length ≤ entry.length) : Progress inner → Progress entry
  | parsed tree rest hrest =>
      parsed (node tree) { rest with depth := depth } (Nat.lt_of_lt_of_le hrest hinner)
  | failed failure rest => failed failure { rest with depth := depth }

end Progress

/-- The failure at a token that does not fit. -/
def unexpectedToken (token : Token) : Failure :=
  .unexpected (Failure.quoted token.lexeme) token.start

/-- The failure where the tokens end too early: the innermost open group was
never closed; outside of groups an operand is missing. -/
def unexpectedEnd (frame : Frame) (reading : Reading) : Failure :=
  match reading.openGroups with
  | opening :: _ => .unbalanced opening
  | [] => .unexpected Failure.endOfInput frame.stop

/-- The operator of a sum that a token stands for. -/
def sumOperator? (token : Token) : Option Operator :=
  (Operator.ofToken? token.kind).filter Operator.isAdditive

/-- The operator of a product that a token stands for. -/
def productOperator? (token : Token) : Option Operator :=
  (Operator.ofToken? token.kind).filter fun op => !op.isAdditive

mutual

/-- Reads a sum. -/
def expression (frame : Frame) (reading : Reading) {entry : List Token}
    (hentry : reading.ahead.length ≤ entry.length) : Progress entry :=
  match term frame reading hentry with
  | .failed failure rest => .failed failure rest
  | .parsed left rest hrest => sumFrom frame left rest hrest
termination_by 6 * entry.length + 4

/-- Reads the further members of a sum whose members so far make up `left`. -/
def sumFrom (frame : Frame) (left : Expr) (reading : Reading) {entry : List Token}
    (hentry : reading.ahead.length < entry.length) : Progress entry :=
  match hahead : reading.ahead with
  | [] => .parsed left reading hentry
  | token :: more =>
      match sumOperator? token with
      | none => .parsed left reading hentry
      | some op =>
          match term frame { reading with ahead := more } (Nat.le_refl _) with
          | .failed failure rest => .failed failure rest
          | .parsed right rest hrest =>
              sumFrom frame (.binary op left right) rest
                (by simp only [hahead, List.length_cons] at hentry hrest; omega)
termination_by 6 * reading.ahead.length
decreasing_by
  all_goals simp only [hahead, List.length_cons] at *; omega

/-- Reads a product. -/
def term (frame : Frame) (reading : Reading) {entry : List Token}
    (hentry : reading.ahead.length ≤ entry.length) : Progress entry :=
  match factor frame reading hentry with
  | .failed failure rest => .failed failure rest
  | .parsed left rest hrest => productFrom frame left rest hrest
termination_by 6 * entry.length + 3

/-- Reads the further members of a product whose members so far make up `left`. -/
def productFrom (frame : Frame) (left : Expr) (reading : Reading) {entry : List Token}
    (hentry : reading.ahead.length < entry.length) : Progress entry :=
  match hahead : reading.ahead with
  | [] => .parsed left reading hentry
  | token :: more =>
      match productOperator? token with
      | none => .parsed left reading hentry
      | some op =>
          match factor frame { reading with ahead := more } (Nat.le_refl _) with
          | .failed failure rest => .failed failure rest
          | .parsed right rest hrest =>
              productFrom frame (.binary op left right) rest
                (by simp only [hahead, List.length_cons] at hentry hrest; omega)
termination_by 6 * reading.ahead.length
decreasing_by
  all_goals simp only [hahead, List.length_cons] at *; omega

/-- Reads an operand, with the unary minuses in front of it. -/
def factor (frame : Frame) (reading : Reading) {entry : List Token}
    (hentry : reading.ahead.length ≤ entry.length) : Progress entry :=
  match hahead : reading.ahead with
  | ⟨.minus, _, start⟩ :: more =>
      if reading.depth < frame.maxDepth then
        (factor frame { reading with ahead := more, depth := reading.depth + 1 }
          (Nat.le_refl _)).closeLevel reading.depth .neg
          (by simp only [hahead, List.length_cons] at hentry ⊢; omega)
      else .failed (.tooDeep frame.maxDepth start) { reading with ahead := more }
  | _ => primary frame reading hentry
termination_by 6 * entry.length + 2
decreasing_by
  · simp only [hahead, List.length_cons] at *; omega
  · omega

/-- Reads a number or a group. -/
def primary (frame : Frame) (reading : Reading) {entry : List Token}
    (hentry : reading.ahead.length ≤ entry.length) : Progress entry :=
  match hahead : reading.ahead with
  | [] => .failed (unexpectedEnd frame reading) reading
  | token :: more =>
      match token.kind with
      | .number value =>
          .parsed (.number value) { reading with ahead := more }
            (by simp only [hahead, List.length_cons] at hentry ⊢; omega)
      | .opening =>
          if reading.depth < frame.maxDepth then
            (group frame token.start { reading with ahead := more, depth := reading.depth + 1 }
              (Nat.le_refl _)).closeLevel reading.depth id
              (by simp only [hahead, List.length_cons] at hentry ⊢; omega)
          else .failed (.tooDeep frame.maxDepth token.start) { reading with ahead := more }
      | .closing =>
          if reading.openGroups.isEmpty then
            .failed (.unbalanced token.start) { reading with ahead := more }
          else .failed (unexpectedToken token) { reading with ahead := more }
      | _ => .failed (unexpectedToken token) { reading with ahead := more }
termination_by 6 * entry.length + 1
decreasing_by
  simp only [hahead, List.length_cons] at *; omega

/-- Reads a group after its opening parenthesis, which stands at `opening`. -/
def group (frame : Frame) (opening : Nat) (reading : Reading) {entry : List Token}
    (hentry : reading.ahead.length ≤ entry.length) : Progress entry :=
  match expression frame { reading with openGroups := opening :: reading.openGroups } hentry with
  | .failed failure rest => .failed failure rest
  | .parsed tree rest hrest =>
      match hahead : rest.ahead with
      | [] => .failed (.unbalanced opening) rest
      | token :: more =>
          match token.kind with
          | .closing =>
              .parsed tree { rest with ahead := more, openGroups := rest.openGroups.tail }
                (by simp only [hahead, List.length_cons] at hrest ⊢; omega)
          | _ => .failed (unexpectedToken token) { rest with ahead := more }
termination_by 6 * entry.length + 5

end

end Calculator.Parse

namespace Calculator

/-- The tree of a list of tokens from a text with `stop` characters, if the list
as a whole is an expression with at most `maxDepth` levels. -/
def Expr.ofTokens (maxDepth stop : Nat) (tokens : List Token) : Except Failure Expr :=
  match tokens with
  | [] => .error .emptyExpression
  | _ :: _ =>
      match Parse.expression ⟨maxDepth, stop⟩ { ahead := tokens } (Nat.le_refl _) with
      | .failed failure _ => .error failure
      | .parsed tree rest _ =>
          match rest.ahead with
          | [] => .ok tree
          | ⟨.closing, _, start⟩ :: _ => .error (.unbalanced start)
          | token :: _ => .error (Parse.unexpectedToken token)

end Calculator
