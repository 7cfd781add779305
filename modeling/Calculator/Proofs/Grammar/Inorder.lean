import Calculator.Proofs.Grammar
import Calculator.Proofs.Value

/-!
# The nodes of a tree and the tokens that write them

Numbers and operators stand for the nodes of a tree, parentheses for none.  Without
its parentheses an expression is its tree read in order, each operator between its
operands and a unary minus before its own (`filter_isNode`).  So the tokens tell how
many nodes there are, which numbers, and which operators.
-/

namespace Calculator

/-! ## Tokens of nodes -/

namespace Token.Kind

/-- Whether a token stands for a node of a tree. -/
def isNode : Token.Kind → Bool
  | opening | closing => false
  | plus | minus | star | slash | number _ => true

/-- The number that a token stands for. -/
def number? : Token.Kind → Option Float
  | number x => some x
  | _ => none

theorem number?_eq_some_iff {kind : Token.Kind} {x : Float} :
    kind.number? = some x ↔ kind = .number x := by
  cases kind <;> simp [number?]

theorem filterMap_number?_filter (kinds : List Token.Kind) :
    (kinds.filter isNode).filterMap number? = kinds.filterMap number? := by
  rw [List.filterMap_filter]
  congr
  funext kind
  cases kind <;> rfl

end Token.Kind

namespace Operator

theorem isNode_token (op : Operator) : op.token.isNode = true := by
  cases op <;> rfl

theorem number?_token (op : Operator) : op.token.number? = none := by
  cases op <;> rfl

end Operator

/-! ## Trees in order -/

namespace Expr

/-- The tokens of the nodes of a tree, as they stand in a text. -/
def inorder : Expr → List Token.Kind
  | number x => [.number x]
  | neg operand => .minus :: operand.inorder
  | binary op left right => left.inorder ++ op.token :: right.inorder

theorem length_inorder (tree : Expr) : tree.inorder.length = tree.nodes.length := by
  induction tree with
  | number x => rfl
  | neg operand ih => rw [inorder, nodes, List.length_cons, ih, List.length_append]; rfl
  | binary op left right ihleft ihright =>
      simp only [inorder, nodes, List.length_append, List.length_cons, List.length_nil, ihleft,
        ihright]
      omega

theorem token_mem_inorder {tree left right : Expr} {op : Operator}
    (h : binary op left right ∈ tree.nodes) : op.token ∈ tree.inorder := by
  induction tree with
  | number x => simp [nodes] at h
  | neg operand ih =>
      simp only [nodes, List.mem_append, List.mem_singleton, reduceCtorEq, or_false] at h
      exact List.mem_cons_of_mem _ (ih h)
  | binary op' left' right' ihleft ihright =>
      simp only [nodes, List.mem_append, List.mem_singleton, binary.injEq] at h
      rw [inorder, List.mem_append, List.mem_cons]
      rcases h with (hleft | hright) | ⟨rfl, -, -⟩
      · exact .inl (ihleft hleft)
      · exact .inr (.inr (ihright hright))
      · exact .inr (.inl rfl)

/-- The number of a leaf. -/
def number? : Expr → Option Float
  | number x => some x
  | _ => none

/-- The numbers of a tree, from left to right. -/
def numbers (tree : Expr) : List Float :=
  tree.nodes.filterMap number?

theorem mem_numbers {tree : Expr} {x : Float} : x ∈ tree.numbers ↔ number x ∈ tree.nodes := by
  rw [numbers, List.mem_filterMap]
  constructor
  · rintro ⟨node, hnode, hnumber⟩
    cases node with
    | number y =>
        obtain rfl := Option.some.inj hnumber
        exact hnode
    | neg | binary => cases hnumber
  · exact fun hnode => ⟨number x, hnode, rfl⟩

@[simp] theorem numbers_number (x : Float) : (number x).numbers = [x] :=
  rfl

@[simp] theorem numbers_neg (operand : Expr) : (neg operand).numbers = operand.numbers := by
  rw [numbers, nodes, List.filterMap_append]
  exact List.append_nil _

@[simp] theorem numbers_binary (op : Operator) (left right : Expr) :
    (binary op left right).numbers = left.numbers ++ right.numbers := by
  rw [numbers, nodes, List.filterMap_append, List.filterMap_append]
  exact List.append_nil _

theorem filterMap_inorder (tree : Expr) :
    tree.inorder.filterMap Token.Kind.number? = tree.numbers := by
  induction tree with
  | number x => rfl
  | neg operand ih => rw [numbers_neg, ← ih]; rfl
  | binary op left right ihleft ihright =>
      rw [numbers_binary, ← ihleft, ← ihright, inorder, List.filterMap_append,
        List.filterMap_cons_none op.number?_token]

end Expr

/-! ## What the tokens tell -/

namespace Grammar

variable {symbol : Symbol} {kinds : List Token.Kind} {tree : Expr} {levels : Nat}

/-- Without parentheses, the tokens are those of the tree in order. -/
theorem filter_isNode (h : Derives symbol kinds tree levels) :
    kinds.filter Token.Kind.isNode = tree.inorder := by
  induction h with
  | expression_term _ ih | term_factor _ ih | factor_primary _ ih => exact ih
  | @expression_chain op _ _ _ _ _ _ _ _ _ ihleft ihright
  | @term_chain op _ _ _ _ _ _ _ _ _ ihleft ihright =>
      rw [List.filter_append, List.filter_cons_of_pos op.isNode_token, ihleft, ihright,
        Expr.inorder]
  | factor_neg _ ih => rw [List.filter_cons_of_pos rfl, ih, Expr.inorder]
  | primary_number x => rfl
  | primary_group _ ih =>
      rw [List.cons_append, List.filter_cons_of_neg (by decide), List.filter_append, ih]
      exact List.append_nil _

/-- A tree has as many nodes as the text has numbers and operators. -/
theorem length_nodes_of_derives (h : Derives symbol kinds tree levels) :
    tree.nodes.length = kinds.countP Token.Kind.isNode := by
  rw [List.countP_eq_length_filter, filter_isNode h, Expr.length_inorder]

/-- The numbers of a tree are written in their order. -/
theorem numbers_of_derives (h : Derives symbol kinds tree levels) :
    tree.numbers = kinds.filterMap Token.Kind.number? := by
  rw [← Expr.filterMap_inorder, ← filter_isNode h, Token.Kind.filterMap_number?_filter]

/-- An operation is written with its operator. -/
theorem token_mem_of_derives (h : Derives symbol kinds tree levels) {op : Operator}
    {left right : Expr} (hnode : .binary op left right ∈ tree.nodes) : op.token ∈ kinds := by
  have hmem := Expr.token_mem_inorder hnode
  rw [← filter_isNode h] at hmem
  exact (List.mem_filter.1 hmem).1

end Grammar

end Calculator
