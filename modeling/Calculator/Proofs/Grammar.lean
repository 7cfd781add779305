import Calculator.Expr

/-!
# The grammar of expressions

The grammar is given as a relation between a list of token kinds, the tree that
the list writes, and the nesting of its derivation:

```text
expression := term | expression ('+' | '-') term
term       := factor | term ('*' | '/') factor
factor     := '-' factor | primary
primary    := NUMBER | '(' expression ')'
```

A chain is a first member followed by any number of operators with a further
member each; it is grouped to the left, which is why the rules for chains recur
on the left.  A group leaves no node.  A number has nesting 0, a unary minus
and a group add 1 to the nesting of what they contain, and a chain has the
greatest nesting of its members.

No limit, no position and no lexeme occurs here.
-/

namespace Calculator

/-- A token of a given kind that comes from no text. -/
def Token.bare (kind : Token.Kind) : Token :=
  ⟨kind, [], 0⟩

@[simp] theorem Token.kind_bare (kind : Token.Kind) : (bare kind).kind = kind := rfl

theorem Token.map_kind_map_bare (kinds : List Token.Kind) :
    (kinds.map Token.bare).map Token.kind = kinds := by
  rw [List.map_map]
  exact List.map_id kinds

/-- The kind of token that writes an operator. -/
def Operator.token : Operator → Token.Kind
  | add => .plus
  | sub => .minus
  | mul => .star
  | div => .slash

theorem Operator.token_injective {op op' : Operator} (h : op.token = op'.token) : op = op' := by
  cases op <;> cases op' <;> first | rfl | cases h

theorem Operator.ofToken?_eq_some_iff (kind : Token.Kind) (op : Operator) :
    Operator.ofToken? kind = some op ↔ kind = op.token := by
  cases kind <;> cases op <;> simp [Operator.ofToken?, Operator.token]

theorem Operator.isAdditive_iff {op : Operator} : op.isAdditive = true ↔ op = .add ∨ op = .sub := by
  cases op <;> simp [isAdditive]

theorem Operator.not_isAdditive_iff {op : Operator} :
    op.isAdditive = false ↔ op = .mul ∨ op = .div := by
  cases op <;> simp [isAdditive]

/-- An operator joins the members of a sum or those of a product. -/
theorem Operator.sum_or_product (op : Operator) :
    (op = .add ∨ op = .sub) ∨ op = .mul ∨ op = .div := by
  cases op <;> simp

theorem Operator.not_product_of_sum {op : Operator} (hsum : op = .add ∨ op = .sub) :
    ¬ (op = .mul ∨ op = .div) := by
  rcases hsum with rfl | rfl <;> simp

namespace Grammar

/-- What a rule of the grammar is about. -/
inductive Symbol where
  | expression
  | term
  | factor
  | primary
deriving DecidableEq

/-- `Derives symbol kinds tree levels`: the list `kinds` can be derived from
`symbol`, the tree of the derivation is `tree` and its nesting is `levels`. -/
inductive Derives : Symbol → List Token.Kind → Expr → Nat → Prop
  | expression_term {kinds : List Token.Kind} {tree : Expr} {levels : Nat}
      (hterm : Derives .term kinds tree levels) :
      Derives .expression kinds tree levels
  | expression_chain {op : Operator} {kinds kinds' : List Token.Kind} {left right : Expr}
      {levels levels' : Nat} (hop : op = .add ∨ op = .sub)
      (hleft : Derives .expression kinds left levels)
      (hright : Derives .term kinds' right levels') :
      Derives .expression (kinds ++ op.token :: kinds') (.binary op left right)
        (max levels levels')
  | term_factor {kinds : List Token.Kind} {tree : Expr} {levels : Nat}
      (hfactor : Derives .factor kinds tree levels) :
      Derives .term kinds tree levels
  | term_chain {op : Operator} {kinds kinds' : List Token.Kind} {left right : Expr}
      {levels levels' : Nat} (hop : op = .mul ∨ op = .div)
      (hleft : Derives .term kinds left levels)
      (hright : Derives .factor kinds' right levels') :
      Derives .term (kinds ++ op.token :: kinds') (.binary op left right)
        (max levels levels')
  | factor_neg {kinds : List Token.Kind} {tree : Expr} {levels : Nat}
      (hfactor : Derives .factor kinds tree levels) :
      Derives .factor (.minus :: kinds) (.neg tree) (levels + 1)
  | factor_primary {kinds : List Token.Kind} {tree : Expr} {levels : Nat}
      (hprimary : Derives .primary kinds tree levels) :
      Derives .factor kinds tree levels
  | primary_number (value : Float) :
      Derives .primary [.number value] (.number value) 0
  | primary_group {kinds : List Token.Kind} {tree : Expr} {levels : Nat}
      (hexpression : Derives .expression kinds tree levels) :
      Derives .primary (.opening :: kinds ++ [.closing]) tree (levels + 1)

theorem derives_ne_nil {symbol : Symbol} {kinds : List Token.Kind} {tree : Expr} {levels : Nat}
    (h : Derives symbol kinds tree levels) : kinds ≠ [] := by
  induction h with
  | expression_term _ ih | term_factor _ ih | factor_primary _ ih => exact ih
  | _ => simp

/-- Whether a list of kinds can be derived from a symbol at all. -/
def Is (symbol : Symbol) (kinds : List Token.Kind) : Prop :=
  ∃ tree levels, Derives symbol kinds tree levels

end Grammar

end Calculator
