import Mathlib.Data.List.Count
import Calculator.Proofs.Grammar.Inorder
import Calculator.Proofs.Phrase

/-!
# The limits bound the tree

The evaluator goes down the tree by recursion.  How far it goes is bounded by the
limits (`tree_bounded_by_limits`): the length of the text bounds the number of nodes,
and the levels bound how often a path from the root to a leaf goes through a unary
minus or into a right operand.

The right operand of a sum is a product and the right operand of a product is an
operand, so that a path turns right at most twice before it enters a group
(`Symbol.turns`).  Left operands are chains again, of any length: a sum of ones turns
left as often as it has members (`exists_writes_replicate_left`).
-/

namespace Calculator

open Grammar (Derives Writes)

/-! ## Paths -/

namespace Expr

/-- How a path goes on from a node to a node below it. -/
inductive Turn where
  /-- From a unary minus to its operand. -/
  | operand
  /-- From an operation to its left operand. -/
  | left
  /-- From an operation to its right operand. -/
  | right
deriving DecidableEq

/-- The paths from the root of a tree to its leaves. -/
def paths : Expr → List (List Turn)
  | number _ => [[]]
  | neg operand => operand.paths.map (.operand :: ·)
  | binary _ left right => left.paths.map (.left :: ·) ++ right.paths.map (.right :: ·)

variable {P : List Turn → Prop}

theorem forall_paths_neg {operand : Expr} :
    (∀ path ∈ (neg operand).paths, P path) ↔ ∀ path ∈ operand.paths, P (.operand :: path) := by
  simp [paths]

theorem forall_paths_binary {op : Operator} {left right : Expr} :
    (∀ path ∈ (binary op left right).paths, P path) ↔
      (∀ path ∈ left.paths, P (.left :: path)) ∧ ∀ path ∈ right.paths, P (.right :: path) := by
  simp [paths, or_imp, forall_and]

end Expr

/-! ## Bounds by the levels -/

namespace Grammar

/-- How often a path turns right within a phrase before it enters a group or a unary minus. -/
def Symbol.turns : Symbol → Nat
  | expression => 2
  | term => 1
  | factor | primary => 0

variable {symbol : Symbol} {kinds : List Token.Kind} {tree : Expr} {levels : Nat}

/-- Every unary minus on a path opens a level. -/
theorem count_operand_le (h : Derives symbol kinds tree levels) :
    ∀ path ∈ tree.paths, path.count .operand ≤ levels := by
  induction h with
  | expression_term _ ih | term_factor _ ih | factor_primary _ ih => exact ih
  | expression_chain _ _ _ ihleft ihright | term_chain _ _ _ ihleft ihright =>
      rw [Expr.forall_paths_binary]
      constructor
      · intro path hpath
        rw [List.count_cons_of_ne (by decide)]
        exact (ihleft path hpath).trans (Nat.le_max_left ..)
      · intro path hpath
        rw [List.count_cons_of_ne (by decide)]
        exact (ihright path hpath).trans (Nat.le_max_right ..)
  | factor_neg _ ih =>
      rw [Expr.forall_paths_neg]
      intro path hpath
      rw [List.count_cons_self]
      exact Nat.succ_le_succ (ih path hpath)
  | primary_number x => simp [Expr.paths]
  | primary_group _ ih => exact fun path hpath => (ih path hpath).trans (Nat.le_succ _)

/-- A path turns right at most twice in each level, and outside of them as often as the phrase
allows. -/
theorem count_right_le (h : Derives symbol kinds tree levels) :
    ∀ path ∈ tree.paths, path.count .right ≤ 2 * levels + symbol.turns := by
  induction h with
  | expression_term _ ih | term_factor _ ih =>
      exact fun path hpath => (ih path hpath).trans (Nat.add_le_add_left (by decide) _)
  | factor_primary _ ih => exact ih
  | @expression_chain _ _ _ _ _ levels levels' _ _ _ ihleft ihright
  | @term_chain _ _ _ _ _ levels levels' _ _ _ ihleft ihright =>
      have hleft := Nat.le_max_left levels levels'
      have hright := Nat.le_max_right levels levels'
      rw [Expr.forall_paths_binary]
      constructor
      · intro path hpath
        have := ihleft path hpath
        rw [List.count_cons_of_ne (by decide)]
        omega
      · intro path hpath
        have := ihright path hpath
        rw [List.count_cons_self]
        simp only [Symbol.turns] at *
        omega
  | factor_neg _ ih =>
      rw [Expr.forall_paths_neg]
      intro path hpath
      have := ih path hpath
      rw [List.count_cons_of_ne (by decide)]
      omega
  | primary_number x => simp [Expr.paths]
  | primary_group _ ih => exact ih

end Grammar

/-! ## Bounds by the length -/

namespace Token

/-- Each token has a character of its own that is no blank. -/
theorem Tiles.length_le {start : Nat} {text : List Char} {tokens : List Token}
    (h : Tiles start text tokens) : tokens.length ≤ (Text.dropBlanks text).length := by
  induction h with
  | nil => exact Nat.zero_le _
  | blank hblank hrest ih => rwa [Text.dropBlanks_cons_of_blank hblank]
  | token htoken hrest ih =>
      obtain ⟨c, more, hlexeme, hc⟩ := htoken.exists_cons
      rw [hlexeme, List.cons_append, Text.dropBlanks_cons hc, Text.dropBlanks_append,
        List.length_cons, List.length_cons, List.length_append]
      omega

end Token

/-! ## Left operands -/

/-- A sum of ones has a path that turns left at every plus. -/
theorem exists_writes_replicate_left (n : Nat) :
    ∃ text tree, Writes .expression text tree 0 ∧ List.replicate n .left ∈ tree.paths := by
  have hone : Numeral.read? ['1'] = some ⟨['1'], []⟩ := by decide
  have hnumber := Writes.number hone
  induction n with
  | zero => exact ⟨_, _, hnumber.of_primary .expression, List.mem_singleton_self _⟩
  | succ n ih =>
      obtain ⟨text, tree, hwrites, hpath⟩ := ih
      exact ⟨_, _, .sum (.inl rfl) hwrites (hnumber.of_primary .term),
        List.mem_append_left _ (List.mem_map_of_mem hpath)⟩

/-! ## Trees that are read from a text -/

section Read

variable {maxDepth : Nat} {source : String} {tree : Expr}

theorem length_nodes_of_read (hread : Expr.read maxDepth source = .ok tree) :
    ∃ tokens, Token.screenAndScan source.toList = .ok tokens ∧
      tree.nodes.length = tokens.countP fun token => token.kind.isNode := by
  obtain ⟨levels, -, _, ⟨tokens, htiles, rfl⟩, hderives⟩ := (Expr.read_eq_ok_iff ..).1 hread
  refine ⟨tokens, Token.screenAndScan_of_tiles htiles, ?_⟩
  rw [Grammar.length_nodes_of_derives hderives, List.countP_map]
  rfl

theorem length_nodes_le_of_read (hread : Expr.read maxDepth source = .ok tree) :
    tree.nodes.length ≤ (Text.dropBlanks source.toList).length := by
  obtain ⟨tokens, hscan, hnodes⟩ := length_nodes_of_read hread
  rw [hnodes]
  exact List.countP_le_length.trans (Token.tiles_of_screenAndScan hscan).length_le

theorem count_le_of_read (hread : Expr.read maxDepth source = .ok tree) :
    ∀ path ∈ tree.paths,
      path.count .operand ≤ maxDepth ∧ path.count .right ≤ 2 * (maxDepth + 1) := by
  obtain ⟨levels, hlevels, kinds, -, hderives⟩ := (Expr.read_eq_ok_iff ..).1 hread
  intro path hpath
  have hright := Grammar.count_right_le hderives path hpath
  rw [Grammar.Symbol.turns] at hright
  exact ⟨(Grammar.count_operand_le hderives path hpath).trans hlevels, by omega⟩

end Read

/-- The limits bound the tree that is evaluated.  It has a node for each number and each operator of
the text, so that its nodes are at most as many as the characters that are no blanks.  A path from
its root to a leaf goes through a unary minus at most once in each level and into a right operand at
most twice in each level and outside of all levels; into left operands it may go any number of
times, whatever the levels. -/
theorem tree_bounded_by_limits :
    (∀ (limits : Limits) (source : String) (tree : Expr), source.length ≤ limits.length →
      Expr.read limits.depth source = .ok tree →
      evaluate limits source = tree.value ∧
        (∃ tokens, Token.screenAndScan source.toList = .ok tokens ∧
          tree.nodes.length = tokens.countP fun token => token.kind.isNode) ∧
        tree.nodes.length ≤ (Text.dropBlanks source.toList).length ∧
        tree.nodes.length ≤ limits.length ∧
        ∀ path ∈ tree.paths, path.count .operand ≤ limits.depth ∧
          path.count .right ≤ 2 * (limits.depth + 1)) ∧
    ∀ depth n, ∃ source tree, Expr.read depth source = .ok tree ∧
      List.replicate n .left ∈ tree.paths := by
  constructor
  · intro limits source tree hlength hread
    have hvalue : evaluate limits source = tree.value := by
      rw [evaluate, if_neg (Nat.not_lt.2 hlength), hread]
    have hnodes := length_nodes_le_of_read hread
    have hlimit : tree.nodes.length ≤ limits.length := by
      calc tree.nodes.length ≤ (Text.dropBlanks source.toList).length := hnodes
        _ ≤ source.toList.length := Text.length_dropBlanks_le _
        _ = source.length := String.length_toList
        _ ≤ limits.length := hlength
    exact ⟨hvalue, length_nodes_of_read hread, hnodes, hlimit, count_le_of_read hread⟩
  · intro depth n
    obtain ⟨text, tree, hwrites, hpath⟩ := exists_writes_replicate_left n
    refine ⟨String.ofList text, tree, ?_, hpath⟩
    rw [Expr.read_eq_ok_iff]
    exact ⟨0, Nat.zero_le _, by rwa [String.toList_ofList]⟩

theorem tree_bounded_by_limits_nested :
    "3 * -(1 + 2)".length ≤ 12 ∧
    Expr.read 2 "3 * -(1 + 2)" =
      .ok (.binary .mul (.number 3) (.neg (.binary .add (.number 1) (.number 2)))) ∧
    (Expr.binary .mul (.number 3) (.neg (.binary .add (.number 1) (.number 2)))).nodes.length ≤
      (Text.dropBlanks "3 * -(1 + 2)".toList).length ∧
    [Expr.Turn.right, .operand, .right].count .right ≤ 2 * (2 + 1) := by
  have hread : Expr.read 2 "3 * -(1 + 2)" =
      .ok (.binary .mul (.number 3) (.neg (.binary .add (.number 1) (.number 2)))) := by
    decide +kernel
  obtain ⟨-, -, hnodes, -, hpaths⟩ :=
    tree_bounded_by_limits.1 ⟨12, 2⟩ "3 * -(1 + 2)" _ (by decide) hread
  exact ⟨by decide, hread, hnodes, (hpaths _ (by simp [Expr.paths])).2⟩

end Calculator
