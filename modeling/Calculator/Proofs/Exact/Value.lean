import Mathlib
import Calculator.Proofs.Composition
import Calculator.Proofs.Exact.Operations

/-!
# Trees without rounding errors

`Expr.exact` is the value of a tree under exact arithmetic.  Where the exact value of
every node is that of a finite double, the evaluator rounds nothing and refuses nothing
(`Expr.value_of_representable`); and a division whose exact divisor is zero is found
out if only such nodes come before it (`Expr.value_of_exact_zero`).
-/

namespace Calculator

open Binary64 (rational rational_eq_of_alike rational_eq_zero_iff)

namespace Expr

/-- The exact value of a tree; none if a number is not finite or a divisor is zero. -/
def exact : Expr → Option ℚ
  | number x => if x.isFinite then some (rational x) else none
  | neg operand => operand.exact.map fun q => -q
  | binary op left right =>
      left.exact.bind fun q => right.exact.bind fun r => op.exactResult? q r

/-- Whether the exact value of a node is the number of a finite double. -/
def Representable (node : Expr) : Prop :=
  ∃ x : Float, x.isFinite = true ∧ node.exact = some (rational x)

/-! ## Nodes -/

theorem self_mem_nodes (tree : Expr) : tree ∈ tree.nodes := by
  cases tree <;> simp [nodes]

/-- A place in a list with one more element is the last one or a place in the list. -/
theorem eq_or_exists_of_concat {α : Type} {front before after : List α} {last x : α}
    (h : front ++ [last] = before ++ x :: after) :
    (front = before ∧ last = x) ∨ ∃ rest, front = before ++ x :: rest := by
  rcases List.eq_nil_or_concat after with rfl | ⟨rest, _, rfl⟩
  · obtain ⟨rfl, hlast⟩ := List.append_inj' h rfl
    exact .inl ⟨rfl, List.singleton_inj.1 hlast⟩
  · rw [List.concat_eq_append, ← List.cons_append, ← List.append_assoc] at h
    exact .inr ⟨rest, (List.append_inj' h rfl).1⟩

/-- A place in two lists is a place in the first or in the second. -/
theorem exists_or_exists_of_append {α : Type} {front rear before after : List α} {x : α}
    (h : front ++ rear = before ++ x :: after) :
    (∃ rest, front = before ++ x :: rest) ∨
      ∃ rest, before = front ++ rest ∧ rear = rest ++ x :: after := by
  rcases List.append_eq_append_iff.1 h with ⟨rest, hbefore, hrear⟩ | ⟨rest, hfront, hrest⟩
  · exact .inr ⟨rest, hbefore, hrear⟩
  · cases rest with
    | nil =>
        rw [List.append_nil] at hfront
        exact .inr ⟨[], by rw [List.append_nil, hfront], hrest.symm⟩
    | cons y rest =>
        obtain ⟨rfl, -⟩ := List.cons.inj hrest
        exact .inl ⟨rest, hfront⟩

/-- In post-order the nodes below a node stand right before it. -/
theorem nodes_isSuffix {tree node : Expr} {before after : List Expr}
    (h : tree.nodes = before ++ node :: after) : node.nodes <:+ before ++ [node] := by
  -- the last node is the tree itself, and any other is a node of an operand
  induction tree generalizing before after with
  | number x =>
      rcases @eq_or_exists_of_concat _ [] _ _ _ _ h with ⟨rfl, rfl⟩ | ⟨rest, hrest⟩
      · exact List.suffix_refl _
      · simp at hrest
  | neg operand ih =>
      rcases eq_or_exists_of_concat h with ⟨rfl, rfl⟩ | ⟨rest, hrest⟩
      · exact List.suffix_refl _
      · exact ih hrest
  | binary op left right ihleft ihright =>
      rcases eq_or_exists_of_concat h with ⟨rfl, rfl⟩ | ⟨rest, hrest⟩
      · exact List.suffix_refl _
      · rcases exists_or_exists_of_append hrest with ⟨rest', hleft⟩ | ⟨rest', rfl, hright⟩
        · exact ihleft hleft
        · rw [List.append_assoc]
          exact (ihright hright).trans (List.suffix_append ..)

theorem nodes_subset {tree node : Expr} (h : node ∈ tree.nodes) : node.nodes ⊆ tree.nodes := by
  obtain ⟨before, after, hnodes⟩ := List.append_of_mem h
  intro sub hsub
  have hmem := (nodes_isSuffix hnodes).subset hsub
  rw [hnodes]
  simp only [List.mem_append, List.mem_cons, List.not_mem_nil, or_false] at hmem ⊢
  tauto

theorem operand_subset (operand : Expr) : operand.nodes ⊆ (neg operand).nodes :=
  List.subset_append_left ..

theorem left_subset (op : Operator) (left right : Expr) :
    left.nodes ⊆ (binary op left right).nodes :=
  fun _ hnode => List.mem_append_left _ (List.mem_append_left _ hnode)

theorem right_subset (op : Operator) (left right : Expr) :
    right.nodes ⊆ (binary op left right).nodes :=
  fun _ hnode => List.mem_append_left _ (List.mem_append_right _ hnode)

/-! ## Exact values -/

theorem exact_neg_eq_some {operand : Expr} {p : ℚ} (h : (neg operand).exact = some p) :
    ∃ q, operand.exact = some q ∧ -q = p :=
  Option.map_eq_some_iff.1 h

theorem exact_binary_eq_some {op : Operator} {left right : Expr} {p : ℚ}
    (h : (binary op left right).exact = some p) :
    ∃ q r, left.exact = some q ∧ right.exact = some r ∧ op.exactResult? q r = some p := by
  obtain ⟨q, hleft, h⟩ := Option.bind_eq_some_iff.1 h
  obtain ⟨r, hright, h⟩ := Option.bind_eq_some_iff.1 h
  exact ⟨q, r, hleft, hright, h⟩

theorem Representable.exists_of_exact {node : Expr} {q : ℚ} (h : node.Representable)
    (hq : node.exact = some q) : ∃ x : Float, x.isFinite = true ∧ rational x = q := by
  obtain ⟨x, hx, hexact⟩ := h
  exact ⟨x, hx, Option.some.inj (hexact.symm.trans hq)⟩

/-- If all exact values are numbers of doubles, IEEE arithmetic comes to these doubles. -/
theorem alike_ideal_of_exact {tree : Expr} (h : ∀ node ∈ tree.nodes, node.Representable) {z : Float}
    (hz : z.isFinite = true) (hexact : tree.exact = some (rational z)) : Alike tree.ideal z := by
  induction tree generalizing z with
  | number x =>
      rw [exact] at hexact
      split at hexact
      · next hx => exact alike_of_rational_eq hx hz (Option.some.inj hexact)
      · cases hexact
  | neg operand ih =>
      have hoperand : ∀ node ∈ operand.nodes, node.Representable :=
        fun node hnode => h node (operand_subset operand hnode)
      obtain ⟨q, hq, hneg⟩ := exact_neg_eq_some hexact
      obtain ⟨y, hy, rfl⟩ := (hoperand operand operand.self_mem_nodes).exists_of_exact hq
      exact (ih hoperand hy hq).neg.trans (alike_neg_of_exact hy hz hneg)
  | binary op left right ihleft ihright =>
      have hleft : ∀ node ∈ left.nodes, node.Representable :=
        fun node hnode => h node (left_subset op left right hnode)
      have hright : ∀ node ∈ right.nodes, node.Representable :=
        fun node hnode => h node (right_subset op left right hnode)
      obtain ⟨q, r, hq, hr, hresult⟩ := exact_binary_eq_some hexact
      obtain ⟨x, hx, rfl⟩ := (hleft left left.self_mem_nodes).exists_of_exact hq
      obtain ⟨y, hy, rfl⟩ := (hright right right.self_mem_nodes).exists_of_exact hr
      have halike := ihright hright hy hr
      have hdivisor : op = .div → isZero right.ideal = false := by
        rintro rfl
        rw [halike.isZero_eq, ← Bool.not_eq_true, ← rational_eq_zero_iff hy]
        exact Operator.ne_zero_of_exactResult? hresult
      -- first from the operands' ideal values to the doubles, then to the double of the result
      exact (op.alike_ideal (ihleft hleft hx hq) halike hdivisor).trans
        (op.alike_ideal_of_exact hx hy hz hresult)

theorem exact_eq_ideal {tree : Expr} (h : ∀ node ∈ tree.nodes, node.Representable) :
    tree.ideal.isFinite = true ∧ tree.exact = some (rational tree.ideal) := by
  obtain ⟨z, hz, hexact⟩ := h tree tree.self_mem_nodes
  have halike := alike_ideal_of_exact h hz hexact
  rw [halike.isFinite_eq, rational_eq_of_alike halike]
  exact ⟨hz, hexact⟩

/-! ## What the evaluator makes of them -/

theorem dividesByZero_of_exact {left right : Expr} {r : ℚ}
    (hright : ∀ node ∈ right.nodes, node.Representable) (hr : right.exact = some r) :
    (binary .div left right).dividesByZero = true ↔ r = 0 := by
  obtain ⟨hfinite, hexact⟩ := exact_eq_ideal hright
  obtain rfl := Option.some.inj (hexact.symm.trans hr)
  rw [rational_eq_zero_iff hfinite]
  rfl

theorem isSound_of_representable {node : Expr} (h : ∀ sub ∈ node.nodes, sub.Representable) :
    node.isSound = true := by
  obtain ⟨hfinite, hexact⟩ := exact_eq_ideal h
  have hdivides : node.dividesByZero = false := by
    cases node with
    | number | neg => rfl
    | binary op left right =>
        cases op with
        | add | sub | mul => rfl
        | div =>
            obtain ⟨q, r, -, hr, hresult⟩ := exact_binary_eq_some hexact
            have hright : ∀ node ∈ right.nodes, node.Representable :=
              fun node hnode => h node (right_subset .div left right hnode)
            rw [← Bool.not_eq_true, dividesByZero_of_exact hright hr]
            exact Operator.ne_zero_of_exactResult? hresult
  rw [isSound, hdivides, hfinite]
  rfl

/-- Nothing is rounded and nothing refused where every node has the number of a double. -/
theorem value_of_representable {tree : Expr} (h : ∀ node ∈ tree.nodes, node.Representable) :
    ∃ x, tree.value = .ok x ∧ tree.exact = some (rational x) := by
  obtain ⟨-, hexact⟩ := exact_eq_ideal h
  refine ⟨tree.ideal, (tree.value_eq_ok_iff _).2 ⟨fun node hnode => ?_, rfl⟩, hexact⟩
  exact isSound_of_representable fun sub hsub => h sub (nodes_subset hnode hsub)

/-- The first division by an exact zero is found out if all nodes before it have numbers of
doubles. -/
theorem value_of_exact_zero {tree left right : Expr} {before after : List Expr}
    (hnodes : tree.nodes = before ++ binary .div left right :: after)
    (hbefore : ∀ node ∈ before, node.Representable) (hzero : right.exact = some 0) :
    tree.value = .error .divisionByZero := by
  have hsound : ∀ node ∈ before, node.isSound = true := by
    intro node hnode
    obtain ⟨front, rest, rfl⟩ := List.append_of_mem hnode
    rw [List.append_assoc, List.cons_append] at hnodes
    refine isSound_of_representable fun sub hsub => hbefore sub ?_
    have hmem := (nodes_isSuffix hnodes).subset hsub
    simp only [List.mem_append, List.mem_cons, List.not_mem_nil, or_false] at hmem ⊢
    tauto
  -- the nodes of the divisor come before the division
  have hright : ∀ node ∈ right.nodes, node.Representable := by
    intro node hnode
    obtain ⟨front, hfront⟩ := nodes_isSuffix hnodes
    rw [nodes, ← List.append_assoc] at hfront
    obtain ⟨rfl, -⟩ := List.append_inj' hfront rfl
    exact hbefore node (by simp [hnode])
  have hdivides := (@dividesByZero_of_exact left right 0 hright hzero).2 rfl
  refine (tree.value_eq_error_iff _).2 ⟨before, _, after, hnodes, hsound, ?_, ?_⟩
  · rw [isSound, hdivides]
    rfl
  · rw [fault, if_pos hdivides]

end Expr

end Calculator
