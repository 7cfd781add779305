import Mathlib
import Calculator.Proofs.Exact.Value
import Calculator.Proofs.Exact.WholeNumbers
import Calculator.Proofs.Phrase

/-!
# Evaluation without rounding errors

Where exact arithmetic stays among the numbers of doubles, evaluation is exact
(`exact_where_representable`).  So it is for sums, differences and products of whole
numbers that stay within 2⁵³: a text without a dot and without a division has the
value that its digits write.
-/

namespace Calculator

open Binary64 (exists_rational_eq isFinite_ofWhole ofWhole rational rational_ofWhole)
open Text (wholeNumbers)

/-! ## Arithmetic on whole numbers -/

namespace Expr

/-- Without a division, whole numbers come to a whole number. -/
theorem exists_exact_eq {tree : Expr}
    (hnumbers : ∀ x, number x ∈ tree.nodes → x.isFinite = true ∧ ∃ z : ℤ, rational x = z)
    (hdiv : ∀ left right, binary .div left right ∉ tree.nodes) :
    ∃ z : ℤ, tree.exact = some (z : ℚ) := by
  induction tree with
  | number x =>
      obtain ⟨hfinite, z, hz⟩ := hnumbers x (self_mem_nodes _)
      exact ⟨z, by rw [exact, if_pos hfinite, hz]⟩
  | neg operand ih =>
      have hsub := operand_subset operand
      obtain ⟨z, hz⟩ := ih (fun x hx => hnumbers x (hsub hx)) fun l r hlr => hdiv l r (hsub hlr)
      exact ⟨-z, by rw [exact, hz, Int.cast_neg]; rfl⟩
  | binary op left right ihleft ihright =>
      have hsub := left_subset op left right
      have hsub' := right_subset op left right
      obtain ⟨y, hy⟩ := ihleft (fun x hx => hnumbers x (hsub hx))
        fun l r hlr => hdiv l r (hsub hlr)
      obtain ⟨z, hz⟩ := ihright (fun x hx => hnumbers x (hsub' hx))
        fun l r hlr => hdiv l r (hsub' hlr)
      have hresult : (binary op left right).exact = op.exactResult? y z := by
        rw [exact, hy, hz]
        rfl
      rw [hresult]
      cases op with
      | add => exact ⟨y + z, congrArg some (Int.cast_add y z).symm⟩
      | sub => exact ⟨y - z, congrArg some (Int.cast_sub y z).symm⟩
      | mul => exact ⟨y * z, congrArg some (Int.cast_mul y z).symm⟩
      | div => exact absurd (self_mem_nodes _) (hdiv left right)

/-- Within 2⁵³ all whole numbers are those of doubles. -/
theorem representable_of_whole {tree : Expr}
    (hnumbers : ∀ x, number x ∈ tree.nodes → x.isFinite = true ∧ ∃ z : ℤ, rational x = z)
    (hdiv : ∀ left right, binary .div left right ∉ tree.nodes)
    (hbound : ∀ node ∈ tree.nodes, ∀ q, node.exact = some q → |q| ≤ 2 ^ 53) :
    ∀ node ∈ tree.nodes, node.Representable := by
  intro node hnode
  have hsub := nodes_subset hnode
  obtain ⟨z, hz⟩ := exists_exact_eq (fun x hx => hnumbers x (hsub hx))
    fun l r hlr => hdiv l r (hsub hlr)
  have hle : |z| ≤ 2 ^ 53 := by exact_mod_cast hbound node hnode z hz
  obtain ⟨x, hx, hrational⟩ := exists_rational_eq hle
  exact ⟨x, hx, by rw [hz, hrational]⟩

end Expr

section Read

variable {limits : Limits} {source : String} {tree : Expr}

/-- Without a dot, the numbers of the tree are the whole numbers of the text. -/
theorem numbers_of_read (hread : Expr.read limits.depth source = .ok tree)
    (hdot : '.' ∉ source.toList) : tree.numbers = (wholeNumbers source.toList).map ofWhole := by
  obtain ⟨levels, -, kinds, ⟨tokens, htiles, rfl⟩, hderives⟩ := (Expr.read_eq_ok_iff ..).1 hread
  rw [Grammar.numbers_of_derives hderives, Token.numbers_of_tiles htiles hdot]

theorem div_not_mem_of_read (hread : Expr.read limits.depth source = .ok tree)
    (hslash : '/' ∉ source.toList) (left right : Expr) : .binary .div left right ∉ tree.nodes := by
  obtain ⟨levels, -, kinds, ⟨tokens, htiles, rfl⟩, hderives⟩ := (Expr.read_eq_ok_iff ..).1 hread
  intro hnode
  obtain ⟨token, htoken, hkind⟩ := List.mem_map.1 (Grammar.token_mem_of_derives hderives hnode)
  have hsymbol : Token.Kind.ofSymbol? '/' = some token.kind := by
    rw [hkind]
    rfl
  exact hslash (List.mem_of_getElem? (htiles.getElem?_of_kind htoken hsymbol))

/-- A text of whole numbers without a division has its exact value, if all its numbers and all the
values on the way are at most 2⁵³. -/
theorem evaluate_of_whole (hlength : source.length ≤ limits.length)
    (hread : Expr.read limits.depth source = .ok tree) (hdot : '.' ∉ source.toList)
    (hslash : '/' ∉ source.toList) (hnumbers : ∀ n ∈ wholeNumbers source.toList, n ≤ 2 ^ 53)
    (hbound : ∀ node ∈ tree.nodes, ∀ q, node.exact = some q → |q| ≤ 2 ^ 53) :
    tree.numbers.map rational = (wholeNumbers source.toList).map Nat.cast ∧
      ∃ (x : Float) (z : ℤ), evaluate limits source = .ok x ∧ tree.exact = some (z : ℚ) ∧
        rational x = z := by
  have hwhole := numbers_of_read hread hdot
  have hdiv := div_not_mem_of_read hread hslash
  have hleaves : ∀ x, .number x ∈ tree.nodes → x.isFinite = true ∧ ∃ z : ℤ, rational x = z := by
    intro x hx
    rw [← Expr.mem_numbers, hwhole] at hx
    obtain ⟨n, hn, rfl⟩ := List.mem_map.1 hx
    have hle := hnumbers n hn
    exact ⟨isFinite_ofWhole hle, n, (rational_ofWhole hle).trans (Int.cast_natCast n).symm⟩
  obtain ⟨x, hvalue, hexact⟩ :=
    Expr.value_of_representable (Expr.representable_of_whole hleaves hdiv hbound)
  obtain ⟨z, hz⟩ := Expr.exists_exact_eq hleaves hdiv
  refine ⟨?_, x, z, ?_, hz, Option.some.inj (hexact.symm.trans hz)⟩
  · rw [hwhole, List.map_map]
    exact List.map_congr_left fun n hn => rational_ofWhole (hnumbers n hn)
  · rw [evaluate, if_neg (Nat.not_lt.2 hlength), hread]
    exact hvalue

end Read

/-- Evaluation is exact wherever doubles can be.  If the exact value of every node is the number of
a finite double, the value of the tree is its exact value; if it is so for the nodes before a
division with the exact divisor zero, the division by zero is found out; and whole numbers up to 2⁵³
are added, subtracted and multiplied without a rounding error. -/
theorem exact_where_representable :
    (∀ tree : Expr, (∀ node ∈ tree.nodes, node.Representable) →
      ∃ x, tree.value = .ok x ∧ tree.exact = some (rational x)) ∧
    (∀ (tree left right : Expr) (before after : List Expr),
      tree.nodes = before ++ .binary .div left right :: after →
      (∀ node ∈ before, node.Representable) → right.exact = some 0 →
      tree.value = .error .divisionByZero) ∧
    (∀ (limits : Limits) (source : String) (tree : Expr), source.length ≤ limits.length →
      Expr.read limits.depth source = .ok tree → '.' ∉ source.toList → '/' ∉ source.toList →
      (∀ n ∈ wholeNumbers source.toList, n ≤ 2 ^ 53) →
      (∀ node ∈ tree.nodes, ∀ q, node.exact = some q → |q| ≤ 2 ^ 53) →
      tree.numbers.map rational = (wholeNumbers source.toList).map Nat.cast ∧
        ∃ (x : Float) (z : ℤ), evaluate limits source = .ok x ∧ tree.exact = some (z : ℚ) ∧
          rational x = z) := by
  refine ⟨fun tree h => Expr.value_of_representable h, ?_, ?_⟩
  · intro tree left right before after hnodes hbefore hzero
    exact Expr.value_of_exact_zero hnodes hbefore hzero
  · intro limits source tree hlength hread hdot hslash hnumbers hbound
    exact evaluate_of_whole hlength hread hdot hslash hnumbers hbound

theorem exact_where_representable_sample :
    (∃ x, (Expr.binary .div (.number 1) (.number 4)).value = .ok x ∧
      (Expr.binary .div (.number 1) (.number 4)).exact = some (rational x)) ∧
    (Expr.binary .div (.number 1) (.binary .sub (.number 4) (.number 4))).value =
      .error .divisionByZero ∧
    ∃ (x : Float) (z : ℤ), evaluate {} "2 * 3 - 7" = .ok x ∧ rational x = z := by
  obtain ⟨hvalue, hzero, hwhole⟩ := exact_where_representable
  have hone : (Expr.number 1).Representable := ⟨1, by decide +kernel, by decide +kernel⟩
  have hfour : (Expr.number 4).Representable := ⟨4, by decide +kernel, by decide +kernel⟩
  have hquarter : (Expr.binary .div (.number 1) (.number 4)).Representable :=
    ⟨0.25, by decide +kernel, by decide +kernel⟩
  have hdifference : (Expr.binary .sub (.number 4) (.number 4)).Representable :=
    ⟨0, by decide +kernel, by decide +kernel⟩
  have hread : Expr.read 256 "2 * 3 - 7" =
      .ok (.binary .sub (.binary .mul (.number 2) (.number 3)) (.number 7)) := by decide +kernel
  have hall : ((Expr.binary .sub (.binary .mul (.number 2) (.number 3)) (.number 7)).nodes.all
      fun node => node.exact.all fun q => decide (|q| ≤ 2 ^ 53)) = true := by decide +kernel
  have hbound : ∀ node ∈ (Expr.binary .sub (.binary .mul (.number 2) (.number 3))
      (.number 7)).nodes, ∀ q, node.exact = some q → |q| ≤ 2 ^ 53 := by
    intro node hnode q hq
    have hwithin := List.all_eq_true.1 hall node hnode
    rw [hq, Option.all_some] at hwithin
    exact of_decide_eq_true hwithin
  have hnumbers : ∀ n ∈ wholeNumbers "2 * 3 - 7".toList, n ≤ 2 ^ 53 := by decide +kernel
  refine ⟨hvalue _ ?_, hzero _ (.number 1) (.binary .sub (.number 4) (.number 4))
    [.number 1, .number 4, .number 4, .binary .sub (.number 4) (.number 4)] [] rfl ?_ ?_, ?_⟩
  · exact List.forall_mem_cons.2 ⟨hone, List.forall_mem_cons.2
      ⟨hfour, List.forall_mem_singleton.2 hquarter⟩⟩
  · exact List.forall_mem_cons.2 ⟨hone, List.forall_mem_cons.2 ⟨hfour, List.forall_mem_cons.2
      ⟨hfour, List.forall_mem_singleton.2 hdifference⟩⟩⟩
  · decide +kernel
  · obtain ⟨-, x, z, hx, -, hz⟩ := hwhole {} "2 * 3 - 7" _ (by decide) hread (by decide)
      (by decide) hnumbers hbound
    exact ⟨x, z, hx, hz⟩

end Calculator
