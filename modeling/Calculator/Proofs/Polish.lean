import Calculator.Proofs.Alike
import Calculator.Proofs.Decimal.Distinct
import Calculator.Proofs.Grammar.Inorder
import Calculator.Proofs.Phrase

/-!
# The prefix text of a tree is unambiguous

Two trees with the same prefix text are the same tree, if no number of theirs is a NaN
(`polish_unambiguous`).

A minus is written alike with one operand and with two, and numbers begin with a minus
as well.  What tells them apart is where a text ends: the texts of two trees, with any
text behind them that begins with a space or a closing parenthesis, end at the same
place (`polish_append_inj`).  Then a unary minus is followed by a parenthesis where a
difference is followed by a space.
-/

namespace Calculator

open Binary64 (infinite isNegative ofMagnitude)
open Decimal (isPrinted isPrinted_of_mem_text)
open Text (append_inj_of_head?)

theorem Operator.symbol_injective {op op' : Operator} (h : op.symbol = op'.symbol) : op = op' := by
  cases op <;> cases op' <;> first | rfl | cases h

namespace Expr

/-! ## Trees of one shape -/

/-- Two trees have the same shape and the same operators, and their numbers are related. -/
inductive Corresponds (r : Float → Float → Prop) : Expr → Expr → Prop
  | number {x y : Float} (h : r x y) : Corresponds r (number x) (number y)
  | neg {operand operand' : Expr} (h : Corresponds r operand operand') :
      Corresponds r (neg operand) (neg operand')
  | binary {op : Operator} {left left' right right' : Expr} (hleft : Corresponds r left left')
      (hright : Corresponds r right right') :
      Corresponds r (binary op left right) (binary op left' right')

section Corresponds

variable {r r' : Float → Float → Prop} {e f : Expr}

theorem Corresponds.refl (hr : ∀ x, r x x) (e : Expr) : Corresponds r e e := by
  induction e with
  | number x => exact .number (hr x)
  | neg operand ih => exact .neg ih
  | binary op left right ihleft ihright => exact .binary ihleft ihright

theorem Corresponds.eq (h : Corresponds r e f) (hr : ∀ x y, r x y → x = y) : e = f := by
  induction h with
  | number hxy => rw [hr _ _ hxy]
  | neg _ ih => rw [ih]
  | binary _ _ ihleft ihright => rw [ihleft, ihright]

/-- Only how the numbers are related matters. -/
theorem Corresponds.imp (h : Corresponds r e f)
    (hr : ∀ x ∈ e.numbers, ∀ y ∈ f.numbers, r x y → r' x y) : Corresponds r' e f := by
  induction h with
  | number hxy => exact .number (hr _ (List.mem_singleton_self _) _ (List.mem_singleton_self _) hxy)
  | neg _ ih =>
      rw [numbers_neg, numbers_neg] at hr
      exact .neg (ih hr)
  | binary _ _ ihleft ihright =>
      rw [numbers_binary, numbers_binary] at hr
      refine .binary (ihleft fun x hx y hy => ?_) (ihright fun x hx y hy => ?_)
      · exact hr x (List.mem_append_left _ hx) y (List.mem_append_left _ hy)
      · exact hr x (List.mem_append_right _ hx) y (List.mem_append_right _ hy)

theorem corresponds_toBits_iff : Corresponds (fun x y => x.toBits = y.toBits) e f ↔ e = f := by
  constructor
  · intro h
    refine h.eq fun x y hbits => ?_
    rw [← x.ofBits_toBits, hbits, y.ofBits_toBits]
  · rintro rfl
    refine .refl ?_ e
    exact fun _ => rfl

theorem corresponds_same_iff : Corresponds (fun x y => x == y) e f ↔ e.same f = true := by
  constructor
  · intro h
    induction h with
    | number hxy => exact hxy
    | neg _ ih => exact ih
    | binary _ _ ihleft ihright => simp [same, ihleft, ihright]
  · intro h
    induction e generalizing f with
    | number x =>
        cases f with
        | number y => exact .number h
        | neg | binary => cases h
    | neg operand ih =>
        cases f with
        | neg operand' => exact .neg (ih h)
        | number | binary => cases h
    | binary op left right ihleft ihright =>
        cases f with
        | binary op' left' right' =>
            rw [same, Bool.and_eq_true, Bool.and_eq_true, beq_iff_eq] at h
            obtain ⟨⟨rfl, hleft⟩, hright⟩ := h
            exact .binary (ihleft hleft) (ihright hright)
        | number | neg => cases h

end Corresponds

/-! ## Where the text of a tree ends -/

/-- What may stand behind the text of a tree: nothing, or a mark of the tree around it. -/
def Ends (rest : List Char) : Prop :=
  ∀ c ∈ rest.head?, c = ' ' ∨ c = ')'

theorem ends_nil : Ends [] := by
  simp [Ends]

theorem ends_space (rest : List Char) : Ends (' ' :: rest) := by
  simp [Ends]

theorem ends_closing (rest : List Char) : Ends (')' :: rest) := by
  simp [Ends]

section Readable

variable {rest rest' : List Char}

/-- The text of a number goes on neither with a space nor with a parenthesis. -/
theorem Ends.isPrinted (h : Ends rest) : ∀ c ∈ rest.head?, isPrinted c = false := by
  intro c hc
  rcases h c hc with rfl | rfl <;> decide

/-- The text of a number does not begin with a parenthesis. -/
theorem Ends.text_append_ne (h : Ends rest) (x : Float) :
    (Decimal.text x).toList ++ rest ≠ '(' :: rest' := by
  intro heq
  cases htext : (Decimal.text x).toList with
  | nil =>
      rw [htext, List.nil_append] at heq
      subst heq
      simp [Ends] at h
  | cons c more =>
      rw [htext, List.cons_append, List.cons.injEq] at heq
      have hprinted := isPrinted_of_mem_text x c (by rw [htext]; exact List.mem_cons_self)
      rw [heq.1] at hprinted
      cases hprinted

theorem toList_polish_neg (operand : Expr) (rest : List Char) :
    (neg operand).polish.toList ++ rest =
      '(' :: '-' :: ' ' :: (operand.polish.toList ++ ')' :: rest) := by
  simp [polish]

theorem toList_polish_binary (op : Operator) (left right : Expr) (rest : List Char) :
    (binary op left right).polish.toList ++ rest =
      '(' :: op.symbol :: ' ' ::
        (left.polish.toList ++ ' ' :: (right.polish.toList ++ ')' :: rest)) := by
  simp [polish]

/-- Where two trees have the same text, with something behind each, the texts end at the same
place. -/
theorem polish_append_inj {e f : Expr} (he : ∀ x ∈ e.numbers, x.isNaN = false)
    (hf : ∀ x ∈ f.numbers, x.isNaN = false) (hrest : Ends rest) (hrest' : Ends rest')
    (h : e.polish.toList ++ rest = f.polish.toList ++ rest') : e = f ∧ rest = rest' := by
  -- operand by operand: behind each of them a space or a closing parenthesis follows
  induction e generalizing f rest rest' with
  | number x =>
      cases f with
      | number y =>
          obtain ⟨htext, hrests⟩ := append_inj_of_head? (isPrinted_of_mem_text x)
            (isPrinted_of_mem_text y) hrest.isPrinted hrest'.isPrinted h
          have hx : x.isNaN = false := he x (List.mem_singleton_self x)
          have hy : y.isNaN = false := hf y (List.mem_singleton_self y)
          rw [Decimal.text_inj hx hy (String.toList_inj.1 htext)]
          exact ⟨rfl, hrests⟩
      | neg operand' =>
          rw [toList_polish_neg] at h
          exact absurd h (hrest.text_append_ne x)
      | binary op' left' right' =>
          rw [toList_polish_binary] at h
          exact absurd h (hrest.text_append_ne x)
  | neg operand ih =>
      rw [numbers_neg] at he
      rw [toList_polish_neg] at h
      cases f with
      | number y => exact absurd h.symm (hrest'.text_append_ne y)
      | neg operand' =>
          rw [numbers_neg] at hf
          rw [toList_polish_neg] at h
          simp only [List.cons.injEq, true_and] at h
          obtain ⟨rfl, hrests⟩ := ih he hf (ends_closing _) (ends_closing _) h
          exact ⟨rfl, (List.cons.inj hrests).2⟩
      | binary op' left' right' =>
          -- a difference has a space behind its first operand
          rw [numbers_binary, List.forall_mem_append] at hf
          rw [toList_polish_binary] at h
          simp only [List.cons.injEq, true_and] at h
          obtain ⟨-, hrests⟩ := ih he hf.1 (ends_closing _) (ends_space _) h.2
          cases hrests
  | binary op left right ihleft ihright =>
      rw [numbers_binary, List.forall_mem_append] at he
      rw [toList_polish_binary] at h
      cases f with
      | number y => exact absurd h.symm (hrest'.text_append_ne y)
      | neg operand' =>
          rw [numbers_neg] at hf
          rw [toList_polish_neg] at h
          simp only [List.cons.injEq, true_and] at h
          obtain ⟨-, hrests⟩ := ihleft he.1 hf (ends_space _) (ends_closing _) h.2
          cases hrests
      | binary op' left' right' =>
          rw [numbers_binary, List.forall_mem_append] at hf
          rw [toList_polish_binary] at h
          simp only [List.cons.injEq, true_and] at h
          obtain ⟨hsymbol, hbehind⟩ := h
          obtain rfl := Operator.symbol_injective hsymbol
          obtain ⟨rfl, hrights⟩ := ihleft he.1 hf.1 (ends_space _) (ends_space _) hbehind
          obtain ⟨rfl, hrests⟩ :=
            ihright he.2 hf.2 (ends_closing _) (ends_closing _) (List.cons.inj hrights).2
          exact ⟨rfl, (List.cons.inj hrests).2⟩

theorem polish_inj {e f : Expr} (he : ∀ x ∈ e.numbers, x.isNaN = false)
    (hf : ∀ x ∈ f.numbers, x.isNaN = false) : e.polish = f.polish ↔ e = f := by
  refine ⟨fun h => ?_, congrArg polish⟩
  have hlist : e.polish.toList ++ [] = f.polish.toList ++ [] := by rw [h]
  exact (polish_append_inj he hf ends_nil ends_nil hlist).1

end Readable

end Expr

/-! ## Trees that are read from a text -/

/-- The numbers of a tree that was read are those of numerals, which have no sign. -/
theorem Expr.unsigned_of_read {maxDepth : Nat} {source : String} {tree : Expr}
    (h : Expr.read maxDepth source = .ok tree) :
    ∀ x ∈ tree.numbers, x.isNaN = false ∧ isNegative x = false := by
  obtain ⟨levels, -, kinds, ⟨tokens, htiles, rfl⟩, hderives⟩ := (Expr.read_eq_ok_iff ..).1 h
  intro x hx
  rw [Grammar.numbers_of_derives hderives, List.mem_filterMap] at hx
  obtain ⟨kind, hkind, hnumber⟩ := hx
  obtain ⟨token, htoken, rfl⟩ := List.mem_map.1 hkind
  obtain ⟨before, after, -, -, -, hspells⟩ := htiles.exists_split htoken
  obtain ⟨-, numeral, -, rfl⟩ := hspells.of_number (Token.Kind.number?_eq_some_iff.1 hnumber)
  exact Binary64.unsigned_ofMagnitude (Binary64.nearest_le ..)

/-- The prefix text of a tree determines the tree.  Trees without NaNs have the same text exactly if
they have the same shape, the same operators and numbers with the same bits.  The numbers of trees
that are read from texts are no NaNs and have no sign, and two such trees have the same text exactly
if they are equal as expressions. -/
theorem polish_unambiguous :
    (∀ e f : Expr, (∀ x ∈ e.numbers, x.isNaN = false) → (∀ x ∈ f.numbers, x.isNaN = false) →
      (e.polish = f.polish ↔ Expr.Corresponds (fun x y => x.toBits = y.toBits) e f)) ∧
    (∀ (maxDepth maxDepth' : Nat) (source source' : String) (e f : Expr),
      Expr.read maxDepth source = .ok e → Expr.read maxDepth' source' = .ok f →
      (∀ x ∈ e.numbers ++ f.numbers, x.isNaN = false ∧ isNegative x = false) ∧
        (e.polish = f.polish ↔ e.same f = true)) := by
  constructor
  · intro e f he hf
    rw [Expr.polish_inj he hf, Expr.corresponds_toBits_iff]
  · intro maxDepth maxDepth' source source' e f hread hread'
    have he := Expr.unsigned_of_read hread
    have hf := Expr.unsigned_of_read hread'
    refine ⟨List.forall_mem_append.2 ⟨he, hf⟩, ?_⟩
    rw [Expr.polish_inj (fun x hx => (he x hx).1) fun x hx => (hf x hx).1,
      ← Expr.corresponds_same_iff]
    constructor
    · rintro rfl
      refine (Expr.Corresponds.refl (fun _ => rfl) e : Expr.Corresponds Eq e e).imp ?_
      rintro x hx _ - rfl
      exact beq_self_of_isNaN (he x hx).1
    · intro hsame
      have heq : Expr.Corresponds Eq e f := hsame.imp fun x hx y hy h =>
        eq_of_beq_of_isNegative (he x hx).2 (hf y hy).2 h
      exact heq.eq fun _ _ => id

theorem polish_unambiguous_minus :
    (Expr.neg (.number 1)).polish ≠ (Expr.number (-1)).polish ∧
    Expr.read 2 "2 - -(1)" = .ok (.binary .sub (.number 2) (.neg (.number 1))) ∧
    Expr.read 1 "2.0--1" = .ok (.binary .sub (.number 2) (.neg (.number 1))) ∧
    (Expr.binary .sub (.number 2) (.neg (.number 1))).same
      (.binary .sub (.number 2) (.neg (.number 1))) = true := by
  obtain ⟨htrees, hread⟩ := polish_unambiguous
  have hfirst : Expr.read 2 "2 - -(1)" =
      .ok (.binary .sub (.number 2) (.neg (.number 1))) := by decide +kernel
  have hsecond : Expr.read 1 "2.0--1" =
      .ok (.binary .sub (.number 2) (.neg (.number 1))) := by decide +kernel
  refine ⟨?_, hfirst, hsecond, (hread 2 1 _ _ _ _ hfirst hsecond).2.1 rfl⟩
  intro htext
  have hone : ∀ x ∈ (Expr.neg (.number 1)).numbers, x.isNaN = false := by decide +kernel
  have hminus : ∀ x ∈ (Expr.number (-1)).numbers, x.isNaN = false := by decide +kernel
  cases (htrees _ _ hone hminus).1 htext

end Calculator
