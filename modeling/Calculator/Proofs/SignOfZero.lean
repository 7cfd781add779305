import Mathlib
import Calculator.Report
import Calculator.Proofs.Alike
import Calculator.Proofs.Composition

/-!
# The sign of a zero

The evaluator divides by neither of the two zeros, so that nothing it computes
depends on the sign of one.  Trees whose numbers are alike come to results that are
alike, and the report, which writes a zero without its sign, shows them as one text
(`zero_sign_unobservable`).
-/

namespace Calculator

/-! ## Results -/

/-- Whether two results are the same failure or values that are equal as numbers. -/
def sameResult : Except Failure Float → Except Failure Float → Bool
  | .ok x, .ok y => x == y
  | .error failure, .error failure' => failure == failure'
  | .ok _, .error _ | .error _, .ok _ => false

theorem sameResult_error (failure : Failure) :
    sameResult (.error failure) (.error failure) = true :=
  beq_self_eq_true failure

theorem sameResult_requireFinite {x y : Float} (h : Alike x y) :
    sameResult (requireFinite x) (requireFinite y) = true := by
  unfold requireFinite
  rw [← h.isFinite_eq]
  cases hfinite : x.isFinite with
  | true => exact h.beq hfinite
  | false => exact sameResult_error _

theorem Operator.sameResult_apply (op : Operator) {x x' y y' : Float} (hx : Alike x x')
    (hy : Alike y y') : sameResult (op.apply x y) (op.apply x' y') = true := by
  cases op with
  | add => exact sameResult_requireFinite (Operator.add.alike_ideal hx hy nofun)
  | sub => exact sameResult_requireFinite (Operator.sub.alike_ideal hx hy nofun)
  | mul => exact sameResult_requireFinite (Operator.mul.alike_ideal hx hy nofun)
  | div =>
      unfold Operator.apply
      dsimp only
      rw [← isZero_iff_beq, ← isZero_iff_beq, ← hy.isZero_eq]
      cases hzero : isZero y with
      | true => exact sameResult_error _
      | false => exact sameResult_requireFinite (Operator.div.alike_ideal hx hy fun _ => hzero)

/-- Equal results are the same failure or two alike values. -/
theorem exists_of_sameResult {r r' : Except Failure Float} (h : sameResult r r' = true) :
    (∃ failure, r = .error failure ∧ r' = .error failure) ∨
      ∃ x y, r = .ok x ∧ r' = .ok y ∧ Alike x y := by
  cases r with
  | error failure =>
      cases r' with
      | error failure' => exact .inl ⟨failure, rfl, congrArg _ (eq_of_beq h).symm⟩
      | ok y => cases h
  | ok x =>
      cases r' with
      | error failure => cases h
      | ok y => exact .inr ⟨x, y, rfl, rfl, .of_beq h⟩

theorem sameResult_negated {r r' : Except Failure Float} (h : sameResult r r' = true) :
    sameResult (negated r) (negated r') = true := by
  obtain ⟨failure, rfl, rfl⟩ | ⟨x, y, rfl, rfl, hxy⟩ := exists_of_sameResult h
  · exact sameResult_error failure
  · exact sameResult_requireFinite hxy.neg

theorem Operator.sameResult_combine (op : Operator) {r r' t t' : Except Failure Float}
    (hr : sameResult r r' = true) (ht : sameResult t t' = true) :
    sameResult (op.combine r t) (op.combine r' t') = true := by
  obtain ⟨failure, rfl, rfl⟩ | ⟨x, x', rfl, rfl, hx⟩ := exists_of_sameResult hr
  · exact sameResult_error failure
  · obtain ⟨failure, rfl, rfl⟩ | ⟨y, y', rfl, rfl, hy⟩ := exists_of_sameResult ht
    · exact sameResult_error failure
    · rw [op.combine_ok, op.combine_ok]
      exact op.sameResult_apply hx hy

/-- Trees with equal numbers come to equal results. -/
theorem Expr.sameResult_value {e f : Expr} (h : e.same f = true) :
    sameResult e.value f.value = true := by
  induction e generalizing f with
  | number x =>
      cases f with
      | number y => exact sameResult_requireFinite (.of_beq h)
      | neg | binary => cases h
  | neg operand ih =>
      cases f with
      | neg operand' =>
          rw [value_neg, value_neg]
          exact sameResult_negated (ih h)
      | number | binary => cases h
  | binary op left right ihleft ihright =>
      cases f with
      | binary op' left' right' =>
          rw [Expr.same, Bool.and_eq_true, Bool.and_eq_true, beq_iff_eq] at h
          obtain ⟨⟨rfl, hleft⟩, hright⟩ := h
          rw [value_binary, value_binary]
          exact op.sameResult_combine (ihleft hleft) (ihright hright)
      | number | neg => cases h

/-! ## Reports -/

theorem Report.number_congr (r : Report) {x y : Float} (h : Alike x y) :
    r.number x = r.number y := by
  unfold Report.number
  rw [← isZero_iff_beq, ← isZero_iff_beq, ← h.isZero_eq]
  rcases h with rfl | ⟨hx, hy⟩
  · rfl
  · rw [if_pos hx, if_pos hx]

theorem Report.render_congr (r : Report) (source : String) {t t' : Except Failure Float}
    (h : sameResult t t' = true) : r.render source t = r.render source t' := by
  obtain ⟨failure, rfl, rfl⟩ | ⟨x, y, rfl, rfl, hxy⟩ := exists_of_sameResult h
  · rfl
  · unfold Report.render
    dsimp only
    rw [r.number_congr hxy]

/-- Trees that differ in nothing but the signs of zeros come to results that differ in nothing else,
and the reports on the results do not differ. -/
theorem zero_sign_unobservable {e f : Expr} (h : e.same f = true) :
    sameResult e.value f.value = true ∧
      ∀ (r : Report) (source : String), r.render source e.value = r.render source f.value := by
  have hvalue := Expr.sameResult_value h
  exact ⟨hvalue, fun r source => r.render_congr source hvalue⟩

theorem zero_sign_unobservable_product :
    (Expr.binary .mul (.number 5) (.number 0)).same (.binary .mul (.number 5) (.number (-0))) =
        true ∧
      (Expr.binary .mul (.number 5) (.number (-0))).value = .ok (-0) ∧
      Report.render {} "5*0" (Expr.binary .mul (.number 5) (.number 0)).value =
        Report.render {} "5*0" (Expr.binary .mul (.number 5) (.number (-0))).value := by
  have hsame : (Expr.binary .mul (.number 5) (.number 0)).same
      (.binary .mul (.number 5) (.number (-0))) = true := by decide +kernel
  have hvalue : (Expr.binary .mul (.number 5) (.number (-0))).value = .ok (-0) := by
    decide +kernel
  obtain ⟨-, hreports⟩ := zero_sign_unobservable hsame
  exact ⟨hsame, hvalue, hreports {} "5*0"⟩

end Calculator
