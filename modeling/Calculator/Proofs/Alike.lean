import Mathlib
import Calculator.Proofs.Value

/-!
# Doubles that are alike

The two zeros are one number, and IEEE arithmetic tells them apart only where it
divides by them.  Two doubles are alike (`Alike`) if they are the same double or
both are zero, and the operators, division by zero excepted, take alike operands to
alike results.
-/

namespace Calculator

open Float.Model (Format UnpackedFloat)

/-! ## Alike doubles -/

/-- Two doubles are alike if they are the same or if both are zero. -/
def Alike (x y : Float) : Prop :=
  x = y ∨ (isZero x = true ∧ isZero y = true)

theorem isZero_iff_beq (x : Float) : isZero x = (x == 0) := by
  rw [Bool.eq_iff_iff, isZero_iff, beq_zero_iff]

theorem isFinite_of_isZero {x : Float} (h : isZero x = true) : x.isFinite = true := by
  rcases (isZero_iff x).1 h with rfl | rfl <;> decide +kernel

namespace Alike

variable {x y z : Float}

theorem refl (x : Float) : Alike x x :=
  .inl rfl

theorem trans (h : Alike x y) (h' : Alike y z) : Alike x z := by
  rcases h with rfl | ⟨hx, hy⟩
  · exact h'
  · rcases h' with rfl | ⟨-, hz⟩
    · exact .inr ⟨hx, hy⟩
    · exact .inr ⟨hx, hz⟩

theorem isZero_eq (h : Alike x y) : isZero x = isZero y := by
  rcases h with rfl | ⟨hx, hy⟩
  · rfl
  · rw [hx, hy]

theorem of_beq (h : (x == y) = true) : Alike x y := by
  obtain ⟨-, -, heq | ⟨hx, hy⟩ | ⟨hx, hy⟩⟩ := Float.beq_iff_ne_nan_and_eq.1 h
  · exact .inl heq
  · exact .inr ⟨(isZero_iff x).2 (.inl hx), (isZero_iff y).2 (.inr hy)⟩
  · exact .inr ⟨(isZero_iff x).2 (.inr hx), (isZero_iff y).2 (.inl hy)⟩

theorem isFinite_eq (h : Alike x y) : x.isFinite = y.isFinite := by
  rcases h with rfl | ⟨hx, hy⟩
  · rfl
  · rw [isFinite_of_isZero hx, isFinite_of_isZero hy]

/-- Alike numbers are equal as numbers. -/
theorem beq (h : Alike x y) (hfinite : x.isFinite = true) : (x == y) = true := by
  have hx : x ≠ Float.nan := by
    rintro rfl
    cases hfinite
  rcases h with rfl | ⟨hx, hy⟩
  · exact Float.beq_self_iff.2 hx
  · rcases (isZero_iff x).1 hx with rfl | rfl <;> rcases (isZero_iff y).1 hy with rfl | rfl <;>
      decide +kernel

end Alike

theorem beq_self_of_isNaN {x : Float} (hx : x.isNaN = false) : (x == x) = true := by
  rw [Float.beq_self_iff]
  rintro rfl
  cases hx

/-- Among doubles without a sign, those that are equal as numbers are the same. -/
theorem eq_of_beq_of_isNegative {x y : Float} (hx : Binary64.isNegative x = false)
    (hy : Binary64.isNegative y = false) (h : (x == y) = true) : x = y := by
  obtain ⟨-, -, heq | ⟨-, rfl⟩ | ⟨rfl, -⟩⟩ := Float.beq_iff_ne_nan_and_eq.1 h
  · exact heq
  · exact absurd hy (by decide +kernel)
  · exact absurd hx (by decide +kernel)

/-! ## Arithmetic -/

theorem isZero_iff_unpack (x : Float) :
    isZero x = true ↔ ∃ sign, x.toModel.unpack = .zero sign := by
  rw [isZero_iff]
  constructor
  · rintro (rfl | rfl)
    · exact ⟨.positive, rfl⟩
    · exact ⟨.negative, rfl⟩
  · rintro ⟨sign, hzero⟩
    rcases toNat_of_unpack_eq_zero hzero with hbits | hbits
    · exact .inl (eq_of_toNat_toBits (hbits.trans (by decide +kernel)))
    · exact .inr (eq_of_toNat_toBits (hbits.trans (by decide +kernel)))

/-- Two doubles, taken apart, are alike if they are the same or if both are zero. -/
inductive UnpackedAlike : UnpackedFloat → UnpackedFloat → Prop
  | refl (u : UnpackedFloat) : UnpackedAlike u u
  | zero (s s' : UnpackedFloat.Sign) : UnpackedAlike (.zero s) (.zero s')

namespace UnpackedAlike

variable {u u' v v' : UnpackedFloat}

theorem of_alike {x y : Float} (h : Alike x y) :
    UnpackedAlike x.toModel.unpack y.toModel.unpack := by
  rcases h with rfl | ⟨hx, hy⟩
  · exact .refl _
  · obtain ⟨s, hs⟩ := (isZero_iff_unpack x).1 hx
    obtain ⟨s', hs'⟩ := (isZero_iff_unpack y).1 hy
    rw [hs, hs']
    exact .zero s s'

theorem isZero_pack (s : UnpackedFloat.Sign) : isZero (.ofModel (.pack (.zero s))) = true := by
  cases s <;> decide +kernel

theorem pack (h : UnpackedAlike u v) : Alike (.ofModel (.pack u)) (.ofModel (.pack v)) := by
  cases h with
  | refl => exact .refl _
  | zero s s' => exact .inr ⟨isZero_pack s, isZero_pack s'⟩

theorem neg (h : UnpackedAlike u v) : UnpackedAlike u.neg v.neg := by
  cases h with
  | refl => exact .refl _
  | zero s s' => exact .zero _ _

theorem trans {w : UnpackedFloat} (h : UnpackedAlike u v) (h' : UnpackedAlike v w) :
    UnpackedAlike u w := by
  cases h with
  | refl => exact h'
  | zero s t =>
      cases h' with
      | refl => exact .zero _ _
      | zero t t' => exact .zero _ _

/-- An operation respects alike operands if it does not look at the sign of a zero. -/
theorem congr₂ {f : UnpackedFloat → UnpackedFloat → UnpackedFloat}
    (hleft : ∀ s s' v, UnpackedAlike (f (.zero s) v) (f (.zero s') v))
    (hright : ∀ s s' u, UnpackedAlike (f u (.zero s)) (f u (.zero s')))
    (h : UnpackedAlike u u') (h' : UnpackedAlike v v') : UnpackedAlike (f u v) (f u' v') := by
  have hfirst : UnpackedAlike (f u v) (f u' v) := by
    cases h with
    | refl => exact .refl _
    | zero s s' => exact hleft s s' v
  have hsecond : UnpackedAlike (f u' v) (f u' v') := by
    cases h' with
    | refl => exact .refl _
    | zero s s' => exact hright s s' u'
  exact hfirst.trans hsecond

theorem add (h : UnpackedAlike u u') (h' : UnpackedAlike v v') :
    UnpackedAlike (.add .binary64 u v) (.add .binary64 u' v') := by
  refine congr₂ (fun s s' v => ?_) (fun s s' u => ?_) h h'
  · cases v with
    | zero t => cases s <;> cases s' <;> cases t <;> exact .zero _ _
    | notANumber | infinity | finite => exact .refl _
  · cases u with
    | zero t => cases s <;> cases s' <;> cases t <;> exact .zero _ _
    | notANumber | infinity | finite => exact .refl _

theorem sub (h : UnpackedAlike u u') (h' : UnpackedAlike v v') :
    UnpackedAlike (.sub .binary64 u v) (.sub .binary64 u' v') := by
  refine congr₂ (fun s s' v => ?_) (fun s s' u => ?_) h h'
  · cases v with
    | zero t => cases s <;> cases s' <;> cases t <;> exact .zero _ _
    | notANumber | infinity | finite => exact .refl _
  · cases u with
    | zero t => cases s <;> cases s' <;> cases t <;> exact .zero _ _
    | notANumber | infinity | finite => exact .refl _

theorem mul (h : UnpackedAlike u u') (h' : UnpackedAlike v v') :
    UnpackedAlike (.mul .binary64 u v) (.mul .binary64 u' v') := by
  refine congr₂ (fun s s' v => ?_) (fun s s' u => ?_) h h'
  · cases v with
    | zero | finite => exact .zero _ _
    | notANumber | infinity => exact .refl _
  · cases u with
    | zero | finite => exact .zero _ _
    | notANumber | infinity => exact .refl _

/-- Division looks at the sign of a zero in the divisor alone. -/
theorem div (h : UnpackedAlike u u') (v : UnpackedFloat) :
    UnpackedAlike (.div .binary64 u v) (.div .binary64 u' v) := by
  cases h with
  | refl => exact .refl _
  | zero s s' =>
      cases v with
      | infinity | finite => exact .zero _ _
      | notANumber | zero => exact .refl _

end UnpackedAlike

theorem Alike.neg {x y : Float} (h : Alike x y) : Alike (-x) (-y) :=
  (UnpackedAlike.of_alike h).neg.pack

/-- Only a division by zero tells alike operands apart. -/
theorem Operator.alike_ideal (op : Operator) {x x' y y' : Float} (hx : Alike x x')
    (hy : Alike y y') (hdivisor : op = .div → isZero y = false) :
    Alike (op.ideal x y) (op.ideal x' y') := by
  have hx' := UnpackedAlike.of_alike hx
  have hy' := UnpackedAlike.of_alike hy
  cases op with
  | add => exact (hx'.add hy').pack
  | sub => exact (hx'.sub hy').pack
  | mul => exact (hx'.mul hy').pack
  | div =>
      -- alike divisors that are not zero are the same
      rcases hy with rfl | ⟨hzero, -⟩
      · exact (hx'.div _).pack
      · cases hzero.symm.trans (hdivisor rfl)

end Calculator
