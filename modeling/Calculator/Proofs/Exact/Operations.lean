import Mathlib
import Calculator.Proofs.Exact.Denotes

/-!
# Operations without rounding errors

The operations of IEEE arithmetic find the exact result and round it.  If a double
denotes the exact result, nothing is rounded away: the significand of the double is
what is left when the zero bits that the exact result has behind it are dropped
(`roundWithAccuracy_eq`).
-/

namespace Calculator.Binary64

open Float.Model (Format UnpackedFloat totalExponent)
open Float.Model.UnpackedFloat (Accuracy ExtendedMantissa Sign divCore roundWithAccuracy
  shiftToExponent shiftToTargetExponent)

/-! ## Rounding -/

/-- Only zero bits are shifted out. -/
theorem shiftRight_mul_two_pow (c k : Nat) :
    (⟨c * 2 ^ k, false, false⟩ : ExtendedMantissa) >>> k = ⟨c, false, false⟩ := by
  change Nat.repeat ExtendedMantissa.shiftRightOne k ⟨c * 2 ^ k, false, false⟩ = _
  induction k generalizing c with
  | zero =>
      rw [Nat.pow_zero, Nat.mul_one]
      rfl
  | succ k ih =>
      have hshift : c * 2 ^ (k + 1) = c * 2 * 2 ^ k := by
        rw [Nat.pow_succ, Nat.mul_assoc, Nat.mul_comm 2]
      rw [hshift, Nat.repeat, ih]
      simp [ExtendedMantissa.shiftRightOne]

section Round

variable {c m : Nat} {t e : Int}

theorem shiftToTargetExponent_eq (h : Canonical c t) (hm : 0 < m)
    (hvalue : (m : ℚ) * 2 ^ e = c * 2 ^ t) (hle : e ≤ t) :
    shiftToTargetExponent .binary64 m e .exact = (⟨c, false, false⟩, t) := by
  have hshift := eq_mul_of_scaled_eq hvalue hle
  have hexponent : e + (t - e).toNat = t := by omega
  rw [shiftToTargetExponent, totalExponent_eq hm h.pos hvalue, h.targetExponent_eq,
    shiftToExponent, hexponent, hshift]
  exact congrArg (·, t) (shiftRight_mul_two_pow c _)

/-- What has the canonical form among its bits is rounded to it. -/
theorem roundWithAccuracy_eq (h : Canonical c t) (s : Sign) (hm : 0 < m)
    (hvalue : (m : ℚ) * 2 ^ e = c * 2 ^ t) (hle : e ≤ t) :
    roundWithAccuracy .binary64 s m e .exact = .finite s c t h.pos := by
  have hfirst := shiftToTargetExponent_eq h hm hvalue hle
  have hsecond := shiftToTargetExponent_eq h h.pos rfl le_rfl
  rw [roundWithAccuracy, hfirst]
  dsimp only [ExtendedMantissa.roundedMantissa, ExtendedMantissa.accuracy,
    Accuracy.roundToNearestEven]
  rw [hsecond]
  exact dif_neg h.pos.ne'

/-- Moved to a smaller exponent, a number stays what it is. -/
theorem shiftLeft_scaled (m : Nat) (e t : Int) :
    ((m <<< (e - t).toNat : Nat) : ℚ) * 2 ^ (e - (e - t).toNat) = m * 2 ^ e := by
  have hsplit : e = (e - t).toNat + (e - (e - t).toNat) := by omega
  conv_rhs => rw [hsplit, zpow_add₀ two_ne_zero, zpow_natCast, ← mul_assoc]
  rw [Nat.shiftLeft_eq, Nat.cast_mul, Nat.cast_pow, Nat.cast_two]

theorem round_eq (h : Canonical c t) (s : Sign) (hm : 0 < m)
    (hvalue : (m : ℚ) * 2 ^ e = c * 2 ^ t) :
    UnpackedFloat.round .binary64 s m e = .finite s c t h.pos := by
  rw [UnpackedFloat.round, totalExponent_eq hm h.pos hvalue, h.targetExponent_eq]
  refine roundWithAccuracy_eq h s ?_ ((shiftLeft_scaled m e t).trans hvalue) ?_
  · exact Nat.shiftLeft_eq m _ ▸ Nat.mul_pos hm (Nat.two_pow_pos _)
  · omega

theorem normalize_apply (s zeroSign : Sign) (hm : 0 < m) (e : Int) :
    UnpackedFloat.normalize .binary64 (s.apply m) e zeroSign =
      UnpackedFloat.round .binary64 s m e := by
  cases s with
  | negative =>
      have hneg : Sign.negative.apply m < 0 := by simpa [Sign.apply] using hm
      rw [UnpackedFloat.normalize, Int.compare_eq_lt.2 hneg]
      simp [Sign.apply]
  | positive =>
      have hpos : 0 < Sign.positive.apply m := by simpa [Sign.apply] using hm
      rw [UnpackedFloat.normalize, Int.compare_eq_gt.2 hpos]
      simp [Sign.apply]

theorem exists_eq_apply {n : Int} (hn : n ≠ 0) :
    ∃ (s : Sign) (m : Nat), 0 < m ∧ n = s.apply m := by
  rcases Int.lt_or_gt_of_ne hn with hneg | hpos
  · exact ⟨.negative, n.natAbs, by omega, by rw [Sign.apply]; omega⟩
  · exact ⟨.positive, n.natAbs, by omega, by rw [Sign.apply]; omega⟩

/-- Normalizing finds the form of a number that has one. -/
theorem alike_normalize {w : UnpackedFloat} {q : ℚ} (hw : Denotes w q) (n : Int)
    (zeroSign : Sign) (hvalue : (n : ℚ) * 2 ^ e = q) :
    UnpackedAlike (.normalize .binary64 n e zeroSign) w := by
  by_cases hn : n = 0
  · subst hn
    rw [Int.cast_zero, zero_mul] at hvalue
    exact (Denotes.zero zeroSign).alike hw hvalue
  · obtain ⟨s, m, hm, rfl⟩ := exists_eq_apply hn
    rw [normalize_apply s zeroSign hm e]
    cases hw with
    | zero s' => exact absurd hvalue (apply_scaled_ne_zero s hm e)
    | finite s' h =>
        obtain ⟨rfl, hscaled⟩ := apply_scaled_inj hm hvalue
        rw [round_eq h s hm hscaled]
        exact .refl _

end Round

/-! ## The operations -/

theorem apply_shiftLeft_scaled (s : Sign) (m : Nat) {e t : Int} (hle : t ≤ e) :
    (s.apply (m <<< (e - t).toNat : Nat) : ℚ) * 2 ^ t = s.apply m * 2 ^ e := by
  have hscaled := shiftLeft_scaled m e t
  have hexponent : e - (e - t).toNat = t := by omega
  rw [hexponent] at hscaled
  cases s with
  | negative => rw [cast_apply_negative, cast_apply_negative, neg_mul, neg_mul, hscaled]
  | positive => rw [cast_apply_positive, cast_apply_positive, hscaled]

/-- A difference is a sum with the negative. -/
theorem sub_eq_add_negative (spec : Format) (u v : UnpackedFloat) :
    UnpackedFloat.sub spec u v = .add spec u v.neg := by
  cases u with
  | notANumber | infinity => cases v <;> rfl
  | zero s => cases v <;> rfl
  | finite s m e hm =>
      cases v with
      | notANumber | infinity | zero => rfl
      | finite s' m' e' hm' =>
          rw [UnpackedFloat.sub, UnpackedFloat.neg, UnpackedFloat.add]
          dsimp only
          rw [apply_neg, Int.sub_eq_add_neg]

namespace Denotes

variable {u v w : UnpackedFloat} {q r p : ℚ}

theorem alike_add (h : Denotes u q) (h' : Denotes v r) (hw : Denotes w p) (hvalue : q + r = p) :
    UnpackedAlike (.add .binary64 u v) w := by
  cases h with
  | zero s =>
      rw [zero_add] at hvalue
      cases h' with
      | zero s' =>
          have hzero : ∃ t, UnpackedFloat.add .binary64 (.zero s) (.zero s') = .zero t := by
            cases s <;> cases s' <;> exact ⟨_, rfl⟩
          obtain ⟨t, hadd⟩ := hzero
          rw [hadd]
          exact (Denotes.zero t).alike hw hvalue
      | finite s' h' => exact (Denotes.finite s' h').alike hw hvalue
  | @finite s m e h =>
      cases h' with
      | zero s' =>
          rw [add_zero] at hvalue
          exact (Denotes.finite s h).alike hw hvalue
      | @finite s' m' e' h' =>
          -- both operands are moved to the smaller exponent and added there
          refine alike_normalize hw _ _ ?_
          rw [Int.cast_add, add_mul, apply_shiftLeft_scaled s m (min_le_left e e'),
            apply_shiftLeft_scaled s' m' (min_le_right e e'), hvalue]

theorem alike_sub (h : Denotes u q) (h' : Denotes v r) (hw : Denotes w p) (hvalue : q - r = p) :
    UnpackedAlike (.sub .binary64 u v) w := by
  rw [sub_eq_add_negative]
  exact h.alike_add h'.neg hw ((sub_eq_add_neg q r).symm.trans hvalue)

end Denotes

/-! ## Products -/

theorem apply_mul (s s' : Sign) (m m' : Nat) :
    (s * s').apply (m * m' : Nat) = s.apply m * s'.apply m' := by
  rw [Nat.cast_mul]
  cases s <;> cases s' <;> simp only [Sign.apply, neg_mul, mul_neg, neg_neg]

/-- The significands of two doubles have so many bits that an exact product has at least the sum of
the exponents. -/
theorem Canonical.add_le {m m' c : Nat} {e e' t : Int} (h : Canonical m e) (h' : Canonical m' e')
    (hc : Canonical c t) (hvalue : ((m * m' : Nat) : ℚ) * 2 ^ (e + e') = c * 2 ^ t) :
    e + e' ≤ t := by
  by_contra hlt
  obtain ⟨k, hk⟩ : ∃ k, (e + e' - t).toNat = k + 1 := ⟨(e + e' - t).toNat - 1, by omega⟩
  have hsignificand : c = m * m' * 2 ^ (k + 1) :=
    hk ▸ eq_mul_of_scaled_eq hvalue.symm (Int.le_of_not_le hlt)
  have hpower := Nat.two_pow_pos k
  have htwice : m * m' * 2 ≤ c := by
    rw [hsignificand, Nat.pow_succ, Nat.mul_comm (2 ^ k), ← Nat.mul_assoc]
    exact Nat.le_mul_of_pos_right _ hpower
  have hlt := hc.lt
  have hleast := hc.least
  have hm := Nat.le_mul_of_pos_right m h'.pos
  have hm' := Nat.le_mul_of_pos_left m' h.pos
  -- with the least exponent in one factor, the other one is not near it and has all its bits
  rcases h.full with hfull | hexponent
  · omega
  · rcases h'.full with hfull' | hexponent' <;> omega

theorem Denotes.alike_mul {u v w : UnpackedFloat} {q r p : ℚ} (h : Denotes u q)
    (h' : Denotes v r) (hw : Denotes w p) (hvalue : q * r = p) :
    UnpackedAlike (.mul .binary64 u v) w := by
  cases h with
  | zero s =>
      rw [zero_mul] at hvalue
      cases h' with
      | zero s' | finite s' h' => exact (Denotes.zero _).alike hw hvalue
  | @finite s m e h =>
      cases h' with
      | zero s' =>
          rw [mul_zero] at hvalue
          exact (Denotes.zero _).alike hw hvalue
      | @finite s' m' e' h' =>
          have hm := Nat.mul_pos h.pos h'.pos
          have hproduct : ((s * s').apply (m * m' : Nat) : ℚ) * 2 ^ (e + e') = p := by
            rw [apply_mul, Int.cast_mul, zpow_add₀ two_ne_zero, mul_mul_mul_comm, hvalue]
          cases hw with
          | zero t => exact absurd hproduct (apply_scaled_ne_zero _ hm _)
          | @finite t c e'' hc =>
              obtain ⟨rfl, hscaled⟩ := apply_scaled_inj hm hproduct
              have hround := roundWithAccuracy_eq hc (s * s') hm hscaled (h.add_le h' hc hscaled)
              rw [UnpackedFloat.mul, hround]
              exact .refl _

/-! ## Quotients -/

theorem log2_mul_le {m m' : Nat} (hm : 0 < m) (hm' : 0 < m') :
    (m * m').log2 ≤ m.log2 + m'.log2 + 1 := by
  have hlt : m * m' < 2 ^ (m.log2 + 1) * 2 ^ (m'.log2 + 1) :=
    Nat.mul_lt_mul'' Nat.lt_log2_self Nat.lt_log2_self
  rw [← Nat.pow_add] at hlt
  have hlog := (Nat.log2_lt (Nat.mul_pos hm hm').ne').2 hlt
  omega

section Quotient

variable {m m' c : Nat} {e e' t : Int}

/-- The exponent at which the quotient is taken is low enough for an exact one. -/
theorem Canonical.divExponent_le (hm : 0 < m) (hm' : 0 < m') (hc : Canonical c t)
    (hvalue : (m : ℚ) * 2 ^ (e - e') = (c * m' : Nat) * 2 ^ t) :
    Format.binary64.targetExponent (totalExponent m e - totalExponent m' e') ≤ t := by
  have htotal := totalExponent_eq hm (Nat.mul_pos hc.pos hm') hvalue
  have hlog := log2_mul_le hc.pos hm'
  have htarget := hc.targetExponent_eq
  rw [targetExponent_binary64] at htarget ⊢
  unfold totalExponent at htotal htarget ⊢
  omega

/-- An exact division leaves no remainder. -/
theorem divCore_eq (hm : 0 < m) (hm' : 0 < m') (hc : Canonical c t)
    (hvalue : (m : ℚ) * 2 ^ (e - e') = (c * m' : Nat) * 2 ^ t) :
    ∃ n low, divCore .binary64 m e m' e' = (n, low, .exact) ∧ 0 < n ∧ low ≤ t ∧
      (n : ℚ) * 2 ^ low = c * 2 ^ t := by
  have htarget := hc.divExponent_le hm hm' hvalue
  rw [divCore]
  generalize Format.binary64.targetExponent (totalExponent m e - totalExponent m' e') = target
    at htarget
  obtain ⟨low, hlow⟩ : ∃ low, low = min (e - e') target := ⟨_, rfl⟩
  have hle : low ≤ t := by omega
  -- at this exponent the dividend is the divisor times the bits of the quotient
  have hdividend := (shiftLeft_scaled m (e - e') low).trans hvalue
  have hquotient := shiftLeft_scaled c t low
  rw [show e - e' - (e - e' - low).toNat = low by omega] at hdividend
  rw [show t - (t - low).toNat = low by omega] at hquotient
  have hproduct : m <<< (e - e' - low).toNat = m' * c <<< (t - low).toNat := by
    rw [eq_mul_of_scaled_eq hdividend hle, Nat.shiftLeft_eq, Nat.mul_comm c, Nat.mul_assoc]
  have hpos : 0 < c <<< (t - low).toNat :=
    Nat.shiftLeft_eq c _ ▸ Nat.mul_pos hc.pos (Nat.two_pow_pos _)
  refine ⟨c <<< (t - low).toNat, low, ?_, hpos, hle, hquotient⟩
  rw [← hlow, hproduct, Nat.mul_div_cancel_left _ hm', Nat.mul_mod_right]
  rfl

end Quotient

theorem Denotes.alike_div {u v w : UnpackedFloat} {q r p : ℚ} (h : Denotes u q)
    (h' : Denotes v r) (hr : r ≠ 0) (hw : Denotes w p) (hvalue : q / r = p) :
    UnpackedAlike (.div .binary64 u v) w := by
  cases h' with
  | zero s' => exact absurd rfl hr
  | @finite s' m' e' h' =>
      cases h with
      | zero s =>
          rw [zero_div] at hvalue
          exact (Denotes.zero _).alike hw hvalue
      | @finite s m e h =>
          rw [div_eq_iff hr] at hvalue
          cases hw with
          | zero t => exact absurd (hvalue.trans (zero_mul _)) (apply_scaled_ne_zero s h.pos e)
          | @finite t c e'' hc =>
              rw [mul_mul_mul_comm, ← Int.cast_mul, ← apply_mul, ← zpow_add₀ two_ne_zero]
                at hvalue
              obtain ⟨rfl, hscaled⟩ := apply_scaled_inj h.pos hvalue
              have hquotient : (m : ℚ) * 2 ^ (e - e') = (c * m' : Nat) * 2 ^ e'' := by
                rw [zpow_sub₀ two_ne_zero, ← mul_div_assoc, hscaled,
                  div_eq_iff (zpow_ne_zero e' two_ne_zero), mul_assoc,
                  ← zpow_add₀ two_ne_zero]
              obtain ⟨n, low, hcore, hn, hle, hrounded⟩ := divCore_eq h.pos h'.pos hc hquotient
              have hsign : t * s' / s' = t := by cases t <;> cases s' <;> rfl
              rw [UnpackedFloat.div, hcore, hsign]
              dsimp only
              rw [roundWithAccuracy_eq hc t hn hrounded hle]
              exact .refl _

end Calculator.Binary64

namespace Calculator

open Binary64 (denotes_unpack ofModel_pack_unpack rational)
open Float.Model (UnpackedFloat)

/-! ## Doubles -/

theorem UnpackedAlike.alike {u : UnpackedFloat} {z : Float} (h : UnpackedAlike u z.toModel.unpack) :
    Alike (.ofModel (.pack u)) z :=
  ofModel_pack_unpack z ▸ h.pack

/-- The exact result of an operator; a division by zero has none. -/
def Operator.exactResult? (op : Operator) (q r : ℚ) : Option ℚ :=
  match op with
  | add => some (q + r)
  | sub => some (q - r)
  | mul => some (q * r)
  | div => if r = 0 then none else some (q / r)

theorem Operator.ne_zero_of_exactResult? {q r p : ℚ}
    (h : Operator.div.exactResult? q r = some p) : r ≠ 0 := by
  rintro rfl
  rw [Operator.exactResult?, if_pos rfl] at h
  cases h

section Exact

variable {x y z : Float}

/-- An operator comes to the double that denotes the exact result, if there is one. -/
theorem Operator.alike_ideal_of_exact (op : Operator) (hx : x.isFinite = true)
    (hy : y.isFinite = true) (hz : z.isFinite = true)
    (h : op.exactResult? (rational x) (rational y) = some (rational z)) :
    Alike (op.ideal x y) z := by
  have hx := denotes_unpack hx
  have hy := denotes_unpack hy
  have hz := denotes_unpack hz
  cases op with
  | add => exact (hx.alike_add hy hz (Option.some.inj h)).alike
  | sub => exact (hx.alike_sub hy hz (Option.some.inj h)).alike
  | mul => exact (hx.alike_mul hy hz (Option.some.inj h)).alike
  | div =>
      have hzero := Operator.ne_zero_of_exactResult? h
      rw [Operator.exactResult?, if_neg hzero] at h
      exact (hx.alike_div hy hzero hz (Option.some.inj h)).alike

/-- Doubles that denote the same number are alike. -/
theorem alike_of_rational_eq (hx : x.isFinite = true) (hz : z.isFinite = true)
    (h : rational x = rational z) : Alike x z := by
  have halike := ((denotes_unpack hx).alike (denotes_unpack hz) h).alike
  rwa [ofModel_pack_unpack] at halike

theorem alike_neg_of_exact (hx : x.isFinite = true) (hz : z.isFinite = true)
    (h : -rational x = rational z) : Alike (-x) z :=
  ((denotes_unpack hx).neg.alike (denotes_unpack hz) h).alike

end Exact

end Calculator
