import Mathlib
import Calculator.Proofs.Nearest

/-!
# The nearest point of a grid

The points of a grid are numbered from 0 and ascend.  `Nearest grid q n` says that the
point with the number `n` is as near to `q` as any other, and that `n` is even if
another one is as near.  There is at most one such point, and it does not move down
while `q` moves up (`Nearest.mono`).  Division to the nearest whole number finds it
among the whole numbers (`nearest_roundDiv`).
-/

namespace Calculator

/-- `Nearest grid q n`: of all points of the grid the one with the number `n` is nearest to `q`; of
two that are equally near it is the one with the even number. -/
structure Nearest (grid : Nat → ℚ) (q : ℚ) (n : Nat) : Prop where
  le : ∀ k, |q - grid n| ≤ |q - grid k|
  even : ∀ k, k ≠ n → |q - grid k| = |q - grid n| → Even n

section Middle

variable {a b q : ℚ}

/-- What is nearer to the upper one of two points lies above their middle. -/
theorem abs_sub_le_iff_of_lt (hlt : a < b) : |q - b| ≤ |q - a| ↔ a + b ≤ 2 * q := by
  rw [← sq_le_sq]
  have hwidth : 0 < b - a := sub_pos.2 hlt
  have hdifference : (q - a) ^ 2 - (q - b) ^ 2 = (b - a) * (2 * q - (a + b)) := by ring
  rw [← sub_nonneg, hdifference, mul_nonneg_iff_of_pos_left hwidth, sub_nonneg]

theorem abs_sub_le_iff_of_gt (hlt : a < b) : |q - a| ≤ |q - b| ↔ 2 * q ≤ a + b := by
  rw [← sq_le_sq]
  have hwidth : 0 < b - a := sub_pos.2 hlt
  have hdifference : (q - b) ^ 2 - (q - a) ^ 2 = (b - a) * (a + b - 2 * q) := by ring
  rw [← sub_nonneg, hdifference, mul_nonneg_iff_of_pos_left hwidth, sub_nonneg]

end Middle

namespace Nearest

variable {grid : Nat → ℚ} {q r : ℚ} {m n : Nat}

/-- A greater number has no smaller point of the grid next to it. -/
theorem mono (hgrid : StrictMono grid) (h : Nearest grid q m) (h' : Nearest grid r n)
    (hle : q ≤ r) : m ≤ n := by
  by_contra hlt
  rw [not_le] at hlt
  have hlow := (abs_sub_le_iff_of_lt (hgrid hlt)).1 (h.le n)
  have hhigh := (abs_sub_le_iff_of_gt (hgrid hlt)).1 (h'.le m)
  -- both numbers lie in the middle between the two points, so that both points are even
  have hq : 2 * q = grid n + grid m := by linarith
  have hr : 2 * r = grid n + grid m := by linarith
  have hm : Even m := h.even n hlt.ne
    (le_antisymm ((abs_sub_le_iff_of_gt (hgrid hlt)).2 hq.le) (h.le n))
  have hn : Even n := h'.even m hlt.ne'
    (le_antisymm ((abs_sub_le_iff_of_lt (hgrid hlt)).2 hr.ge) (h'.le m))
  -- and the point after the lower one is nearer than both
  have hnext : n + 1 < m := by
    obtain ⟨i, rfl⟩ := hm
    obtain ⟨j, rfl⟩ := hn
    omega
  have hbetween := (abs_sub_le_iff_of_lt (hgrid hnext)).1 (h.le (n + 1))
  have hstep := hgrid (Nat.lt_succ_self n)
  linarith

theorem unique (hgrid : StrictMono grid) (h : Nearest grid q m) (h' : Nearest grid q n) : m = n :=
  le_antisymm (h.mono hgrid h' le_rfl) (h'.mono hgrid h le_rfl)

/-- Where the middle between two neighbours goes to the upper one, all above it goes there or
farther up. -/
theorem succ_le_iff (hgrid : StrictMono grid) (h : Nearest grid q m) (hodd : ¬ Even n) :
    n + 1 ≤ m ↔ grid n + grid (n + 1) ≤ 2 * q := by
  constructor
  · intro hle
    have hlow := (abs_sub_le_iff_of_lt (hgrid (Nat.lt_of_succ_le hle))).1 (h.le n)
    have hpoints := hgrid.monotone hle
    linarith
  · intro hmiddle
    by_contra hlt
    have hle : m ≤ n := Nat.lt_succ_iff.1 (Nat.lt_of_not_le hlt)
    have hstep := hgrid (Nat.lt_succ_of_le hle)
    have hhigh := (abs_sub_le_iff_of_gt hstep).1 (h.le (n + 1))
    have hpoints := hgrid.monotone hle
    have hclose : |q - grid (n + 1)| ≤ |q - grid m| :=
      (abs_sub_le_iff_of_lt hstep).2 (by linarith)
    have hm : Even m := h.even (n + 1) (by omega) (le_antisymm hclose (h.le (n + 1)))
    have hpoint : grid m = grid n := by linarith
    rw [hgrid.injective hpoint] at hm
    exact hodd hm

/-- The nearest point stays the nearest when the grid is stretched. -/
theorem scale {s : ℚ} (hs : 0 < s) (h : Nearest grid q n) :
    Nearest (fun k => s * grid k) (s * q) n := by
  have hdistance : ∀ k, |s * q - s * grid k| = s * |q - grid k| := by
    intro k
    rw [← mul_sub, abs_mul, abs_of_pos hs]
  constructor
  · intro k
    rw [hdistance, hdistance]
    exact mul_le_mul_of_nonneg_left (h.le k) hs.le
  · intro k hk heq
    rw [hdistance, hdistance] at heq
    exact h.even k hk (mul_left_cancel₀ hs.ne' heq)

end Nearest

/-! ## Whole numbers -/

/-- Being within half a unit of a fraction, said without division. -/
theorem abs_div_sub_le_half_iff {num den n : Nat} (hden : 0 < den) :
    |(num : ℚ) / den - n| ≤ 1 / 2 ↔
      2 * (n * den) ≤ 2 * num + den ∧ 2 * num ≤ 2 * (n * den) + den := by
  have hpos : (0 : ℚ) < den := Nat.cast_pos.2 hden
  have hleft : -(1 / 2) ≤ (num : ℚ) / den - n ↔ 2 * (n * den) ≤ 2 * num + den := by
    rw [le_sub_iff_add_le, le_div_iff₀ hpos, ← @Nat.cast_le ℚ]
    push_cast
    constructor <;> intro h <;> linarith
  have hright : (num : ℚ) / den - n ≤ 1 / 2 ↔ 2 * num ≤ 2 * (n * den) + den := by
    rw [sub_le_iff_le_add, div_le_iff₀ hpos, ← @Nat.cast_le ℚ]
    push_cast
    constructor <;> intro h <;> linarith
  rw [abs_le, hleft, hright]

/-- What is at most a whole number is not rounded above it. -/
theorem roundDiv_le {num den n : Nat} (hden : 0 < den) (hle : num ≤ n * den) :
    roundDiv num den ≤ n := by
  have hlow := roundDiv_mul_le num hden
  by_contra hgt
  have hmul := Nat.mul_le_mul_right den (Nat.succ_le_of_lt (Nat.lt_of_not_le hgt))
  rw [Nat.succ_mul] at hmul
  omega

/-- What is at least a whole number is not rounded below it. -/
theorem le_roundDiv {num den n : Nat} (hden : 0 < den) (hle : n * den ≤ num) :
    n ≤ roundDiv num den := by
  have hhigh := le_roundDiv_mul num hden
  by_contra hlt
  have hmul := Nat.mul_le_mul_right den (Nat.succ_le_of_lt (Nat.lt_of_not_le hlt))
  rw [Nat.succ_mul] at hmul
  omega

theorem nearest_roundDiv (num : Nat) {den : Nat} (hden : 0 < den) :
    Nearest (fun k => (k : ℚ)) (num / den) (roundDiv num den) := by
  have hlow := roundDiv_mul_le num hden
  have hhigh := le_roundDiv_mul num hden
  have hhalf := (abs_div_sub_le_half_iff hden).2 ⟨hlow, hhigh⟩
  have heven : 2 * (num % den) = den → Even (roundDiv num den) :=
    fun htie => Nat.even_iff.2 (roundDiv_even_of_tie htie)
  generalize roundDiv num den = n at hlow hhigh hhalf heven
  constructor
  · intro k
    by_cases hk : k = n
    · rw [hk]
    · have hstep : (1 : ℤ) ≤ |(k : ℤ) - n| := Int.one_le_abs (by omega)
      have hgap : 1 ≤ |(num : ℚ) / den - k| + |(num : ℚ) / den - n| := by
        calc (1 : ℚ) ≤ |(k : ℚ) - n| := by exact_mod_cast hstep
          _ ≤ |(k : ℚ) - num / den| + |(num : ℚ) / den - n| := abs_sub_le _ _ _
          _ = |(num : ℚ) / den - k| + |(num : ℚ) / den - n| := by rw [abs_sub_comm (k : ℚ)]
      linarith
  · intro k hk heq
    obtain ⟨hlow', hhigh'⟩ := (abs_div_sub_le_half_iff hden).1 (heq.trans_le hhalf)
    rcases Nat.lt_or_gt_of_ne hk with hlt | hgt
    · exact heven (tie_of_lt hden hlt hhigh' hlow).2.2.2
    · exact heven (tie_of_lt hden hgt hhigh hlow').2.2.2

end Calculator
