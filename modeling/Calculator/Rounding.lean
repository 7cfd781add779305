/-!
# Division to the nearest whole number

`roundDiv num den` is the whole number nearest to `num / den`; of two equally
near ones it is the even one.  The laws below bound the error by half a unit
and say where a tie goes.  They hold for every positive `den`.
-/

namespace Calculator

/-- The whole number nearest to `num / den`, a tie going to the even one. -/
def roundDiv (num den : Nat) : Nat :=
  let floor := num / den
  let rest := num % den
  if 2 * rest < den then floor
  else if den < 2 * rest then floor + 1
  else floor + floor % 2

/-- The result is at most half a unit too large. -/
theorem roundDiv_mul_le (num : Nat) {den : Nat} (hden : 0 < den) :
    2 * (roundDiv num den * den) ≤ 2 * num + den := by
  have hnum := Nat.div_add_mod num den
  have hrest := Nat.mod_lt num hden
  have hcomm : num / den * den = den * (num / den) := Nat.mul_comm _ _
  unfold roundDiv
  dsimp only
  split
  · omega
  · split
    · rw [Nat.add_mul]; omega
    · rcases Nat.mod_two_eq_zero_or_one (num / den) with hparity | hparity <;>
        rw [hparity, Nat.add_mul] <;> omega

/-- The result is at most half a unit too small. -/
theorem le_roundDiv_mul (num : Nat) {den : Nat} (hden : 0 < den) :
    2 * num ≤ 2 * (roundDiv num den * den) + den := by
  have hnum := Nat.div_add_mod num den
  have hrest := Nat.mod_lt num hden
  have hcomm : num / den * den = den * (num / den) := Nat.mul_comm _ _
  unfold roundDiv
  dsimp only
  split
  · omega
  · split
    · rw [Nat.add_mul]; omega
    · rcases Nat.mod_two_eq_zero_or_one (num / den) with hparity | hparity <;>
        rw [hparity, Nat.add_mul] <;> omega

/-- A tie goes to an even number. -/
theorem roundDiv_even_of_tie {num den : Nat} (htie : 2 * (num % den) = den) :
    roundDiv num den % 2 = 0 := by
  unfold roundDiv
  dsimp only
  split
  · omega
  · split <;> omega

end Calculator
