import Calculator.Report
import Calculator.Proofs.Decimal.Positional
import Calculator.Proofs.Scan.Append

/-!
# What printed doubles look like

Every double, printed in its shortest form or with a fixed number of decimals,
is a numeral or the word `inf`, with or without a minus in front, or the word
`NaN` (`Report.printed_number`).
-/

namespace Calculator

open Alphabet (isNumeral)
open Numeral (WellFormed)
open Token (isNumeral_of_wellFormed)

namespace Decimal

/-- A text that prints a double. -/
inductive Printed : List Char → Prop
  | unsigned {body : List Char} (hbody : WellFormed body ∨ body = "inf".toList) : Printed body
  | negative {body : List Char} (hbody : WellFormed body ∨ body = "inf".toList) :
      Printed ('-' :: body)
  | nan : Printed "NaN".toList

theorem wellFormed_shortestText (m : Nat) : WellFormed (shortestText m) := by
  by_cases hzero : m = 0
  · rw [shortestText, if_pos hzero]
    exact .whole ⟨nofun, List.forall_mem_singleton.2 rfl⟩
  · rw [shortestText, if_neg hzero]
    exact wellFormed_positional _ _

theorem printed_signed {body : Nat → List Char} (hbody : ∀ m, WellFormed (body m)) (x : Float) :
    Printed (signed body x).toList := by
  by_cases hnan : x.isNaN = true
  · rw [signed, if_pos hnan]
    exact .nan
  rw [signed, if_neg hnan, String.toList_append]
  have hmagnitude : WellFormed (if x.isInf then "inf" else
        String.ofList (body (Binary64.magnitude x))).toList ∨
      (if x.isInf then "inf" else String.ofList (body (Binary64.magnitude x))).toList =
        "inf".toList := by
    cases x.isInf with
    | true => exact .inr rfl
    | false => exact .inl (by simpa using hbody _)
  cases Binary64.isNegative x with
  | true => exact .negative hmagnitude
  | false => exact .unsigned hmagnitude

theorem printed_text (x : Float) : Printed (text x).toList :=
  printed_signed wellFormed_shortestText x

theorem printed_fixed (places : Nat) (x : Float) : Printed (fixed places x).toList :=
  printed_signed (fun _ => wellFormed_positional _ _) x

/-- The characters of a printed double. -/
theorem Printed.mem {text : List Char} (h : Printed text) :
    ∀ c ∈ text, isNumeral c = true ∨ c ∈ "-infNa".toList := by
  have hinf : "inf".toList ⊆ "-infNa".toList := by decide
  have hnan : "NaN".toList ⊆ "-infNa".toList := by decide
  have hbody : ∀ body, WellFormed body ∨ body = "inf".toList →
      ∀ c ∈ body, isNumeral c = true ∨ c ∈ "-infNa".toList := by
    rintro body (hform | rfl) c hc
    · exact .inl (isNumeral_of_wellFormed hform c hc)
    · exact .inr (hinf hc)
  cases h with
  | unsigned h => exact hbody _ h
  | negative h => exact List.forall_mem_cons.2 ⟨.inr (by decide), hbody _ h⟩
  | nan => exact fun c hc => .inr (hnan hc)

end Decimal

/-- A value is reported as a printed double, the two zeros alike. -/
theorem Report.printed_number (r : Report) (value : Float) :
    Decimal.Printed (r.number value).toList := by
  unfold Report.number
  cases r.decimals with
  | none => exact Decimal.printed_text _
  | some places => exact Decimal.printed_fixed places _

end Calculator
