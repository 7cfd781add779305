import Calculator.Proofs.Decimal.Printed
import Calculator.Proofs.Decimal.Shortest
import Calculator.Proofs.Delimiter
import Calculator.Proofs.Unpacked

/-!
# Texts tell doubles apart

Two doubles with the same shortest text are the same double, the zeros and the
infinities included; only NaNs cannot be told apart (`text_inj`).  The minus tells the
sign, `inf` is no numeral, and a numeral reads back as the magnitude that it was
printed from.
-/

namespace Calculator.Decimal

open Alphabet (isNumeral)
open Binary64 (infinite isNegative magnitude magnitude_lt_infinite magnitude_of_isInf
  magnitude_ofMagnitude)
open Text (append_inj_of_head?)
open Token (isNumeral_of_wellFormed)

variable {x y : Float}

theorem minus_not_mem_unsignedText (x : Float) : '-' ∉ unsignedText x := by
  intro hmem
  rw [unsignedText] at hmem
  split at hmem
  · exact absurd hmem (by decide)
  · cases isNumeral_of_wellFormed (wellFormed_shortestText _) _ hmem

theorem shortestText_inj {m n : Nat} (hm : m < infinite) (hn : n < infinite)
    (h : shortestText m = shortestText n) : m = n := by
  obtain ⟨numeral, hread, hvalue⟩ := exists_read?_shortestText hm
  obtain ⟨numeral', hread', hvalue'⟩ := exists_read?_shortestText hn
  obtain rfl : numeral = numeral' := by
    rw [h, hread'] at hread
    exact (Option.some.inj hread).symm
  rw [← magnitude_ofMagnitude hm, ← magnitude_ofMagnitude hn, ← hvalue, ← hvalue']

theorem shortestText_ne_inf (m : Nat) : shortestText m ≠ "inf".toList := by
  intro h
  have hmem : 'i' ∈ shortestText m := by
    rw [h]
    decide
  cases isNumeral_of_wellFormed (wellFormed_shortestText m) _ hmem

theorem magnitude_eq_of_unsignedText (hx : x.isNaN = false) (hy : y.isNaN = false)
    (h : unsignedText x = unsignedText y) : magnitude x = magnitude y := by
  have hlt : ∀ {z : Float}, z.isNaN = false → z.isInf = false → magnitude z < infinite :=
    fun hnan hinf => magnitude_lt_infinite (Binary64.isFinite_of_isNaN_isInf hnan hinf)
  unfold unsignedText at h
  cases hxinf : x.isInf with
  | true =>
      rw [hxinf, if_pos rfl] at h
      cases hyinf : y.isInf with
      | true => rw [magnitude_of_isInf hxinf, magnitude_of_isInf hyinf]
      | false =>
          rw [hyinf, if_neg Bool.false_ne_true] at h
          exact absurd h.symm (shortestText_ne_inf _)
  | false =>
      rw [hxinf, if_neg Bool.false_ne_true] at h
      cases hyinf : y.isInf with
      | true =>
          rw [hyinf, if_pos rfl] at h
          exact absurd h (shortestText_ne_inf _)
      | false =>
          rw [hyinf, if_neg Bool.false_ne_true] at h
          exact shortestText_inj (hlt hx hxinf) (hlt hy hyinf) h

/-- Doubles with the same text are the same, NaNs excepted. -/
theorem text_inj (hx : x.isNaN = false) (hy : y.isNaN = false) (h : text x = text y) : x = y := by
  have hlist := congrArg String.toList h
  rw [toList_text hx, toList_text hy] at hlist
  have hminus : ∀ z : Float, ∀ c ∈ (if isNegative z then ['-'] else []), (c == '-') = true := by
    intro z
    cases isNegative z <;> simp
  have hbody : ∀ z : Float, ∀ c ∈ (unsignedText z).head?, (c == '-') = false := by
    intro z c hc
    rw [beq_eq_false_iff_ne]
    rintro rfl
    exact minus_not_mem_unsignedText z (List.mem_of_mem_head? hc)
  obtain ⟨hsigns, hbodies⟩ :=
    append_inj_of_head? (hminus x) (hminus y) (hbody x) (hbody y) hlist
  have hsign : isNegative x = isNegative y := by
    cases hxsign : isNegative x <;> cases hysign : isNegative y <;>
      simp [hxsign, hysign] at hsigns ⊢
  exact Binary64.eq_of_magnitude_eq hsign (magnitude_eq_of_unsignedText hx hy hbodies)

/-- The characters that printed doubles are made of. -/
def isPrinted (c : Char) : Bool :=
  isNumeral c || "-infNa".toList.contains c

theorem isPrinted_of_mem_text (x : Float) : ∀ c ∈ (text x).toList, isPrinted c = true := by
  intro c hc
  rw [isPrinted, Bool.or_eq_true, List.contains_iff_mem]
  exact (printed_text x).mem c hc

end Calculator.Decimal
