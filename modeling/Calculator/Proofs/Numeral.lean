import Mathlib.Data.List.TakeDrop
import Mathlib.Data.List.TakeWhile
import Calculator.Numeral

/-!
# Which texts are numerals

A numeral is one or more digits, optionally followed by a dot and one or more
digits: `[0-9]+(\.[0-9]+)?`.  `Numeral.WellFormed` says this of a text without a
reader, and `Numeral.read?` takes apart exactly these texts.
-/

namespace Calculator.Numeral

/-- A text of decimal digits, at least one. -/
def Digits (text : List Char) : Prop :=
  text ≠ [] ∧ ∀ c ∈ text, c.isDigit = true

/-- A text of the form `[0-9]+(\.[0-9]+)?`. -/
inductive WellFormed : List Char → Prop
  | whole {digits : List Char} (hdigits : Digits digits) : WellFormed digits
  | pointed {whole fraction : List Char} (hwhole : Digits whole) (hfraction : Digits fraction) :
      WellFormed (whole ++ '.' :: fraction)

theorem isDigits_iff (text : List Char) : isDigits text = true ↔ Digits text := by
  simp [isDigits, Digits]

theorem Digits.ne_dot {digits : List Char} (hdigits : Digits digits) :
    ∀ c ∈ digits, (c != '.') = true := by
  intro c hc
  rw [bne_iff_ne]
  rintro rfl
  cases hdigits.2 _ hc

theorem span_digits {digits : List Char} (hdigits : Digits digits) :
    digits.span (· != '.') = (digits, []) := by
  rw [List.span_eq_takeWhile_dropWhile, List.takeWhile_eq_self_iff.2 hdigits.ne_dot,
    List.dropWhile_eq_nil_iff.2 hdigits.ne_dot]

theorem span_pointed {digits : List Char} (hdigits : Digits digits) (fraction : List Char) :
    (digits ++ '.' :: fraction).span (· != '.') = (digits, '.' :: fraction) := by
  rw [List.span_eq_takeWhile_dropWhile, List.takeWhile_append_of_pos hdigits.ne_dot,
    List.dropWhile_append_of_pos hdigits.ne_dot]
  simp

theorem read?_digits {digits : List Char} (hdigits : Digits digits) :
    read? digits = some ⟨digits, []⟩ := by
  rw [read?, span_digits hdigits]
  exact if_pos ((isDigits_iff _).2 hdigits)

theorem read?_pointed {whole fraction : List Char} (hwhole : Digits whole)
    (hfraction : Digits fraction) : read? (whole ++ '.' :: fraction) = some ⟨whole, fraction⟩ := by
  rw [read?, span_pointed hwhole]
  exact if_pos (by simp [isDigits_iff, hwhole, hfraction])

/-- What is taken apart is put together again. -/
theorem wellFormed_of_read? {text : List Char} {numeral : Numeral}
    (h : read? text = some numeral) : WellFormed text := by
  have happend : (text.span (· != '.')).1 ++ (text.span (· != '.')).2 = text := by
    rw [List.span_eq_takeWhile_dropWhile]
    exact List.takeWhile_append_dropWhile
  have hdot : ∀ c ∈ (text.span (· != '.')).2.head?, c = '.' := by
    rw [List.span_eq_takeWhile_dropWhile]
    intro c hc
    have hstop := List.head?_dropWhile_not (· != '.') text
    rw [Option.mem_def.1 hc] at hstop
    simpa using hstop
  rw [read?] at h
  generalize text.span (· != '.') = parts at h happend hdot
  obtain ⟨whole, rest⟩ := parts
  cases rest with
  | nil =>
      dsimp only at h happend
      split at h
      · next hdigits =>
          rw [List.append_nil] at happend
          exact happend ▸ .whole ((isDigits_iff _).1 hdigits)
      · cases h
  | cons c fraction =>
      dsimp only at h happend
      obtain rfl : c = '.' := hdot c rfl
      split at h
      · next hdigits =>
          rw [Bool.and_eq_true, isDigits_iff, isDigits_iff] at hdigits
          exact happend ▸ .pointed hdigits.1 hdigits.2
      · cases h

theorem read?_eq_none_iff (text : List Char) : read? text = none ↔ ¬ WellFormed text := by
  constructor
  · rintro hnone (hdigits | ⟨hwhole, hfraction⟩)
    · cases hnone.symm.trans (read?_digits hdigits)
    · cases hnone.symm.trans (read?_pointed hwhole hfraction)
  · intro hform
    rw [Option.eq_none_iff_forall_ne_some]
    exact fun numeral hread => hform (wellFormed_of_read? hread)

end Calculator.Numeral
