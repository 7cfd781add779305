import Calculator.Proofs.Decimal.Printed
import Calculator.Proofs.Location
import Calculator.Proofs.Message

/-!
# Reports are single lines

The report on an expression without a newline has no newline either
(`oneLine_render`).  A message could bring one in only with what it quotes, and
that is part of the expression; values, positions and limits are written with
digits and a few letters.
-/

namespace Calculator

open Failure (endOfInput quoted)
open Text (dropBlanks escape escapeChar isBlank)

/-- A text without a newline. -/
def OneLine (text : String) : Prop :=
  '\n' ∉ text.toList

namespace OneLine

instance (text : String) : Decidable (OneLine text) :=
  inferInstanceAs (Decidable ('\n' ∉ text.toList))

variable {text text' : String}

theorem append_iff : OneLine (text ++ text') ↔ OneLine text ∧ OneLine text' := by
  unfold OneLine
  rw [String.toList_append, List.mem_append, not_or]

theorem ofList {chars : List Char} (h : '\n' ∉ chars) : OneLine (String.ofList chars) := by
  rwa [OneLine, String.toList_ofList]

theorem escape (h : OneLine text) : OneLine (escape text) := by
  refine ofList fun hmem => ?_
  obtain ⟨c, hc, hnewline⟩ := List.mem_flatMap.1 hmem
  -- no entity has a newline, so that it comes from a newline of the text
  have hcnewline : c = '\n' := by
    unfold escapeChar at hnewline
    split at hnewline
    case h_6 => exact (List.mem_singleton.1 hnewline).symm
    all_goals exact absurd hnewline (by decide)
  exact h (hcnewline ▸ hc)

end OneLine

/-! ## Parts of a report -/

theorem oneLine_toString (n : Nat) : OneLine (toString n) := by
  intro hmem
  cases Failure.isDigit_of_mem_toString n _ hmem

theorem oneLine_singleton {c : Char} (hc : c ≠ '\n') : OneLine c.toString := by
  simpa [OneLine] using hc.symm

theorem oneLine_quoted {lexeme : List Char} (h : '\n' ∉ lexeme) : OneLine (quoted lexeme) := by
  have hlexeme := OneLine.ofList h
  simp +decide only [quoted, OneLine.append_iff, hlexeme, and_self]

theorem Report.oneLine_number (r : Report) (value : Float) : OneLine (r.number value) := by
  intro hmem
  rcases (r.printed_number value).mem _ hmem with hnumeral | hword
  · cases hnumeral
  · exact absurd hword (by decide)

/-! ## Messages -/

/-- What a message repeats besides numbers is on one line. -/
def Failure.RepeatsOneLine : Failure → Prop
  | foreignCharacter c _ => c ≠ '\n'
  | malformedNumeral numeral _ => OneLine numeral
  | unexpected found _ => OneLine found
  | unbalanced _ | emptyExpression | divisionByZero | notFinite | tooLong .. | tooDeep .. => True

theorem Failure.RepeatsOneLine.oneLine_message {failure : Failure} (h : failure.RepeatsOneLine) :
    OneLine failure.message := by
  unfold Failure.message
  cases failure with
  | foreignCharacter c position =>
      simp +decide only [OneLine.append_iff, oneLine_singleton h, oneLine_toString, and_self]
  | malformedNumeral repeated position | unexpected repeated position =>
      have hrepeated : OneLine repeated := h
      simp +decide only [OneLine.append_iff, hrepeated, oneLine_toString, and_self]
  | _ => simp +decide only [OneLine.append_iff, oneLine_toString, and_self]

theorem Token.RunAt.mem {text run : List Char} {start : Nat} (h : Token.RunAt text start run)
    {c : Char} (hc : c ∈ run) : c ∈ text := by
  obtain ⟨before, after, rfl, -⟩ := h.maximal
  exact List.mem_append_right _ (List.mem_append_left _ hc)

/-- A failure that points at a place in a text repeats at most what stands there. -/
theorem PointsAt.repeatsOneLine {text : List Char} {position : Nat} {failure : Failure}
    (h : PointsAt text position failure) (htext : '\n' ∉ text) : failure.RepeatsOneLine := by
  cases h with
  | foreignCharacter hc hforeign =>
      rintro rfl
      exact htext (List.mem_of_getElem? hc)
  | malformedNumeral hrun hform =>
      exact .ofList fun hmem => htext (hrun.mem (List.mem_of_mem_filter hmem))
  | unexpectedSymbol hc hsymbol =>
      refine oneLine_quoted fun hmem => htext ?_
      rw [List.mem_singleton.1 hmem]
      exact List.mem_of_getElem? hc
  | unexpectedNumeral hrun => exact oneLine_quoted fun hmem => htext (hrun.mem hmem)
  | unexpectedEnd => exact (by decide : OneLine endOfInput)
  | unbalanced | tooDeep => exact trivial

section Evaluate

variable {limits : Limits} {source : String}

theorem oneLine_message_of_evaluate {failure : Failure} (hsource : OneLine source)
    (h : evaluate limits source = .error failure) : OneLine failure.message := by
  refine Failure.RepeatsOneLine.oneLine_message ?_
  cases hposition : failure.position? with
  | some position => exact (pointsAt_of_evaluate h hposition).repeatsOneLine hsource
  | none =>
      cases failure with
      | emptyExpression | divisionByZero | notFinite | tooLong => exact trivial
      | _ => cases hposition

/-- The report on a line is one line. -/
theorem oneLine_render (r : Report) (limits : Limits) (hsource : OneLine source) :
    OneLine (r.render source (evaluate limits source)) := by
  unfold Report.render
  cases hresult : evaluate limits source with
  | ok value =>
      split <;> simp +decide only [OneLine.append_iff, hsource.escape, r.oneLine_number, and_self]
  | error failure =>
      have hmessage := oneLine_message_of_evaluate hsource hresult
      split <;>
        simp +decide only [OneLine.append_iff, hsource.escape, hmessage, hmessage.escape, and_self]

end Evaluate

end Calculator
