import Mathlib.Data.List.Forall2
import Calculator.Token.Scan

/-!
# Texts with and without their blanks

A text and the same text without its blanks are read side by side.  A position
in the second belongs to a position in the first (`rawIndex`), and a failure in
the one to a failure in the other (`Relocated`): the same cause, found at the
place that belongs to the place.  A lexeme that is quoted is quoted as it
stands in the text, with the blanks inside it.

`Agree` carries this through the stages of an evaluation.  What precedes the
part of the text that is still to be read is kept as a list of its own: its
length is the position in the text, and its length without blanks the position
in the other one.
-/

namespace Calculator.Text

/-- The position in `text` of its character number `k`, counting from 0 and counting no blanks; the
length of `text` if there is no such character. -/
def rawIndex : List Char → Nat → Nat
  | [], _ => 0
  | c :: rest, k =>
      if isBlank c then rawIndex rest k + 1
      else match k with
        | 0 => 0
        | k + 1 => rawIndex rest k + 1

/-- `RawSlice text start slice`: `slice` stands in `text` at `start` and does not end with a blank. -/
structure RawSlice (text : List Char) (start : Nat) (slice : List Char) : Prop where
  stands : slice <+: text.drop start
  last : ∀ c ∈ slice.getLast?, isBlank c = false

/-- `Relocated text failure failure'`: what a failure of `text` without its blanks is in `text`. -/
inductive Relocated (text : List Char) : Failure → Failure → Prop
  | foreignCharacter (c : Char) (k : Nat) :
      Relocated text (.foreignCharacter c k) (.foreignCharacter c (rawIndex text k))
  | malformedNumeral (numeral : String) (k : Nat) :
      Relocated text (.malformedNumeral numeral k) (.malformedNumeral numeral (rawIndex text k))
  | unexpected {slice : List Char} {k : Nat} (hslice : RawSlice text (rawIndex text k) slice) :
      Relocated text (.unexpected ("'" ++ String.ofList (dropBlanks slice) ++ "'") k)
        (.unexpected ("'" ++ String.ofList slice ++ "'") (rawIndex text k))
  | endOfInput (k : Nat) :
      Relocated text (.unexpected "end of input" k) (.unexpected "end of input" (rawIndex text k))
  | unbalanced (k : Nat) : Relocated text (.unbalanced k) (.unbalanced (rawIndex text k))
  | tooDeep (limit k : Nat) :
      Relocated text (.tooDeep limit k) (.tooDeep limit (rawIndex text k))
  | emptyExpression : Relocated text .emptyExpression .emptyExpression
  | divisionByZero : Relocated text .divisionByZero .divisionByZero
  | notFinite : Relocated text .notFinite .notFinite

/-- `Agree text r bare raw`: the result for `text` without its blanks and the result for `text`. -/
inductive Agree (text : List Char) {α β : Type} (r : α → β → Prop) :
    Except Failure α → Except Failure β → Prop
  | ok {a : α} {b : β} (h : r a b) : Agree text r (.ok a) (.ok b)
  | error {failure failure' : Failure} (h : Relocated text failure failure') :
      Agree text r (.error failure) (.error failure')

/-! ## Blanks -/

theorem dropBlanks_cons_of_blank {c : Char} (hc : isBlank c = true) (rest : List Char) :
    dropBlanks (c :: rest) = dropBlanks rest := by
  simp [dropBlanks, hc]

theorem dropBlanks_cons {c : Char} (hc : isBlank c = false) (rest : List Char) :
    dropBlanks (c :: rest) = c :: dropBlanks rest := by
  simp [dropBlanks, hc]

theorem dropBlanks_append (text text' : List Char) :
    dropBlanks (text ++ text') = dropBlanks text ++ dropBlanks text' :=
  List.filter_append ..

@[simp] theorem dropBlanks_dropBlanks (text : List Char) :
    dropBlanks (dropBlanks text) = dropBlanks text := by
  simp [dropBlanks]

theorem length_dropBlanks_le (text : List Char) : (dropBlanks text).length ≤ text.length :=
  List.length_filter_le _ _

/-! ## Positions -/

theorem rawIndex_cons_of_blank {c : Char} (hc : isBlank c = true) (rest : List Char) (k : Nat) :
    rawIndex (c :: rest) k = rawIndex rest k + 1 := by
  simp [rawIndex, hc]

theorem rawIndex_cons_zero {c : Char} (hc : isBlank c = false) (rest : List Char) :
    rawIndex (c :: rest) 0 = 0 := by
  simp [rawIndex, hc]

theorem rawIndex_cons_succ {c : Char} (hc : isBlank c = false) (rest : List Char) (k : Nat) :
    rawIndex (c :: rest) (k + 1) = rawIndex rest k + 1 := by
  simp [rawIndex, hc]

theorem rawIndex_append (before text : List Char) (k : Nat) :
    rawIndex (before ++ text) ((dropBlanks before).length + k) =
      before.length + rawIndex text k := by
  induction before with
  | nil => simp [dropBlanks]
  | cons c before ih =>
      cases hc : isBlank c with
      | true =>
          rw [dropBlanks_cons_of_blank hc, List.cons_append, rawIndex_cons_of_blank hc, ih,
            List.length_cons]
          omega
      | false =>
          rw [dropBlanks_cons hc, List.cons_append, List.length_cons, Nat.add_right_comm,
            rawIndex_cons_succ hc, ih, List.length_cons]
          omega

/-- The position of the next character, if it is no blank. -/
theorem rawIndex_here (before : List Char) {c : Char} (hc : isBlank c = false)
    (rest : List Char) :
    rawIndex (before ++ c :: rest) (dropBlanks before).length = before.length := by
  have h := rawIndex_append before (c :: rest) 0
  rwa [Nat.add_zero, rawIndex_cons_zero hc] at h

theorem rawIndex_length (text : List Char) :
    rawIndex text (dropBlanks text).length = text.length := by
  have h := rawIndex_append text [] 0
  rwa [List.append_nil, Nat.add_zero] at h

/-- Positions that belong together hold the same character. -/
theorem getElem?_rawIndex (text : List Char) (k : Nat) :
    text[rawIndex text k]? = (dropBlanks text)[k]? := by
  induction text generalizing k with
  | nil => rfl
  | cons c rest ih =>
      cases hc : isBlank c with
      | true =>
          rw [dropBlanks_cons_of_blank hc, rawIndex_cons_of_blank hc, List.getElem?_cons_succ, ih]
      | false =>
          rw [dropBlanks_cons hc]
          cases k with
          | zero => rw [rawIndex_cons_zero hc, List.getElem?_cons_zero, List.getElem?_cons_zero]
          | succ k =>
              rw [rawIndex_cons_succ hc, List.getElem?_cons_succ, List.getElem?_cons_succ, ih]

end Calculator.Text
