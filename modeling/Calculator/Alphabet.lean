import Calculator.Text.Blank

/-!
# The alphabet of expressions

An expression is written with the ASCII digits, the dot, the four operators
and the two parentheses; blanks may stand anywhere.  Every other character is
foreign, digits of other scripts among them.  `firstForeign?` finds the
leftmost foreign character of a text.
-/

namespace Calculator.Alphabet

open Text (isBlank)

/-- Whether a character can be part of a numeral. -/
def isNumeral (c : Char) : Bool :=
  c.isDigit || c == '.'

/-- Whether a character carries meaning in an expression; blanks do not. -/
def isAllowed (c : Char) : Bool :=
  c.isDigit ||
    match c with
    | '+' | '-' | '*' | '/' | '(' | ')' | '.' => true
    | _ => false

/-- Whether a character may not stand in an expression at all. -/
def isForeign (c : Char) : Bool :=
  !isBlank c && !isAllowed c

/-- The leftmost foreign character of `text` with its position, where the first
character of `text` has position `start`. -/
def firstForeign? (start : Nat) : List Char → Option (Char × Nat)
  | [] => none
  | c :: rest => if isForeign c then some (c, start) else firstForeign? (start + 1) rest

theorem firstForeign?_eq_none_iff (start : Nat) (text : List Char) :
    firstForeign? start text = none ↔ ∀ c ∈ text, isForeign c = false := by
  induction text generalizing start with
  | nil => simp [firstForeign?]
  | cons c rest ih =>
      cases hc : isForeign c <;> simp [firstForeign?, hc, ih]

theorem firstForeign?_eq_some_iff (start : Nat) (text : List Char) (c : Char) (position : Nat) :
    firstForeign? start text = some (c, position) ↔
      ∃ before after, text = before ++ c :: after ∧ position = start + before.length ∧
        isForeign c = true ∧ ∀ x ∈ before, isForeign x = false := by
  induction text generalizing start with
  | nil => simp [firstForeign?]
  | cons x rest ih =>
      cases hx : isForeign x with
      | true =>
          simp only [firstForeign?, hx, if_true, Option.some.injEq, Prod.mk.injEq]
          constructor
          · rintro ⟨rfl, rfl⟩
            exact ⟨[], rest, rfl, rfl, hx, by simp⟩
          · rintro ⟨before, after, htext, hposition, hforeign, hbefore⟩
            cases before with
            | nil => simp_all
            | cons y ys =>
                have hy := hbefore y (by simp)
                simp_all
      | false =>
          simp only [firstForeign?, hx, Bool.false_eq_true, if_false, ih]
          constructor
          · rintro ⟨before, after, rfl, rfl, hforeign, hbefore⟩
            refine ⟨x :: before, after, rfl, by simp; omega, hforeign, ?_⟩
            intro y hy
            rcases List.mem_cons.1 hy with rfl | hy
            · exact hx
            · exact hbefore y hy
          · rintro ⟨before, after, htext, rfl, hforeign, hbefore⟩
            cases before with
            | nil => simp_all
            | cons y ys =>
                simp only [List.cons_append, List.cons.injEq] at htext
                obtain ⟨rfl, rfl⟩ := htext
                exact ⟨ys, after, rfl, by simp; omega, hforeign,
                  fun z hz => hbefore z (by simp [hz])⟩

end Calculator.Alphabet
