import Calculator.Failure
import Calculator.Proofs.Delimiter

/-!
# Messages tell failures apart

The message of a failure determines it (`message_inj`), although what it repeats from
a text may be any text, pieces of messages among them.

A message begins with words that belong to the kind of the failure and go on for none
of the other kinds (`opening_unique`).  Behind them the fields can be found one
by one: a number ends at the first character that is no digit, and what is repeated
from a text ends where the mark before the last number stands, counted from the right.
-/

namespace Calculator.Failure

open Text (append_cons_inj_right append_inj_of_head?)

/-! ## How a message begins -/

/-- The words that every message about failures of one kind begins with. -/
def opening : Failure → String
  | foreignCharacter .. => "Invalid character '"
  | malformedNumeral .. => "Malformed number '"
  | unexpected .. => "Unexpected "
  | unbalanced _ => "Unbalanced parentheses at position "
  | emptyExpression => "Empty expression."
  | divisionByZero => "Division by zero."
  | notFinite => "Result must be a finite number."
  | tooLong .. => "Expression is too long ("
  | tooDeep .. => "Expression nested too deeply at position "

/-- What a message says behind its opening. -/
def details : Failure → String
  | foreignCharacter character position =>
      character.toString ++ ("' at position " ++ (toString position ++
        ". Only numbers and basic operators (+, -, *, /, parentheses) are allowed."))
  | malformedNumeral numeral position =>
      numeral ++ ("' at position " ++ (toString position ++ "."))
  | unexpected found position => found ++ (" at position " ++ (toString position ++ "."))
  | unbalanced position => toString position ++ "."
  | emptyExpression | divisionByZero | notFinite => ""
  | tooLong length limit =>
      toString length ++ (" characters, at most " ++ (toString limit ++ " allowed)."))
  | tooDeep limit position =>
      toString position ++ (" (at most " ++ (toString limit ++ " levels allowed)."))

theorem message_eq (failure : Failure) : failure.message = failure.opening ++ failure.details := by
  unfold message opening details
  cases failure <;> simp only [String.append_assoc, String.append_empty]

/-- The openings of all messages. -/
def openings : List String :=
  ["Invalid character '", "Malformed number '", "Unexpected ",
    "Unbalanced parentheses at position ", "Empty expression.", "Division by zero.",
    "Result must be a finite number.", "Expression is too long (",
    "Expression nested too deeply at position "]

theorem opening_mem (failure : Failure) : failure.opening ∈ openings := by
  cases failure <;> simp [opening, openings]

/-- No opening is the beginning of another one. -/
theorem opening_unique {a b : String} (ha : a ∈ openings) (hb : b ∈ openings)
    (h : a.toList <+: b.toList) : a = b := by
  have hall : ∀ a ∈ openings, ∀ b ∈ openings, a.toList <+: b.toList → a = b := by decide
  exact hall a ha b hb h

/-! ## Numbers in a message -/

section Numbers

variable {m n : Nat} {text text' : List Char}

theorem isDigit_of_mem_toString (n : Nat) : ∀ c ∈ (toString n).toList, c.isDigit = true := by
  intro c hc
  have hdigits : c ∈ Nat.toDigits 10 n := by
    rwa [← Nat.toList_repr]
  exact Nat.isDigit_of_mem_toDigits (by decide) (by decide) hdigits

theorem eq_of_toString_eq (h : (toString m).toList = (toString n).toList) : m = n := by
  have hdigits : Nat.toDigits 10 m = Nat.toDigits 10 n := by
    rwa [← Nat.toList_repr, ← Nat.toList_repr]
  rw [← @Nat.ofDigitChars_ten_toDigits m, hdigits, Nat.ofDigitChars_ten_toDigits]

/-- A number ends where no digit follows. -/
theorem number_append_inj (htext : ∀ c ∈ text.head?, c.isDigit = false)
    (htext' : ∀ c ∈ text'.head?, c.isDigit = false)
    (h : (toString m).toList ++ text = (toString n).toList ++ text') : m = n ∧ text = text' := by
  obtain ⟨hnumber, hrest⟩ := append_inj_of_head? (isDigit_of_mem_toString m)
    (isDigit_of_mem_toString n) htext htext' h
  exact ⟨eq_of_toString_eq hnumber, hrest⟩

/-- Two numbers with words between them. -/
theorem numbers_append_inj {m' n' : Nat} {words close : List Char}
    (hwords : ∃ c ∈ words.head?, c.isDigit = false) (hclose : ∀ c ∈ close.head?, c.isDigit = false)
    (h : (toString m).toList ++ (words ++ ((toString n).toList ++ close)) =
      (toString m').toList ++ (words ++ ((toString n').toList ++ close))) : m = m' ∧ n = n' := by
  obtain ⟨c, hc, hdigit⟩ := hwords
  have hnext : ∀ text : List Char, ∀ d ∈ (words ++ text).head?, d.isDigit = false := by
    intro text d hd
    rw [List.head?_append, Option.mem_def.1 hc] at hd
    cases hd
    exact hdigit
  obtain ⟨hfirst, hrest⟩ := number_append_inj (hnext _) (hnext _) h
  exact ⟨hfirst, (number_append_inj hclose hclose (List.append_cancel_left hrest)).1⟩

/-- Before the last number of a message stands a space, and the number holds none. -/
theorem append_number_inj {mark close : List Char} (hmark : mark.getLast? = some ' ')
    (h : text ++ (mark ++ ((toString m).toList ++ close)) =
      text' ++ (mark ++ ((toString n).toList ++ close))) : text = text' ∧ m = n := by
  have hspace : ∀ n : Nat, ' ' ∉ (toString n).toList := by
    intro n hmem
    cases isDigit_of_mem_toString n ' ' hmem
  obtain ⟨before, rfl⟩ := List.getLast?_eq_some_iff.1 hmark
  have hopen : (text ++ before) ++ ' ' :: (toString m).toList =
      (text' ++ before) ++ ' ' :: (toString n).toList := by
    refine List.append_cancel_right (?_ : _ ++ close = _ ++ close)
    simpa using h
  obtain ⟨htext, hnumber⟩ := append_cons_inj_right (hspace m) (hspace n) hopen
  exact ⟨List.append_cancel_right htext, eq_of_toString_eq hnumber⟩

end Numbers

/-! ## The message as a whole -/

/-- Failures of one kind are told apart by what their messages say behind the opening. -/
theorem eq_of_details_eq {f g : Failure} (hopening : f.opening = g.opening)
    (h : f.details = g.details) : f = g := by
  have hlist := congrArg String.toList h
  unfold details at hlist
  cases f with
  | foreignCharacter c position =>
      cases g with
      | foreignCharacter c' position' =>
          simp only [String.toList_append] at hlist
          obtain ⟨hc, rfl⟩ := append_number_inj (by simp) hlist
          obtain rfl : c = c' := by simpa using hc
          rfl
      | _ => simp [opening] at hopening
  | malformedNumeral numeral position =>
      cases g with
      | malformedNumeral numeral' position' =>
          simp only [String.toList_append] at hlist
          obtain ⟨hnumeral, rfl⟩ := append_number_inj (by simp) hlist
          rw [String.toList_inj.1 hnumeral]
      | _ => simp [opening] at hopening
  | unexpected found position =>
      cases g with
      | unexpected found' position' =>
          simp only [String.toList_append] at hlist
          obtain ⟨hfound, rfl⟩ := append_number_inj (by simp) hlist
          rw [String.toList_inj.1 hfound]
      | _ => simp [opening] at hopening
  | unbalanced position =>
      cases g with
      | unbalanced position' =>
          simp only [String.toList_append] at hlist
          obtain ⟨rfl, -⟩ := number_append_inj (by simp) (by simp) hlist
          rfl
      | _ => simp [opening] at hopening
  | emptyExpression =>
      cases g with
      | emptyExpression => rfl
      | _ => simp [opening] at hopening
  | divisionByZero =>
      cases g with
      | divisionByZero => rfl
      | _ => simp [opening] at hopening
  | notFinite =>
      cases g with
      | notFinite => rfl
      | _ => simp [opening] at hopening
  | tooLong length limit =>
      cases g with
      | tooLong length' limit' =>
          simp only [String.toList_append] at hlist
          obtain ⟨rfl, rfl⟩ := numbers_append_inj (by simp) (by simp) hlist
          rfl
      | _ => simp [opening] at hopening
  | tooDeep limit position =>
      cases g with
      | tooDeep limit' position' =>
          simp only [String.toList_append] at hlist
          obtain ⟨rfl, rfl⟩ := numbers_append_inj (by simp) (by simp) hlist
          rfl
      | _ => simp [opening] at hopening

/-- Failures with the same message are the same failure. -/
theorem message_inj {f g : Failure} : f.message = g.message ↔ f = g := by
  refine ⟨fun h => ?_, congrArg message⟩
  have hlist := congrArg String.toList h
  rw [message_eq, message_eq, String.toList_append, String.toList_append] at hlist
  have hopening : f.opening = g.opening := by
    have hbegins := List.prefix_append f.opening.toList f.details.toList
    rw [hlist] at hbegins
    rcases List.prefix_or_prefix_of_prefix hbegins (List.prefix_append _ _) with h | h
    · exact opening_unique (opening_mem f) (opening_mem g) h
    · exact (opening_unique (opening_mem g) (opening_mem f) h).symm
  rw [hopening] at hlist
  exact eq_of_details_eq hopening (String.toList_inj.1 (List.append_cancel_left hlist))

-- what is repeated may hold the end of a message itself
example : message (.unexpected "'1' at position 3.'" 7) ≠ message (.unexpected "'1'" 3) := by
  decide

end Calculator.Failure
