import Mathlib.Data.List.Infix
import Calculator.Proofs.Decimal.Printed
import Calculator.Proofs.Delimiter

/-!
# Reports inside markup

A report in HTML is a frame with two places, one for the text of the expression
and one for the value or the message.  What stands there is inert: it opens no
tag, closes no quotation, and holds an ampersand only as the first character of
an entity.  The entities are undone in one pass from left to right
(`Text.unescape_escape`), so that the frame and the two texts can be told from
the report.
-/

namespace Calculator

namespace Text

/-! ## Entities -/

/-- The entities, each written out in full. -/
def entities : List (List Char) :=
  ["&amp;".toList, "&lt;".toList, "&gt;".toList, "&quot;".toList, "&#039;".toList]

/-- A text without its entities, replaced from left to right in one pass. -/
def unescapeChars : List Char → List Char
  | '&' :: 'a' :: 'm' :: 'p' :: ';' :: rest => '&' :: unescapeChars rest
  | '&' :: 'l' :: 't' :: ';' :: rest => '<' :: unescapeChars rest
  | '&' :: 'g' :: 't' :: ';' :: rest => '>' :: unescapeChars rest
  | '&' :: 'q' :: 'u' :: 'o' :: 't' :: ';' :: rest => '"' :: unescapeChars rest
  | '&' :: '#' :: '0' :: '3' :: '9' :: ';' :: rest => '\'' :: unescapeChars rest
  | c :: rest => c :: unescapeChars rest
  | [] => []

/-- A text without its entities. -/
def unescape (text : String) : String :=
  String.ofList (unescapeChars text.toList)

/-- The characters that open or close a tag or a quotation. -/
def delimiters : List Char :=
  ['<', '>', '"', '\'']

/-- No character of the text has a meaning of its own in markup. -/
structure Inert (text : List Char) : Prop where
  delimiter : ∀ c ∈ text, c ∉ delimiters
  ampersand : ∀ before after, text = before ++ '&' :: after →
    ∃ entity ∈ entities, entity <+: '&' :: after

/-! ## What is escaped is inert -/

theorem Inert.append {text text' : List Char} (h : Inert text) (h' : Inert text') :
    Inert (text ++ text') := by
  refine ⟨List.forall_mem_append.2 ⟨h.delimiter, h'.delimiter⟩, fun before after heq => ?_⟩
  rcases List.append_eq_append_iff.1 heq with ⟨middle, -, hmiddle⟩ | ⟨middle, htext, hmiddle⟩
  · exact h'.ampersand middle after hmiddle
  · -- an ampersand of the first part begins an entity in that part already
    cases middle with
    | nil => exact h'.ampersand [] after hmiddle.symm
    | cons c middle =>
        obtain ⟨rfl, rfl⟩ := List.cons.inj hmiddle
        obtain ⟨entity, hentity, hbegins⟩ := h.ampersand before middle htext
        exact ⟨entity, hentity, hbegins.trans (List.prefix_append ('&' :: middle) text')⟩

theorem inert_of_plain {text : List Char} (h : ∀ c ∈ text, c ∉ '&' :: delimiters) :
    Inert text := by
  refine ⟨fun c hc hmem => h c hc (List.mem_cons_of_mem _ hmem), ?_⟩
  rintro before after rfl
  exact absurd List.mem_cons_self (h '&' (by simp))

theorem inert_of_entity {entity : List Char} (h : entity ∈ entities) : Inert entity := by
  refine ⟨?_, fun before after heq => ?_⟩
  · have hplain : entities.all fun entity => entity.all fun c => !delimiters.contains c := by
      decide
    simpa using List.all_eq_true.1 hplain entity h
  · cases before with
    | nil => exact ⟨entity, h, heq ▸ List.prefix_rfl⟩
    | cons c before =>
        have hsingle : ∀ entity ∈ entities, '&' ∉ entity.tail := by decide
        refine absurd ?_ (hsingle entity h)
        rw [heq]
        simp

theorem inert_escapeChar (c : Char) : Inert (escapeChar c) := by
  unfold escapeChar
  split
  case h_6 hamp hlt hgt hquote hapostrophe =>
    exact inert_of_plain (by simpa [delimiters] using ⟨hamp, hlt, hgt, hquote, hapostrophe⟩)
  all_goals exact inert_of_entity (by decide)

theorem inert_escape (text : String) : Inert (escape text).toList := by
  rw [escape, String.toList_ofList]
  induction text.toList with
  | nil => exact inert_of_plain nofun
  | cons c rest ih => exact (inert_escapeChar c).append ih

/-! ## What is escaped is found again -/

theorem unescapeChars_cons {c : Char} (hc : c ≠ '&') (rest : List Char) :
    unescapeChars (c :: rest) = c :: unescapeChars rest := by
  conv_lhs => unfold unescapeChars
  split <;> simp_all

theorem unescapeChars_escapeChar (c : Char) (rest : List Char) :
    unescapeChars (escapeChar c ++ rest) = c :: unescapeChars rest := by
  unfold escapeChar
  split
  case h_6 hamp _ _ _ _ => exact unescapeChars_cons hamp rest
  all_goals rfl

theorem unescape_escape (text : String) : unescape (escape text) = text := by
  have hchars : ∀ chars : List Char, unescapeChars (chars.flatMap escapeChar) = chars := by
    intro chars
    induction chars with
    | nil => rfl
    | cons c rest ih => rw [List.flatMap_cons, unescapeChars_escapeChar, ih]
  rw [unescape, escape, String.toList_ofList, hchars, String.ofList_toList]

-- one pass: what it puts into the text is not looked at again
example : unescape "&amp;lt;" = "&lt;" := by
  decide +kernel

theorem escape_injective {text text' : String} (h : escape text = escape text') : text = text' := by
  rw [← unescape_escape text, h, unescape_escape]

end Text

/-! ## Reports -/

namespace Report

open Text (Inert append_cons_inj escape inert_escape unescape unescape_escape)

/-- The report without markup: the text of the value, or the message. -/
def told (r : Report) : Except Failure Float → Except String String
  | .ok value => .ok (r.number value)
  | .error failure => .error failure.message

/-- The frame around the text of the expression and the text of the value or the message. -/
def fragment (source : String) (shown : Except String String) : String :=
  "<div class=\"expression\">" ++ source ++ "</div>" ++
    match shown with
    | .ok text => "<div class=\"result\"><strong>Result:</strong> " ++ text ++ "</div>"
    | .error text => "<div class=\"error\"><strong>Error:</strong> " ++ text ++ "</div>"

/-- A value needs no escaping, a message does. -/
def escapeTold : Except String String → Except String String
  | .ok text => .ok text
  | .error text => .error (escape text)

theorem render_html {r : Report} (hhtml : r.html = true) (source : String)
    (result : Except Failure Float) :
    r.render source result = fragment (escape source) (escapeTold (r.told result)) := by
  unfold render
  rw [if_pos hhtml]
  cases result <;> rfl

/-- A printed double has no character with a meaning in markup. -/
theorem inert_number (r : Report) (value : Float) : Inert (r.number value).toList := by
  have hmarkup : ('&' :: Text.delimiters).all fun c =>
      !Alphabet.isNumeral c && !"-infNa".toList.contains c := by
    decide
  refine Text.inert_of_plain fun c hc hmem => ?_
  have hplain := List.all_eq_true.1 hmarkup c hmem
  rw [Bool.and_eq_true, Bool.not_eq_true', Bool.not_eq_true'] at hplain
  rcases (r.printed_number value).mem c hc with hc | hc
  · rw [hplain.1] at hc
    cases hc
  · rw [List.contains_iff_mem.2 hc] at hplain
    cases hplain.2

/-- What stands behind the first bracket after the text of the expression. -/
def behind : Except String String → List Char
  | .ok text =>
      "/div><div class=\"".toList ++
        'r' :: ("esult\"><strong>Result:</strong> ".toList ++ (text.toList ++ "</div>".toList))
  | .error text =>
      "/div><div class=\"".toList ++
        'e' :: ("rror\"><strong>Error:</strong> ".toList ++ (text.toList ++ "</div>".toList))

theorem toList_resultFrame :
    "</div>".toList ++ "<div class=\"result\"><strong>Result:</strong> ".toList =
      '<' :: ("/div><div class=\"".toList ++
        'r' :: "esult\"><strong>Result:</strong> ".toList) := by
  decide +kernel

theorem toList_errorFrame :
    "</div>".toList ++ "<div class=\"error\"><strong>Error:</strong> ".toList =
      '<' :: ("/div><div class=\"".toList ++
        'e' :: "rror\"><strong>Error:</strong> ".toList) := by
  decide +kernel

theorem toList_fragment (source : String) (shown : Except String String) :
    (fragment source shown).toList =
      "<div class=\"expression\">".toList ++ (source.toList ++ '<' :: behind shown) := by
  have happend : ∀ a b c d e f : String, (a ++ b ++ c ++ (d ++ e ++ f)).toList =
      a.toList ++ (b.toList ++ ((c.toList ++ d.toList) ++ (e.toList ++ f.toList))) := by
    simp
  have hassoc : ∀ (front back rest : List Char) (c : Char),
      '<' :: (front ++ c :: back) ++ rest = '<' :: (front ++ c :: (back ++ rest)) := by
    simp
  unfold fragment behind
  cases shown with
  | ok text => rw [happend, toList_resultFrame, hassoc]
  | error text => rw [happend, toList_errorFrame, hassoc]

/-- What stands in one place of a frame can be told from the frame. -/
theorem text_of_frame_eq {front label close : List Char} {c d : Char} {text text' : String}
    (h : front ++ c :: (label ++ (text.toList ++ close)) =
      front ++ d :: (label ++ (text'.toList ++ close))) : text = text' := by
  have htail := (List.cons.inj (List.append_cancel_left h)).2
  exact String.toList_inj.1 (List.append_cancel_right (List.append_cancel_left htail))

/-- The kind of a frame shows in its first letter that is not common to both kinds. -/
theorem behind_ok_ne_error (text text' : String) : behind (.ok text) ≠ behind (.error text') := by
  intro h
  have hletter := (List.cons.inj (List.append_cancel_left h)).1
  exact absurd hletter (by decide)

theorem behind_injective {shown shown' : Except String String} (h : behind shown = behind shown') :
    shown = shown' := by
  cases shown with
  | ok text =>
      cases shown' with
      | ok text' => rw [text_of_frame_eq h]
      | error text' => exact absurd h (behind_ok_ne_error text text')
  | error text =>
      cases shown' with
      | ok text' => exact absurd h.symm (behind_ok_ne_error text' text)
      | error text' => rw [text_of_frame_eq h]

theorem fragment_inj {source source' : String} {shown shown' : Except String String}
    (hsource : Inert source.toList) (hsource' : Inert source'.toList)
    (h : fragment source shown = fragment source' shown') : source = source' ∧ shown = shown' := by
  have hlt : '<' ∉ source.toList := fun hmem => hsource.delimiter _ hmem (by decide)
  have hlt' : '<' ∉ source'.toList := fun hmem => hsource'.delimiter _ hmem (by decide)
  have hlist := congrArg String.toList h
  rw [toList_fragment, toList_fragment] at hlist
  obtain ⟨hfront, hback⟩ := append_cons_inj hlt hlt' (List.append_cancel_left hlist)
  exact ⟨String.toList_inj.1 hfront, behind_injective hback⟩

theorem escapeTold_injective {shown shown' : Except String String}
    (h : escapeTold shown = escapeTold shown') : shown = shown' := by
  cases shown with
  | ok text =>
      cases shown' with
      | ok text' => exact h
      | error text' => cases h
  | error text =>
      cases shown' with
      | ok text' => cases h
      | error text' => rw [Text.escape_injective (Except.error.inj h)]

/-- The two texts in the frame are inert, and they are the escaped texts of the expression and of
the value or the message.  Two reports agree only if they tell the same of the same expression. -/
theorem html_is_inert_and_faithful (decimals decimals' : Option Nat) (source source' : String)
    (result result' : Except Failure Float) :
    (∃ echo text : String, Inert echo.toList ∧ Inert text.toList ∧ unescape echo = source ∧
      match result with
      | .ok value =>
          text = number ⟨decimals, true⟩ value ∧
            render ⟨decimals, true⟩ source result = fragment echo (.ok text)
      | .error failure =>
          unescape text = failure.message ∧
            render ⟨decimals, true⟩ source result = fragment echo (.error text)) ∧
    (render ⟨decimals, true⟩ source result = render ⟨decimals', true⟩ source' result' ↔
      source = source' ∧ told ⟨decimals, true⟩ result = told ⟨decimals', true⟩ result') := by
  have hrender : ∀ decimals source result, render ⟨decimals, true⟩ source result =
      fragment (escape source) (escapeTold (told ⟨decimals, true⟩ result)) :=
    fun decimals => render_html rfl
  constructor
  · cases result with
    | ok value =>
        exact ⟨escape source, number ⟨decimals, true⟩ value, inert_escape source,
          inert_number _ value, unescape_escape source, rfl, hrender decimals source (.ok value)⟩
    | error failure =>
        exact ⟨escape source, escape failure.message, inert_escape source, inert_escape _,
          unescape_escape source, unescape_escape _, hrender decimals source (.error failure)⟩
  · rw [hrender, hrender]
    constructor
    · intro h
      obtain ⟨hescaped, hshown⟩ := fragment_inj (inert_escape source) (inert_escape source') h
      exact ⟨Text.escape_injective hescaped, escapeTold_injective hshown⟩
    · rintro ⟨rfl, htold⟩
      rw [htold]

end Report

end Calculator
