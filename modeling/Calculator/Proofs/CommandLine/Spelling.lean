import Calculator.CommandLine.Request
import Calculator.Proofs.CommandLine.Rules

/-!
# How an argument list is put together

An argument list of the command is a sequence of pieces: the argument for HTML, a setting
with its value, joined to it or as the next argument, and an expression.  It may end in `--`
with further texts, or in a setting that lacks its value.
-/

namespace Calculator.CommandLine

/-! ## Settings -/

/-- The settings of the command. -/
inductive Setting where
  | precision
  | html
  | maxLength
  | maxDepth
deriving DecidableEq

namespace Setting

/-- The argument that names a setting. -/
def name : Setting → String
  | precision => "--precision"
  | html => "--html"
  | maxLength => "--max-input-len"
  | maxDepth => "--max-depth"

/-- The text is a value of the setting and stands for the number. -/
def IsValue (n : Nat) (text : List Char) : Setting → Prop
  | precision => n ≤ 100 ∧ WritesNumber n text ∨ n = 0 ∧ WritesMinusZero text
  | maxLength | maxDepth => n < UInt64.size ∧ WritesNumber n text
  | html => False

theorem IsValue.ne_html {setting : Setting} {n : Nat} {text : List Char}
    (h : setting.IsValue n text) : setting ≠ .html := by
  rintro rfl
  exact h

/-- The value of a setting begins with a minus sign only if it is a precision of zero. -/
theorem IsValue.minus {setting : Setting} {n : Nat} {text : List Char}
    (h : setting.IsValue n text) (hminus : text.head? = some '-') :
    setting = .precision ∧ WritesMinusZero text := by
  have hnumber : ¬ WritesNumber n text := by
    obtain ⟨digits, rfl⟩ := List.head?_eq_some_iff.1 hminus
    exact not_writesNumber_minus
  cases setting with
  | precision => exact ⟨rfl, (h.resolve_left fun h => hnumber h.2).2⟩
  | maxLength | maxDepth => exact absurd h.2 hnumber
  | html => exact h.elim

/-- What the command declares a setting to be there for. -/
def use : Setting → Use
  | precision => .value (.upTo 100)
  | html => .flag
  | maxLength | maxDepth => .value .size

theorem mem_declaration (setting : Setting) : ⟨setting.name, setting.use⟩ ∈ declaration.named := by
  cases setting <;> decide

theorem isValue_iff_stands {setting : Setting} {type : ValueType} (h : setting.use = .value type)
    {n : Nat} {text : List Char} : setting.IsValue n text ↔ type.Stands n text := by
  cases setting with
  | html => cases h
  | precision | maxLength | maxDepth =>
      cases h
      exact Iff.rfl

/-- A setting that is no flag takes a value. -/
theorem exists_type {setting : Setting} (hsetting : setting ≠ .html) :
    ∃ type, setting.use = .value type := by
  cases setting with
  | html => exact absurd rfl hsetting
  | precision | maxLength | maxDepth => exact ⟨_, rfl⟩

/-- A text stands for one number at most. -/
theorem IsValue.unique {setting : Setting} {n m : Nat} {text : List Char}
    (hn : setting.IsValue n text) (hm : setting.IsValue m text) : n = m := by
  obtain ⟨type, htype⟩ := exists_type hn.ne_html
  rw [isValue_iff_stands htype, ← ValueType.read?_eq_some_iff] at hn hm
  exact Option.some.inj (hn.symm.trans hm)

theorem dashes_name (setting : Setting) : ['-', '-'] <+: setting.name.toList := by
  cases setting <;> decide

end Setting

/-- The names that the command declares are those of the settings. -/
theorem names_declaration_iff {text : String} :
    declaration.Names text ↔
      ∃ setting : Setting, text = setting.name ∨ ∃ value, text = setting.name ++ "=" ++ value := by
  constructor
  · rintro ⟨named, hmem, h⟩
    have hsetting : ∀ named ∈ declaration.named,
        ∃ setting : Setting, setting.name = named.name := by
      simp only [declaration, List.forall_mem_cons]
      exact ⟨⟨.precision, rfl⟩, ⟨.html, rfl⟩, ⟨.maxLength, rfl⟩, ⟨.maxDepth, rfl⟩, by simp⟩
    obtain ⟨setting, hname⟩ := hsetting named hmem
    exact ⟨setting, hname ▸ h⟩
  · rintro ⟨setting, h⟩
    exact ⟨_, setting.mem_declaration, h⟩

theorem dashes_of_names {text : String} (h : declaration.Names text) :
    ['-', '-'] <+: text.toList := by
  obtain ⟨setting, rfl | ⟨value, rfl⟩⟩ := names_declaration_iff.1 h
  · exact setting.dashes_name
  · rw [String.toList_append, String.toList_append, List.append_assoc]
    exact setting.dashes_name.trans (List.prefix_append _ _)

/-! ## Pieces -/

/-- A piece of an argument list. -/
inductive Piece where
  | html
  /-- A setting and its value, joined by `=`. -/
  | joined (setting : Setting) (value : String)
  /-- A setting, and its value as the next argument. -/
  | separate (setting : Setting) (value : String)
  | expression (text : String)

/-- What an argument list ends in. -/
inductive Ending where
  | nothing
  /-- The argument `--`, and everything behind it. -/
  | dashes (texts : List String)
  /-- A setting that lacks its value. -/
  | bare (setting : Setting)

/-- How an argument list is put together. -/
structure Spelling where
  pieces : List Piece
  ending : Ending

namespace Piece

/-- The arguments of a piece. -/
def arguments : Piece → List String
  | html => [Setting.html.name]
  | joined setting value => [setting.name ++ "=" ++ value]
  | separate setting value => [setting.name, value]
  | expression text => [text]

def expression? : Piece → Option String
  | expression text => some text
  | html => none
  | joined _ _ => none
  | separate _ _ => none

/-- Whether a piece may stand in an argument list, where `given` tells whether there is an
expression before it.  HTML takes no next argument for its value; an expression is neither `--` nor
the name of a setting, alone or with a value joined to it.  What asks for help is left aside. -/
def Fits (given : Bool) : Piece → Prop
  | html | joined _ _ => True
  | separate setting value => setting ≠ .html ∧ ¬ AsksForHelp given value
  | expression text =>
      text ≠ "--" ∧ (∀ setting : Setting, text ≠ setting.name) ∧
        (∀ (setting : Setting) (value : String), text ≠ setting.name ++ "=" ++ value) ∧
        ¬ AsksForHelp given text

/-- Whether pieces may stand in an argument list one after the other. -/
def FitFrom (given : Bool) : List Piece → Prop
  | [] => True
  | piece :: pieces => piece.Fits given ∧ FitFrom (given || piece.expression?.isSome) pieces

end Piece

namespace Ending

def arguments : Ending → List String
  | nothing => []
  | dashes texts => "--" :: texts
  | bare setting => [setting.name]

/-- Everything behind `--` is an expression. -/
def pieces : Ending → List Piece
  | dashes texts => texts.map .expression
  | nothing => []
  | bare _ => []

def isBare : Ending → Bool
  | bare _ => true
  | nothing => false
  | dashes _ => false

end Ending

namespace Spelling

def arguments (s : Spelling) : List String :=
  s.pieces.flatMap Piece.arguments ++ s.ending.arguments

/-- All pieces, those behind `--` included. -/
def allPieces (s : Spelling) : List Piece :=
  s.pieces ++ s.ending.pieces

/-- Whether the pieces may stand in an argument list. -/
structure Fits (s : Spelling) : Prop where
  pieces : Piece.FitFrom false s.pieces
  ending : s.ending ≠ .bare .html

end Spelling

/-! ## Texts that are expressions -/

section Text

variable {given : Bool} {text : String}

theorem not_asksForHelp (hdashes : ¬ ['-', '-'] <+: text.toList)
    (hletter : ¬ ['-', 'h'] <+: text.toList) : ¬ AsksForHelp given text := by
  rintro (rfl | ⟨value, rfl⟩ | ⟨count, htext⟩ | ⟨-, hbehind⟩)
  · exact hdashes (by decide)
  · rw [String.toList_append] at hdashes
    exact hdashes (List.prefix_append_of_prefix (by decide))
  · rw [htext, List.replicate_succ] at hletter
    exact hletter (List.prefix_append ['-', 'h'] _)
  · exact hletter hbehind

/-- A text that begins neither with two dashes nor with `-h` is an expression. -/
theorem Piece.fits_expression (hdashes : ¬ ['-', '-'] <+: text.toList)
    (hletter : ¬ ['-', 'h'] <+: text.toList) : (expression text).Fits given := by
  have hnames : ¬ declaration.Names text := fun h => hdashes (dashes_of_names h)
  rw [names_declaration_iff] at hnames
  refine ⟨?_, ?_, ?_, not_asksForHelp hdashes hletter⟩
  · rintro rfl
    exact hdashes (by decide)
  · exact fun setting h => hnames ⟨setting, .inl h⟩
  · exact fun setting value h => hnames ⟨setting, .inr ⟨value, h⟩⟩

end Text

end Calculator.CommandLine
