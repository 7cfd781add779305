import Calculator.Proofs.CommandLine.Numbers

/-!
# The rules of an argument parser

What a command may rely on when it hands its arguments to a parser: how the parser is
documented to take single arguments, and nothing about lists of settings.  The parser reads
the arguments from left to right, one occurrence of a declared argument after the other.

* `Occurs`: which arguments are an occurrence;
* `Stores`: what is kept of an occurrence;
* `Reads`: where the parser goes on, and where it refuses the arguments.

The rules leave aside what asks for help, and the wording of a refusal.
-/

namespace Calculator.CommandLine

/-! ## Single arguments -/

/-- An argument that begins with a hyphen and is more than that. -/
def IsHyphenated (argument : String) : Prop :=
  ∃ letter more, argument.toList = '-' :: letter :: more

/-- Whether an argument asks for help, where `given` tells whether there has been an argument
without a name. -/
inductive AsksForHelp (given : Bool) (argument : String) : Prop
  | long (h : argument = "--help")
  | longJoined (value : String) (h : argument = "--help=" ++ value)
  /-- The short name, which may be repeated. -/
  | short (count : Nat) (h : argument.toList = '-' :: List.replicate (count + 1) 'h')
  /-- As long as an argument without a name may come, other letters make it that argument;
  afterwards they are not looked at. -/
  | behind (hgiven : given = true) (h : ['-', 'h'] <+: argument.toList)

/-- Whether an argument is a declared name, alone or with a value joined to it. -/
def Declaration.Names (d : Declaration) (argument : String) : Prop :=
  ∃ named ∈ d.named, argument = named.name ∨ ∃ value, argument = named.name ++ "=" ++ value

/-- Whether an argument is an ordinary text, where `given` tells whether there has been an argument
without a name. -/
inductive IsText (d : Declaration) (given : Bool) (argument : String) : Prop
  | plain (h : ¬ IsHyphenated argument)
  /-- As long as an argument without a name may come that may begin with a hyphen, a hyphen makes
  no difference, except in what has a meaning of its own. -/
  | hyphens (hhyphens : d.hyphens = true) (hgiven : given = false) (hdashes : argument ≠ "--")
      (hname : ¬ d.Names argument) (hhelp : ¬ AsksForHelp false argument)

/-! ## Occurrences -/

/-- An occurrence of a declared argument. -/
inductive Occurrence where
  | flag (name : String)
  | number (name : String) (type : ValueType) (value : String)
  | text (text : String)

/-- `Occurs d given arguments occurrence`: the arguments are the occurrence. -/
inductive Occurs (d : Declaration) (given : Bool) : List String → Occurrence → Prop
  | flag {name : String} (h : ⟨name, .flag⟩ ∈ d.named) : Occurs d given [name] (.flag name)
  /-- The value is joined to the name by `=`. -/
  | joined {name value : String} {type : ValueType} (h : ⟨name, .value type⟩ ∈ d.named) :
      Occurs d given [name ++ "=" ++ value] (.number name type value)
  /-- The value is the next argument. -/
  | separate {name value : String} {type : ValueType} (h : ⟨name, .value type⟩ ∈ d.named)
      (hvalue : IsText d given value) : Occurs d given [name, value] (.number name type value)
  | text {text : String} (h : IsText d given text) : Occurs d given [text] (.text text)

/-- `Stores found occurrence found'`: with the occurrence, what has been found becomes `found'`.
Every argument may be given once. -/
inductive Stores (found : Found) : Occurrence → Found → Prop
  | flag {name : String} (h : name ∉ found.flags) :
      Stores found (.flag name) { found with flags := name :: found.flags }
  | number {name value : String} {type : ValueType} {n : Nat} (hnew : found.number? name = none)
      (h : type.Stands n value.toList) :
      Stores found (.number name type value) { found with numbers := (name, n) :: found.numbers }
  | text {text : String} (h : found.text = none) :
      Stores found (.text text) { found with text := some text }

section Stores

variable {found found' : Found}

theorem stores_flag_iff {name : String} :
    Stores found (.flag name) found' ↔
      name ∉ found.flags ∧ { found with flags := name :: found.flags } = found' := by
  constructor
  · rintro ⟨hnew⟩
    exact ⟨hnew, rfl⟩
  · rintro ⟨hnew, rfl⟩
    exact .flag hnew

theorem stores_number_iff {name value : String} {type : ValueType} :
    Stores found (.number name type value) found' ↔
      found.number? name = none ∧ ∃ n, type.Stands n value.toList ∧
        { found with numbers := (name, n) :: found.numbers } = found' := by
  constructor
  · rintro (_ | ⟨hnew, hn⟩)
    exact ⟨hnew, _, hn, rfl⟩
  · rintro ⟨hnew, n, hn, rfl⟩
    exact .number hnew hn

theorem stores_text_iff {text : String} :
    Stores found (.text text) found' ↔
      found.text = none ∧ { found with text := some text } = found' := by
  constructor
  · rintro (_ | _ | hnew)
    exact ⟨hnew, rfl⟩
  · rintro ⟨hnew, rfl⟩
    exact .text hnew

end Stores

/-! ## Argument lists -/

/-- `ReadsTexts found texts result`: behind what has been found there are texts only.  The result
is what has been found in the end, or `none` for a refusal. -/
inductive ReadsTexts : Found → List String → Option Found → Prop
  | done (found : Found) : ReadsTexts found [] (some found)
  | stored {found found' : Found} {text : String} {rest : List String} {result : Option Found}
      (hstores : Stores found (.text text) found') (hrest : ReadsTexts found' rest result) :
      ReadsTexts found (text :: rest) result
  | notStored {found : Found} {text : String} {rest : List String}
      (h : ∀ found', ¬ Stores found (.text text) found') : ReadsTexts found (text :: rest) none

/-- `Reads d found arguments result`: behind what has been found the parser comes to the
arguments.  The result is what has been found in the end, or `none` for a refusal. -/
inductive Reads (d : Declaration) : Found → List String → Option Found → Prop
  | done (found : Found) : Reads d found [] (some found)
  | stored {found found' : Found} {front rest : List String} {occurrence : Occurrence}
      {result : Option Found} (hoccurs : Occurs d found.text.isSome front occurrence)
      (hstores : Stores found occurrence found') (hrest : Reads d found' rest result) :
      Reads d found (front ++ rest) result
  | notStored {found : Found} {front rest : List String} {occurrence : Occurrence}
      (hoccurs : Occurs d found.text.isSome front occurrence)
      (h : ∀ found', ¬ Stores found occurrence found') : Reads d found (front ++ rest) none
  /-- A name without the value that it takes. -/
  | noValue {found : Found} {name : String} {type : ValueType} {rest : List String}
      (h : ⟨name, .value type⟩ ∈ d.named)
      (hnext : ∀ next ∈ rest.head?,
        ¬ IsText d found.text.isSome next ∧ ¬ AsksForHelp found.text.isSome next) :
      Reads d found (name :: rest) none
  /-- A flag takes no value. -/
  | flagValue {found : Found} {name value : String} {rest : List String}
      (h : ⟨name, .flag⟩ ∈ d.named) : Reads d found ((name ++ "=" ++ value) :: rest) none
  /-- A name that is not declared. -/
  | unknown {found : Found} {argument : String} {rest : List String}
      (htext : ¬ IsText d found.text.isSome argument) (hdashes : argument ≠ "--")
      (hname : ¬ d.Names argument) (hhelp : ¬ AsksForHelp found.text.isSome argument) :
      Reads d found (argument :: rest) none
  /-- Everything behind `--` is a text. -/
  | dashes {found : Found} {texts : List String} {result : Option Found}
      (h : ReadsTexts found texts result) : Reads d found ("--" :: texts) result

/-- The rules that a parser keeps for a declaration, from the first argument on. -/
structure Declaration.Rules (d : Declaration) (answer : List String → Answer) : Prop where
  found : ∀ {arguments : List String} {found : Found}, Reads d {} arguments (some found) →
    answer arguments = .found found
  refused : ∀ {arguments : List String}, Reads d {} arguments none →
    ∃ message, answer arguments = .refused message

end Calculator.CommandLine
