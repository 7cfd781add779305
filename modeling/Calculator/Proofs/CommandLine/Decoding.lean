import Calculator.CommandLine
import Calculator.Proofs.CommandLine.Parser
import Calculator.Proofs.CommandLine.Reading

/-!
# What an argument list asks for

A well-made argument list gives each setting once at most, and one expression at most, in any
order; it asks for the request with the numbers that the values write (`Spelling.AsksFor`).
Other lists are flawed (`Spelling.Flawed`).  With any argument parser that keeps the rules,
the command does what a well-made list asks for, and refuses a flawed one (`run_decoded`).

A next argument that begins with a minus sign is no value, with one exception: a precision
of zero may be written with a minus sign as long as there is no expression yet.
-/

namespace Calculator.CommandLine

/-! ## Well-made and flawed lists -/

namespace Spelling

/-- The argument list asks for the request. -/
structure AsksFor (s : Spelling) (request : Request) : Prop where
  complete : s.ending.isBare = false
  adds : Adds s.allPieces {} request

/-- The argument list is flawed. -/
inductive Flawed (s : Spelling) : Prop
  | repeatedSetting (setting : Setting) (h : 1 < (valuesOf setting s.allPieces).length)
  | repeatedHtml (h : 1 < s.allPieces.countP Piece.isHtml)
  | secondExpression (h : 1 < (expressionsOf s.allPieces).length)
  | missingValue (setting : Setting) (h : s.ending = .bare setting)
  /-- A next argument that begins with a minus sign. -/
  | minus (setting : Setting) (value : String) (before after : List Piece)
      (hpieces : s.allPieces = before ++ .separate setting value :: after)
      (hminus : value.toList.head? = some '-')
      (h : ¬ (setting = .precision ∧ WritesMinusZero value.toList ∧ expressionsOf before = []))
  /-- A value that writes no number within the bounds. -/
  | noNumber (setting : Setting) (value : String) (hvalue : value ∈ valuesOf setting s.allPieces)
      (h : ∀ n, ¬ setting.IsValue n value.toList)

end Spelling

/-! ## Slots that are filled -/

section Fills

variable {α : Type} {stands : α → String → Prop} {texts : List String}

theorem Fills.length_le {slot slot' : Option α} (h : Fills stands texts slot slot') :
    texts.length ≤ 1 := by
  cases h with
  | nothing => exact Nat.zero_le 1
  | one => exact Nat.le_refl 1

theorem Fills.exists_stands {slot slot' : Option α} (h : Fills stands texts slot slot')
    {text : String} (htext : text ∈ texts) : ∃ a, stands a text := by
  cases h with
  | nothing => cases htext
  | one h =>
      obtain rfl := List.mem_singleton.1 htext
      exact ⟨_, h⟩

end Fills

theorem expressionsOf_eq_nil_iff {pieces : List Piece} :
    expressionsOf pieces = [] ↔ ∀ piece ∈ pieces, ¬ piece.expression?.isSome := by
  simp [expressionsOf, List.filterMap_eq_nil_iff]

namespace Spelling

variable {s : Spelling} {request : Request}

/-- A flawed argument list asks for nothing. -/
theorem Flawed.not_asksFor (h : s.Flawed) : ¬ s.AsksFor request := by
  rintro ⟨hcomplete, hadds⟩
  cases h with
  | repeatedSetting setting h => exact Nat.not_lt.2 (hadds.value setting).length_le h
  | repeatedHtml h =>
      have hcount := hadds.html
      have hle := request.html.toNat_le
      have hoff : ({} : Request).html.toNat = 0 := rfl
      omega
  | secondExpression h => exact Nat.not_lt.2 hadds.expression.length_le h
  | missingValue setting h =>
      rw [h] at hcomplete
      cases hcomplete
  | minus setting value before after hpieces hminus h =>
      have hvalue : value ∈ valuesOf setting s.allPieces := by
        rw [valuesOf, hpieces]
        exact List.mem_filterMap.2 ⟨_, List.mem_append_right _ List.mem_cons_self, if_pos rfl⟩
      obtain ⟨n, hn⟩ := (hadds.value setting).exists_stands hvalue
      obtain ⟨hprecision, hzero⟩ := hn.minus hminus
      have hpairwise := hadds.minus
      rw [hpieces, List.pairwise_append] at hpairwise
      refine h ⟨hprecision, hzero, expressionsOf_eq_nil_iff.2 fun piece hpiece hsome => ?_⟩
      exact hpairwise.2.2 piece hpiece _ List.mem_cons_self hsome hminus
  | noNumber setting value hvalue h =>
      obtain ⟨n, hn⟩ := (hadds.value setting).exists_stands hvalue
      exact h n hn

end Spelling

/-! ## What the command does -/

/-- A parser that keeps the rules finds the request that the list asks for, and refuses a list that
asks for nothing. -/
theorem answer_arguments {answer : List String → Answer} (hrules : declaration.Rules answer)
    {s : Spelling} (hfits : s.Fits) :
    (∀ request, s.AsksFor request →
      ∃ found, answer s.arguments = .found found ∧ Request.ofFound found = request) ∧
      ((∀ request, ¬ s.AsksFor request) → ∃ message, answer s.arguments = .refused message) := by
  obtain ⟨result, hreads, hresult⟩ := exists_reads {} hfits.pieces hfits.ending
  constructor
  · rintro request ⟨hcomplete, hadds⟩
    obtain ⟨found, rfl, hfound⟩ := Option.map_eq_some_iff.1 ((hresult request).1 ⟨hcomplete, hadds⟩)
    exact ⟨found, hrules.found hreads, hfound⟩
  · intro hnothing
    cases result with
    | none => exact hrules.refused hreads
    | some found =>
        obtain ⟨hcomplete, hadds⟩ := (hresult (.ofFound found)).2 rfl
        exact absurd ⟨hcomplete, hadds⟩ (hnothing _)

/-- Let the argument parser keep the rules.  On an argument list that asks for a request, the
command evaluates the expression, or holds a session without one, with the settings of the request
and the defaults for those that it leaves out.  A flawed argument list is refused: the command
exits with 2 and writes nothing but the message of the parser, whatever the input. -/
theorem run_decoded {parser : Declaration → List String → Answer}
    (hrules : declaration.Rules (parser declaration)) {s : Spelling} (hfits : s.Fits)
    (input : List UInt8) :
    (∀ request, s.AsksFor request →
      runWith parser s.arguments input =
        let limits : Limits :=
          { length := request.maxLength.getD 4096, depth := request.maxDepth.getD 256 }
        let report : Report := { decimals := request.precision, html := request.html }
        match request.expression with
        | some expression => evaluateOnce limits report expression
        | none => Session.run limits report input) ∧
      (s.Flawed → ∃ message, parser declaration s.arguments = .refused message ∧
        runWith parser s.arguments input = ⟨2, "", message⟩) := by
  obtain ⟨hanswer, hrefused⟩ := answer_arguments hrules hfits
  constructor
  · intro request hasks
    obtain ⟨found, hfound, rfl⟩ := hanswer request hasks
    rw [runWith, hfound]
    rfl
  · intro hflawed
    obtain ⟨message, hmessage⟩ := hrefused fun request => hflawed.not_asksFor
    refine ⟨message, hmessage, ?_⟩
    rw [runWith, hmessage]

/-- An expression between two settings, one of them joined to its value, is evaluated once; a minus
sign behind the expression makes a flawed list. -/
theorem run_decoded_division :
    declaration.Rules (Declaration.parse declaration) ∧
      runWith Declaration.parse ["--precision=+02", "-5/2", "--max-depth", "007"] [] =
        evaluateOnce ⟨4096, 7⟩ ⟨some 2, false⟩ "-5/2" ∧
      evaluateOnce ⟨4096, 7⟩ ⟨some 2, false⟩ "-5/2" = ⟨0, "-2.50\n", ""⟩ ∧
      ∃ message, runWith Declaration.parse ["-5/2", "--precision", "-0"] [] = ⟨2, "", message⟩ := by
  have hexpression (given : Bool) : (Piece.expression "-5/2").Fits given :=
    Piece.fits_expression (by decide) (by decide)
  have hdepth : (Piece.separate .maxDepth "007").Fits true :=
    ⟨by decide, not_asksForHelp (by decide) (by decide)⟩
  have hminus : (Piece.separate .precision "-0").Fits true :=
    ⟨by decide, not_asksForHelp (by decide) (by decide)⟩
  let wellMade : Spelling :=
    ⟨[.joined .precision "+02", .expression "-5/2", .separate .maxDepth "007"], .nothing⟩
  let flawed : Spelling := ⟨[.expression "-5/2", .separate .precision "-0"], .nothing⟩
  have hfits : wellMade.Fits := ⟨⟨trivial, hexpression _, hdepth, trivial⟩, by simp [wellMade]⟩
  have hfits' : flawed.Fits := ⟨⟨hexpression _, hminus, trivial⟩, by simp [flawed]⟩
  have htwo : Setting.precision.IsValue 2 "+02".toList :=
    .inl ⟨by decide, .inr ⟨['0', '2'], ⟨1, by decide⟩, by decide⟩⟩
  have hseven : Setting.maxDepth.IsValue 7 "007".toList := ⟨by decide, .inl ⟨2, by decide⟩⟩
  have hasks : wellMade.AsksFor ⟨some 2, false, none, some 7, some "-5/2"⟩ := by
    refine ⟨rfl, (Adds.value_iff (fun _ => rfl) rfl rfl).2 ⟨fun _ => id, rfl, 2, htwo, ?_⟩⟩
    refine Adds.expression_iff.2 ⟨rfl, ?_⟩
    have hdigits : ¬ (Piece.separate .maxDepth "007").HasMinus :=
      show ¬ "007".toList.head? = some '-' by decide
    exact (Adds.value_iff (fun _ => rfl) rfl rfl).2
      ⟨fun _ => hdigits, rfl, 7, hseven, Adds.nil_iff.2 rfl⟩
  have hflawed : flawed.Flawed :=
    .minus .precision "-0" [.expression "-5/2"] [] rfl (by decide) fun h => by cases h.2.2
  obtain ⟨message, -, hrun⟩ := (run_decoded rules_parse hfits' []).2 hflawed
  exact ⟨rules_parse, (run_decoded rules_parse hfits []).1 _ hasks, by decide +kernel, message,
    hrun⟩

/-- A next argument that begins with a minus sign is not always a flaw. -/
theorem minus_zero_decoded :
    runWith Declaration.parse ["--precision", "-0", "7/2"] [] = ⟨0, "4\n", ""⟩ ∧
      ¬ ∀ parser : Declaration → List String → Answer,
        declaration.Rules (parser declaration) →
        ∀ s : Spelling, s.Fits → ∀ before setting value after,
        s.pieces = before ++ .separate setting value :: after → value.toList.head? = some '-' →
        ∀ input, ∃ message, runWith parser s.arguments input = ⟨2, "", message⟩ := by
  have hrun : runWith Declaration.parse ["--precision", "-0", "7/2"] [] = ⟨0, "4\n", ""⟩ := by
    decide +kernel
  refine ⟨hrun, fun h => ?_⟩
  let s : Spelling := ⟨[.separate .precision "-0", .expression "7/2"], .nothing⟩
  have hminus : (Piece.separate .precision "-0").Fits false :=
    ⟨by decide, not_asksForHelp (by decide) (by decide)⟩
  have hexpression : (Piece.expression "7/2").Fits false :=
    Piece.fits_expression (by decide) (by decide)
  have hfits : s.Fits := ⟨⟨hminus, hexpression, trivial⟩, by simp [s]⟩
  obtain ⟨message, hmisuse⟩ := h Declaration.parse rules_parse s hfits [] .precision "-0"
    [.expression "7/2"] rfl (by decide) []
  have hlist : s.arguments = ["--precision", "-0", "7/2"] := rfl
  rw [hlist, hrun] at hmisuse
  cases hmisuse

end Calculator.CommandLine
