import Calculator.Proofs.CommandLine.Additions

/-!
# What the rules make of pieces

By the rules of the argument parser each piece of an argument list is either taken or
refused (`takes_or_refuses`).  A piece that is taken gives what it adds to the request, and
from a piece that is refused nothing could be added.  So the rules bring a whole list to what
its pieces add, or refuse it if they add up to nothing (`exists_reads`).
-/

namespace Calculator.CommandLine

/-! ## Requests of what has been found -/

namespace Request

theorem value?_ofFound (found : Found) {setting : Setting} (hsetting : setting ≠ .html) :
    (ofFound found).value? setting = found.number? setting.name := by
  cases setting with
  | html => exact absurd rfl hsetting
  | precision | maxLength | maxDepth => rfl

theorem ofFound_number (found : Found) (n : Nat) {setting : Setting} (hsetting : setting ≠ .html) :
    ofFound { found with numbers := (setting.name, n) :: found.numbers } =
      (ofFound found).setValue n setting := by
  cases setting with
  | html => exact absurd rfl hsetting
  | precision | maxLength | maxDepth => rfl

theorem ofFound_flag (found : Found) :
    ofFound { found with flags := "--html" :: found.flags } =
      { ofFound found with html := true } := rfl

end Request

/-! ## One piece -/

/-- What the rules do with a piece that is taken.  The parser goes on from `found'`, and to that the
further pieces are added. -/
structure Takes (found : Found) (piece : Piece) (found' : Found) : Prop where
  reads : ∀ {rest : List String} {result : Option Found},
    Reads declaration found' rest result → Reads declaration found (piece.arguments ++ rest) result
  given : found'.text.isSome = (found.text.isSome || piece.expression?.isSome)
  adds_iff : ∀ {pieces : List Piece} {r : Request},
    Adds (piece :: pieces) (.ofFound found) r ↔ Adds pieces (.ofFound found') r

/-- What the rules do with a piece that is refused, whatever stands behind it. -/
structure Refuses (found : Found) (piece : Piece) : Prop where
  reads : ∀ {rest : List String}, Reads declaration found (piece.arguments ++ rest) none
  not_adds : ∀ {pieces : List Piece} {r : Request}, ¬ Adds (piece :: pieces) (.ofFound found) r

section Piece

variable {found : Found}

theorem html_takes_or_refuses (found : Found) :
    (∃ found', Takes found .html found') ∨ Refuses found .html := by
  have hoccurs : Occurs declaration found.text.isSome Piece.html.arguments (.flag "--html") :=
    .flag Setting.html.mem_declaration
  by_cases hnew : "--html" ∈ found.flags
  · right
    constructor
    · intro rest
      exact .notStored hoccurs fun found' hstores => (stores_flag_iff.1 hstores).1 hnew
    · intro pieces r hadds
      have hoff : found.flags.contains "--html" = false := (Adds.html_iff.1 hadds).1
      rw [List.contains_iff_mem.2 hnew] at hoff
      cases hoff
  · left
    refine ⟨{ found with flags := "--html" :: found.flags }, ?_, ?_, ?_⟩
    · exact fun hrest => .stored hoccurs (.flag hnew) hrest
    · exact (Bool.or_false _).symm
    · intro pieces r
      have hoff : (Request.ofFound found).html = false :=
        Bool.eq_false_iff.2 fun hon => hnew (List.contains_iff_mem.1 hon)
      rw [Adds.html_iff, Request.ofFound_flag]
      exact and_iff_right hoff

theorem expression_takes_or_refuses {text : String}
    (hfits : (Piece.expression text).Fits found.text.isSome) :
    (∃ found', Takes found (.expression text) found') ∨ Refuses found (.expression text) := by
  obtain ⟨hdashes, hname, hjoined, hhelp⟩ := hfits
  have hnames : ¬ declaration.Names text := by
    rw [names_declaration_iff]
    rintro ⟨setting, hsetting | ⟨value, hvalue⟩⟩
    · exact hname setting hsetting
    · exact hjoined setting value hvalue
  by_cases hnew : found.text = none
  · left
    have hnotext : found.text.isSome = false := Option.isSome_eq_false_iff.2 (hnew ▸ rfl)
    rw [hnotext] at hhelp
    have htext : IsText declaration found.text.isSome text :=
      .hyphens rfl hnotext hdashes hnames hhelp
    refine ⟨{ found with text := some text }, ?_, ?_, ?_⟩
    · exact fun hrest => .stored (.text htext) (.text hnew) hrest
    · exact (Bool.or_true _).symm
    · intro pieces r
      rw [Adds.expression_iff]
      exact and_iff_right hnew
  · right
    constructor
    · intro rest
      by_cases htext : IsText declaration found.text.isSome text
      · exact .notStored (.text htext) fun found' hstores => hnew (stores_text_iff.1 hstores).1
      · exact .unknown htext hdashes hnames hhelp
    · exact fun hadds => hnew (Adds.expression_iff.1 hadds).1

/-- A piece with a value that occurs is taken, if the value is the first of its setting and one of
its numbers. -/
theorem number_takes_or_refuses {piece : Piece} {setting : Setting} {type : ValueType}
    {text : String} (htype : setting.use = .value type)
    (hvalue : ∀ setting', piece.value? setting' = if setting = setting' then some text else none)
    (hexpression : piece.expression? = none) (hhtml : piece.isHtml = false)
    (hoccurs : Occurs declaration found.text.isSome piece.arguments
      (.number setting.name type text))
    (hminus : ∀ n, setting.IsValue n text.toList → found.text.isSome → ¬ piece.HasMinus) :
    (∃ found', Takes found piece found') ∨ Refuses found piece := by
  have hsetting : setting ≠ .html := by
    rintro rfl
    cases htype
  by_cases hstored : found.number? setting.name = none ∧ ∃ n, setting.IsValue n text.toList
  · left
    obtain ⟨hnew, n, hn⟩ := hstored
    refine ⟨{ found with numbers := (setting.name, n) :: found.numbers }, ?_, ?_, ?_⟩
    · exact fun hrest =>
        .stored hoccurs (.number hnew ((Setting.isValue_iff_stands htype).1 hn)) hrest
    · rw [hexpression]
      exact (Bool.or_false _).symm
    · intro pieces r
      rw [Adds.value_iff hvalue hexpression hhtml, Request.ofFound_number _ _ hsetting,
        Request.value?_ofFound _ hsetting]
      constructor
      · rintro ⟨-, -, m, hm, hadds⟩
        rwa [hn.unique hm]
      · exact fun hadds => ⟨hminus n hn, hnew, n, hn, hadds⟩
  · right
    constructor
    · intro rest
      refine .notStored hoccurs fun found' hstores => ?_
      obtain ⟨hnew, n, hn, -⟩ := stores_number_iff.1 hstores
      exact hstored ⟨hnew, n, (Setting.isValue_iff_stands htype).2 hn⟩
    · intro pieces r hadds
      obtain ⟨-, hnew, n, hn, -⟩ := (Adds.value_iff hvalue hexpression hhtml).1 hadds
      rw [Request.value?_ofFound _ hsetting] at hnew
      exact hstored ⟨hnew, n, hn⟩

theorem joined_takes_or_refuses (found : Found) (setting : Setting) (value : String) :
    (∃ found', Takes found (.joined setting value) found') ∨
      Refuses found (.joined setting value) := by
  have hmem := setting.mem_declaration
  cases huse : setting.use with
  | flag =>
      rw [huse] at hmem
      refine .inr ⟨.flagValue hmem, ?_⟩
      intro pieces r hadds
      obtain ⟨-, -, n, hn, -⟩ := (Adds.value_iff (fun _ => rfl) rfl rfl).1 hadds
      obtain ⟨type, htype⟩ := Setting.exists_type hn.ne_html
      cases huse.symm.trans htype
  | value type =>
      rw [huse] at hmem
      exact number_takes_or_refuses huse (fun _ => rfl) rfl rfl (.joined hmem) fun _ _ _ => id

/-- A value of a setting that begins with a minus sign is an ordinary text as long as there is no
other. -/
theorem isText_of_isValue {setting : Setting} {n : Nat} {value : String}
    (hvalue : setting.IsValue n value.toList) (hhelp : ¬ AsksForHelp false value) :
    IsText declaration false value := by
  by_cases hhyphen : IsHyphenated value
  · -- a minus sign in front of digits is no name and not `--`
    obtain ⟨letter, more, hletters⟩ := hhyphen
    obtain ⟨-, digits, hzero, hdigits⟩ := hvalue.minus (by rw [hletters]; rfl)
    have hminus : ¬ ['-', '-'] <+: value.toList := by
      rw [hdigits, List.cons_prefix_cons]
      rintro ⟨-, more, hmore⟩
      exact WritesDigits.not_sign rfl (hmore ▸ hzero)
    refine .hyphens rfl rfl ?_ (fun h => hminus (dashes_of_names h)) hhelp
    rintro rfl
    exact hminus (by decide)
  · exact .plain hhyphen

/-- An ordinary text behind another is no value with a minus sign. -/
theorem head?_ne_of_isText {setting : Setting} {n : Nat} {value : String}
    (htext : IsText declaration true value) (hvalue : setting.IsValue n value.toList) :
    value.toList.head? ≠ some '-' := by
  intro hminus
  obtain ⟨-, digits, hzero, hdigits⟩ := hvalue.minus hminus
  cases htext with
  | plain h =>
      cases digits with
      | nil => exact (writesDigits_iff.1 hzero).1.1 rfl
      | cons letter more => exact h ⟨letter, more, hdigits⟩
  | hyphens _ hgiven => cases hgiven

theorem separate_takes_or_refuses {setting : Setting} {value : String}
    (hfits : (Piece.separate setting value).Fits found.text.isSome) :
    (∃ found', Takes found (.separate setting value) found') ∨
      Refuses found (.separate setting value) := by
  obtain ⟨hsetting, hhelp⟩ := hfits
  have hmem := setting.mem_declaration
  obtain ⟨type, htype⟩ := Setting.exists_type hsetting
  rw [htype] at hmem
  by_cases htext : IsText declaration found.text.isSome value
  · refine number_takes_or_refuses htype (fun _ => rfl) rfl rfl (.separate hmem htext) ?_
    intro n hn hgiven
    rw [hgiven] at htext
    exact head?_ne_of_isText htext hn
  · right
    constructor
    · intro rest
      refine .noValue hmem ?_
      rintro next ⟨⟩
      exact ⟨htext, hhelp⟩
    · intro pieces r hadds
      obtain ⟨hminus, -, n, hn, -⟩ := (Adds.value_iff (fun _ => rfl) rfl rfl).1 hadds
      cases hgiven : found.text.isSome with
      | false =>
          rw [hgiven] at htext hhelp
          exact htext (isText_of_isValue hn hhelp)
      | true =>
          rw [hgiven] at htext
          refine htext (.plain ?_)
          rintro ⟨letter, more, hletters⟩
          exact hminus hgiven (by rw [Piece.HasMinus, hletters]; rfl)

/-- A piece that may stand in the list is taken or refused. -/
theorem takes_or_refuses {piece : Piece} (hfits : piece.Fits found.text.isSome) :
    (∃ found', Takes found piece found') ∨ Refuses found piece := by
  cases piece with
  | html => exact html_takes_or_refuses found
  | joined setting value => exact joined_takes_or_refuses found setting value
  | separate setting value => exact separate_takes_or_refuses hfits
  | expression text => exact expression_takes_or_refuses hfits

end Piece

/-! ## A whole list -/

theorem exists_readsTexts (found : Found) (texts : List String) :
    ∃ result, ReadsTexts found texts result ∧
      ∀ r, Adds (texts.map .expression) (.ofFound found) r ↔
        result.map Request.ofFound = some r := by
  induction texts generalizing found with
  | nil => exact ⟨_, .done found, fun r => Adds.nil_iff.trans Option.some_inj.symm⟩
  | cons text texts ih =>
      by_cases hnew : found.text = none
      · obtain ⟨result, hreads, hresult⟩ := ih { found with text := some text }
        refine ⟨result, .stored (.text hnew) hreads, fun r => ?_⟩
        rw [List.map_cons, Adds.expression_iff, ← hresult]
        exact and_iff_right hnew
      · refine ⟨none, .notStored ?_, fun r => ?_⟩
        · exact fun found' hstores => hnew (stores_text_iff.1 hstores).1
        · rw [List.map_cons, Adds.expression_iff]
          exact iff_of_false (fun h => hnew h.1) (by simp)

/-- The rules bring the arguments behind what has been found to a result, and it is the request that
the pieces add up to. -/
theorem exists_reads (found : Found) {pieces : List Piece} {ending : Ending}
    (hfits : Piece.FitFrom found.text.isSome pieces) (hending : ending ≠ .bare .html) :
    ∃ result,
      Reads declaration found (pieces.flatMap Piece.arguments ++ ending.arguments) result ∧
        ∀ r, ending.isBare = false ∧ Adds (pieces ++ ending.pieces) (.ofFound found) r ↔
          result.map Request.ofFound = some r := by
  -- each piece changes what has been found, and with it what the next ones may be
  induction pieces generalizing found with
  | nil =>
      cases ending with
      | nothing =>
          exact ⟨_, .done found, fun r =>
            (and_iff_right rfl).trans (Adds.nil_iff.trans Option.some_inj.symm)⟩
      | dashes texts =>
          obtain ⟨result, hreads, hresult⟩ := exists_readsTexts found texts
          exact ⟨result, .dashes hreads, fun r => (and_iff_right rfl).trans (hresult r)⟩
      | bare setting =>
          have hmem := setting.mem_declaration
          obtain ⟨type, htype⟩ := Setting.exists_type fun h => hending (congrArg _ h)
          rw [htype] at hmem
          refine ⟨none, .noValue hmem (by simp), fun r => iff_of_false ?_ (by simp)⟩
          rintro ⟨⟨⟩, -⟩
  | cons piece pieces ih =>
      rw [List.flatMap_cons, List.append_assoc]
      rcases takes_or_refuses hfits.1 with ⟨found', htakes⟩ | hrefuses
      · obtain ⟨result, hreads, hresult⟩ := ih found' (htakes.given ▸ hfits.2)
        refine ⟨result, htakes.reads hreads, fun r => ?_⟩
        rw [List.cons_append, htakes.adds_iff, hresult]
      · refine ⟨none, hrefuses.reads, fun r => iff_of_false ?_ (by simp)⟩
        exact fun h => hrefuses.not_adds h.2

end Calculator.CommandLine
