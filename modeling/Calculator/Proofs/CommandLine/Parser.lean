import Mathlib.Data.List.TakeDrop
import Mathlib.Data.List.TakeWhile
import Calculator.CommandLine.Request
import Calculator.Proofs.CommandLine.Rules

/-!
# The argument parser keeps the rules

The parser of this library keeps the rules for the arguments of the command
(`rules_parse`).  What it finds out about an argument (`takesText_iff`), and what it does
with an occurrence (`parseFrom_occurs`), are the same as in the rules.
-/

namespace Calculator.CommandLine

/-! ## Arguments with a value joined to them -/

section Joined

variable {name : String}

theorem toList_joined (name value : String) :
    (name ++ "=" ++ value).toList = name.toList ++ '=' :: value.toList := by
  rw [String.toList_append, String.toList_append, List.append_assoc]
  rfl

theorem ne_equals (hname : '=' ∉ name.toList) : ∀ c ∈ name.toList, (c != '=') = true := by
  intro c hc
  exact bne_iff_ne.2 fun heq => hname (heq ▸ hc)

theorem splitJoined_name (hname : '=' ∉ name.toList) : splitJoined name = (name, none) := by
  have htake := List.takeWhile_eq_self_iff.2 (ne_equals hname)
  have hdrop := List.dropWhile_eq_nil_iff.2 (ne_equals hname)
  rw [splitJoined, List.span_eq_takeWhile_dropWhile, htake, hdrop]
  dsimp only
  rw [String.ofList_toList]

theorem splitJoined_joined (hname : '=' ∉ name.toList) (value : String) :
    splitJoined (name ++ "=" ++ value) = (name, some value) := by
  rw [splitJoined, toList_joined, List.span_eq_takeWhile_dropWhile,
    List.takeWhile_append_of_pos (ne_equals hname), List.dropWhile_append_of_pos (ne_equals hname)]
  simp

theorem splitJoined_cases (argument : String) :
    splitJoined argument = (argument, none) ∨
      ∃ name value, splitJoined argument = (name, some value) ∧
        argument = name ++ "=" ++ value := by
  have happend : argument.toList.takeWhile (· != '=') ++ argument.toList.dropWhile (· != '=') =
      argument.toList := List.takeWhile_append_dropWhile
  have hhead := List.head?_dropWhile_not (· != '=') argument.toList
  rw [splitJoined, List.span_eq_takeWhile_dropWhile]
  generalize argument.toList.takeWhile (· != '=') = name at happend ⊢
  generalize argument.toList.dropWhile (· != '=') = rest at happend hhead ⊢
  cases rest with
  | nil =>
      rw [List.append_nil] at happend
      left
      dsimp only
      rw [happend, String.ofList_toList]
  | cons c value =>
      obtain rfl : c = '=' := by simpa using hhead
      refine .inr ⟨String.ofList name, String.ofList value, rfl, ?_⟩
      rw [← String.toList_inj, toList_joined, String.toList_ofList, String.toList_ofList, happend]

/-- An argument is split into a name and the rest exactly if it is the name, alone or with a value
joined to it. -/
theorem splitJoined_fst_iff (hname : '=' ∉ name.toList) {argument : String} :
    (splitJoined argument).1 = name ↔
      argument = name ∨ ∃ value, argument = name ++ "=" ++ value := by
  constructor
  · rintro rfl
    rcases splitJoined_cases argument with halone | ⟨name, value, hsplit, hargument⟩
    · rw [halone]
      exact .inl rfl
    · rw [hsplit]
      exact .inr ⟨value, hargument⟩
  · rintro (rfl | ⟨value, rfl⟩)
    · rw [splitJoined_name hname]
    · rw [splitJoined_joined hname]

end Joined

/-! ## What the parser finds out about an argument -/

theorem isHyphenated_iff {argument : String} :
    isHyphenated argument = true ↔ IsHyphenated argument := by
  unfold isHyphenated IsHyphenated
  split <;> simp_all

theorem isShort_iff {argument : String} :
    isShort argument = true ↔
      ∃ count, argument.toList = '-' :: List.replicate (count + 1) 'h' := by
  unfold isShort
  split
  · next letter more htext =>
      rw [htext, List.all_eq_true]
      constructor
      · intro hletters
        have hsame : ∀ c ∈ letter :: more, c = 'h' := fun c hc => beq_iff_eq.1 (hletters c hc)
        exact ⟨more.length, congrArg ('-' :: ·) (List.eq_replicate_iff.2 ⟨rfl, hsame⟩)⟩
      · rintro ⟨count, heq⟩ c hc
        rw [(List.cons.inj heq).2] at hc
        exact beq_iff_eq.2 (List.eq_of_mem_replicate hc)
  · next hshape =>
      constructor
      · intro h
        cases h
      · rintro ⟨count, heq⟩
        exact absurd heq (hshape 'h' (List.replicate count 'h'))

/-- The names of the command differ from each other; they begin with two hyphens and hold no
`=`. -/
theorem find?_declaration : ∀ named ∈ declaration.named,
    declaration.find? named.name = some named ∧ '=' ∉ named.name.toList ∧
      named.name ≠ "--" ∧ ['-', '-'] <+: named.name.toList := by
  decide

theorem isSome_find?_iff {argument : String} :
    (declaration.find? (splitJoined argument).1).isSome = true ↔ declaration.Names argument := by
  rw [Declaration.find?, List.find?_isSome]
  constructor
  · rintro ⟨named, hmem, hname⟩
    obtain ⟨-, hequals, -⟩ := find?_declaration named hmem
    exact ⟨named, hmem, (splitJoined_fst_iff hequals).1 (eq_of_beq hname).symm⟩
  · rintro ⟨named, hmem, hargument⟩
    obtain ⟨-, hequals, -⟩ := find?_declaration named hmem
    exact ⟨named, hmem, beq_iff_eq.2 ((splitJoined_fst_iff hequals).2 hargument).symm⟩

theorem asksForHelp_false_iff {argument : String} :
    AsksForHelp false argument ↔
      (splitJoined argument).1 = "--help" ∨ isShort argument = true := by
  rw [splitJoined_fst_iff (by decide), isShort_iff]
  have hjoined (value : String) : "--help" ++ "=" ++ value = "--help=" ++ value := rfl
  constructor
  · rintro (rfl | ⟨value, rfl⟩ | ⟨count, hshort⟩ | ⟨⟨⟩, -⟩)
    · exact .inl (.inl rfl)
    · exact .inl (.inr ⟨value, (hjoined value).symm⟩)
    · exact .inr ⟨count, hshort⟩
  · rintro ((rfl | ⟨value, rfl⟩) | ⟨count, hshort⟩)
    · exact .long rfl
    · exact .longJoined value (hjoined value)
    · exact .short count hshort

theorem knows_iff {argument : String} :
    declaration.knows argument = true ↔
      declaration.Names argument ∨ AsksForHelp false argument := by
  unfold Declaration.knows
  dsimp only
  rw [Bool.or_eq_true, Bool.or_eq_true, beq_iff_eq, isSome_find?_iff, asksForHelp_false_iff]
  tauto

theorem takesText_iff {given : Bool} {argument : String} :
    declaration.takesText given argument = true ↔ IsText declaration given argument := by
  unfold Declaration.takesText
  rw [Bool.or_eq_true, Bool.not_eq_true', ← Bool.not_eq_true, isHyphenated_iff]
  simp only [Bool.and_eq_true, Bool.not_eq_true', ← Bool.not_eq_true, bne_iff_ne, knows_iff,
    not_or]
  constructor
  · rintro (hplain | ⟨⟨⟨hhyphens, hgiven⟩, hdashes⟩, hname, hhelp⟩)
    · exact .plain hplain
    · exact .hyphens hhyphens (Bool.eq_false_iff.2 hgiven) hdashes hname hhelp
  · rintro (hplain | ⟨hhyphens, rfl, hdashes, hname, hhelp⟩)
    · exact .inl hplain
    · exact .inr ⟨⟨⟨hhyphens, Bool.false_ne_true⟩, hdashes⟩, hname, hhelp⟩

/-! ## What the parser does with an occurrence -/

/-- What has been found, with an occurrence. -/
def Found.add? (found : Found) : Occurrence → Option Found
  | .flag name => found.addFlag? name
  | .number name type value => found.addNumber? name type value
  | .text text => found.addText? text

theorem Found.add?_eq_some_iff {found found' : Found} {occurrence : Occurrence} :
    found.add? occurrence = some found' ↔ Stores found occurrence found' := by
  cases occurrence with
  | flag name =>
      rw [add?, addFlag?, Option.ite_none_left_eq_some, List.contains_iff_mem, Option.some_inj,
        stores_flag_iff]
  | number name type value =>
      rw [add?, addNumber?, Option.ite_none_left_eq_some, Option.not_isSome_iff_eq_none,
        Option.map_eq_some_iff, stores_number_iff]
      simp only [ValueType.read?_eq_some_iff]
  | text text =>
      rw [add?, addText?, Option.ite_none_left_eq_some, Option.not_isSome_iff_eq_none,
        Option.some_inj, stores_text_iff]

theorem Found.add?_eq_none {found : Found} {occurrence : Occurrence}
    (h : ∀ found', ¬ Stores found occurrence found') : found.add? occurrence = none := by
  rw [Option.eq_none_iff_forall_ne_some]
  exact fun found' hadd => h found' (add?_eq_some_iff.1 hadd)

/-- What comes of an occurrence in front of further arguments. -/
def Found.answerAfter (found : Found) (occurrence : Occurrence) (rest : List String) : Answer :=
  match found.add? occurrence with
  | some found => declaration.parseFrom found rest
  | none => .refused ""

theorem IsText.ne_dashes {d : Declaration} {given : Bool} {argument : String}
    (h : IsText d given argument) : argument ≠ "--" := by
  cases h with
  | plain h =>
      rintro rfl
      exact h ⟨'-', [], rfl⟩
  | hyphens _ _ hdashes => exact hdashes

/-- A name of the command is no text. -/
theorem takesText_name {named : Named} (h : named ∈ declaration.named) (given : Bool)
    {argument : String}
    (hargument : argument = named.name ∨ ∃ value, argument = named.name ++ "=" ++ value) :
    declaration.takesText given argument = false := by
  rw [← Bool.not_eq_true, takesText_iff]
  rintro (hplain | ⟨-, -, -, hname, -⟩)
  · obtain ⟨-, -, -, more, hmore⟩ := find?_declaration named h
    rcases hargument with rfl | ⟨value, rfl⟩
    · exact hplain ⟨'-', more, hmore.symm⟩
    · exact hplain ⟨'-', more ++ '=' :: value.toList, by rw [toList_joined, ← hmore]; rfl⟩
  · exact hname ⟨named, h, hargument⟩

theorem joined_ne_dashes (name value : String) : name ++ "=" ++ value ≠ "--" := by
  intro h
  have hmem : '=' ∈ (name ++ "=" ++ value).toList := by
    rw [toList_joined]
    exact List.mem_append_right _ List.mem_cons_self
  rw [h] at hmem
  revert hmem
  decide

section Named

variable {found : Found} {named : Named}

theorem parseFrom_name (h : named ∈ declaration.named) (rest : List String) :
    declaration.parseFrom found (named.name :: rest) =
      match named.use, rest with
      | .flag, rest => found.answerAfter (.flag named.name) rest
      | .value _, [] => .refused ""
      | .value type, value :: rest =>
          if declaration.takesText found.text.isSome value then
            found.answerAfter (.number named.name type value) rest
          else .refused "" := by
  obtain ⟨hfind, hequals, hdashes, -⟩ := find?_declaration named h
  -- the equation by cases asks for the arguments behind the name, which only a value needs
  rw [Declaration.parseFrom.eq_def]
  dsimp only
  rw [if_neg hdashes, takesText_name h _ (.inl rfl), if_neg Bool.false_ne_true,
    splitJoined_name hequals]
  dsimp only
  rw [hfind]
  obtain ⟨name, use⟩ := named
  cases use with
  | flag => rfl
  | value type => cases rest <;> rfl

theorem parseFrom_joined (h : named ∈ declaration.named) (value : String) (rest : List String) :
    declaration.parseFrom found ((named.name ++ "=" ++ value) :: rest) =
      match named.use with
      | .flag => .refused ""
      | .value type => found.answerAfter (.number named.name type value) rest := by
  obtain ⟨hfind, hequals, -⟩ := find?_declaration named h
  have htext := takesText_name h found.text.isSome (.inr ⟨value, rfl⟩)
  rw [Declaration.parseFrom, if_neg (joined_ne_dashes _ _), htext, if_neg Bool.false_ne_true,
    splitJoined_joined hequals]
  dsimp only
  rw [hfind]
  obtain ⟨name, use⟩ := named
  cases use <;> rfl

end Named

theorem parseFrom_occurs {found : Found} {front : List String} {occurrence : Occurrence}
    (h : Occurs declaration found.text.isSome front occurrence) (rest : List String) :
    declaration.parseFrom found (front ++ rest) = found.answerAfter occurrence rest := by
  cases h with
  | flag h => exact parseFrom_name h rest
  | @joined name value type h => exact parseFrom_joined h value rest
  | @separate name value type h hvalue =>
      exact (parseFrom_name h (value :: rest)).trans (if_pos (takesText_iff.2 hvalue))
  | @text text h =>
      rw [List.singleton_append, Declaration.parseFrom, if_neg h.ne_dashes,
        if_pos (takesText_iff.2 h)]
      rfl

/-- An argument that is neither a name nor a text is refused, unless it asks for help. -/
theorem parseFrom_unknown {found : Found} {argument : String}
    (htext : ¬ IsText declaration found.text.isSome argument) (hdashes : argument ≠ "--")
    (hname : ¬ declaration.Names argument) (hhelp : ¬ AsksForHelp found.text.isSome argument)
    (rest : List String) : declaration.parseFrom found (argument :: rest) = .refused "" := by
  -- as long as a text may come, such an argument would be one
  have hgiven : found.text.isSome = true := by
    cases hgiven : found.text.isSome with
    | true => rfl
    | false =>
        rw [hgiven] at htext hhelp
        exact absurd (.hyphens rfl rfl hdashes hname hhelp) htext
  have hfind : declaration.find? (splitJoined argument).1 = none := by
    rw [← Option.not_isSome_iff_eq_none, isSome_find?_iff]
    exact hname
  have hwords : ¬ (argument = "--help" ∨ argument.toList.take 2 = ['-', 'h']) := by
    rintro (hlong | hletter)
    · exact hhelp (.long hlong)
    · exact hhelp (.behind hgiven (hletter ▸ List.take_prefix 2 _))
  rw [Declaration.parseFrom, if_neg hdashes, if_neg (mt takesText_iff.1 htext)]
  dsimp only
  rw [hfind]
  exact if_neg hwords

/-! ## The rules -/

/-- The answer for what has been found, or for a refusal. -/
def Answer.ofFound? : Option Found → Answer
  | some result => .found result
  | none => .refused ""

theorem foldlM_addText? {found : Found} {texts : List String} {result : Option Found}
    (h : ReadsTexts found texts result) : texts.foldlM Found.addText? found = result := by
  induction h with
  | done => rfl
  | @stored found found' text rest result hstores _ ih =>
      have hadd : found.addText? text = some found' := Found.add?_eq_some_iff.2 hstores
      rw [List.foldlM_cons, hadd]
      exact ih
  | @notStored found text rest h =>
      have hadd : found.addText? text = none := Found.add?_eq_none h
      rw [List.foldlM_cons, hadd]
      rfl

theorem parseFrom_of_reads {found : Found} {arguments : List String} {result : Option Found}
    (h : Reads declaration found arguments result) :
    declaration.parseFrom found arguments = Answer.ofFound? result := by
  induction h with
  | done => rfl
  | stored hoccurs hstores _ ih =>
      rw [parseFrom_occurs hoccurs, Found.answerAfter, Found.add?_eq_some_iff.2 hstores]
      exact ih
  | notStored hoccurs h =>
      rw [parseFrom_occurs hoccurs, Found.answerAfter, Found.add?_eq_none h]
      rfl
  | @noValue found name type rest h hnext =>
      rw [parseFrom_name h]
      cases rest with
      | nil => rfl
      | cons next rest => exact if_neg (mt takesText_iff.1 (hnext next rfl).1)
  | @flagValue found name value rest h => exact parseFrom_joined h value rest
  | unknown htext hdashes hname hhelp => exact parseFrom_unknown htext hdashes hname hhelp _
  | @dashes found texts result h =>
      rw [Declaration.parseFrom, if_pos rfl, foldlM_addText? h]
      cases result <;> rfl

/-- The parser keeps the rules for the arguments of the command. -/
theorem rules_parse : declaration.Rules declaration.parse where
  found := parseFrom_of_reads
  refused := fun h => ⟨"", parseFrom_of_reads h⟩

end Calculator.CommandLine
