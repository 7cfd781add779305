import Calculator.CommandLine.Session
import Calculator.Proofs.OneLine

/-!
# Sessions answer line by line

The input of a session is cut after each newline (`Cuts`).  The lines before the
first one that is not UTF-8 are answered in order, each from its own text alone
and, unless it is blank, with one line of output (`run_answers_lines`).

That no answer has a second line needs more than the cut: a newline inside the
text of a line would be a newline byte before the end of the line, since UTF-8
writes a newline as that byte (`newline_mem_dropLast`).
-/

namespace Calculator.CommandLine.Session

open Text (isBlank)

/-! ## Lines of bytes -/

/-- `Cuts input pieces`: the input is cut after each newline byte, and nowhere else. -/
inductive Cuts : List UInt8 → List (List UInt8) → Prop
  | nil : Cuts [] []
  | last {body : List UInt8} (hbody : 10 ∉ body) (hne : body ≠ []) : Cuts body [body]
  | line {body rest : List UInt8} {pieces : List (List UInt8)} (hbody : 10 ∉ body)
      (hrest : Cuts rest pieces) : Cuts (body ++ 10 :: rest) ((body ++ [10]) :: pieces)

theorem cuts_lines (input : List UInt8) : Cuts input (lines input) := by
  induction input with
  | nil => exact .nil
  | cons byte rest ih =>
      rw [lines]
      by_cases hnewline : byte = 10
      · subst hnewline
        exact Cuts.line List.not_mem_nil ih
      · rw [if_neg hnewline]
        have hother : 10 ≠ byte := Ne.symm hnewline
        -- the byte joins the first piece of the rest, if there is one
        generalize lines rest = pieces at ih
        cases ih with
        | nil => exact .last (by simpa using hother) (List.cons_ne_nil _ _)
        | last hbody hne =>
            exact .last (List.not_mem_cons_of_ne_of_not_mem hother hbody) (List.cons_ne_nil _ _)
        | line hbody hrest =>
            exact Cuts.line (List.not_mem_cons_of_ne_of_not_mem hother hbody) hrest

theorem lines_of_not_mem {body : List UInt8} (hbody : 10 ∉ body) (hne : body ≠ []) :
    lines body = [body] := by
  induction body with
  | nil => exact absurd rfl hne
  | cons byte body ih =>
      rw [lines, if_neg (List.ne_of_not_mem_cons hbody).symm]
      cases body with
      | nil => rfl
      | cons next body => rw [ih (List.not_mem_of_not_mem_cons hbody) (List.cons_ne_nil _ _)]

theorem lines_append {body : List UInt8} (hbody : 10 ∉ body) (rest : List UInt8) :
    lines (body ++ 10 :: rest) = (body ++ [10]) :: lines rest := by
  induction body with
  | nil => rw [List.nil_append, lines, if_pos rfl, List.nil_append]
  | cons byte body ih =>
      rw [List.cons_append, lines, if_neg (List.ne_of_not_mem_cons hbody).symm,
        ih (List.not_mem_of_not_mem_cons hbody), List.cons_append]

/-- There is one way to cut an input. -/
theorem cuts_iff (input : List UInt8) (pieces : List (List UInt8)) :
    Cuts input pieces ↔ pieces = lines input := by
  constructor
  · intro h
    induction h with
    | nil => rfl
    | last hbody hne => rw [lines_of_not_mem hbody hne]
    | line hbody hrest ih => rw [lines_append hbody, ih]
  · rintro rfl
    exact cuts_lines input

/-- A newline byte ends its piece. -/
theorem Cuts.not_mem_dropLast {input : List UInt8} {pieces : List (List UInt8)}
    (h : Cuts input pieces) : ∀ piece ∈ pieces, 10 ∉ piece.dropLast := by
  induction h with
  | nil => exact nofun
  | last hbody hne =>
      intro piece hpiece hmem
      obtain rfl := List.mem_singleton.1 hpiece
      exact hbody (List.mem_of_mem_dropLast hmem)
  | line hbody hrest ih =>
      refine List.forall_mem_cons.2 ⟨?_, ih⟩
      rwa [List.dropLast_concat]

/-! ## Lines of text -/

/-- The bytes of a text in UTF-8. -/
def utf8 (text : String) : List UInt8 :=
  text.toList.flatMap String.utf8EncodeChar

theorem fromUTF8?_utf8 (text : String) : String.fromUTF8? (utf8 text).toByteArray = some text := by
  have hbytes : (utf8 text).toByteArray = text.toByteArray := String.utf8Encode_toList
  rw [hbytes, String.fromUTF8?, dif_pos text.isValidUTF8]
  rfl

theorem exists_utf8_of_isSome {piece : List UInt8}
    (h : (String.fromUTF8? piece.toByteArray).isSome = true) : ∃ text, utf8 text = piece := by
  have hvalid : piece.toByteArray.IsValidUTF8 := by
    by_contra hinvalid
    rw [String.fromUTF8?, dif_neg hinvalid] at h
    cases h
  obtain ⟨chars, hchars⟩ := hvalid
  refine ⟨String.ofList chars, ?_⟩
  rw [utf8, String.toList_ofList]
  exact (List.toByteArray_inj.1 hchars).symm

theorem reply?_utf8 (limits : Limits) (report : Report) (line : String) :
    reply? limits report (utf8 line) = some (answer limits report line) := by
  rw [reply?, fromUTF8?_utf8]
  rfl

theorem reply?_of_ne_utf8 {piece : List UInt8} (h : ∀ text, utf8 text ≠ piece) (limits : Limits)
    (report : Report) : reply? limits report piece = none := by
  rw [reply?, Option.map_eq_none_iff]
  by_contra hsome
  obtain ⟨text, htext⟩ := exists_utf8_of_isSome (Option.isSome_iff_ne_none.2 hsome)
  exact h text htext

/-- The lines before the first one that is not UTF-8. -/
theorem exists_good (pieces : List (List UInt8)) :
    ∃ (good : List String) (rest : List (List UInt8)), pieces = good.map utf8 ++ rest ∧
      ∀ bad ∈ rest.head?, ∀ text, utf8 text ≠ bad := by
  induction pieces with
  | nil => exact ⟨[], [], rfl, nofun⟩
  | cons piece pieces ih =>
      by_cases hgood : ∃ text, utf8 text = piece
      · obtain ⟨line, rfl⟩ := hgood
        obtain ⟨good, rest, rfl, hrest⟩ := ih
        exact ⟨line :: good, rest, rfl, hrest⟩
      · refine ⟨[], piece :: pieces, rfl, ?_⟩
        rintro bad ⟨⟩ text htext
        exact hgood ⟨text, htext⟩

/-- UTF-8 writes a newline as one byte, and no character without a byte. -/
theorem newline_mem_dropLast {line : String} (h : '\n' ∈ line.toList.dropLast) :
    10 ∈ (utf8 line).dropLast := by
  have hne : line.toList ≠ [] := by
    rintro hnil
    rw [hnil] at h
    cases h
  have hlast : String.utf8EncodeChar (line.toList.getLast hne) ≠ [] := by
    unfold String.utf8EncodeChar
    dsimp only
    split_ifs <;> exact List.cons_ne_nil _ _
  rw [utf8, ← List.dropLast_append_getLast hne, List.flatMap_append, List.flatMap_singleton,
    List.dropLast_append_of_ne_nil hlast]
  exact List.mem_append_left _ (List.mem_flatMap.2 ⟨'\n', h, by decide⟩)

/-! ## The text of a line -/

/-- What a line asks for: its text without the carriage returns and newlines at its end. -/
structure Asks (line text : String) : Prop where
  nonblank : ∃ c ∈ line.toList, isBlank c = false
  trimmed : ∃ ending, line.toList = text.toList ++ ending ∧ ∀ c ∈ ending, c = '\r' ∨ c = '\n'
  last : ∀ c ∈ text.toList.getLast?, c ≠ '\r' ∧ c ≠ '\n'

theorem trimEnd_append (line : List Char) :
    ∃ ending, line = trimEnd line ++ ending ∧ ∀ c ∈ ending, c = '\r' ∨ c = '\n' := by
  refine ⟨(line.reverse.takeWhile fun c => c == '\r' || c == '\n').reverse, ?_, ?_⟩
  · rw [trimEnd, ← List.reverse_append, List.takeWhile_append_dropWhile, List.reverse_reverse]
  · intro c hc
    simpa using List.mem_takeWhile_imp (List.mem_reverse.1 hc)

theorem getLast?_trimEnd (line : List Char) :
    ∀ c ∈ (trimEnd line).getLast?, c ≠ '\r' ∧ c ≠ '\n' := by
  intro c hc
  rw [trimEnd, List.getLast?_reverse] at hc
  have hstop := List.head?_dropWhile_not (fun c => c == '\r' || c == '\n') line.reverse
  rw [Option.mem_def.1 hc] at hstop
  simpa using hstop

/-- The end of a line is blank, so that a line is blank where its text is. -/
theorem all_isBlank_trimEnd (line : List Char) :
    (trimEnd line).all isBlank = line.all isBlank := by
  obtain ⟨ending, hline, hending⟩ := trimEnd_append line
  have hblank : ending.all isBlank = true := by
    refine List.all_eq_true.2 fun c hc => ?_
    rcases hending c hc with rfl | rfl <;> decide
  conv_rhs => rw [hline, List.all_append, hblank, Bool.and_true]

theorem asks_trimEnd {line : String} (h : line.toList.all isBlank = false) :
    Asks line (String.ofList (trimEnd line.toList)) := by
  refine ⟨by simpa using h, ?_, ?_⟩
  · rw [String.toList_ofList]
    exact trimEnd_append line.toList
  · rw [String.toList_ofList]
    exact getLast?_trimEnd line.toList

namespace Asks

variable {line text : String}

theorem exists_mem (h : Asks line text) : ∃ c ∈ text.toList, isBlank c = false := by
  obtain ⟨c, hc, hblank⟩ := h.nonblank
  obtain ⟨ending, hline, hending⟩ := h.trimmed
  rw [hline] at hc
  rcases List.mem_append.1 hc with hc | hc
  · exact ⟨c, hc, hblank⟩
  · rcases hending c hc with rfl | rfl <;> exact absurd hblank (by decide)

/-- A newline inside the text would stand before the end of the line. -/
theorem oneLine (h : Asks line text) (hline : 10 ∉ (utf8 line).dropLast) : OneLine text := by
  intro hmem
  obtain ⟨before, after, htext⟩ := List.append_of_mem hmem
  obtain ⟨ending, hending, -⟩ := h.trimmed
  have hafter : after ≠ [] := by
    rintro rfl
    exact (h.last '\n' (by rw [htext, List.getLast?_concat]; rfl)).2 rfl
  refine hline (newline_mem_dropLast ?_)
  rw [hending, htext, List.append_assoc, List.cons_append, ← List.singleton_append,
    ← List.append_assoc, List.dropLast_append_of_ne_nil (by simp [hafter])]
  simp

end Asks

/-! ## Answers -/

section Answers

variable {limits : Limits} {report : Report} {line text : String}

/-- A character that is no blank leaves something to evaluate. -/
theorem evaluate_ne_emptyExpression (h : ∃ c ∈ text.toList, isBlank c = false) :
    evaluate limits text ≠ .error .emptyExpression := by
  intro hempty
  cases (evaluate_eq_error_iff ..).1 hempty with
  | tokens hlength hscan =>
      obtain ⟨position, hfault⟩ := Token.exists_fault_of_screenAndScan hscan
      cases hfault
  | tree hlength hscan hblamed =>
      cases hblamed with
      | empty htokens =>
          obtain ⟨c, hc, hblank⟩ := h
          obtain ⟨index, hindex⟩ := List.mem_iff_getElem?.1 hc
          obtain ⟨token, htoken, -⟩ := (Token.tiles_of_screenAndScan hscan).covered hindex hblank
          rw [htokens] at htoken
          cases htoken
  | value hlength hscan htree hvalue =>
      rcases Expr.failure_of_value hvalue with hfailure | hfailure <;> cases hfailure

/-- What the answer to a line is: nothing to a blank line, else the report on its text. -/
inductive Answers (limits : Limits) (report : Report) (line : String) : String → Prop
  | blank (hblank : ∀ c ∈ line.toList, isBlank c = true) : Answers limits report line ""
  | report {text : String} (hasks : Asks line text)
      (hline : OneLine (report.render text (evaluate limits text)))
      (hempty : evaluate limits text ≠ .error .emptyExpression) :
      Answers limits report line (report.render text (evaluate limits text) ++ "\n")

theorem answers_answer (hline : 10 ∉ (utf8 line).dropLast) :
    Answers limits report line (answer limits report line) := by
  unfold answer
  dsimp only
  rw [all_isBlank_trimEnd]
  cases hblank : line.toList.all isBlank with
  | true => exact .blank (List.all_eq_true.1 hblank)
  | false =>
      have hasks := asks_trimEnd hblank
      exact .report hasks (oneLine_render report limits (hasks.oneLine hline))
        (evaluate_ne_emptyExpression hasks.exists_mem)

/-- Whether a line has a character that is no blank. -/
def asksSomething (line : String) : Bool :=
  line.toList.any fun c => !isBlank c

theorem Answers.count_newline {reply : String} (h : Answers limits report line reply) :
    reply.toList.count '\n' = (asksSomething line).toNat := by
  cases h with
  | blank hblank =>
      have hnothing : asksSomething line = false := by
        simpa [asksSomething] using hblank
      rw [hnothing]
      rfl
  | report hasks hline hempty =>
      have hsomething : asksSomething line = true := by
        simpa [asksSomething] using hasks.nonblank
      rw [hsomething, String.toList_append, List.count_append, List.count_eq_zero_of_not_mem hline]
      rfl

end Answers

/-! ## Runs -/

section Runs

variable (limits : Limits) (report : Report)

/-- The output up to the last of some lines that are answered. -/
def transcript (good : List String) : String :=
  String.join (good.map fun line => "> " ++ answer limits report line)

theorem runLines_append (good : List String) (rest : List (List UInt8)) :
    runLines limits report (good.map utf8 ++ rest) =
      let later := runLines limits report rest
      { later with output := transcript limits report good ++ later.output } := by
  induction good with
  | nil => rfl
  | cons line good ih =>
      rw [List.map_cons, List.cons_append, runLines, reply?_utf8, ih]
      simp [transcript, prompt, String.append_assoc]

/-- How a session ends: at the end of its input, or at a line that is not UTF-8. -/
def ending : List (List UInt8) → Outcome
  | [] => ⟨0, "> \n", ""⟩
  | _ :: _ => ⟨1, "> ", "Error: stream did not contain valid UTF-8\n"⟩

theorem runLines_eq_ending {rest : List (List UInt8)}
    (h : ∀ bad ∈ rest.head?, ∀ text, utf8 text ≠ bad) :
    runLines limits report rest = ending rest := by
  cases rest with
  | nil => rfl
  | cons bad more =>
      rw [runLines, reply?_of_ne_utf8 (h bad rfl)]
      rfl

theorem count_newline_ending (rest : List (List UInt8)) :
    (ending rest).output.toList.count '\n' = rest.isEmpty.toNat := by
  cases rest with
  | nil => exact (by decide : "> \n".toList.count '\n' = 1)
  | cons bad more => exact (by decide : "> ".toList.count '\n' = 0)

theorem count_newline_transcript {good : List String}
    (h : ∀ line ∈ good, Answers limits report line (answer limits report line)) :
    (transcript limits report good).toList.count '\n' = good.countP asksSomething := by
  induction good with
  | nil => rfl
  | cons line good ih =>
      obtain ⟨hline, hgood⟩ := List.forall_mem_cons.1 h
      have hcount := ih hgood
      have hprompt : "> ".toList.count '\n' = 0 := by decide
      rw [transcript] at hcount ⊢
      rw [List.map_cons, String.join_cons, String.toList_append, String.toList_append,
        List.count_append, List.count_append, hprompt, hline.count_newline, hcount,
        List.countP_cons]
      cases asksSomething line <;> simp [Nat.add_comm]

/-- A session answers the lines before the first one that is not UTF-8, each by itself and in
order; then it ends, without a complaint if there is no such line.  The output has one newline for
each answer that is not empty, and one at an end without a complaint. -/
theorem run_answers_lines (input : List UInt8) :
    ∃ (good : List String) (rest : List (List UInt8)),
      (∀ pieces, Cuts input pieces ↔ pieces = good.map utf8 ++ rest) ∧
      (∀ bad ∈ rest.head?, ∀ text, utf8 text ≠ bad) ∧
      (∀ line ∈ good, Answers limits report line (answer limits report line)) ∧
      (run limits report input = match rest with
        | [] => ⟨0, transcript limits report good ++ "> \n", ""⟩
        | _ :: _ =>
            ⟨1, transcript limits report good ++ "> ",
              "Error: stream did not contain valid UTF-8\n"⟩) ∧
      (run limits report input).output.toList.count '\n' =
        good.countP asksSomething + rest.isEmpty.toNat := by
  obtain ⟨good, rest, hpieces, hrest⟩ := exists_good (lines input)
  have hcuts : Cuts input (good.map utf8 ++ rest) := hpieces ▸ cuts_lines input
  have hanswers : ∀ line ∈ good, Answers limits report line (answer limits report line) := by
    intro line hline
    refine answers_answer (hcuts.not_mem_dropLast _ ?_)
    exact List.mem_append_left _ (List.mem_map_of_mem hline)
  have hrun : run limits report input =
      { ending rest with output := transcript limits report good ++ (ending rest).output } := by
    rw [run, hpieces, runLines_append, runLines_eq_ending limits report hrest]
  refine ⟨good, rest, fun pieces => hpieces ▸ cuts_iff input pieces, hrest, hanswers, ?_, ?_⟩
  · rw [hrun]
    cases rest <;> rfl
  · rw [hrun, String.toList_append, List.count_append, count_newline_transcript _ _ hanswers,
      count_newline_ending]

-- the second line is blank and the third no UTF-8, so that the fourth is never read
example : run {} {} (utf8 "1+1\r\n" ++ utf8 " \n" ++ [255, 10] ++ utf8 "2\n") =
    ⟨1, "> 2\n> > ", "Error: stream did not contain valid UTF-8\n"⟩ := by
  decide +kernel

end Runs

end Calculator.CommandLine.Session
