import Calculator.CommandLine
import Calculator.Proofs.Session

/-!
# An expression as an argument and as a line

An expression among the arguments is evaluated once; an expression on a line is
answered in a session.  The two go through different code, and yet they say the same
of the expression (`run_modes_agree`), if it can be the text of a line: a blank line
has no answer, and a session takes the carriage returns off the end of a line.
-/

namespace Calculator.CommandLine

open Session (answer lines lines_append lines_of_not_mem prompt reply?_utf8 runLines trimEnd utf8)
open Text (isBlank)

/-! ## A line of its own -/

/-- UTF-8 writes no other character with the byte of a newline. -/
theorem eq_newline_of_mem {c : Char} (h : 10 ∈ String.utf8EncodeChar c) : c = '\n' := by
  have hbyte {n : Nat} (hn : 10 = UInt8.ofNat n) : n % 256 = 10 := by
    have htoNat := congrArg UInt8.toNat hn
    rw [UInt8.toNat_ofNat'] at htoNat
    exact htoNat.symm
  unfold String.utf8EncodeChar at h
  dsimp only at h
  -- in a longer sequence every byte is at least 128
  split_ifs at h with hone htwo hthree
  · have hvalue := hbyte (List.mem_singleton.1 h)
    exact Char.toNat_inj.1 (show c.val.toNat = 10 by omega)
  · simp only [List.mem_cons, List.not_mem_nil, or_false] at h
    rcases h with h | h <;> have hvalue := hbyte h <;> omega
  · simp only [List.mem_cons, List.not_mem_nil, or_false] at h
    rcases h with h | h | h <;> have hvalue := hbyte h <;> omega
  · simp only [List.mem_cons, List.not_mem_nil, or_false] at h
    rcases h with h | h | h | h <;> have hvalue := hbyte h <;> omega

theorem newline_not_mem_utf8 {text : String} (h : OneLine text) : 10 ∉ utf8 text := by
  intro hmem
  obtain ⟨c, hc, hbyte⟩ := List.mem_flatMap.1 hmem
  exact h (eq_newline_of_mem hbyte ▸ hc)

section Line

variable {text ending : String}

theorem utf8_append (text ending : String) : utf8 (text ++ ending) = utf8 text ++ utf8 ending := by
  rw [utf8, String.toList_append, List.flatMap_append]
  rfl

theorem utf8_ne_nil {c : Char} (hc : c ∈ text.toList) : utf8 text ≠ [] := by
  intro hnil
  exact String.utf8EncodeChar_ne_nil (List.flatMap_eq_nil_iff.1 hnil c hc)

/-- A text without a newline is one line, with a newline at its end or without. -/
theorem lines_utf8 (hline : OneLine text) (hne : utf8 text ≠ [])
    (hending : ending = "" ∨ ending = "\n") :
    lines (utf8 (text ++ ending)) = [utf8 (text ++ ending)] := by
  have hnewline := newline_not_mem_utf8 hline
  rcases hending with rfl | rfl
  · rw [String.append_empty, lines_of_not_mem hnewline hne]
  · have hend : utf8 "\n" = [10] := by decide
    rw [utf8_append, hend, lines_append hnewline]
    rfl

/-- Nothing but the newline is taken off a text that does not end in a carriage return. -/
theorem trimEnd_line (hlast : ∀ c ∈ text.toList.getLast?, c ≠ '\r' ∧ c ≠ '\n')
    (hending : ending = "" ∨ ending = "\n") : trimEnd (text ++ ending).toList = text.toList := by
  have hkept : (text.toList.reverse.dropWhile fun c => c == '\r' || c == '\n').reverse =
      text.toList := by
    rw [List.reverse_eq_iff]
    rw [← List.head?_reverse] at hlast
    cases hreverse : text.toList.reverse with
    | nil => rfl
    | cons c rest =>
        rw [hreverse] at hlast
        obtain ⟨hreturn, hnewline⟩ := hlast c rfl
        exact List.dropWhile_cons_of_neg (by simp [hreturn, hnewline])
  rcases hending with rfl | rfl
  · rw [String.append_empty, trimEnd, hkept]
  · rw [trimEnd, String.toList_append, List.reverse_append]
    exact hkept

end Line

/-! ## Both ways -/

section Report

variable (limits : Limits) (report : Report) (text : String)

/-- What the report on an expression shows. -/
def shown : String :=
  report.render text (evaluate limits text)

/-- What is common to an outcome for an expression among the arguments (`once`) and an outcome for a
session with the expression on its only line. -/
structure ModesAgree (once session : Outcome) : Prop where
  session_eq : session = ⟨0, "> " ++ shown limits report text ++ "\n> \n", ""⟩
  exitCode_eq : once.exitCode = if (evaluate limits text).isOk then 0 else 1
  output_eq : once.output =
    if (evaluate limits text).isOk || report.html then shown limits report text ++ "\n" else ""
  errors_of_ok : (evaluate limits text).isOk = true → once.errors = ""
  errors_of_error : ∀ failure, evaluate limits text = .error failure →
    once.errors = "Error: " ++ failure.message ++ "\n"
  same_message : (evaluate limits text).isOk = false → report.html = false →
    ∃ message, once.errors = "Error: " ++ message ++ "\n" ∧
      session.output = "> " ++ ("error: " ++ message) ++ "\n> \n"

end Report

section Outcomes

variable {limits : Limits} {report : Report} {text : String}

theorem run_session {ending : String}
    (hnonblank : ∃ c ∈ text.toList, isBlank c = false) (hline : OneLine text)
    (hlast : text.toList.getLast? ≠ some '\r') (hending : ending = "" ∨ ending = "\n") :
    Session.run limits report (utf8 (text ++ ending)) =
      ⟨0, "> " ++ shown limits report text ++ "\n> \n", ""⟩ := by
  obtain ⟨c, hc, hblank⟩ := hnonblank
  have hend : ∀ c ∈ text.toList.getLast?, c ≠ '\r' ∧ c ≠ '\n' := by
    rintro c hmem
    refine ⟨?_, ?_⟩
    · rintro rfl
      exact hlast hmem
    · rintro rfl
      exact hline (List.mem_of_getLast? hmem)
  have hany : text.toList.all isBlank = false := List.all_eq_false.2 ⟨c, hc, by simp [hblank]⟩
  have hanswer : answer limits report (text ++ ending) = shown limits report text ++ "\n" := by
    unfold answer
    rw [trimEnd_line hend hending]
    dsimp only
    rw [hany, String.ofList_toList]
    rfl
  rw [Session.run, lines_utf8 hline (utf8_ne_nil hc) hending, runLines, reply?_utf8, hanswer]
  simp [runLines, prompt, String.append_assoc]

theorem evaluateOnce_of_ok {value : Float} (h : evaluate limits text = .ok value) :
    evaluateOnce limits report text = ⟨0, shown limits report text ++ "\n", ""⟩ := by
  unfold evaluateOnce shown
  rw [h]

theorem evaluateOnce_of_error {failure : Failure} (h : evaluate limits text = .error failure) :
    evaluateOnce limits report text =
      ⟨1, if report.html then shown limits report text ++ "\n" else "",
        "Error: " ++ failure.message ++ "\n"⟩ := by
  unfold evaluateOnce shown
  rw [h]

/-- In plain text the report on a failure is its message. -/
theorem shown_of_error (hhtml : report.html = false) {failure : Failure}
    (h : evaluate limits text = .error failure) :
    shown limits report text = "error: " ++ failure.message := by
  unfold shown Report.render
  rw [h, hhtml]
  rfl

theorem modesAgree_evaluateOnce (limits : Limits) (report : Report) (text : String) :
    ModesAgree limits report text (evaluateOnce limits report text)
      ⟨0, "> " ++ shown limits report text ++ "\n> \n", ""⟩ := by
  cases hresult : evaluate limits text with
  | ok value =>
      rw [evaluateOnce_of_ok hresult]
      exact
        { session_eq := rfl
          exitCode_eq := by rw [hresult]; rfl
          output_eq := by rw [hresult]; rfl
          errors_of_ok := fun _ => rfl
          errors_of_error := fun failure h => by cases hresult.symm.trans h
          same_message := fun h => by rw [hresult] at h; cases h }
  | error failure =>
      rw [evaluateOnce_of_error hresult]
      exact
        { session_eq := rfl
          exitCode_eq := by rw [hresult]; rfl
          output_eq := by rw [hresult]; rfl
          errors_of_ok := fun h => by rw [hresult] at h; cases h
          errors_of_error := fun failure' h => by
            obtain rfl := Except.error.inj (hresult.symm.trans h)
            rfl
          same_message := fun _ hhtml =>
            ⟨failure.message, rfl, by rw [shown_of_error hhtml hresult]⟩ }

end Outcomes

/-- An expression that can be the text of a line has the same report, and its failure the same
message, among the arguments and on a line.  Both are for the limits, the number of decimals and
the kind of report that the request sets. -/
theorem run_modes_agree (request : Request) {text : String}
    (hnonblank : ∃ c ∈ text.toList, isBlank c = false) (hline : OneLine text)
    (hlast : text.toList.getLast? ≠ some '\r') (input : List UInt8) {ending : String}
    (hending : ending = "" ∨ ending = "\n") :
    ModesAgree
      { length := request.maxLength.getD 4096, depth := request.maxDepth.getD 256 }
      { decimals := request.precision, html := request.html } text
      ({ request with expression := some text }.run input)
      ({ request with expression := none }.run (utf8 (text ++ ending))) := by
  have hsession : { request with expression := none }.run (utf8 (text ++ ending)) =
      ⟨0, "> " ++ shown request.limits request.report text ++ "\n> \n", ""⟩ :=
    run_session hnonblank hline hlast hending
  rw [hsession]
  exact modesAgree_evaluateOnce request.limits request.report text

/-- An expression of two levels, with no setting as by default: it is evaluated at a limit of two
levels and refused at a limit of one. -/
theorem run_modes_agree_division :
    ModesAgree ⟨6, 2⟩ ⟨some 2, true⟩ "-(2/3)"
        (Request.run ⟨some 2, true, some 6, some 2, some "-(2/3)"⟩ [])
        (Request.run ⟨some 2, true, some 6, some 2, none⟩ (utf8 ("-(2/3)" ++ "\n"))) ∧
      ModesAgree ⟨6, 1⟩ ⟨some 2, true⟩ "-(2/3)"
        (Request.run ⟨some 2, true, some 6, some 1, some "-(2/3)"⟩ [])
        (Request.run ⟨some 2, true, some 6, some 1, none⟩ (utf8 "-(2/3)")) ∧
      Request.run ⟨some 2, true, some 6, some 2, some "-(2/3)"⟩ [] =
        ⟨0, "<div class=\"expression\">-(2/3)</div>" ++
          "<div class=\"result\"><strong>Result:</strong> -0.67</div>\n", ""⟩ ∧
      Request.run ⟨some 2, true, some 6, some 1, some "-(2/3)"⟩ [] =
        ⟨1, "<div class=\"expression\">-(2/3)</div><div class=\"error\">" ++
          "<strong>Error:</strong> Expression nested too deeply at position 1 " ++
          "(at most 1 levels allowed).</div>\n",
          "Error: Expression nested too deeply at position 1 (at most 1 levels allowed).\n"⟩ := by
  have hnonblank : ∃ c ∈ "-(2/3)".toList, isBlank c = false := ⟨'2', by decide, by decide⟩
  have hline : OneLine "-(2/3)" := by decide
  have hlast : "-(2/3)".toList.getLast? ≠ some '\r' := by decide
  refine ⟨?_, ?_, by decide +kernel, by decide +kernel⟩
  · exact run_modes_agree ⟨some 2, true, some 6, some 2, none⟩ hnonblank hline hlast [] (.inr rfl)
  · have hagree := run_modes_agree ⟨some 2, true, some 6, some 1, none⟩ hnonblank hline hlast []
      (.inl rfl)
    rwa [String.append_empty] at hagree

end Calculator.CommandLine
