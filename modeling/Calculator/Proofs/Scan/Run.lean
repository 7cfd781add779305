import Calculator.Proofs.Blank.Scan

/-!
# Runs of digits and dots

A run is a stretch of digits and dots with the blanks between them; no blank is
its first or its last character.  `RunAt text start run` says that a run stands
in a text and goes on at neither side, where blanks in between do not count.

* `runAt_append_iff`: where no run goes on across a cut, the runs of a text are
  those of its two parts.
* `runAt_dropBlanks`, `exists_runAt_of_dropBlanks`: the runs of a text and the
  runs of the text without its blanks are the same ones.
* `pieces_induction`: every text is built from blanks, symbols, foreign
  characters and whole runs.  `scanFrom_run` is the scanner's answer to a run.
-/

namespace Calculator

namespace Alphabet

/-- Whether a character is one of the operators or parentheses. -/
def isSymbol (c : Char) : Bool :=
  c == '+' || c == '-' || c == '*' || c == '/' || c == '(' || c == ')'

/-- The gate lets through what the scanner makes tokens of. -/
theorem isAllowed_eq (c : Char) : isAllowed c = (isNumeral c || isSymbol c) := by
  rw [Bool.eq_iff_iff]
  unfold isAllowed isNumeral isSymbol
  split <;> simp_all

end Alphabet

namespace Token

open Alphabet (isAllowed isAllowed_eq isForeign isNumeral isSymbol)
open Text (dropBlanks dropBlanks_append dropBlanks_cons dropBlanks_cons_of_blank
  dropBlanks_dropBlanks isBlank rawIndex rawIndex_here)

/-! ## Kinds of characters -/

theorem isSymbol_iff (c : Char) : isSymbol c = true ↔ ∃ kind, Kind.ofSymbol? c = some kind := by
  constructor
  · intro hc
    simp only [isSymbol, Bool.or_eq_true, beq_iff_eq] at hc
    rcases hc with ((((rfl | rfl) | rfl) | rfl) | rfl) | rfl <;> exact ⟨_, rfl⟩
  · rintro ⟨kind, hkind⟩
    unfold Kind.ofSymbol? at hkind
    split at hkind <;> first | rfl | cases hkind

theorem isSymbol_of_ofSymbol? {c : Char} {kind : Kind} (hkind : Kind.ofSymbol? c = some kind) :
    isSymbol c = true :=
  (isSymbol_iff c).2 ⟨kind, hkind⟩

theorem ofSymbol?_eq_none_iff (c : Char) : Kind.ofSymbol? c = none ↔ isSymbol c = false := by
  rw [← Bool.not_eq_true, isSymbol_iff, not_exists]
  exact Option.eq_none_iff_forall_ne_some

theorem isBlank_of_isSymbol {c : Char} (hc : isSymbol c = true) : isBlank c = false := by
  simp only [isSymbol, Bool.or_eq_true, beq_iff_eq] at hc
  rcases hc with ((((rfl | rfl) | rfl) | rfl) | rfl) | rfl <;> rfl

theorem isNumeral_of_isSymbol {c : Char} (hc : isSymbol c = true) : isNumeral c = false := by
  simp only [isSymbol, Bool.or_eq_true, beq_iff_eq] at hc
  rcases hc with ((((rfl | rfl) | rfl) | rfl) | rfl) | rfl <;> rfl

theorem isSymbol_of_isNumeral {c : Char} (hc : isNumeral c = true) : isSymbol c = false := by
  by_contra hsymbol
  rw [Bool.not_eq_false] at hsymbol
  cases hc.symm.trans (isNumeral_of_isSymbol hsymbol)

theorem isNumeral_of_isBlank {c : Char} (hc : isBlank c = true) : isNumeral c = false := by
  by_contra hnumeral
  rw [Bool.not_eq_false] at hnumeral
  cases hc.symm.trans (isBlank_of_isNumeral hnumeral)

theorem isForeign_iff (c : Char) :
    isForeign c = true ↔ isBlank c = false ∧ isNumeral c = false ∧ isSymbol c = false := by
  simp [isForeign, isAllowed_eq]

/-- Where a character stands, the text splits around it. -/
theorem getElem?_eq_some_iff_exists_split {text : List Char} {position : Nat} {c : Char} :
    text[position]? = some c ↔
      ∃ before after, text = before ++ c :: after ∧ before.length = position := by
  constructor
  · intro hc
    obtain ⟨hposition, rfl⟩ := List.getElem?_eq_some_iff.1 hc
    refine ⟨text.take position, text.drop (position + 1), ?_, ?_⟩
    · rw [← List.drop_eq_getElem_cons hposition, List.take_append_drop]
    · rw [List.length_take]
      omega
  · rintro ⟨before, after, rfl, rfl⟩
    rw [List.getElem?_append_right (Nat.le_refl _), Nat.sub_self, List.getElem?_cons_zero]

/-! ## Runs -/

/-- Digits and dots with the blanks between them. -/
structure IsRun (run : List Char) : Prop where
  first : ∃ c rest, run = c :: rest ∧ isNumeral c = true
  last : ∃ before c, run = before ++ [c] ∧ isNumeral c = true
  mem : ∀ c ∈ run, isNumeral c = true ∨ isBlank c = true

/-- No run goes on from `before` to `after`: of the last character of the one and the first of the
other, blanks left out, at least one is no digit and no dot. -/
def Apart (before after : List Char) : Prop :=
  ∀ c ∈ (dropBlanks before).getLast?, ∀ d ∈ (dropBlanks after).head?,
    isNumeral c = true → isNumeral d = false

/-- `RunAt text start run`: a run that stands in `text` at `start` and goes on at neither side. -/
structure RunAt (text : List Char) (start : Nat) (run : List Char) : Prop where
  isRun : IsRun run
  maximal : ∃ before after, text = before ++ (run ++ after) ∧ before.length = start ∧
    Apart before run ∧ Apart run after

namespace IsRun

variable {run : List Char}

theorem ne_nil (h : IsRun run) : run ≠ [] := by
  obtain ⟨c, rest, rfl, -⟩ := h.first
  exact List.cons_ne_nil _ _

theorem isNumeral_of_mem_getLast? (h : IsRun run) : ∀ c ∈ run.getLast?, isNumeral c = true := by
  obtain ⟨before, d, rfl, hd⟩ := h.last
  rw [List.getLast?_concat]
  rintro c ⟨⟩
  exact hd

theorem head?_dropBlanks (h : IsRun run) :
    ∃ c, (dropBlanks run).head? = some c ∧ isNumeral c = true := by
  obtain ⟨c, rest, rfl, hc⟩ := h.first
  exact ⟨c, by rw [dropBlanks_cons (isBlank_of_isNumeral hc), List.head?_cons], hc⟩

theorem getLast?_dropBlanks (h : IsRun run) :
    ∃ c, (dropBlanks run).getLast? = some c ∧ isNumeral c = true := by
  obtain ⟨before, c, rfl, hc⟩ := h.last
  refine ⟨c, ?_, hc⟩
  rw [dropBlanks_append, dropBlanks_cons (isBlank_of_isNumeral hc)]
  exact List.getLast?_concat

/-- Without its blanks a run consists of digits and dots. -/
theorem isNumeral_of_mem_dropBlanks (h : IsRun run) {c : Char} (hc : c ∈ dropBlanks run) :
    isNumeral c = true := by
  obtain ⟨hmem, hblank⟩ := List.mem_filter.1 hc
  rcases h.mem c hmem with hnumeral | hblank'
  · exact hnumeral
  · simp [hblank'] at hblank

theorem allowed (h : IsRun run) : ∀ c ∈ run, isAllowed c = true ∨ isBlank c = true := by
  intro c hc
  rcases h.mem c hc with hnumeral | hblank
  · exact .inl (by rw [isAllowed_eq, hnumeral, Bool.true_or])
  · exact .inr hblank

theorem dropBlanks (h : IsRun run) : IsRun (dropBlanks run) := by
  refine ⟨?_, ?_, fun c hc => .inl (h.isNumeral_of_mem_dropBlanks hc)⟩
  · obtain ⟨c, hc, hnumeral⟩ := h.head?_dropBlanks
    obtain ⟨rest, hrest⟩ := List.head?_eq_some_iff.1 hc
    exact ⟨c, rest, hrest, hnumeral⟩
  · obtain ⟨c, hc, hnumeral⟩ := h.getLast?_dropBlanks
    obtain ⟨before, hbefore⟩ := List.getLast?_eq_some_iff.1 hc
    exact ⟨before, c, hbefore, hnumeral⟩

end IsRun

/-! ## Texts that stand apart -/

theorem apart_nil_left (after : List Char) : Apart [] after := by
  simp [Apart, dropBlanks]

theorem apart_nil_right (before : List Char) : Apart before [] := by
  simp [Apart, dropBlanks]

theorem apart_append_left (before middle after : List Char) :
    Apart (before ++ middle) after ↔
      Apart middle after ∧ (dropBlanks middle = [] → Apart before after) := by
  rw [Apart, Apart, dropBlanks_append, List.getLast?_append]
  cases hmiddle : dropBlanks middle with
  | nil => simp [Apart]
  | cons c rest => simp [List.getLast?_cons]

theorem apart_append_right (before middle after : List Char) :
    Apart before (middle ++ after) ↔
      Apart before middle ∧ (dropBlanks middle = [] → Apart before after) := by
  rw [Apart, Apart, dropBlanks_append, List.head?_append]
  cases hmiddle : dropBlanks middle with
  | nil => simp [Apart]
  | cons c rest => simp

/-- A character that is no digit and no dot ends every run, unless it is a blank. -/
theorem apart_singleton_left {c : Char} (hc : isNumeral c = false) (after : List Char) :
    Apart [c] after := by
  intro d hd
  have hmem : d ∈ dropBlanks [c] := List.mem_of_getLast? hd
  obtain rfl : d = c := List.mem_singleton.1 (List.mem_of_mem_filter hmem)
  simp [hc]

theorem apart_iff_of_isRun {run : List Char} (hrun : IsRun run) (after : List Char) :
    Apart run after ↔ ∀ d ∈ (dropBlanks after).head?, isNumeral d = false := by
  obtain ⟨c, hc, hnumeral⟩ := hrun.getLast?_dropBlanks
  simp [Apart, hc, hnumeral]

/-- Within a run no two parts stand apart. -/
theorem eq_nil_or_eq_nil_of_isRun {front back : List Char} (hrun : IsRun (front ++ back))
    (hapart : Apart front back) : front = [] ∨ back = [] := by
  obtain ⟨c, rest, hfirst, hc⟩ := hrun.first
  obtain ⟨before, d, hlast, hd⟩ := hrun.last
  rcases front with _ | ⟨c', front⟩
  · exact .inl rfl
  rcases List.eq_nil_or_concat' back with rfl | ⟨back, d', rfl⟩
  · exact .inr rfl
  -- the first and the last character are no blanks, so that both parts hold a digit or a dot
  obtain rfl : c' = c := (List.cons.inj hfirst).1
  rw [← List.append_assoc] at hlast
  obtain rfl : d' = d := List.singleton_inj.1 (List.append_inj' hlast rfl).2
  have hfront : dropBlanks (c' :: front) ≠ [] := by
    simp [dropBlanks_cons (isBlank_of_isNumeral hc)]
  have hback : dropBlanks (back ++ [d']) ≠ [] := by
    simp [dropBlanks_append, dropBlanks_cons (isBlank_of_isNumeral hd)]
  have hlast' : isNumeral ((dropBlanks (c' :: front)).getLast hfront) = true :=
    hrun.isNumeral_of_mem_dropBlanks <| by
      rw [dropBlanks_append]
      exact List.mem_append_left _ (List.getLast_mem hfront)
  have hhead : isNumeral ((dropBlanks (back ++ [d'])).head hback) = true :=
    hrun.isNumeral_of_mem_dropBlanks <| by
      rw [dropBlanks_append]
      exact List.mem_append_right _ (List.head_mem hback)
  have hno := hapart _ (List.getLast?_eq_some_getLast hfront) _ (List.head?_eq_some_head hback) hlast'
  cases hhead.symm.trans hno

/-- A run begins with a digit or a dot. -/
theorem RunAt.exists_getElem? {text run : List Char} {start : Nat} (h : RunAt text start run) :
    ∃ c, text[start]? = some c ∧ isNumeral c = true := by
  obtain ⟨hrun, before, after, rfl, rfl, -⟩ := h
  obtain ⟨c, rest, rfl, hc⟩ := hrun.first
  exact ⟨c, by simp, hc⟩

/-! ## The runs of the parts of a text -/

section Parts

variable {text rest run : List Char}

theorem runAt_append_left (hapart : Apart text rest) {start : Nat} (h : RunAt text start run) :
    RunAt (text ++ rest) start run := by
  obtain ⟨hrun, before, after, rfl, rfl, hbefore, hafter⟩ := h
  refine ⟨hrun, before, after ++ rest, by simp, rfl, hbefore, ?_⟩
  rw [apart_append_right]
  refine ⟨hafter, fun hblanks => ?_⟩
  -- only blanks are left behind the run
  exact ((apart_append_left ..).1 ((apart_append_left ..).1 hapart).1).2 hblanks

theorem runAt_append_right (hapart : Apart text rest) {start : Nat} (h : RunAt rest start run) :
    RunAt (text ++ rest) (text.length + start) run := by
  obtain ⟨hrun, before, after, rfl, rfl, hbefore, hafter⟩ := h
  refine ⟨hrun, text ++ before, after, by simp, by simp, ?_, hafter⟩
  rw [apart_append_left]
  refine ⟨hbefore, fun hblanks => ?_⟩
  exact ((apart_append_right ..).1 (((apart_append_right ..).1 hapart).2 hblanks)).1

theorem runAt_append_iff (hapart : Apart text rest) (start : Nat) :
    RunAt (text ++ rest) start run ↔
      RunAt text start run ∨ ∃ index, start = text.length + index ∧ RunAt rest index run := by
  constructor
  · rintro ⟨hrun, before, after, happend, rfl, hbefore, hafter⟩
    rcases List.append_eq_append_iff.1 happend with ⟨between, rfl, rfl⟩ | ⟨front, rfl, hcut⟩
    · rw [apart_append_left] at hbefore
      exact .inr ⟨between.length, by simp, hrun, between, after, rfl, rfl, hbefore.1, hafter⟩
    · -- the run begins before the cut
      rcases List.append_eq_append_iff.1 hcut with ⟨between, rfl, rfl⟩ | ⟨back, rfl, rfl⟩
      · rw [apart_append_right] at hafter
        exact .inl ⟨hrun, before, between, rfl, rfl, hbefore, hafter.1⟩
      · -- the cut lies within the run or at one of its ends
        have hcut := ((apart_append_right ..).1 ((apart_append_left ..).1 hapart).1).1
        rcases eq_nil_or_eq_nil_of_isRun hrun hcut with rfl | rfl
        · exact .inr ⟨0, by simp, hrun, [], after, rfl, rfl, apart_nil_left _, hafter⟩
        · rw [List.append_nil] at hrun hbefore ⊢
          exact .inl ⟨hrun, before, [], by simp, rfl, hbefore, apart_nil_right _⟩
  · rintro (h | ⟨index, rfl, h⟩)
    · exact runAt_append_left hapart h
    · exact runAt_append_right hapart h

end Parts

/-! ## The runs of the text without its blanks -/

theorem runAt_dropBlanks {text run : List Char} {start : Nat} (h : RunAt text start run) :
    ∃ index, rawIndex text index = start ∧ RunAt (dropBlanks text) index (dropBlanks run) := by
  obtain ⟨hrun, before, after, rfl, rfl, hbefore, hafter⟩ := h
  refine ⟨(dropBlanks before).length, ?_, hrun.dropBlanks, dropBlanks before, dropBlanks after,
    by simp [dropBlanks_append], rfl, ?_, ?_⟩
  · obtain ⟨c, rest, rfl, hc⟩ := hrun.first
    exact rawIndex_here before (isBlank_of_isNumeral hc) _
  · simpa [Apart] using hbefore
  · simpa [Apart] using hafter

theorem dropBlanks_eq_append_iff {text front back : List Char} :
    dropBlanks text = front ++ back ↔
      ∃ before after, text = before ++ after ∧ dropBlanks before = front ∧
        dropBlanks after = back :=
  List.filter_eq_append_iff

theorem dropBlanks_eq_cons_iff {text rest : List Char} {c : Char} :
    dropBlanks text = c :: rest ↔
      ∃ before after, text = before ++ c :: after ∧ dropBlanks before = [] ∧
        isBlank c = false ∧ dropBlanks after = rest := by
  simp [dropBlanks, List.filter_eq_cons_iff]

/-- A text that is a run but for its blanks holds a run between blanks. -/
theorem exists_isRun_of_dropBlanks {text : List Char} (h : IsRun (dropBlanks text)) :
    ∃ before run after, text = before ++ (run ++ after) ∧ dropBlanks before = [] ∧
      dropBlanks after = [] ∧ IsRun run ∧ dropBlanks run = dropBlanks text := by
  obtain ⟨c, rest, hfirst, hc⟩ := h.first
  obtain ⟨before, text, rfl, hbefore, -, -⟩ := dropBlanks_eq_cons_iff.1 hfirst
  rw [dropBlanks_append, hbefore, List.nil_append] at h ⊢
  obtain ⟨front, d, hlast, hd⟩ := h.last
  obtain ⟨init, tail, htext, -, htail⟩ := dropBlanks_eq_append_iff.1 hlast
  obtain ⟨between, after, rfl, -, -, hafter⟩ := dropBlanks_eq_cons_iff.1 htail
  have hsplit : c :: text = (init ++ between ++ [d]) ++ after := by simpa using htext
  have hdrop : dropBlanks (init ++ between ++ [d]) = dropBlanks (c :: text) := by
    rw [hsplit, dropBlanks_append _ after, hafter, List.append_nil]
  refine ⟨before, init ++ between ++ [d], after, by rw [hsplit], hbefore, hafter,
    ⟨?_, ⟨_, d, rfl, hd⟩, ?_⟩, hdrop⟩
  · cases hrun : init ++ between ++ [d] with
    | nil => simp at hrun
    | cons c' rest' =>
        rw [hrun] at hsplit
        obtain rfl : c = c' := (List.cons.inj hsplit).1
        exact ⟨_, _, rfl, hc⟩
  · intro x hx
    cases hblank : isBlank x with
    | true => exact .inr rfl
    | false =>
        have hmem : x ∈ dropBlanks (init ++ between ++ [d]) :=
          List.mem_filter.2 ⟨hx, by simp [hblank]⟩
        rw [hdrop, ← dropBlanks_dropBlanks] at hmem
        exact .inl (h.isNumeral_of_mem_dropBlanks hmem)

theorem exists_runAt_of_dropBlanks {text run : List Char} {index : Nat}
    (h : RunAt (dropBlanks text) index run) :
    ∃ raw, RunAt text (rawIndex text index) raw ∧ dropBlanks raw = run := by
  obtain ⟨hrun, before, after, hsplit, rfl, hbefore, hafter⟩ := h
  obtain ⟨front, rest, rfl, rfl, hrest⟩ := dropBlanks_eq_append_iff.1 hsplit
  obtain ⟨middle, back, rfl, rfl, rfl⟩ := dropBlanks_eq_append_iff.1 hrest
  obtain ⟨lead, raw, trail, rfl, hlead, htrail, hraw, hdrop⟩ := exists_isRun_of_dropBlanks hrun
  have hfront : dropBlanks (front ++ lead) = dropBlanks front := by
    rw [dropBlanks_append, hlead, List.append_nil]
  have hback : dropBlanks (trail ++ back) = dropBlanks back := by
    rw [dropBlanks_append, htrail, List.nil_append]
  refine ⟨raw, ⟨hraw, front ++ lead, trail ++ back, by simp, ?_, ?_, ?_⟩, hdrop⟩
  · obtain ⟨c, rest, rfl, hc⟩ := hraw.first
    have hhere := rawIndex_here (front ++ lead) (isBlank_of_isNumeral hc) (rest ++ (trail ++ back))
    rw [hfront] at hhere
    simpa using hhere.symm
  · rw [← hdrop] at hbefore
    simpa [Apart, hfront] using hbefore
  · rw [← hdrop] at hafter
    simpa [Apart, hback] using hafter

/-! ## Reading a text piece by piece -/

theorem mem_splitRun (text : List Char) :
    ∀ c ∈ (splitRun text).1, isNumeral c = true ∨ isBlank c = true := by
  induction text with
  | nil => simp [splitRun]
  | cons d rest ih =>
      cases hnumeral : isNumeral d with
      | true => simpa [splitRun, hnumeral] using ih
      | false =>
          cases hblank : isBlank d with
          | false => simp [splitRun, hnumeral, hblank]
          | true =>
              cases hrun : splitRun rest with
              | mk run after =>
                  rw [hrun] at ih
                  cases run with
                  | nil => simp [splitRun, hnumeral, hblank, hrun]
                  | cons c run => simpa [splitRun, hnumeral, hblank, hrun] using ih

/-- No digit and no dot is left over. -/
theorem head?_dropBlanks_splitRun (text : List Char) :
    ∀ c ∈ (dropBlanks (splitRun text).2).head?, isNumeral c = false := by
  induction text with
  | nil => simp [splitRun, dropBlanks]
  | cons d rest ih =>
      cases hnumeral : isNumeral d with
      | true => simpa [splitRun, hnumeral] using ih
      | false =>
          cases hblank : isBlank d with
          | false => simp [splitRun, hnumeral, hblank, dropBlanks]
          | true =>
              have happend := splitRun_append rest
              cases hrun : splitRun rest with
              | mk run after =>
                  rw [hrun] at ih happend
                  cases run with
                  | nil =>
                      rw [List.nil_append] at happend
                      dsimp only at happend
                      subst happend
                      simpa [splitRun, hnumeral, hblank, hrun, dropBlanks_cons_of_blank hblank]
                        using ih
                  | cons c run => simpa [splitRun, hnumeral, hblank, hrun] using ih

theorem isRun_splitRun {c : Char} (hc : isNumeral c = true) (text : List Char) :
    IsRun (c :: (splitRun text).1) := by
  have hmem := mem_splitRun text
  have hlast := isBlank_getLast?_splitRun text
  refine ⟨⟨c, _, rfl, hc⟩, ?_, ?_⟩
  · rcases List.eq_nil_or_concat' (splitRun text).1 with hnil | ⟨before, d, hconcat⟩
    · exact ⟨[], c, by rw [hnil]; rfl, hc⟩
    · rw [hconcat] at hmem hlast ⊢
      refine ⟨c :: before, d, rfl, ?_⟩
      have hblank := hlast d (by simp)
      simpa [hblank] using hmem d (by simp)
  · rintro d (_ | ⟨_, hd⟩)
    · exact .inl hc
    · exact hmem d hd

theorem apart_splitRun {c : Char} (hc : isNumeral c = true) (text : List Char) :
    Apart (c :: (splitRun text).1) (splitRun text).2 :=
  (apart_iff_of_isRun (isRun_splitRun hc text) _).2 (head?_dropBlanks_splitRun text)

/-- Every text is built from blanks, symbols, foreign characters and whole runs. -/
theorem pieces_induction {motive : List Char → Prop} (nil : motive [])
    (blank : ∀ c rest, isBlank c = true → motive rest → motive (c :: rest))
    (symbol : ∀ c kind rest, Kind.ofSymbol? c = some kind → motive rest → motive (c :: rest))
    (run : ∀ run rest, IsRun run → Apart run rest → motive rest → motive (run ++ rest))
    (foreign : ∀ c rest, isForeign c = true → motive rest → motive (c :: rest)) :
    ∀ text, motive text
  | [] => nil
  | c :: rest => by
      have hrest := pieces_induction nil blank symbol run foreign rest
      cases hblank : isBlank c with
      | true => exact blank c rest hblank hrest
      | false =>
          cases hnumeral : isNumeral c with
          | true =>
              have hafter := pieces_induction nil blank symbol run foreign (splitRun rest).2
              have hpiece := run _ _ (isRun_splitRun hnumeral rest) (apart_splitRun hnumeral rest)
                hafter
              rwa [List.cons_append, splitRun_append] at hpiece
          | false =>
              cases hsymbol : isSymbol c with
              | true =>
                  obtain ⟨kind, hkind⟩ := (isSymbol_iff c).1 hsymbol
                  exact symbol c kind rest hkind hrest
              | false =>
                  exact foreign c rest ((isForeign_iff c).2 ⟨hblank, hnumeral, hsymbol⟩) hrest
termination_by text => text.length
decreasing_by
  · simp
  · exact Nat.lt_succ_of_le (splitRun_length_le rest)

/-! ## The scanner on a run -/

theorem splitRun_of_head? {text : List Char}
    (htext : ∀ c ∈ (dropBlanks text).head?, isNumeral c = false) : splitRun text = ([], text) := by
  induction text with
  | nil => rfl
  | cons c rest ih =>
      cases hblank : isBlank c with
      | true =>
          rw [dropBlanks_cons_of_blank hblank] at htext
          simp [splitRun, isNumeral_of_isBlank hblank, hblank, ih htext]
      | false =>
          have hnumeral : isNumeral c = false := htext c (by simp [dropBlanks_cons hblank])
          simp [splitRun, hnumeral, hblank]

theorem splitRun_append_of_head? {front rest : List Char}
    (hmem : ∀ c ∈ front, isNumeral c = true ∨ isBlank c = true)
    (hlast : ∀ c ∈ front.getLast?, isNumeral c = true)
    (hrest : ∀ c ∈ (dropBlanks rest).head?, isNumeral c = false) :
    splitRun (front ++ rest) = (front, rest) := by
  induction front with
  | nil => exact splitRun_of_head? hrest
  | cons c front ih =>
      have hfront := ih fun d hd => hmem d (List.mem_cons_of_mem _ hd)
      cases front with
      | nil =>
          have hnumeral : isNumeral c = true := hlast c rfl
          simp [splitRun, hnumeral, splitRun_of_head? hrest]
      | cons d front =>
          rw [List.getLast?_cons_cons] at hlast
          rw [List.cons_append, splitRun, hfront hlast]
          cases hnumeral : isNumeral c with
          | true => simp
          | false =>
              have hblank : isBlank c = true := by simpa [hnumeral] using hmem c List.mem_cons_self
              simp [hblank]

theorem scanFrom_run {run rest : List Char} (hrun : IsRun run) (hapart : Apart run rest)
    (start : Nat) :
    scanFrom start (run ++ rest) =
      match Numeral.read? (dropBlanks run) with
      | none => .error (.malformedNumeral (String.ofList (dropBlanks run)) start)
      | some numeral =>
          (scanFrom (start + run.length) rest).map (⟨.number numeral.value, run, start⟩ :: ·) := by
  obtain ⟨c, tail, rfl, hc⟩ := hrun.first
  have hlast : ∀ d ∈ tail.getLast?, isNumeral d = true := by
    intro d hd
    refine hrun.isNumeral_of_mem_getLast? d ?_
    rw [List.getLast?_cons, Option.mem_def.1 hd]
    rfl
  have hsplit : splitRun (tail ++ rest) = (tail, rest) :=
    splitRun_append_of_head? (fun d hd => hrun.mem d (List.mem_cons_of_mem _ hd)) hlast
      ((apart_iff_of_isRun hrun rest).1 hapart)
  have hsymbol := (ofSymbol?_eq_none_iff c).2 (isSymbol_of_isNumeral hc)
  have hscan := scanFrom_numeral hsymbol hc start (tail ++ rest)
  rw [hsplit] at hscan
  exact hscan

theorem scanFrom_of_isForeign {c : Char} (hc : isForeign c = true) (start : Nat)
    (rest : List Char) : scanFrom start (c :: rest) = .error (.foreignCharacter c start) := by
  obtain ⟨hblank, hnumeral, hsymbol⟩ := (isForeign_iff c).1 hc
  exact scanFrom_foreign hblank ((ofSymbol?_eq_none_iff c).2 hsymbol) hnumeral start rest

end Token

end Calculator
