import Calculator.Proofs.Scan.Tiling

/-!
# The tokens of a text and of its parts

Where no run goes on across a cut, the scanner reads the part behind the cut as
if it stood alone (`scanFrom_append`); the tokens of this part are moved by the
length of the part before it (`scanFrom_add`).  So scanning takes two texts that
are put together to the tokens of the one and the moved tokens of the other, and
the first fault in either of them is the fault of both (`scan_concatenation`).

`Writes text kinds` forgets where the tokens stand.  A symbol ends every run, so
that what is written on both sides of a symbol may be put together without
further conditions (`Writes.around`).
-/

namespace Calculator

/-- The failure in a text with `count` more characters in front. -/
def Failure.shift (count : Nat) : Failure → Failure
  | foreignCharacter c position => .foreignCharacter c (position + count)
  | malformedNumeral numeral position => .malformedNumeral numeral (position + count)
  | unexpected found position => .unexpected found (position + count)
  | unbalanced position => .unbalanced (position + count)
  | tooDeep limit position => .tooDeep limit (position + count)
  | failure => failure

namespace Token

open Alphabet (isNumeral)
open Text (dropBlanks dropBlanks_cons isBlank)

/-! ## Texts that are moved -/

/-- The token in a text with `count` more characters in front. -/
def shift (count : Nat) (token : Token) : Token :=
  { token with start := token.start + count }

@[simp] theorem kind_shift (count : Nat) (token : Token) : (token.shift count).kind = token.kind :=
  rfl

@[simp] theorem stop_shift (count : Nat) (token : Token) :
    (token.shift count).stop = token.stop + count :=
  Nat.add_right_comm ..

/-- The tokens or the failure in a text with `count` more characters in front. -/
def shiftResult (count : Nat) : Except Failure (List Token) → Except Failure (List Token)
  | .error failure => .error (failure.shift count)
  | .ok tokens => .ok (tokens.map (shift count))

theorem shiftResult_map_cons (count : Nat) (token : Token) (result : Except Failure (List Token)) :
    shiftResult count (result.map (token :: ·)) =
      (shiftResult count result).map (token.shift count :: ·) := by
  cases result <;> rfl

/-- What the scanner gives moves with the text. -/
theorem scanFrom_add (start count : Nat) (text : List Char) :
    scanFrom (start + count) text = shiftResult count (scanFrom start text) := by
  induction text using pieces_induction generalizing start with
  | nil =>
      rw [scanFrom, scanFrom]
      rfl
  | blank c rest hblank ih =>
      rw [scanFrom_blank hblank, scanFrom_blank hblank, Nat.add_right_comm, ih]
  | symbol c kind rest hkind ih =>
      have hblank := isBlank_of_isSymbol (isSymbol_of_ofSymbol? hkind)
      rw [scanFrom_symbol hblank hkind, scanFrom_symbol hblank hkind, Nat.add_right_comm, ih,
        shiftResult_map_cons]
      rfl
  | run run rest hrun hapart ih =>
      rw [scanFrom_run hrun hapart, scanFrom_run hrun hapart]
      cases Numeral.read? (dropBlanks run) with
      | none => rfl
      | some numeral =>
          dsimp only
          rw [Nat.add_right_comm, ih, shiftResult_map_cons]
          rfl
  | foreign c rest hforeign ih =>
      rw [scanFrom_of_isForeign hforeign, scanFrom_of_isForeign hforeign]
      rfl

/-! ## Texts that are put together -/

/-- The tokens of two parts of a text, one part after the other, or the first failure. -/
def appendResults (first rest : Except Failure (List Token)) : Except Failure (List Token) := do
  let tokens ← first
  let tokens' ← rest
  return tokens ++ tokens'

theorem appendResults_map_cons (token : Token) (first rest : Except Failure (List Token)) :
    appendResults (first.map (token :: ·)) rest = (appendResults first rest).map (token :: ·) := by
  cases first with
  | error failure => rfl
  | ok tokens => cases rest <;> rfl

/-- Where no run goes on across a cut, the scanner goes on behind the cut as if it began there. -/
theorem scanFrom_append {text rest : List Char} (hapart : Apart text rest) (start : Nat) :
    scanFrom start (text ++ rest) =
      appendResults (scanFrom start text) (scanFrom (start + text.length) rest) := by
  induction text using pieces_induction generalizing start with
  | nil =>
      rw [scanFrom]
      cases hscan : scanFrom start rest <;> exact hscan
  | blank c text hblank ih =>
      rw [← List.singleton_append, apart_append_left] at hapart
      rw [List.cons_append, scanFrom_blank hblank, scanFrom_blank hblank, ih hapart.1,
        List.length_cons, Nat.add_right_comm, Nat.add_assoc]
  | symbol c kind text hkind ih =>
      have hblank := isBlank_of_isSymbol (isSymbol_of_ofSymbol? hkind)
      rw [← List.singleton_append, apart_append_left] at hapart
      rw [List.cons_append, scanFrom_symbol hblank hkind, scanFrom_symbol hblank hkind,
        ih hapart.1, appendResults_map_cons, List.length_cons, Nat.add_right_comm, Nat.add_assoc]
  | run run text hrun hrest ih =>
      rw [apart_append_left] at hapart
      have hbehind : Apart run (text ++ rest) := (apart_append_right ..).2 ⟨hrest, hapart.2⟩
      rw [List.append_assoc, scanFrom_run hrun hbehind, scanFrom_run hrun hrest]
      cases Numeral.read? (dropBlanks run) with
      | none => rfl
      | some numeral =>
          dsimp only
          rw [ih hapart.1, appendResults_map_cons, List.length_append, Nat.add_assoc]
  | foreign c text hforeign ih =>
      rw [List.cons_append, scanFrom_of_isForeign hforeign, scanFrom_of_isForeign hforeign]
      rfl

theorem Tiles.shift {start : Nat} {text : List Char} {tokens : List Token}
    (h : Tiles start text tokens) (count : Nat) :
    Tiles (start + count) text (tokens.map (Token.shift count)) := by
  rw [← scanFrom_eq_ok_iff] at h ⊢
  rw [scanFrom_add, h]
  rfl

theorem Tiles.append {start : Nat} {text rest : List Char} {tokens tokens' : List Token}
    (h : Tiles start text tokens) (hapart : Apart text rest)
    (h' : Tiles (start + text.length) rest tokens') :
    Tiles start (text ++ rest) (tokens ++ tokens') := by
  rw [← scanFrom_eq_ok_iff] at h h' ⊢
  rw [scanFrom_append hapart, h, h']
  rfl

/-! ## Numerals as runs -/

theorem isNumeral_of_isDigit {c : Char} (hc : c.isDigit = true) : isNumeral c = true := by
  rw [isNumeral, hc, Bool.true_or]

/-- A numeral consists of digits and dots. -/
theorem isNumeral_of_wellFormed {text : List Char} (h : Numeral.WellFormed text) :
    ∀ c ∈ text, isNumeral c = true := by
  intro c hc
  cases h with
  | whole hdigits => exact isNumeral_of_isDigit (hdigits.2 c hc)
  | pointed hwhole hfraction =>
      rcases List.mem_append.1 hc with hc | hc
      · exact isNumeral_of_isDigit (hwhole.2 c hc)
      · rcases List.mem_cons.1 hc with rfl | hc
        · rfl
        · exact isNumeral_of_isDigit (hfraction.2 c hc)

theorem ne_nil_of_wellFormed {text : List Char} (h : Numeral.WellFormed text) : text ≠ [] := by
  cases h with
  | whole hdigits => exact hdigits.1
  | pointed hwhole hfraction => simp

theorem isRun_of_wellFormed {text : List Char} (h : Numeral.WellFormed text) : IsRun text := by
  have hmem := isNumeral_of_wellFormed h
  have hne := ne_nil_of_wellFormed h
  refine ⟨?_, ?_, fun c hc => .inl (hmem c hc)⟩
  · obtain ⟨c, rest, rfl⟩ := List.exists_cons_of_ne_nil hne
    exact ⟨c, rest, rfl, hmem c List.mem_cons_self⟩
  · refine ⟨text.dropLast, text.getLast hne, (List.dropLast_append_getLast hne).symm, ?_⟩
    exact hmem _ (List.getLast_mem hne)

theorem dropBlanks_of_wellFormed {text : List Char} (h : Numeral.WellFormed text) :
    dropBlanks text = text := by
  refine List.filter_eq_self.2 fun c hc => ?_
  rw [isBlank_of_isNumeral (isNumeral_of_wellFormed h c hc)]
  rfl

/-! ## What a text writes -/

/-- `Writes text kinds`: the tokens of a text are of the given kinds. -/
def Writes (text : List Char) (kinds : List Kind) : Prop :=
  ∃ tokens, Tiles 0 text tokens ∧ tokens.map kind = kinds

theorem dropBlanks_of_blank {gap : List Char} (hgap : ∀ c ∈ gap, isBlank c = true) :
    dropBlanks gap = [] :=
  List.filter_eq_nil_iff.2 (by simpa using hgap)

/-- A symbol goes on with no run. -/
theorem apart_cons_of_symbol {c : Char} (hc : Alphabet.isSymbol c = true)
    (before after : List Char) : Apart before (c :: after) := by
  rintro d - e he -
  rw [dropBlanks_cons (isBlank_of_isSymbol hc)] at he
  obtain rfl := Option.some.inj he
  exact isNumeral_of_isSymbol hc

namespace Writes

variable {text text' : List Char} {kinds kinds' : List Kind}

theorem nil : Writes [] [] :=
  ⟨[], .nil, rfl⟩

theorem blanks {gap : List Char} (hgap : ∀ c ∈ gap, isBlank c = true) : Writes gap [] := by
  have htiles : ∀ start, Tiles start gap [] := by
    induction gap with
    | nil => exact fun _ => .nil
    | cons c gap ih =>
        have hrest := ih fun d hd => hgap d (List.mem_cons_of_mem _ hd)
        exact fun start => .blank (hgap c List.mem_cons_self) (hrest (start + 1))
  exact ⟨[], htiles 0, rfl⟩

theorem symbol {c : Char} {kind : Kind} (hkind : Kind.ofSymbol? c = some kind) :
    Writes [c] [kind] := by
  have hspells : Spells [] ⟨kind, [c], 0⟩ := .symbol hkind
  exact ⟨[⟨kind, [c], 0⟩], .token hspells .nil, rfl⟩

/-- A numeral without blanks is one token. -/
theorem numeral {n : Numeral} (hread : Numeral.read? text = some n) :
    Writes text [.number n.value] := by
  have hform := Numeral.wellFormed_of_read? hread
  have hspells : Spells [] ⟨.number n.value, text, 0⟩ :=
    .number (isRun_of_wellFormed hform) (apart_nil_right _)
      (by rwa [dropBlanks_of_wellFormed hform])
  refine ⟨[⟨.number n.value, text, 0⟩], ?_, rfl⟩
  simpa using Tiles.token hspells .nil

theorem append (h : Writes text kinds) (hapart : Apart text text') (h' : Writes text' kinds') :
    Writes (text ++ text') (kinds ++ kinds') := by
  obtain ⟨tokens, htiles, rfl⟩ := h
  obtain ⟨tokens', htiles', rfl⟩ := h'
  refine ⟨tokens ++ tokens'.map (shift text.length), htiles.append hapart ?_, ?_⟩
  · exact htiles'.shift text.length
  · simp [Function.comp_def]

/-- What stands before and behind a symbol is read as if it stood alone. -/
theorem around {c : Char} {kind : Kind} (h : Writes text kinds)
    (hkind : Kind.ofSymbol? c = some kind) (h' : Writes text' kinds') :
    Writes (text ++ c :: text') (kinds ++ kind :: kinds') := by
  have hsymbol := isSymbol_of_ofSymbol? hkind
  have hbehind : Writes (c :: text') (kind :: kinds') :=
    (symbol hkind).append (apart_singleton_left (isNumeral_of_isSymbol hsymbol) text') h'
  exact h.append (apart_cons_of_symbol hsymbol text text') hbehind

theorem blanks_append {gap : List Char} (hgap : ∀ c ∈ gap, isBlank c = true)
    (h : Writes text kinds) : Writes (gap ++ text) kinds := by
  have hapart : Apart gap text := by simp [Apart, dropBlanks_of_blank hgap]
  exact (blanks hgap).append hapart h

theorem append_blanks {gap : List Char} (h : Writes text kinds)
    (hgap : ∀ c ∈ gap, isBlank c = true) : Writes (text ++ gap) kinds := by
  have hapart : Apart text gap := by simp [Apart, dropBlanks_of_blank hgap]
  simpa using h.append hapart (blanks hgap)

end Writes

/-! ## Whole texts -/

/-- If no run goes on from the first of two texts to the second, the text that they make up together
has the first fault of the first; else the first fault of the second, moved; else the tokens of the
first and those of the second, moved. -/
theorem scan_concatenation {s t : String} (hapart : Apart s.toList t.toList) :
    (∀ failure, scan s.toList = .error failure → scan (s ++ t).toList = .error failure) ∧
    (∀ tokens failure, scan s.toList = .ok tokens → scan t.toList = .error failure →
      scan (s ++ t).toList = .error (failure.shift s.length)) ∧
    ∀ tokens tokens', scan s.toList = .ok tokens → scan t.toList = .ok tokens' →
      scan (s ++ t).toList = .ok (tokens ++ tokens'.map (shift s.length)) := by
  have hscan : scan (s ++ t).toList =
      appendResults (scan s.toList) (shiftResult s.length (scan t.toList)) := by
    rw [String.toList_append, scan, scanFrom_append hapart, scanFrom_add, String.length_toList]
    rfl
  refine ⟨fun failure hfirst => ?_, fun tokens failure hfirst hsecond => ?_,
    fun tokens tokens' hfirst hsecond => ?_⟩
  · rw [hscan, hfirst]
    rfl
  · rw [hscan, hfirst, hsecond]
    rfl
  · rw [hscan, hfirst, hsecond]
    rfl

theorem scan_concatenation_blanks :
    Apart "1 2 ".toList "- 3 ".toList ∧
    scan ("1 2 " ++ "- 3 ").toList = .ok
      [⟨.number (Numeral.value ⟨['1', '2'], []⟩), "1 2".toList, 0⟩, ⟨.minus, ['-'], 4⟩,
        ⟨.number (Numeral.value ⟨['3'], []⟩), ['3'], 6⟩] ∧
    scan ("1 2 " ++ "- 3..4").toList = .error (.malformedNumeral "3..4" 6) ∧
    scan ("1 . " ++ "- 3..4").toList = .error (.malformedNumeral "1." 0) := by
  have hfirst : scan "1 2 ".toList =
      .ok [⟨.number (Numeral.value ⟨['1', '2'], []⟩), "1 2".toList, 0⟩] := by decide +kernel
  have hsecond : scan "- 3 ".toList =
      .ok [⟨.minus, ['-'], 0⟩, ⟨.number (Numeral.value ⟨['3'], []⟩), ['3'], 2⟩] := by
    decide +kernel
  have hfault : scan "1 . ".toList = .error (.malformedNumeral "1." 0) := by decide +kernel
  have hfault' : scan "- 3..4".toList = .error (.malformedNumeral "3..4" 2) := by decide +kernel
  have hapart : ∀ before after, Apart before ('-' :: after) := apart_cons_of_symbol rfl
  obtain ⟨-, -, hjoined⟩ := @scan_concatenation "1 2 " "- 3 " (hapart _ _)
  obtain ⟨-, hmoved, -⟩ := @scan_concatenation "1 2 " "- 3..4" (hapart _ _)
  obtain ⟨hkept, -, -⟩ := @scan_concatenation "1 . " "- 3..4" (hapart _ _)
  exact ⟨hapart _ _, hjoined _ _ hfirst hsecond, hmoved _ _ hfirst hfault', hkept _ hfault⟩

end Token

end Calculator
