import Calculator.Proofs.Cursor
import Calculator.Proofs.Scan.Tiling

/-!
# What the scanner makes of a text

`Tokenizes source tokens` says of a list of tokens, without the scanner, that it
splits a text: the ranges of the tokens follow each other, nothing but blanks is
left out, each lexeme is the slice of its range, and a number takes up a whole
run of digits and dots.  The scanner gives such a list exactly if no character
is foreign and every run is a numeral; otherwise it reports the leftmost fault
(`scan_tokenizes_or_faults`).
-/

namespace Calculator.Token

open Alphabet (isAllowed isNumeral)
open Cursor (Cuts cuts_of_append)
open Text (dropBlanks isBlank rawIndex)

/-- `Tokenizes source tokens`: a text is split into tokens, and nothing is lost or added. -/
structure Tokenizes (source : String) (tokens : List Token) : Prop where
  nonempty : ∀ token ∈ tokens, token.start < token.stop
  ordered : tokens.Pairwise fun token token' => token.stop ≤ token'.start
  outside : ∀ position c, source.toList[position]? = some c →
    (∀ token ∈ tokens, ¬ (token.start ≤ position ∧ position < token.stop)) → isBlank c = true
  slice : ∀ token ∈ tokens, token.stop ≤ source.length ∧
    token.lexeme = (source.toList.drop token.start).take (token.stop - token.start)
  first : ∀ token ∈ tokens, ∃ c ∈ token.lexeme.head?, isBlank c = false
  last : ∀ token ∈ tokens, ∃ c ∈ token.lexeme.getLast?, isBlank c = false
  symbol : ∀ token ∈ tokens, ¬ token.IsNumber →
    (token.lexeme, token.kind) ∈ [(['('], .opening), ([')'], .closing), (['+'], .plus),
      (['-'], .minus), (['*'], .star), (['/'], .slash)]
  number : ∀ token ∈ tokens, ∀ value, token.kind = .number value →
    (∃ numeral, Numeral.read? (dropBlanks token.lexeme) = some numeral ∧ value = numeral.value) ∧
    ∃ index, rawIndex source.toList index = token.start ∧
      RunAt (dropBlanks source.toList) index (dropBlanks token.lexeme)
  separated : tokens.IsChain fun token token' => ¬ (token.IsNumber ∧ token'.IsNumber)
  cuts : ∀ token ∈ tokens, Cuts source token.start token.stop token.lexeme

variable {source : String}

/-- Around a run there is a span of the text. -/
theorem cuts_of_runAt {start : Nat} {run : List Char} (h : RunAt source.toList start run) :
    Cuts source start (start + run.length) run := by
  obtain ⟨-, before, after, hsplit, rfl, -⟩ := h
  exact cuts_of_append hsplit

/-- Around a character there is a span of the text. -/
theorem cuts_of_getElem? {position : Nat} {c : Char} (h : source.toList[position]? = some c) :
    Cuts source position (position + 1) [c] := by
  obtain ⟨before, after, hsplit, rfl⟩ := getElem?_eq_some_iff_exists_split.1 h
  rw [← List.singleton_append] at hsplit
  exact cuts_of_append hsplit

/-- The characters that are tokens of their own, with what they stand for. -/
theorem mem_symbols {c : Char} {kind : Kind} (h : Kind.ofSymbol? c = some kind) :
    ([c], kind) ∈ [(['('], .opening), ([')'], .closing), (['+'], .plus), (['-'], .minus),
      (['*'], .star), (['/'], .slash)] := by
  unfold Kind.ofSymbol? at h
  split at h <;> cases h <;> simp

theorem tokenizes_of_tiles {tokens : List Token} (h : Tiles 0 source.toList tokens) :
    Tokenizes source tokens where
  nonempty token htoken := by
    obtain ⟨before, after, -, -, -, hspells⟩ := h.exists_split htoken
    exact hspells.start_lt_stop
  ordered := h.ordered
  outside position c hc houtside := by
    by_contra hblank
    rw [Bool.not_eq_true] at hblank
    obtain ⟨token, htoken, hrange⟩ := h.covered hc hblank
    rw [Nat.zero_add] at hrange
    exact houtside token htoken hrange
  slice token htoken := by
    obtain ⟨before, after, hsplit, hstart, -⟩ := h.exists_split htoken
    have hlength := congrArg List.length hsplit
    simp only [String.length_toList, List.length_append] at hlength
    rw [Nat.zero_add] at hstart
    refine ⟨by rw [stop]; omega, ?_⟩
    rw [stop, Nat.add_sub_cancel_left, hstart, hsplit, List.drop_left, List.take_left]
  first token htoken := by
    obtain ⟨before, after, -, -, -, hspells⟩ := h.exists_split htoken
    obtain ⟨c, more, hcons, hc⟩ := hspells.exists_cons
    exact ⟨c, by rw [hcons]; rfl, hc⟩
  last token htoken := by
    obtain ⟨before, after, -, -, -, hspells⟩ := h.exists_split htoken
    obtain ⟨front, c, hconcat, hc⟩ := hspells.exists_concat
    exact ⟨c, by rw [hconcat]; exact List.getLast?_concat, hc⟩
  symbol token htoken hsymbol := by
    rcases h.placed htoken with ⟨c, hlexeme, -, hkind⟩ | ⟨hnumber, -⟩
    · rw [hlexeme]
      exact mem_symbols hkind
    · exact absurd hnumber hsymbol
  number token htoken value hvalue := by
    obtain ⟨before, after, hsplit, hstart, hapart, hspells⟩ := h.exists_split htoken
    obtain ⟨hrun, hnumeral⟩ := hspells.of_number hvalue
    rw [Nat.zero_add] at hstart
    rw [hstart]
    exact ⟨hnumeral,
      runAt_dropBlanks ⟨hrun, before, after, hsplit, rfl, hapart, hspells.apart⟩⟩
  separated := h.separated
  cuts token htoken := by
    obtain ⟨before, after, hsplit, hstart, -⟩ := h.exists_split htoken
    rw [Nat.zero_add] at hstart
    rw [stop, hstart]
    exact cuts_of_append hsplit

/-- The scanner splits a text into its tokens if no character is foreign and every run of digits and
dots is a numeral, and else it reports the leftmost fault.  Each range it asks for is one. -/
theorem scan_tokenizes_or_faults (source : String) :
    ((∃ tokens, scan source.toList = .ok tokens) ↔
      (∀ c ∈ source.toList, isBlank c = true ∨ isAllowed c = true) ∧
      ∀ index run, RunAt (dropBlanks source.toList) index run → Numeral.WellFormed run) ∧
    (∀ tokens, scan source.toList = .ok tokens → Tokenizes source tokens) ∧
    (∀ failure, scan source.toList = .error failure ↔ Leftmost (Fault source.toList) failure) ∧
    (∀ start run, RunAt source.toList start run → Cuts source start (start + run.length) run) ∧
    (∀ position c, source.toList[position]? = some c → Cuts source position (position + 1) [c]) := by
  refine ⟨exists_scan_eq_ok_iff _, fun tokens hscan => ?_, scan_eq_error_iff _, ?_, ?_⟩
  · exact tokenizes_of_tiles ((scanFrom_eq_ok_iff 0 _ _).1 hscan)
  · exact fun start run hrun => cuts_of_runAt hrun
  · exact fun position c hc => cuts_of_getElem? hc

theorem scan_tokenizes_or_faults_blanks :
    scan "1 . 5 *( 2".toList =
      .ok [⟨.number (Numeral.value ⟨['1'], ['5']⟩), "1 . 5".toList, 0⟩, ⟨.star, ['*'], 6⟩,
        ⟨.opening, ['('], 7⟩, ⟨.number (Numeral.value ⟨['2'], []⟩), ['2'], 9⟩] ∧
    Tokenizes "1 . 5 *( 2"
      [⟨.number (Numeral.value ⟨['1'], ['5']⟩), "1 . 5".toList, 0⟩, ⟨.star, ['*'], 6⟩,
        ⟨.opening, ['('], 7⟩, ⟨.number (Numeral.value ⟨['2'], []⟩), ['2'], 9⟩] ∧
    RunAt "1 . 5 *( 2".toList 0 "1 . 5".toList ∧ Cuts "1 . 5 *( 2" 0 5 "1 . 5".toList ∧
    Cuts "1 . 5 *( 2" 6 7 ['*'] := by
  have hscan : scan "1 . 5 *( 2".toList =
      .ok [⟨.number (Numeral.value ⟨['1'], ['5']⟩), "1 . 5".toList, 0⟩, ⟨.star, ['*'], 6⟩,
        ⟨.opening, ['('], 7⟩, ⟨.number (Numeral.value ⟨['2'], []⟩), ['2'], 9⟩] := by
    decide +kernel
  have hisRun : IsRun "1 . 5".toList := by
    refine ⟨⟨'1', " . 5".toList, by decide, rfl⟩, ⟨"1 . ".toList, '5', by decide, rfl⟩, ?_⟩
    have hall : ("1 . 5".toList.all fun c => isNumeral c || isBlank c) = true := by decide
    simpa only [List.all_eq_true, Bool.or_eq_true] using hall
  have hrun : RunAt "1 . 5 *( 2".toList 0 "1 . 5".toList := by
    refine ⟨hisRun, [], " *( 2".toList, by decide, rfl, apart_nil_left _, ?_⟩
    have hnext : (dropBlanks " *( 2".toList).head? = some '*' := by decide
    rw [apart_iff_of_isRun hisRun, hnext]
    rintro c ⟨⟩
    rfl
  obtain ⟨-, htokens, -, hruns, hcharacters⟩ := scan_tokenizes_or_faults "1 . 5 *( 2"
  exact ⟨hscan, htokens _ hscan, hrun, hruns _ _ hrun, hcharacters 6 '*' (by decide)⟩

end Calculator.Token
