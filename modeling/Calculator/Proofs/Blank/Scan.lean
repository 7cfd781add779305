import Calculator.Proofs.Blank.Position

/-!
# Scanning without the blanks

A text has the same tokens with and without its blanks, but for their places
and for the blanks inside their lexemes (`agree_screenAndScan`).  The scanner
passes over blanks in two ways: it skips those in front of a token, and it looks
beyond those inside a numeral, which belong to the numeral only if it goes on
after them.  `splitRun_dropBlanks` is about the second way.
-/

namespace Calculator.Token

open Alphabet (isForeign isNumeral firstForeign?)
open Text (Agree RawSlice Relocated dropBlanks dropBlanks_append dropBlanks_cons
  dropBlanks_cons_of_blank dropBlanks_dropBlanks isBlank rawIndex rawIndex_here)

/-- `Aligned text bare raw`: a token of `text` without its blanks and the same token of `text`. -/
structure Aligned (text : List Char) (bare raw : Token) : Prop where
  kind : bare.kind = raw.kind
  lexeme : bare.lexeme = dropBlanks raw.lexeme
  start : raw.start = rawIndex text bare.start
  slice : RawSlice text raw.start raw.lexeme

/-! ## Characters -/

theorem isBlank_of_isNumeral {c : Char} (hc : isNumeral c = true) : isBlank c = false := by
  have hrange : 46 ≤ c.toNat ∧ c.toNat ≤ 57 := by
    rw [isNumeral, Bool.or_eq_true, beq_iff_eq] at hc
    rcases hc with hdigit | rfl
    · simp only [Char.isDigit, Bool.and_eq_true, decide_eq_true_eq, ge_iff_le, UInt32.le_iff_toNat_le]
        at hdigit
      have hlow : 48 ≤ c.toNat := hdigit.1
      have hhigh : c.toNat ≤ 57 := hdigit.2
      omega
    · decide
  simp only [isBlank, Text.blankRanges, List.any_cons, List.any_nil, Bool.or_false,
    Bool.or_eq_false_iff, Bool.and_eq_false_iff, decide_eq_false_iff_not]
  omega

theorem firstForeign?_dropBlanks (before text : List Char) :
    firstForeign? before.length text =
      (firstForeign? (dropBlanks before).length (dropBlanks text)).map
        fun found => (found.1, rawIndex (before ++ text) found.2) := by
  induction text generalizing before with
  | nil => rfl
  | cons c rest ih =>
      have hrest := ih (before ++ [c])
      rw [List.append_assoc, List.singleton_append, dropBlanks_append, List.length_append,
        List.length_singleton] at hrest
      cases hblank : isBlank c with
      | true =>
          have hforeign : isForeign c = false := by simp [isForeign, hblank]
          rw [dropBlanks_cons_of_blank hblank, firstForeign?, if_neg (by simp [hforeign]), hrest,
            dropBlanks_cons_of_blank hblank]
          simp [dropBlanks]
      | false =>
          rw [dropBlanks_cons hblank, firstForeign?, firstForeign?]
          rw [dropBlanks_cons hblank] at hrest
          cases hforeign : isForeign c with
          | true => simp [rawIndex_here before hblank rest]
          | false => simpa [dropBlanks] using hrest

/-! ## Numerals -/

theorem splitRun_dropBlanks (text : List Char) :
    splitRun (dropBlanks text) = (dropBlanks (splitRun text).1, dropBlanks (splitRun text).2) := by
  induction text with
  | nil => rfl
  | cons c rest ih =>
      cases hnumeral : isNumeral c with
      | true =>
          have hblank := isBlank_of_isNumeral hnumeral
          simp [dropBlanks_cons hblank, splitRun, hnumeral, ih]
      | false =>
          cases hblank : isBlank c with
          | false => simp [splitRun, hnumeral, hblank, dropBlanks]
          | true =>
              -- the blank belongs to the numeral only if the numeral goes on after it
              have happend := splitRun_append rest
              rw [dropBlanks_cons_of_blank hblank, ih]
              cases hrun : splitRun rest with
              | mk run after =>
                  cases run with
                  | nil =>
                      rw [hrun, List.nil_append] at happend
                      dsimp only at happend
                      subst happend
                      simp [splitRun, hnumeral, hblank, hrun, dropBlanks]
                  | cons d run => simp [splitRun, hnumeral, hblank, hrun, dropBlanks]

/-- A numeral does not end with a blank. -/
theorem isBlank_getLast?_splitRun (text : List Char) :
    ∀ c ∈ (splitRun text).1.getLast?, isBlank c = false := by
  induction text with
  | nil => simp [splitRun]
  | cons c rest ih =>
      cases hnumeral : isNumeral c with
      | true =>
          have hblank := isBlank_of_isNumeral hnumeral
          cases hrun : splitRun rest with
          | mk run after =>
              rw [hrun] at ih
              cases run with
              | nil => simpa [splitRun, hnumeral, hrun] using hblank
              | cons d run => simpa [splitRun, hnumeral, hrun] using ih
      | false =>
          cases hblank : isBlank c with
          | false => simp [splitRun, hnumeral, hblank]
          | true =>
              cases hrun : splitRun rest with
              | mk run after =>
                  rw [hrun] at ih
                  cases run with
                  | nil => simp [splitRun, hnumeral, hblank, hrun]
                  | cons d run => simpa [splitRun, hnumeral, hblank, hrun] using ih

/-! ## Tokens -/

theorem scanFrom_blank {c : Char} (hblank : isBlank c = true) (start : Nat) (rest : List Char) :
    scanFrom start (c :: rest) = scanFrom (start + 1) rest := by
  rw [scanFrom, if_pos hblank]

theorem scanFrom_symbol {c : Char} {kind : Kind} (hblank : isBlank c = false)
    (hsymbol : Kind.ofSymbol? c = some kind) (start : Nat) (rest : List Char) :
    scanFrom start (c :: rest) = (scanFrom (start + 1) rest).map (⟨kind, [c], start⟩ :: ·) := by
  rw [scanFrom, if_neg (by simp [hblank]), hsymbol]
  cases scanFrom (start + 1) rest <;> rfl

theorem scanFrom_numeral {c : Char} (hsymbol : Kind.ofSymbol? c = none)
    (hnumeral : isNumeral c = true) (start : Nat) (rest : List Char) :
    scanFrom start (c :: rest) =
      match Numeral.read? (dropBlanks (c :: (splitRun rest).1)) with
      | none =>
          .error (.malformedNumeral (String.ofList (dropBlanks (c :: (splitRun rest).1))) start)
      | some numeral =>
          (scanFrom (start + (c :: (splitRun rest).1).length) (splitRun rest).2).map
            (⟨.number numeral.value, c :: (splitRun rest).1, start⟩ :: ·) := by
  rw [scanFrom, if_neg (by simp [isBlank_of_isNumeral hnumeral]), hsymbol]
  simp only [hnumeral, if_true]
  cases Numeral.read? (dropBlanks (c :: (splitRun rest).1)) with
  | none => rfl
  | some numeral =>
      simp only
      cases scanFrom (start + (c :: (splitRun rest).1).length) (splitRun rest).2 <;> rfl

theorem scanFrom_foreign {c : Char} (hblank : isBlank c = false)
    (hsymbol : Kind.ofSymbol? c = none) (hnumeral : isNumeral c = false) (start : Nat)
    (rest : List Char) : scanFrom start (c :: rest) = .error (.foreignCharacter c start) := by
  rw [scanFrom, if_neg (by simp [hblank]), hsymbol]
  simp [hnumeral]

theorem agree_cons {text : List Char} {bare raw : Token} {bares raws : Except Failure (List Token)}
    (htoken : Aligned text bare raw) (h : Agree text (List.Forall₂ (Aligned text)) bares raws) :
    Agree text (List.Forall₂ (Aligned text)) (bares.map (bare :: ·)) (raws.map (raw :: ·)) := by
  cases h with
  | ok htokens => exact .ok (.cons htoken htokens)
  | error hfailure => exact .error hfailure

theorem rawSlice_append (before slice after : List Char)
    (hlast : ∀ c ∈ slice.getLast?, isBlank c = false) :
    RawSlice (before ++ (slice ++ after)) before.length slice :=
  ⟨by rw [List.drop_left]; exact List.prefix_append _ _, hlast⟩

/-- A numeral is the same with and without the blanks inside it. -/
theorem agree_numeral {before rest : List Char} {c : Char} (hsymbol : Kind.ofSymbol? c = none)
    (hnumeral : isNumeral c = true)
    (hafter : Agree (before ++ c :: rest) (List.Forall₂ (Aligned (before ++ c :: rest)))
      (scanFrom ((dropBlanks before).length + (dropBlanks (c :: (splitRun rest).1)).length)
        (dropBlanks (splitRun rest).2))
      (scanFrom (before.length + (c :: (splitRun rest).1).length) (splitRun rest).2)) :
    Agree (before ++ c :: rest) (List.Forall₂ (Aligned (before ++ c :: rest)))
      (scanFrom (dropBlanks before).length (c :: dropBlanks rest))
      (scanFrom before.length (c :: rest)) := by
  have hblank := isBlank_of_isNumeral hnumeral
  have hhere := rawIndex_here before hblank rest
  have hlexeme : c :: dropBlanks (splitRun rest).1 = dropBlanks (c :: (splitRun rest).1) :=
    (dropBlanks_cons hblank _).symm
  rw [scanFrom_numeral hsymbol hnumeral, scanFrom_numeral hsymbol hnumeral, splitRun_dropBlanks,
    hlexeme, dropBlanks_dropBlanks]
  cases Numeral.read? (dropBlanks (c :: (splitRun rest).1)) with
  | none =>
      dsimp only
      rw [← hhere]
      exact .error (.malformedNumeral _ _)
  | some numeral =>
      refine agree_cons ⟨rfl, rfl, hhere.symm, ?_⟩ hafter
      have hlast : ∀ d ∈ (c :: (splitRun rest).1).getLast?, isBlank d = false := by
        cases hrun : (splitRun rest).1 with
        | nil => simpa using hblank
        | cons d run =>
            rw [List.getLast?_cons_cons, ← hrun]
            exact isBlank_getLast?_splitRun rest
      have hslice := rawSlice_append before (c :: (splitRun rest).1) (splitRun rest).2 hlast
      rwa [List.cons_append, splitRun_append] at hslice

/-- From any place on the two texts have the same tokens, or they fail alike. -/
theorem agree_scanFrom (before text : List Char) :
    Agree (before ++ text) (List.Forall₂ (Aligned (before ++ text)))
      (scanFrom (dropBlanks before).length (dropBlanks text)) (scanFrom before.length text) := by
  match text with
  | [] =>
      have hempty : dropBlanks [] = [] := rfl
      rw [hempty, scanFrom, scanFrom]
      exact .ok .nil
  | c :: rest =>
      have hrest := agree_scanFrom (before ++ [c]) rest
      rw [List.append_assoc, List.singleton_append, dropBlanks_append, List.length_append,
        List.length_append, List.length_singleton] at hrest
      cases hblank : isBlank c with
      | true =>
          rw [dropBlanks_cons_of_blank hblank] at hrest ⊢
          rw [scanFrom_blank hblank]
          exact hrest
      | false =>
          have hhere := rawIndex_here before hblank rest
          rw [dropBlanks_cons hblank] at hrest ⊢
          cases hsymbol : Kind.ofSymbol? c with
          | some kind =>
              rw [scanFrom_symbol hblank hsymbol, scanFrom_symbol hblank hsymbol]
              refine agree_cons ⟨rfl, ?_, hhere.symm, ?_⟩ hrest
              · exact (dropBlanks_cons hblank []).symm
              · exact rawSlice_append before [c] rest (by simpa using hblank)
          | none =>
              cases hnumeral : isNumeral c with
              | false =>
                  rw [scanFrom_foreign hblank hsymbol hnumeral,
                    scanFrom_foreign hblank hsymbol hnumeral]
                  rw [← hhere]
                  exact .error (.foreignCharacter c _)
              | true =>
                  -- the scanner goes on behind the whole run
                  have hafter := agree_scanFrom (before ++ c :: (splitRun rest).1) (splitRun rest).2
                  rw [List.append_assoc, List.cons_append, splitRun_append, dropBlanks_append,
                    List.length_append, List.length_append] at hafter
                  exact agree_numeral hsymbol hnumeral hafter
termination_by text.length
decreasing_by
  · simp
  · have hshorter := splitRun_length_le rest
    simp only [List.length_cons]
    omega

theorem agree_screenAndScan (text : List Char) :
    Agree text (List.Forall₂ (Aligned text)) (screenAndScan (dropBlanks text))
      (screenAndScan text) := by
  have hforeign : firstForeign? 0 text = (firstForeign? 0 (dropBlanks text)).map
      fun found => (found.1, rawIndex text found.2) := firstForeign?_dropBlanks [] text
  rw [screenAndScan, screenAndScan, screen, screen, hforeign]
  cases firstForeign? 0 (dropBlanks text) with
  | none => exact agree_scanFrom [] text
  | some found => exact .error (.foreignCharacter found.1 found.2)

end Calculator.Token
