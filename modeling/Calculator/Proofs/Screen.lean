import Calculator.Proofs.Scan.Fault
import Calculator.Proofs.Scan.Tiling
import Calculator.Proofs.Stages

/-!
# The screen and the scanner

Foreign characters are looked for twice: by the screen, in the text as a whole,
and by the scanner, where it comes to them.  Both admit the same texts, and the
tokens are the same (`screenAndScan_eq_ok_iff`).  They differ only in what they
report if a run that is no numeral begins before the first foreign character:
the scanner comes to the run first, the screen never looks at runs.

In an evaluation the screen decides: a text within the limit on its length is
refused for a foreign character exactly if it holds one
(`evaluate_eq_foreign_iff`).
-/

namespace Calculator.Token

open Alphabet (firstForeign? firstForeign?_eq_none_iff firstForeign?_eq_some_iff isForeign)
open Text (dropBlanks rawIndex)

/-- `FirstForeign text position c`: the first foreign character of a text. -/
structure FirstForeign (text : List Char) (position : Nat) (c : Char) : Prop where
  here : text[position]? = some c
  isForeign : isForeign c = true
  first : ∀ earlier < position, ∀ d, text[earlier]? = some d → Alphabet.isForeign d = false

theorem firstForeign_iff (text : List Char) (position : Nat) (c : Char) :
    firstForeign? 0 text = some (c, position) ↔ FirstForeign text position c := by
  rw [firstForeign?_eq_some_iff]
  constructor
  · rintro ⟨before, after, rfl, rfl, hforeign, hbefore⟩
    rw [Nat.zero_add]
    refine ⟨by simp, hforeign, fun earlier hearlier d hd => hbefore d ?_⟩
    rw [List.getElem?_append_left hearlier] at hd
    exact List.mem_of_getElem? hd
  · rintro ⟨hhere, hforeign, hfirst⟩
    obtain ⟨before, after, rfl, rfl⟩ := getElem?_eq_some_iff_exists_split.1 hhere
    refine ⟨before, after, rfl, (Nat.zero_add _).symm, hforeign, fun d hd => ?_⟩
    obtain ⟨earlier, hearlier⟩ := List.mem_iff_getElem?.1 hd
    have hlt : earlier < before.length := (List.getElem?_eq_some_iff.1 hearlier).1
    exact hfirst earlier hlt d (by rwa [List.getElem?_append_left hlt])

theorem exists_firstForeign {text : List Char} (h : ∃ c ∈ text, isForeign c = true) :
    ∃ position c, FirstForeign text position c := by
  obtain ⟨c, hc, hforeign⟩ := h
  cases hfirst : firstForeign? 0 text with
  | none =>
      have hnone := (firstForeign?_eq_none_iff 0 text).1 hfirst c hc
      cases hforeign.symm.trans hnone
  | some found => exact ⟨_, _, (firstForeign_iff ..).1 hfirst⟩

theorem FirstForeign.fault {text : List Char} {position : Nat} {c : Char}
    (h : FirstForeign text position c) : Fault text position (.foreignCharacter c position) :=
  .foreign h.here h.isForeign

/-! ## Which texts are admitted -/

theorem screenAndScan_of_firstForeign {text : List Char} {position : Nat} {c : Char}
    (h : FirstForeign text position c) :
    screenAndScan text = .error (.foreignCharacter c position) := by
  rw [screenAndScan, screen, (firstForeign_iff ..).2 h]

theorem screenAndScan_of_none {text : List Char} (h : firstForeign? 0 text = none) :
    screenAndScan text = scan text := by
  rw [screenAndScan, screen, h]

theorem screenAndScan_eq_ok_iff (text : List Char) (tokens : List Token) :
    screenAndScan text = .ok tokens ↔ scan text = .ok tokens := by
  cases hfirst : firstForeign? 0 text with
  | none => rw [screenAndScan_of_none hfirst]
  | some found =>
      have hforeign := (firstForeign_iff ..).1 hfirst
      rw [screenAndScan_of_firstForeign hforeign]
      constructor
      · nofun
      · intro hscan
        exact absurd hforeign.fault ((not_fault_iff text).2
          ((exists_scan_eq_ok_iff text).1 ⟨tokens, hscan⟩) _ _)

theorem screenAndScan_eq_foreign_iff (text : List Char) (c : Char) (position : Nat) :
    screenAndScan text = .error (.foreignCharacter c position) ↔ FirstForeign text position c := by
  cases hfirst : firstForeign? 0 text with
  | none =>
      rw [screenAndScan_of_none hfirst, ← firstForeign_iff, hfirst, scan_eq_error_iff]
      constructor
      · rintro ⟨_, @⟨_, _, hc, hforeign⟩, -⟩
        have hnone := (firstForeign?_eq_none_iff 0 text).1 hfirst _ (List.mem_of_getElem? hc)
        cases hforeign.symm.trans hnone
      · nofun
  | some found =>
      have hforeign := (firstForeign_iff ..).1 hfirst
      rw [← firstForeign_iff, hfirst, screenAndScan_of_firstForeign hforeign]
      simp [Prod.ext_iff]

theorem scan_of_screenAndScan_eq_malformed {text : List Char} {numeral : String} {position : Nat}
    (h : screenAndScan text = .error (.malformedNumeral numeral position)) :
    scan text = .error (.malformedNumeral numeral position) := by
  cases hfirst : firstForeign? 0 text with
  | none => rwa [screenAndScan_of_none hfirst] at h
  | some found =>
      rw [screenAndScan_of_firstForeign ((firstForeign_iff ..).1 hfirst)] at h
      cases h

theorem tiles_of_screenAndScan {text : List Char} {tokens : List Token}
    (h : screenAndScan text = .ok tokens) : Tiles 0 text tokens :=
  tiles_of_scanFrom ((screenAndScan_eq_ok_iff text tokens).1 h)

theorem screenAndScan_of_tiles {text : List Char} {tokens : List Token}
    (h : Tiles 0 text tokens) : screenAndScan text = .ok tokens :=
  (screenAndScan_eq_ok_iff text tokens).2 (scanFrom_of_tiles h)

/-- What the screen or the scanner reports is wrong with the text. -/
theorem exists_fault_of_screenAndScan {text : List Char} {failure : Failure}
    (h : screenAndScan text = .error failure) : ∃ position, Fault text position failure := by
  cases hfirst : firstForeign? 0 text with
  | none =>
      rw [screenAndScan_of_none hfirst, scan_eq_error_iff] at h
      obtain ⟨position, hfault, -⟩ := h
      exact ⟨position, hfault⟩
  | some found =>
      have hforeign := (firstForeign_iff ..).1 hfirst
      rw [screenAndScan_of_firstForeign hforeign] at h
      cases h
      exact ⟨_, hforeign.fault⟩

/-! ## What is reported first -/

section Foreign

variable {text : List Char} {position : Nat} {c : Char}

/-- Where a run that is no numeral begins there is no foreign character. -/
theorem rawIndex_ne_of_isForeign {index : Nat} {run : List Char}
    (hrun : RunAt (dropBlanks text) index run) (hc : text[position]? = some c)
    (hforeign : Alphabet.isForeign c = true) : rawIndex text index ≠ position := by
  rintro rfl
  obtain ⟨d, hd, hnumeral⟩ := hrun.exists_getElem?
  rw [← Text.getElem?_rawIndex, hc, Option.some.injEq] at hd
  subst hd
  cases hnumeral.symm.trans ((isForeign_iff c).1 hforeign).2.1

theorem scan_of_firstForeign (h : FirstForeign text position c) :
    scan text = .error (.foreignCharacter c position) ∨
      ∃ numeral earlier, earlier < position ∧
        scan text = .error (.malformedNumeral numeral earlier) := by
  obtain ⟨failure, hleftmost⟩ := exists_leftmost h.fault
  have hscan := (scan_eq_error_iff text failure).2 hleftmost
  obtain ⟨position', hfault, hleast⟩ := hleftmost
  have hle : position' ≤ position := hleast _ _ h.fault
  cases hfault with
  | @foreign _ d hd hforeign =>
      rcases Nat.lt_or_eq_of_le hle with hlt | rfl
      · cases hforeign.symm.trans (h.first position' hlt d hd)
      · obtain rfl : d = c := Option.some.inj (hd.symm.trans h.here)
        exact .inl hscan
  | malformed hrun hform =>
      have hne := rawIndex_ne_of_isForeign hrun h.here h.isForeign
      exact .inr ⟨_, _, by omega, hscan⟩

theorem scan_eq_malformed_before_iff (h : FirstForeign text position c) :
    (∃ numeral earlier, earlier < position ∧
        scan text = .error (.malformedNumeral numeral earlier)) ↔
      ∃ index run, RunAt (dropBlanks text) index run ∧ ¬ Numeral.WellFormed run ∧
        rawIndex text index < position := by
  constructor
  · rintro ⟨numeral, earlier, hearlier, hscan⟩
    obtain ⟨position', hfault, -⟩ := (scan_eq_error_iff text _).1 hscan
    cases hfault with
    | malformed hrun hform => exact ⟨_, _, hrun, hform, hearlier⟩
  · rintro ⟨index, run, hrun, hform, hearlier⟩
    rcases scan_of_firstForeign h with hscan | hmalformed
    · -- the run lies before the character, which is therefore not the leftmost fault
      obtain ⟨position', hfault, hleast⟩ := (scan_eq_error_iff text _).1 hscan
      have hle := hleast _ _ (.malformed hrun hform)
      cases hfault
      omega
    · exact hmalformed

end Foreign

theorem evaluate_eq_foreign_iff (limits : Limits) (source : String) (c : Char) (position : Nat) :
    evaluate limits source = .error (.foreignCharacter c position) ↔
      source.length ≤ limits.length ∧ FirstForeign source.toList position c := by
  rw [evaluate_eq_error_iff]
  constructor
  · intro h
    cases h with
    | tokens hlength hscan => exact ⟨hlength, (screenAndScan_eq_foreign_iff ..).1 hscan⟩
    | tree hlength hscan hblamed => cases hblamed
    | value hlength hscan htree hvalue =>
        rcases Expr.failure_of_value hvalue with h | h <;> cases h
  · rintro ⟨hlength, hforeign⟩
    exact .tokens hlength (screenAndScan_of_firstForeign hforeign)

/-- The screen and the scanner agree but for a run that is no numeral in front of a foreign
character; and an evaluation reports a foreign character if and only if there is one. -/
theorem screen_agrees (limits : Limits) (source : String) :
    (∀ tokens, screenAndScan source.toList = .ok tokens ↔ scan source.toList = .ok tokens) ∧
    (∀ numeral position,
      screenAndScan source.toList = .error (.malformedNumeral numeral position) →
      scan source.toList = .error (.malformedNumeral numeral position)) ∧
    (∀ c position, screenAndScan source.toList = .error (.foreignCharacter c position) →
      (scan source.toList = .error (.foreignCharacter c position) ∨
        ∃ numeral earlier, earlier < position ∧
          scan source.toList = .error (.malformedNumeral numeral earlier)) ∧
      ((∃ numeral earlier, earlier < position ∧
          scan source.toList = .error (.malformedNumeral numeral earlier)) ↔
        ∃ index run, RunAt (dropBlanks source.toList) index run ∧ ¬ Numeral.WellFormed run ∧
          rawIndex source.toList index < position)) ∧
    (∀ c position, evaluate limits source = .error (.foreignCharacter c position) ↔
      source.length ≤ limits.length ∧ FirstForeign source.toList position c) ∧
    ((∃ c ∈ source.toList, isForeign c = true) ↔
      ∃ position c, FirstForeign source.toList position c) := by
  refine ⟨screenAndScan_eq_ok_iff _, fun _ _ => scan_of_screenAndScan_eq_malformed,
    fun c position hscreen => ?_, evaluate_eq_foreign_iff limits source, exists_firstForeign, ?_⟩
  · have hforeign := (screenAndScan_eq_foreign_iff ..).1 hscreen
    exact ⟨scan_of_firstForeign hforeign, scan_eq_malformed_before_iff hforeign⟩
  · rintro ⟨position, c, hforeign⟩
    exact ⟨c, List.mem_of_getElem? hforeign.here, hforeign.isForeign⟩

theorem screen_agrees_malformed_first :
    screenAndScan "1.2.3 + a".toList = .error (.foreignCharacter 'a' 8) ∧
    scan "1.2.3 + a".toList = .error (.malformedNumeral "1.2.3" 0) ∧
    (∃ index run, RunAt (dropBlanks "1.2.3 + a".toList) index run ∧ ¬ Numeral.WellFormed run ∧
      rawIndex "1.2.3 + a".toList index < 8) ∧
    screenAndScan "4 + 1..2".toList = .error (.malformedNumeral "1..2" 4) ∧
    scan "4 + 1..2".toList = .error (.malformedNumeral "1..2" 4) := by
  have hscreen : screenAndScan "1.2.3 + a".toList = .error (.foreignCharacter 'a' 8) := by
    decide +kernel
  have hscan : scan "1.2.3 + a".toList = .error (.malformedNumeral "1.2.3" 0) := by
    decide +kernel
  have hmalformed : screenAndScan "4 + 1..2".toList = .error (.malformedNumeral "1..2" 4) := by
    decide +kernel
  obtain ⟨-, -, hforeign, -, -⟩ := screen_agrees {} "1.2.3 + a"
  obtain ⟨-, hsame, -, -, -⟩ := screen_agrees {} "4 + 1..2"
  exact ⟨hscreen, hscan, (hforeign _ _ hscreen).2.1 ⟨_, _, by decide, hscan⟩, hmalformed,
    hsame _ _ hmalformed⟩

end Calculator.Token
