import Mathlib.Order.Nat
import Calculator.Proofs.Numeral
import Calculator.Proofs.Scan.Run

/-!
# The leftmost fault of a text

There are two things that can be wrong with the characters of a text: one of
them is foreign, or a run of digits and dots is no numeral.  `Fault` says where,
in terms of the runs of the text without its blanks.  The scanner stops at the
leftmost fault, and it succeeds where there is none (`scan_eq_error_iff`,
`exists_scan_eq_ok_iff`).

The induction goes over the pieces of the text (`pieces_induction`).  For it
faults are counted from the position at which the text starts (`FaultFrom`), so
that the faults of a text are those of its first piece and those of the rest.
-/

namespace Calculator.Token

open Alphabet (isAllowed isForeign isNumeral)
open Text (dropBlanks isBlank rawIndex)

/-- `Fault text position failure`: what is wrong with a text at a position. -/
inductive Fault (text : List Char) : Nat → Failure → Prop
  | foreign {position : Nat} {c : Char} (hc : text[position]? = some c)
      (hforeign : isForeign c = true) : Fault text position (.foreignCharacter c position)
  | malformed {index : Nat} {run : List Char} (hrun : RunAt (dropBlanks text) index run)
      (hform : ¬ Numeral.WellFormed run) :
      Fault text (rawIndex text index)
        (.malformedNumeral (String.ofList run) (rawIndex text index))

/-- The failure at the leftmost of some faults. -/
def Leftmost (faults : Nat → Failure → Prop) (failure : Failure) : Prop :=
  ∃ position, faults position failure ∧
    ∀ position' failure', faults position' failure' → position ≤ position'

/-- `FaultFrom start text position failure`: what is wrong at a position, where the first character
of `text` has position `start`. -/
inductive FaultFrom (start : Nat) (text : List Char) : Nat → Failure → Prop
  | foreign {index : Nat} {c : Char} (hc : text[index]? = some c) (hforeign : isForeign c = true) :
      FaultFrom start text (start + index) (.foreignCharacter c (start + index))
  | malformed {index : Nat} {run : List Char} (hrun : RunAt text index run)
      (hform : ¬ Numeral.WellFormed (dropBlanks run)) :
      FaultFrom start text (start + index)
        (.malformedNumeral (String.ofList (dropBlanks run)) (start + index))

theorem fault_iff (text : List Char) (position : Nat) (failure : Failure) :
    Fault text position failure ↔ FaultFrom 0 text position failure := by
  constructor
  · rintro (⟨hc, hforeign⟩ | @⟨index, run, hrun, hform⟩)
    · rw [← Nat.zero_add position]
      exact .foreign hc hforeign
    · obtain ⟨raw, hraw, rfl⟩ := exists_runAt_of_dropBlanks hrun
      rw [← Nat.zero_add (rawIndex text index)]
      exact .malformed hraw hform
  · rintro (⟨hc, hforeign⟩ | ⟨hrun, hform⟩)
    · rw [Nat.zero_add]
      exact .foreign hc hforeign
    · obtain ⟨index, rfl, hbare⟩ := runAt_dropBlanks hrun
      rw [Nat.zero_add]
      exact .malformed hbare hform

/-! ## The faults of the parts of a text -/

theorem FaultFrom.start_le {start position : Nat} {text : List Char} {failure : Failure}
    (h : FaultFrom start text position failure) : start ≤ position := by
  cases h <;> exact Nat.le_add_right _ _

theorem faultFrom_append_iff {text rest : List Char} (hapart : Apart text rest)
    (start position : Nat) (failure : Failure) :
    FaultFrom start (text ++ rest) position failure ↔
      FaultFrom start text position failure ∨
        FaultFrom (start + text.length) rest position failure := by
  constructor
  · rintro (@⟨index, c, hc, hforeign⟩ | ⟨hrun, hform⟩)
    · by_cases hindex : index < text.length
      · rw [List.getElem?_append_left hindex] at hc
        exact .inl (.foreign hc hforeign)
      · obtain ⟨index, rfl⟩ := Nat.exists_eq_add_of_le (Nat.le_of_not_lt hindex)
        rw [List.getElem?_append_right (Nat.le_add_right ..), Nat.add_sub_cancel_left] at hc
        rw [← Nat.add_assoc]
        exact .inr (.foreign hc hforeign)
    · rcases (runAt_append_iff hapart _).1 hrun with hrun | ⟨index, rfl, hindex⟩
      · exact .inl (.malformed hrun hform)
      · rw [← Nat.add_assoc]
        exact .inr (.malformed hindex hform)
  · rintro ((@⟨index, c, hc, hforeign⟩ | ⟨hrun, hform⟩) | (@⟨index, c, hc, hforeign⟩ | ⟨hrun, hform⟩))
    · refine .foreign ?_ hforeign
      rw [List.getElem?_append_left (List.getElem?_eq_some_iff.1 hc).1, hc]
    · exact .malformed (runAt_append_left hapart hrun) hform
    · rw [Nat.add_assoc]
      refine .foreign ?_ hforeign
      rw [List.getElem?_append_right (Nat.le_add_right ..), Nat.add_sub_cancel_left, hc]
    · rw [Nat.add_assoc]
      exact .malformed (runAt_append_right hapart hrun) hform

section Pieces

variable {start : Nat} {text rest : List Char} {failure : Failure}

/-- A first part without a fault does not count. -/
theorem leftmost_append_of_none (hapart : Apart text rest)
    (hnone : ∀ position failure, ¬ FaultFrom start text position failure) :
    Leftmost (FaultFrom start (text ++ rest)) failure ↔
      Leftmost (FaultFrom (start + text.length) rest) failure := by
  have hfaults : FaultFrom start (text ++ rest) = FaultFrom (start + text.length) rest := by
    funext position failure
    rw [faultFrom_append_iff hapart, eq_iff_iff, or_iff_right (hnone position failure)]
  rw [hfaults]

/-- A fault at the first position decides, if the first part has no other one. -/
theorem leftmost_append_of_start (hapart : Apart text rest) (htext : text ≠ [])
    {first : Failure} (hfirst : FaultFrom start text start first)
    (honly : ∀ position failure, FaultFrom start text position failure → failure = first) :
    Leftmost (FaultFrom start (text ++ rest)) failure ↔ failure = first := by
  have hfirst' : FaultFrom start (text ++ rest) start first :=
    (faultFrom_append_iff hapart ..).2 (.inl hfirst)
  constructor
  · rintro ⟨position, hfault, hleast⟩
    have hposition : position ≤ start := hleast _ _ hfirst'
    rcases (faultFrom_append_iff hapart ..).1 hfault with hfault | hfault
    · exact honly _ _ hfault
    · have hstart := hfault.start_le
      have hlength := List.length_pos_iff.2 htext
      omega
  · rintro rfl
    exact ⟨start, hfirst', fun _ _ hfault => hfault.start_le⟩

end Pieces

/-! ## The faults of a piece -/

theorem not_runAt_singleton {c : Char} (hc : isNumeral c = false) (index : Nat) (run : List Char) :
    ¬ RunAt [c] index run := by
  rintro ⟨hrun, before, after, htext, -⟩
  obtain ⟨d, rest, rfl, hd⟩ := hrun.first
  have hmem : d ∈ [c] := by
    rw [htext]
    simp
  obtain rfl := List.mem_singleton.1 hmem
  cases hd.symm.trans hc

theorem faultFrom_singleton_iff {c : Char} (hc : isNumeral c = false) (start position : Nat)
    (failure : Failure) :
    FaultFrom start [c] position failure ↔
      isForeign c = true ∧ position = start ∧ failure = .foreignCharacter c start := by
  constructor
  · rintro (@⟨_ | index, d, hd, hforeign⟩ | ⟨hrun, -⟩)
    · cases hd
      exact ⟨hforeign, rfl, rfl⟩
    · cases hd
    · exact absurd hrun (not_runAt_singleton hc _ _)
  · rintro ⟨hforeign, rfl, rfl⟩
    exact @FaultFrom.foreign position [c] 0 c rfl hforeign

/-- A run is the only maximal run in it. -/
theorem runAt_of_isRun {run : List Char} (hrun : IsRun run) {index : Nat} {run' : List Char} :
    RunAt run index run' ↔ index = 0 ∧ run' = run := by
  constructor
  · rintro ⟨hrun', before, after, rfl, rfl, hbefore, hafter⟩
    have hcut : Apart before (run' ++ after) := (apart_append_right ..).2
      ⟨hbefore, fun hblanks => absurd hblanks hrun'.dropBlanks.ne_nil⟩
    rcases eq_nil_or_eq_nil_of_isRun hrun hcut with rfl | hnil
    · rw [List.nil_append] at hrun
      rcases eq_nil_or_eq_nil_of_isRun hrun hafter with hnil | rfl
      · exact absurd hnil hrun'.ne_nil
      · simp
    · exact absurd (List.append_eq_nil_iff.1 hnil).1 hrun'.ne_nil
  · rintro ⟨rfl, rfl⟩
    exact ⟨hrun, [], [], by simp, rfl, apart_nil_left _, apart_nil_right _⟩

theorem faultFrom_run_iff {run : List Char} (hrun : IsRun run) (start position : Nat)
    (failure : Failure) :
    FaultFrom start run position failure ↔
      ¬ Numeral.WellFormed (dropBlanks run) ∧ position = start ∧
        failure = .malformedNumeral (String.ofList (dropBlanks run)) start := by
  constructor
  · rintro (⟨hc, hforeign⟩ | ⟨hrun', hform⟩)
    · obtain ⟨hblank, hnumeral, -⟩ := (isForeign_iff _).1 hforeign
      rcases hrun.mem _ (List.mem_of_getElem? hc) with h | h
      · cases h.symm.trans hnumeral
      · cases h.symm.trans hblank
    · obtain ⟨rfl, rfl⟩ := (runAt_of_isRun hrun).1 hrun'
      exact ⟨hform, rfl, rfl⟩
  · rintro ⟨hform, rfl, rfl⟩
    exact .malformed ((runAt_of_isRun hrun).2 ⟨rfl, rfl⟩) hform

/-! ## The scanner and the faults -/

theorem map_eq_error_iff {α β : Type} {result : Except Failure α} (f : α → β) (failure : Failure) :
    result.map f = .error failure ↔ result = .error failure := by
  cases result <;> simp [Except.map]

theorem not_faultFrom_nil (start position : Nat) (failure : Failure) :
    ¬ FaultFrom start [] position failure := by
  rintro (⟨hc, -⟩ | ⟨⟨hrun, before, after, hnil, -⟩, -⟩)
  · cases hc
  · simp [hrun.ne_nil] at hnil

theorem scanFrom_eq_error_iff (start : Nat) (text : List Char) (failure : Failure) :
    scanFrom start text = .error failure ↔ Leftmost (FaultFrom start text) failure := by
  -- a blank, a symbol and a numeral have no fault, and the scanner goes on behind them; where it
  -- stops, the piece has its fault at its first character
  induction text using pieces_induction generalizing start with
  | nil =>
      rw [scanFrom]
      constructor
      · intro h
        cases h
      · rintro ⟨position, hfault, -⟩
        exact absurd hfault (not_faultFrom_nil _ _ _)
  | blank c rest hblank ih =>
      have hnumeral := isNumeral_of_isBlank hblank
      rw [scanFrom_blank hblank, ih, ← List.singleton_append,
        leftmost_append_of_none (apart_singleton_left hnumeral rest)]
      · rfl
      · simp [faultFrom_singleton_iff hnumeral, isForeign, hblank]
  | symbol c kind rest hkind ih =>
      have hsymbol := isSymbol_of_ofSymbol? hkind
      have hnumeral := isNumeral_of_isSymbol hsymbol
      rw [scanFrom_symbol (isBlank_of_isSymbol hsymbol) hkind, map_eq_error_iff, ih,
        ← List.singleton_append, leftmost_append_of_none (apart_singleton_left hnumeral rest)]
      · rfl
      · simp [faultFrom_singleton_iff hnumeral, isForeign_iff, hsymbol]
  | run run rest hrun hapart ih =>
      rw [scanFrom_run hrun hapart]
      cases hread : Numeral.read? (dropBlanks run) with
      | none =>
          have hform := (Numeral.read?_eq_none_iff _).1 hread
          rw [leftmost_append_of_start hapart hrun.ne_nil
            ((faultFrom_run_iff hrun ..).2 ⟨hform, rfl, rfl⟩)
            fun _ _ hfault => ((faultFrom_run_iff hrun ..).1 hfault).2.2]
          simp [eq_comm]
      | some numeral =>
          have hform := Numeral.wellFormed_of_read? hread
          rw [leftmost_append_of_none hapart]
          · exact (map_eq_error_iff _ _).trans (ih _)
          · simp [faultFrom_run_iff hrun, hform]
  | foreign c rest hforeign ih =>
      obtain ⟨-, hnumeral, -⟩ := (isForeign_iff c).1 hforeign
      rw [scanFrom_of_isForeign hforeign, ← List.singleton_append,
        leftmost_append_of_start (apart_singleton_left hnumeral rest) (by simp)
          ((faultFrom_singleton_iff hnumeral ..).2 ⟨hforeign, rfl, rfl⟩)
          fun _ _ hfault => ((faultFrom_singleton_iff hnumeral ..).1 hfault).2.2]
      simp [eq_comm]

/-- The scanner stops at the leftmost fault. -/
theorem scan_eq_error_iff (text : List Char) (failure : Failure) :
    scan text = .error failure ↔ Leftmost (Fault text) failure := by
  have hfaults : Fault text = FaultFrom 0 text := by
    funext position failure
    exact propext (fault_iff text position failure)
  rw [hfaults]
  exact scanFrom_eq_error_iff 0 text failure

/-- One of the faults is the leftmost one. -/
theorem exists_leftmost {faults : Nat → Failure → Prop} {position : Nat} {failure : Failure}
    (hfault : faults position failure) : ∃ failure', Leftmost faults failure' := by
  classical
  have hsome : ∃ position failure, faults position failure := ⟨position, failure, hfault⟩
  obtain ⟨failure', hfirst⟩ := Nat.find_spec hsome
  exact ⟨failure', Nat.find hsome, hfirst, fun _ _ h => Nat.find_min' hsome ⟨_, h⟩⟩

theorem not_fault_iff (text : List Char) :
    (∀ position failure, ¬ Fault text position failure) ↔
      (∀ c ∈ text, isBlank c = true ∨ isAllowed c = true) ∧
      ∀ index run, RunAt (dropBlanks text) index run → Numeral.WellFormed run := by
  constructor
  · intro hnone
    constructor
    · intro c hc
      obtain ⟨position, hposition⟩ := List.mem_iff_getElem?.1 hc
      by_contra hforeign
      exact hnone _ _ (.foreign hposition (by simpa [isForeign] using hforeign))
    · intro index run hrun
      by_contra hform
      exact hnone _ _ (.malformed hrun hform)
  · rintro ⟨hallowed, hforms⟩ position failure (⟨hc, hforeign⟩ | ⟨hrun, hform⟩)
    · have hfine := hallowed _ (List.mem_of_getElem? hc)
      simp [isForeign] at hforeign
      simp [hforeign] at hfine
    · exact hform (hforms _ _ hrun)

/-- The scanner succeeds if no character is foreign and every run is a numeral. -/
theorem exists_scan_eq_ok_iff (text : List Char) :
    (∃ tokens, scan text = .ok tokens) ↔
      (∀ c ∈ text, isBlank c = true ∨ isAllowed c = true) ∧
      ∀ index run, RunAt (dropBlanks text) index run → Numeral.WellFormed run := by
  rw [← not_fault_iff]
  constructor
  · rintro ⟨tokens, hscan⟩ position failure hfault
    obtain ⟨failure', hleftmost⟩ := exists_leftmost hfault
    cases hscan.symm.trans ((scan_eq_error_iff text failure').2 hleftmost)
  · intro hnone
    cases hscan : scan text with
    | ok tokens => exact ⟨tokens, rfl⟩
    | error failure =>
        obtain ⟨position, hfault, -⟩ := (scan_eq_error_iff text failure).1 hscan
        exact absurd hfault (hnone _ _)

end Calculator.Token
