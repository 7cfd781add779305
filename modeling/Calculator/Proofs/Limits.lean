import Mathlib.Order.Interval.Set.Defs
import Mathlib.Order.Monotone.Defs
import Calculator.Proofs.Parse.Peak
import Calculator.Proofs.Screen

/-!
# The limits only cut

A text asks for a length and for a number of levels, and it has an outcome; all
three belong to the text alone.  Under limits that grant what it asks for an
evaluation gives this outcome, and under any others it reports the limit that is
broken (`evaluate_eq_cut`).  The outcome itself does not speak of limits
(`isLimit_of_outcome`), so that higher limits never change what is not the report
of a limit (`evaluate_of_raised`).
-/

namespace Calculator

/-- Whether a failure reports a limit. -/
def Failure.isLimit : Failure → Bool
  | .tooLong .. | .tooDeep .. => true
  | _ => false

/-- The number of levels that a text asks for. -/
def askedLevels (source : String) : Nat :=
  match Token.screenAndScan source.toList with
  | .error _ => 0
  | .ok tokens => Parse.peak .start tokens

/-- Where a text first asks for more levels than a depth. -/
def placeAbove (source : String) (depth : Nat) : Nat :=
  match Token.screenAndScan source.toList with
  | .error _ => 0
  | .ok tokens => Parse.placeAbove depth .start tokens

/-- What a text comes to under limits that just suffice. -/
def outcome (source : String) : Except Failure Float :=
  evaluate ⟨source.length, askedLevels source⟩ source

section Text

variable {limits : Limits} {source : String}

theorem askedLevels_of_error {failure : Failure}
    (hscan : Token.screenAndScan source.toList = .error failure) : askedLevels source = 0 := by
  rw [askedLevels, hscan]

theorem askedLevels_of_ok {tokens : List Token}
    (hscan : Token.screenAndScan source.toList = .ok tokens) :
    askedLevels source = Parse.peak .start tokens := by
  rw [askedLevels, hscan]

theorem placeAbove_of_ok {tokens : List Token}
    (hscan : Token.screenAndScan source.toList = .ok tokens) (depth : Nat) :
    placeAbove source depth = Parse.placeAbove depth .start tokens := by
  rw [placeAbove, hscan]

/-- Only a text with tokens asks for levels. -/
theorem exists_tokens_of_lt_askedLevels {depth : Nat} (hdepth : depth < askedLevels source) :
    ∃ tokens, Token.screenAndScan source.toList = .ok tokens ∧
      depth < Parse.peak .start tokens := by
  cases hscan : Token.screenAndScan source.toList with
  | error failure =>
      rw [askedLevels_of_error hscan] at hdepth
      exact absurd hdepth (Nat.not_lt_zero _)
  | ok tokens =>
      rw [askedLevels_of_ok hscan] at hdepth
      exact ⟨tokens, rfl, hdepth⟩

/-! ## Under limits that suffice -/

theorem evaluate_eq_outcome (hlength : source.length ≤ limits.length)
    (hdepth : askedLevels source ≤ limits.depth) : evaluate limits source = outcome source := by
  have hread : Expr.read limits.depth source = Expr.read (askedLevels source) source := by
    cases hscan : Token.screenAndScan source.toList with
    | error failure => rw [Expr.read_of_error hscan, Expr.read_of_error hscan]
    | ok tokens =>
        rw [askedLevels_of_ok hscan] at hdepth ⊢
        rw [Expr.read_of_ok hscan, Expr.read_of_ok hscan]
        exact Parse.ofTokens_congr hdepth (Nat.le_refl _)
  unfold outcome evaluate
  rw [hread, if_neg (Nat.not_lt.2 hlength), if_neg (Nat.lt_irrefl _)]

/-- An outcome does not speak of limits. -/
theorem isLimit_of_outcome {failure : Failure} (h : outcome source = .error failure) :
    failure.isLimit = false := by
  unfold outcome at h
  cases (evaluate_eq_error_iff ..).1 h with
  | length hlength => exact absurd hlength (Nat.lt_irrefl _)
  | tokens hlength hscan =>
      obtain ⟨position, hfault⟩ := Token.exists_fault_of_screenAndScan hscan
      cases hfault <;> rfl
  | @tree tokens _ hlength hscan hblamed =>
      have hdepth : Parse.peak .start tokens ≤ askedLevels source := (askedLevels_of_ok hscan).ge
      have htree := (Parse.fails_iff_blamed ..).2 hblamed
      cases hblamed with
      | tooDeep => exact absurd htree (Parse.ofTokens_ne_tooDeep hdepth _ _)
      | _ => rfl
  | value hlength hscan htree hvalue =>
      rcases Expr.failure_of_value hvalue with rfl | rfl <;> rfl

/-! ## Under limits that do not -/

theorem evaluate_eq_tooDeep (hlength : source.length ≤ limits.length)
    (hdepth : limits.depth < askedLevels source) :
    evaluate limits source = .error (.tooDeep limits.depth (placeAbove source limits.depth)) := by
  obtain ⟨tokens, hscan, hpeak⟩ := exists_tokens_of_lt_askedLevels hdepth
  unfold evaluate
  rw [if_neg (Nat.not_lt.2 hlength), Expr.read_of_ok hscan, Parse.ofTokens_of_lt_peak hpeak,
    placeAbove_of_ok hscan]

/-- A greater depth is exceeded later. -/
theorem strictMonoOn_placeAbove : StrictMonoOn (placeAbove source) (Set.Iio (askedLevels source)) := by
  intro depth _ depth' hdepth' hlt
  obtain ⟨tokens, hscan, hpeak⟩ := exists_tokens_of_lt_askedLevels hdepth'
  have hsorted := (Token.tiles_of_screenAndScan hscan).sorted
  rw [placeAbove_of_ok hscan, placeAbove_of_ok hscan]
  exact Parse.placeAbove_lt_placeAbove hsorted (Nat.zero_le _) hlt hpeak

end Text

/-! ## Under any limits -/

/-- What the limits do to an outcome. -/
theorem evaluate_eq_cut (limits : Limits) (source : String) :
    evaluate limits source =
      if limits.length < source.length then .error (.tooLong source.length limits.length)
      else if askedLevels source ≤ limits.depth then outcome source
      else .error (.tooDeep limits.depth (placeAbove source limits.depth)) := by
  split
  · next hlength => exact if_pos hlength
  · next hlength =>
      have hlength := Nat.le_of_not_lt hlength
      split
      · next hdepth => exact evaluate_eq_outcome hlength hdepth
      · next hdepth => exact evaluate_eq_tooDeep hlength (Nat.lt_of_not_le hdepth)

theorem suffices_of_no_limit {limits : Limits} {source : String}
    (h : ∀ failure, evaluate limits source = .error failure → failure.isLimit = false) :
    source.length ≤ limits.length ∧ askedLevels source ≤ limits.depth := by
  rw [evaluate_eq_cut] at h
  split at h
  · cases h _ rfl
  · next hlength =>
      split at h
      · next hdepth => exact ⟨Nat.le_of_not_lt hlength, hdepth⟩
      · cases h _ rfl

/-- Higher limits do not change what is not the report of a limit. -/
theorem evaluate_of_raised {limits limits' : Limits} {source : String}
    (hlength : limits.length ≤ limits'.length) (hdepth : limits.depth ≤ limits'.depth)
    (h : ∀ failure, evaluate limits source = .error failure → failure.isLimit = false) :
    evaluate limits' source = evaluate limits source := by
  obtain ⟨hlong, hdeep⟩ := suffices_of_no_limit h
  calc evaluate limits' source
      = outcome source :=
        evaluate_eq_outcome (Nat.le_trans hlong hlength) (Nat.le_trans hdeep hdepth)
    _ = evaluate limits source := (evaluate_eq_outcome hlong hdeep).symm

/-- A text has an outcome and asks for some levels.  A limit that it breaks is reported; else the
limits take no part. -/
theorem limits_only_cut (source : String) :
    ∃ (result : Except Failure Float) (asked : Nat) (place : Nat → Nat),
      (∀ limits : Limits, evaluate limits source =
        if limits.length < source.length then .error (.tooLong source.length limits.length)
        else if asked ≤ limits.depth then result
        else .error (.tooDeep limits.depth (place limits.depth))) ∧
      (∀ failure, result = .error failure → failure.isLimit = false) ∧
      StrictMonoOn place (Set.Iio asked) ∧
      (∀ limits limits' : Limits, limits.length ≤ limits'.length → limits.depth ≤ limits'.depth →
        (∀ failure, evaluate limits source = .error failure → failure.isLimit = false) →
        evaluate limits' source = evaluate limits source) := by
  refine ⟨outcome source, askedLevels source, placeAbove source, ?_, ?_, ?_, ?_⟩
  · exact fun limits => evaluate_eq_cut limits source
  · exact fun failure => isLimit_of_outcome
  · exact strictMonoOn_placeAbove
  · exact fun limits limits' => evaluate_of_raised

theorem limits_only_cut_nested :
    askedLevels "-(1)" = 2 ∧
    evaluate ⟨4, 1⟩ "-(1)" = .error (.tooDeep 1 1) ∧
    (∀ failure, evaluate ⟨3, 0⟩ "1/0" = .error failure → failure.isLimit = false) ∧
    evaluate {} "1/0" = evaluate ⟨3, 0⟩ "1/0" := by
  have hvalue : evaluate ⟨3, 0⟩ "1/0" = .error .divisionByZero := by decide +kernel
  have hkept : ∀ failure, evaluate ⟨3, 0⟩ "1/0" = .error failure → failure.isLimit = false := by
    rw [hvalue]
    rintro failure ⟨⟩
    rfl
  obtain ⟨_, _, _, -, -, -, hraised⟩ := limits_only_cut "1/0"
  exact ⟨by decide +kernel, by decide +kernel, hkept,
    hraised ⟨3, 0⟩ {} (by decide) (by decide) hkept⟩

end Calculator
