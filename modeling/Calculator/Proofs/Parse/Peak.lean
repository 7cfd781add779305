import Mathlib.Order.Lattice
import Mathlib.Order.Nat
import Calculator.Proofs.Grammar.Levels
import Calculator.Proofs.Parse.OnePass

/-!
# How many levels a list of tokens asks for

The pass over a list of tokens keeps the levels that are open.  `Outlook.peak`
is the greatest number of them, up to the first token that does not fit.  A
limit below the peak is broken, for the first time where `placeAbove` says; a
limit at or above it takes no part in what the parser comes to.

The levels grow by one at a time, so that a greater limit is broken at a later
token (`placeAbove_lt_placeAbove`).
-/

namespace Calculator.Parse

open Grammar (afterOperand afterOperand_opening afterOperand_sublist Derives Level Outlook
  read?_of_derives Symbol)

/-- The greatest number of levels that are open at once while tokens are read. -/
def peak (o : Outlook) : List Token → Nat
  | [] => 0
  | token :: more =>
      match o.next? token with
      | none => 0
      | some o' => max o'.levels.length (peak o' more)

/-- The position of the first token that opens a level above a depth. -/
def placeAbove (depth : Nat) (o : Outlook) : List Token → Nat
  | [] => 0
  | token :: more =>
      match o.next? token with
      | none => 0
      | some o' => if depth < o'.levels.length then token.start else placeAbove depth o' more

/-! ## Below the peak -/

theorem firstFault?_of_lt_peak {depth stop : Nat} {o : Outlook} {tokens : List Token}
    (hdepth : depth < peak o tokens) :
    firstFault? ⟨depth, stop⟩ o tokens = some (.tooDeep depth (placeAbove depth o tokens)) := by
  induction tokens generalizing o with
  | nil => simp [peak] at hdepth
  | cons token more ih =>
      rw [firstFault?, placeAbove]
      rw [peak] at hdepth
      cases hnext : o.next? token with
      | none => simp [hnext] at hdepth
      | some o' =>
          simp only [hnext, lt_max_iff] at hdepth ⊢
          by_cases hdeep : depth < o'.levels.length
          · rw [if_pos hdeep, if_pos hdeep]
          · rw [if_neg hdeep, if_neg hdeep]
            exact ih (hdepth.resolve_left hdeep)

theorem exists_placeAbove_eq {depth : Nat} {o : Outlook} {tokens : List Token}
    (hdepth : depth < peak o tokens) : ∃ token ∈ tokens, placeAbove depth o tokens = token.start := by
  induction tokens generalizing o with
  | nil => simp [peak] at hdepth
  | cons token more ih =>
      rw [placeAbove]
      rw [peak] at hdepth
      cases hnext : o.next? token with
      | none => simp [hnext] at hdepth
      | some o' =>
          simp only [hnext, lt_max_iff] at hdepth ⊢
          by_cases hdeep : depth < o'.levels.length
          · rw [if_pos hdeep]
            exact ⟨token, List.mem_cons_self, rfl⟩
          · rw [if_neg hdeep]
            obtain ⟨later, hlater, hstart⟩ := ih (hdepth.resolve_left hdeep)
            exact ⟨later, List.mem_cons_of_mem _ hlater, hstart⟩

/-- One token opens one level at most. -/
theorem length_levels_le_of_next? {o o' : Outlook} {token : Token} (h : o.next? token = some o') :
    o'.levels.length ≤ o.levels.length + 1 := by
  rcases ((Outlook.next?_eq_some_iff ..).1 h).levels with hlevels | ⟨-, -, hlevels⟩
  · exact Nat.le_succ_of_le hlevels.length_le
  · rw [hlevels, List.length_cons]

/-- A greater limit is broken later. -/
theorem placeAbove_lt_placeAbove {depth depth' : Nat} {o : Outlook} {tokens : List Token}
    (hsorted : tokens.Pairwise fun token token' => token.start < token'.start)
    (hkept : o.levels.length ≤ depth) (hlt : depth < depth') (hdepth' : depth' < peak o tokens) :
    placeAbove depth o tokens < placeAbove depth' o tokens := by
  induction tokens generalizing o with
  | nil => simp [peak] at hdepth'
  | cons token more ih =>
      rw [List.pairwise_cons] at hsorted
      rw [placeAbove, placeAbove]
      rw [peak] at hdepth'
      cases hnext : o.next? token with
      | none => simp [hnext] at hdepth'
      | some o' =>
          have hgrowth := length_levels_le_of_next? hnext
          -- the greater limit is kept by this token in any case
          have hkept' : ¬ depth' < o'.levels.length := by omega
          simp only [hnext, lt_max_iff] at hdepth' ⊢
          have hpeak := hdepth'.resolve_left hkept'
          rw [if_neg hkept']
          by_cases hdeep : depth < o'.levels.length
          · rw [if_pos hdeep]
            obtain ⟨later, hlater, hstart⟩ := exists_placeAbove_eq hpeak
            rw [hstart]
            exact hsorted.1 later hlater
          · rw [if_neg hdeep]
            exact ih hsorted.2 (Nat.le_of_not_lt hdeep) hpeak

/-! ## At or above the peak -/

theorem firstFault?_congr {depth depth' stop : Nat} {o : Outlook} {tokens : List Token}
    (hdepth : peak o tokens ≤ depth) (hdepth' : peak o tokens ≤ depth') :
    firstFault? ⟨depth, stop⟩ o tokens = firstFault? ⟨depth', stop⟩ o tokens := by
  induction tokens generalizing o with
  | nil => rfl
  | cons token more ih =>
      rw [firstFault?, firstFault?]
      rw [peak] at hdepth hdepth'
      cases hnext : o.next? token with
      | none => rfl
      | some o' =>
          simp only [hnext, max_le_iff] at hdepth hdepth' ⊢
          rw [if_neg (Nat.not_lt.2 hdepth.1), if_neg (Nat.not_lt.2 hdepth'.1)]
          exact ih hdepth.2 hdepth'.2

theorem firstFault?_ne_tooDeep {depth stop : Nat} {o : Outlook} {tokens : List Token}
    (hdepth : peak o tokens ≤ depth) (limit position : Nat) :
    firstFault? ⟨depth, stop⟩ o tokens ≠ some (.tooDeep limit position) := by
  induction tokens generalizing o with
  | nil =>
      rw [firstFault?, endFault?]
      split
      · simp
      · split <;> simp
  | cons token more ih =>
      rw [firstFault?]
      rw [peak] at hdepth
      cases hnext : o.next? token with
      | none =>
          simp only [failureAt, unexpectedToken]
          split <;> simp
      | some o' =>
          simp only [hnext, max_le_iff] at hdepth ⊢
          rw [if_neg (Nat.not_lt.2 hdepth.1)]
          exact ih hdepth.2

/-! ## The parser under a limit -/

section Limit

variable {depth depth' stop : Nat} {tokens : List Token}

theorem ofTokens_of_lt_peak (hdepth : depth < peak .start tokens) :
    Expr.ofTokens depth stop tokens =
      .error (.tooDeep depth (placeAbove depth .start tokens)) := by
  have htokens : tokens ≠ [] := by
    rintro rfl
    simp [peak] at hdepth
  exact (ofTokens_eq_error_iff htokens ..).2 (firstFault?_of_lt_peak hdepth)

theorem ofTokens_congr (hdepth : peak .start tokens ≤ depth) (hdepth' : peak .start tokens ≤ depth') :
    Expr.ofTokens depth stop tokens = Expr.ofTokens depth' stop tokens := by
  by_cases htokens : tokens = []
  · subst htokens
    rfl
  · have herror : ∀ failure, Expr.ofTokens depth stop tokens = .error failure ↔
        Expr.ofTokens depth' stop tokens = .error failure := by
      intro failure
      rw [ofTokens_eq_error_iff htokens, ofTokens_eq_error_iff htokens,
        firstFault?_congr hdepth hdepth']
    cases hresult : Expr.ofTokens depth stop tokens with
    | error failure => exact ((herror failure).1 hresult).symm
    | ok tree =>
        cases hresult' : Expr.ofTokens depth' stop tokens with
        | error failure => cases hresult.symm.trans ((herror failure).2 hresult')
        | ok tree' =>
            -- both trees belong to derivations of the same list
            obtain ⟨_, _, hderives⟩ := derives_of_ofTokens hresult
            obtain ⟨_, _, hderives'⟩ := derives_of_ofTokens hresult'
            rw [derives_unique hderives hderives']

theorem ofTokens_ne_tooDeep (hdepth : peak .start tokens ≤ depth) (limit position : Nat) :
    Expr.ofTokens depth stop tokens ≠ .error (.tooDeep limit position) := by
  intro h
  have htokens : tokens ≠ [] := by
    rintro rfl
    cases h
  exact firstFault?_ne_tooDeep hdepth limit position ((ofTokens_eq_error_iff htokens ..).1 h)

end Limit

/-! ## The peak of a derived list -/

theorem peak_cons {o o' : Outlook} {token : Token} (h : o.next? token = some o')
    (more : List Token) : peak o (token :: more) = max o'.levels.length (peak o' more) := by
  rw [peak, h]

theorem peak_append {o o' : Outlook} {tokens : List Token} (h : o.read? tokens = some o')
    (more : List Token) : peak o (tokens ++ more) = max (peak o tokens) (peak o' more) := by
  induction tokens generalizing o with
  | nil =>
      cases h
      rw [List.nil_append, peak, Nat.zero_max]
  | cons token tokens ih =>
      rw [Outlook.read?_cons] at h
      obtain ⟨next, hnext, hread⟩ := Option.bind_eq_some_iff.1 h
      rw [List.cons_append, peak_cons hnext, peak_cons hnext, ih hread, Nat.max_assoc]

/-- A phrase asks for as many levels as its derivation has, above those that are open before it.
A chain never stands directly behind a unary minus. -/
theorem peak_of_derives {symbol : Symbol} {kinds : List Token.Kind} {tree : Expr} {depth : Nat}
    (h : Derives symbol kinds tree depth) {tokens : List Token}
    (htokens : tokens.map Token.kind = kinds) (count : Nat) (levels : List Level)
    (hchain : symbol = .expression ∨ symbol = .term → afterOperand levels = levels) :
    max levels.length (peak ⟨count, true, levels⟩ tokens) = levels.length + depth := by
  induction h generalizing tokens count levels with
  | expression_term _ ih => exact ih htokens count levels fun _ => hchain (.inl rfl)
  | term_factor _ ih | factor_primary _ ih => exact ih htokens count levels (by simp)
  | @expression_chain op _ _ _ _ _ _ hop hleft hright ihleft ihright
  | @term_chain op _ _ _ _ _ _ hop hleft hright ihleft ihright =>
      have hlevels := hchain (by simp)
      obtain ⟨before, rest, rfl, hbefore, hrest⟩ := List.map_eq_append_iff.1 htokens
      obtain ⟨token, after, rfl, htoken, hafter⟩ := List.map_eq_cons_iff.1 hrest
      have hread := read?_of_derives hleft hbefore count levels
      rw [hlevels] at hread
      have hbeforePeak := ihleft hbefore count levels fun _ => hlevels
      have hafterPeak := ihright hafter (count + before.length + 1) levels fun _ => hlevels
      rw [peak_append hread, peak_cons (Outlook.next?_operator htoken _ _)]
      dsimp only
      omega
  | factor_neg hfactor ih =>
      obtain ⟨token, after, rfl, htoken, hafter⟩ := List.map_eq_cons_iff.1 htokens
      have hafterPeak := ih hafter (count + 1) (⟨count, token⟩ :: levels) (by simp)
      rw [peak_cons (Outlook.next?_opener (.inl htoken) _ _), hafterPeak, List.length_cons]
      omega
  | primary_number value =>
      obtain ⟨⟨kind, lexeme, start⟩, after, rfl, rfl, hafter⟩ := List.map_eq_cons_iff.1 htokens
      have hlength := (afterOperand_sublist levels).length_le
      rw [List.map_eq_nil_iff.1 hafter, peak_cons ((Outlook.next?_eq_some_iff _ _ _).2 .number),
        peak]
      dsimp only
      omega
  | primary_group hexpression ih =>
      obtain ⟨token, rest, rfl, htoken, hrest⟩ := List.map_eq_cons_iff.1 htokens
      obtain ⟨inner, last, rfl, hinner, hlast⟩ := List.map_eq_append_iff.1 hrest
      obtain ⟨⟨kind, lexeme, start⟩, tail, rfl, rfl, htail⟩ := List.map_eq_cons_iff.1 hlast
      have hopening : afterOperand (⟨count, token⟩ :: levels) = ⟨count, token⟩ :: levels :=
        afterOperand_opening htoken levels
      have hread := read?_of_derives hexpression hinner (count + 1) (⟨count, token⟩ :: levels)
      rw [hopening] at hread
      have hinnerPeak := ih hinner (count + 1) (⟨count, token⟩ :: levels) fun _ => hopening
      have hlength := (afterOperand_sublist levels).length_le
      rw [List.map_eq_nil_iff.1 htail, peak_cons (Outlook.next?_opener (.inr htoken) _ _),
        peak_append hread, peak_cons ((Outlook.next?_eq_some_iff _ _ _).2 .closer), peak]
      rw [List.length_cons] at hinnerPeak ⊢
      dsimp only
      omega

end Calculator.Parse
