import Mathlib.Data.List.DropRight
import Calculator.Proofs.Grammar

/-!
# Reading tokens in one pass

An outlook is what a list of tokens leaves open when it is read from left to
right, one token after the other: whether an operand is due, and which groups
and unary minuses are not complete yet.  A number and a closing parenthesis
complete the unary minuses in front of the operand that they end.

* `read?_of_derives`: a derived list of tokens is read to its end, and all that
  it opened is complete.
* `Outlook.Fits`: what an outlook says about the tokens read so far, in terms of
  the grammar.  The tokens behind each open level are such that any further
  factor completes them; `fits_step` is the invariant of the pass.
* `is_expression_iff`, `viable_iff`: which lists can be derived from
  `expression`, and which ones can be continued to such a list.
-/

namespace Calculator.Grammar

/-- A group or a unary minus that is not complete yet. -/
structure Level where
  /-- The number of tokens before the token that opens the level. -/
  index : Nat
  /-- The token that opens the level. -/
  token : Token

/-- What the tokens read so far leave open. -/
structure Outlook where
  /-- The number of tokens read. -/
  count : Nat
  /-- Whether an operand is due. -/
  operandDue : Bool
  /-- The open levels, the innermost first. -/
  levels : List Level

/-- The levels that stay open when an operand is complete: the unary minuses in front of it are
complete with it. -/
def afterOperand (levels : List Level) : List Level :=
  levels.dropWhile fun level => level.token.kind = .minus

namespace Outlook

def start : Outlook := ⟨0, true, []⟩

/-- The outlook after one more token, if the token fits. -/
def next? (o : Outlook) (token : Token) : Option Outlook :=
  match o.operandDue, token.kind with
  | true, .number _ => some ⟨o.count + 1, false, afterOperand o.levels⟩
  | true, .minus | true, .opening => some ⟨o.count + 1, true, ⟨o.count, token⟩ :: o.levels⟩
  | false, .closing =>
      match o.levels with
      | [] => none
      | _ :: levels => some ⟨o.count + 1, false, afterOperand levels⟩
  | false, .plus | false, .minus | false, .star | false, .slash =>
      some ⟨o.count + 1, true, o.levels⟩
  | _, _ => none

/-- The outlook after a list of tokens, if every token fits. -/
def read? (o : Outlook) (tokens : List Token) : Option Outlook :=
  tokens.foldlM next? o

/-- `Step o token o'`: the four ways in which a token fits. -/
inductive Step : Outlook → Token → Outlook → Prop
  | number {count : Nat} {levels : List Level} {value : Float} {lexeme : List Char} {start : Nat} :
      Step ⟨count, true, levels⟩ ⟨.number value, lexeme, start⟩
        ⟨count + 1, false, afterOperand levels⟩
  | opener {count : Nat} {levels : List Level} {token : Token}
      (hkind : token.kind = .minus ∨ token.kind = .opening) :
      Step ⟨count, true, levels⟩ token ⟨count + 1, true, ⟨count, token⟩ :: levels⟩
  | closer {count : Nat} {level : Level} {levels : List Level} {lexeme : List Char} {start : Nat} :
      Step ⟨count, false, level :: levels⟩ ⟨.closing, lexeme, start⟩
        ⟨count + 1, false, afterOperand levels⟩
  | operator {count : Nat} {levels : List Level} {token : Token} {op : Operator}
      (hkind : token.kind = op.token) :
      Step ⟨count, false, levels⟩ token ⟨count + 1, true, levels⟩

theorem next?_eq_some_iff (o : Outlook) (token : Token) (o' : Outlook) :
    o.next? token = some o' ↔ Step o token o' := by
  constructor
  · obtain ⟨count, due, levels⟩ := o
    obtain ⟨kind, lexeme, start⟩ := token
    intro h
    cases due with
    | true =>
        cases kind <;> simp only [next?, Option.some.injEq, reduceCtorEq] at h
        case number value => exact h ▸ .number
        case minus => exact h ▸ .opener (.inl rfl)
        case opening => exact h ▸ .opener (.inr rfl)
    | false =>
        cases kind
        case closing =>
          cases levels with
          | nil => cases h
          | cons level levels => cases h; exact .closer
        case plus => cases h; exact .operator (show _ = Operator.token .add from rfl)
        case minus => cases h; exact .operator (show _ = Operator.token .sub from rfl)
        case star => cases h; exact .operator (show _ = Operator.token .mul from rfl)
        case slash => cases h; exact .operator (show _ = Operator.token .div from rfl)
        all_goals cases h
  · rintro (_ | hkind | _ | hkind)
    · rfl
    · rcases hkind with hkind | hkind <;> simp [next?, hkind]
    · rfl
    · next op => cases op <;> simp [next?, hkind, Operator.token]

theorem next?_opener {token : Token} (hkind : token.kind = .minus ∨ token.kind = .opening)
    (count : Nat) (levels : List Level) :
    next? ⟨count, true, levels⟩ token = some ⟨count + 1, true, ⟨count, token⟩ :: levels⟩ :=
  (next?_eq_some_iff ..).2 (.opener hkind)

theorem next?_operator {token : Token} {op : Operator} (hkind : token.kind = op.token)
    (count : Nat) (levels : List Level) :
    next? ⟨count, false, levels⟩ token = some ⟨count + 1, true, levels⟩ :=
  (next?_eq_some_iff ..).2 (.operator hkind)

@[simp] theorem read?_nil (o : Outlook) : o.read? [] = some o := rfl

theorem read?_cons (o : Outlook) (token : Token) (more : List Token) :
    o.read? (token :: more) = (o.next? token).bind fun o' => o'.read? more := by
  simp [read?]

theorem read?_append (o : Outlook) (tokens more : List Token) :
    o.read? (tokens ++ more) = (o.read? tokens).bind fun o' => o'.read? more := by
  simp [read?]

end Outlook

/-! ## From the grammar to the pass -/

theorem afterOperand_minus {level : Level} (hlevel : level.token.kind = .minus)
    (levels : List Level) : afterOperand (level :: levels) = afterOperand levels := by
  simp [afterOperand, hlevel]

theorem afterOperand_opening {level : Level} (hlevel : level.token.kind = .opening)
    (levels : List Level) : afterOperand (level :: levels) = level :: levels := by
  simp [afterOperand, hlevel]

@[simp] theorem afterOperand_afterOperand (levels : List Level) :
    afterOperand (afterOperand levels) = afterOperand levels :=
  List.dropWhile_idempotent _ _

theorem afterOperand_sublist (levels : List Level) : (afterOperand levels).Sublist levels :=
  List.dropWhile_sublist _

/-- A derived list is read to its end and completes what it opened. -/
theorem read?_of_derives {symbol : Symbol} {kinds : List Token.Kind} {tree : Expr} {depth : Nat}
    (h : Derives symbol kinds tree depth) {tokens : List Token}
    (htokens : tokens.map Token.kind = kinds) (count : Nat) (levels : List Level) :
    Outlook.read? ⟨count, true, levels⟩ tokens =
      some ⟨count + tokens.length, false, afterOperand levels⟩ := by
  induction h generalizing tokens count levels with
  | expression_term _ ih | term_factor _ ih | factor_primary _ ih => exact ih htokens count levels
  | @expression_chain op _ _ _ _ _ _ hop hleft hright ihleft ihright
  | @term_chain op _ _ _ _ _ _ hop hleft hright ihleft ihright =>
      obtain ⟨before, rest, rfl, hbefore, hrest⟩ := List.map_eq_append_iff.1 htokens
      obtain ⟨token, after, rfl, htoken, hafter⟩ := List.map_eq_cons_iff.1 hrest
      rw [Outlook.read?_append, ihleft hbefore, Option.bind_some, Outlook.read?_cons,
        Outlook.next?_operator htoken, Option.bind_some, ihright hafter, afterOperand_afterOperand,
        List.length_append, List.length_cons]
      congr 2
      omega
  | factor_neg hfactor ih =>
      obtain ⟨token, after, rfl, htoken, hafter⟩ := List.map_eq_cons_iff.1 htokens
      rw [Outlook.read?_cons, Outlook.next?_opener (.inl htoken), Option.bind_some, ih hafter,
        afterOperand_minus htoken, List.length_cons]
      congr 2
      omega
  | primary_number value =>
      obtain ⟨⟨kind, lexeme, start⟩, after, rfl, rfl, hafter⟩ := List.map_eq_cons_iff.1 htokens
      rw [List.map_eq_nil_iff.1 hafter]
      rfl
  | primary_group hexpression ih =>
      obtain ⟨token, rest, rfl, htoken, hrest⟩ := List.map_eq_cons_iff.1 htokens
      obtain ⟨inner, last, rfl, hinner, hlast⟩ := List.map_eq_append_iff.1 hrest
      obtain ⟨⟨kind, lexeme, start⟩, tail, rfl, rfl, htail⟩ := List.map_eq_cons_iff.1 hlast
      rw [List.map_eq_nil_iff.1 htail, Outlook.read?_cons, Outlook.next?_opener (.inr htoken),
        Option.bind_some, Outlook.read?_append, ih hinner, Option.bind_some,
        afterOperand_opening htoken, Outlook.read?_cons,
        (Outlook.next?_eq_some_iff _ _ _).2 .closer, Option.bind_some, Outlook.read?_nil,
        List.length_cons, List.length_append, List.length_singleton]
      congr 2
      omega

/-! ## From the pass to the grammar -/

/-- Tokens that any further factor turns into an expression. -/
def AwaitsFactor (tokens : List Token) : Prop :=
  ∀ operand : List Token, Is .factor (operand.map Token.kind) →
    Is .expression ((tokens ++ operand).map Token.kind)

/-- `Awaits levels tokens`: an operand is due after `tokens`, where `levels` are open. -/
inductive Awaits : List Level → List Token → Prop
  | base {tokens : List Token} (htokens : AwaitsFactor tokens) : Awaits [] tokens
  | minus {levels : List Level} {before : List Token} {token : Token}
      (hkind : token.kind = .minus) (hbefore : Awaits levels before) :
      Awaits (⟨before.length, token⟩ :: levels) (before ++ [token])
  | group {levels : List Level} {before inner : List Token} {token : Token}
      (hkind : token.kind = .opening) (hbefore : Awaits levels before)
      (hinner : AwaitsFactor inner) :
      Awaits (⟨before.length, token⟩ :: levels) (before ++ token :: inner)

/-- `Holds levels tokens`: an operand is complete after `tokens`, where `levels` are open. -/
inductive Holds : List Level → List Token → Prop
  | base {tokens : List Token} (htokens : Is .expression (tokens.map Token.kind)) :
      Holds [] tokens
  | group {levels : List Level} {before inner : List Token} {token : Token}
      (hkind : token.kind = .opening) (hbefore : Awaits levels before)
      (hinner : Is .expression (inner.map Token.kind)) :
      Holds (⟨before.length, token⟩ :: levels) (before ++ token :: inner)

theorem is_factor_neg {kinds : List Token.Kind} (h : Is .factor kinds) :
    Is .factor (.minus :: kinds) := by
  obtain ⟨tree, levels, hderives⟩ := h
  exact ⟨_, _, .factor_neg hderives⟩

theorem is_factor_number (value : Float) : Is .factor [.number value] :=
  ⟨_, _, .factor_primary (.primary_number value)⟩

theorem is_factor_group {kinds : List Token.Kind} (h : Is .expression kinds) :
    Is .factor (.opening :: kinds ++ [.closing]) := by
  obtain ⟨tree, levels, hderives⟩ := h
  exact ⟨_, _, .factor_primary (.primary_group hderives)⟩

theorem awaitsFactor_nil : AwaitsFactor [] := by
  rintro operand ⟨tree, levels, hderives⟩
  exact ⟨tree, levels, .expression_term (.term_factor hderives)⟩

theorem awaitsFactor_operator {tokens : List Token} {token : Token} {op : Operator}
    (h : Is .expression (tokens.map Token.kind)) (hkind : token.kind = op.token) :
    AwaitsFactor (tokens ++ [token]) := by
  rintro operand ⟨right, levels, hright⟩
  obtain ⟨tree, levels', hderives⟩ := h
  rw [List.map_append, List.map_append, List.map_singleton, hkind, List.append_assoc,
    List.singleton_append]
  generalize tokens.map Token.kind = kinds at hderives
  rcases op.sum_or_product with hop | hop
  · exact ⟨_, _, .expression_chain hop hderives (.term_factor hright)⟩
  · -- the operator belongs to the last member of the sum
    cases hderives with
    | expression_term hterm => exact ⟨_, _, .expression_term (.term_chain hop hterm hright)⟩
    | expression_chain hop' hleft hterm =>
        rw [List.append_assoc, List.cons_append]
        exact ⟨_, _, .expression_chain hop' hleft (.term_chain hop hterm hright)⟩

/-- A factor completes an operand and the unary minuses in front of it. -/
theorem Awaits.holds {levels : List Level} {tokens : List Token} (h : Awaits levels tokens)
    {operand : List Token} (hoperand : Is .factor (operand.map Token.kind)) :
    Holds (afterOperand levels) (tokens ++ operand) := by
  induction h generalizing operand with
  | base htokens => exact .base (htokens operand hoperand)
  | @minus levels before token hkind hbefore ih =>
      -- the minus and the factor are a factor again
      rw [afterOperand_minus hkind, List.append_assoc]
      exact ih (by simpa [hkind] using is_factor_neg hoperand)
  | group hkind hbefore hinner ih =>
      rw [afterOperand_opening hkind, List.append_assoc, List.cons_append]
      exact .group hkind hbefore (hinner operand hoperand)

namespace Outlook

/-- What an outlook says about the tokens read so far. -/
structure Fits (o : Outlook) (tokens : List Token) : Prop where
  count : o.count = tokens.length
  awaits : o.operandDue = true → Awaits o.levels tokens
  holds : o.operandDue = false → Holds o.levels tokens

theorem fits_start : start.Fits [] :=
  ⟨rfl, fun _ => .base awaitsFactor_nil, nofun⟩

theorem fits_step {o o' : Outlook} {tokens : List Token} {token : Token} (h : o.Fits tokens)
    (hstep : Step o token o') : o'.Fits (tokens ++ [token]) := by
  obtain ⟨hcount, hawaits, hholds⟩ := h
  cases hstep with
  | number =>
      refine ⟨by simpa using hcount, nofun, fun _ => ?_⟩
      exact (hawaits rfl).holds (is_factor_number _)
  | opener hkind =>
      dsimp only at hcount
      refine ⟨by simpa using hcount, fun _ => ?_, nofun⟩
      subst hcount
      rcases hkind with hkind | hkind
      · exact .minus hkind (hawaits rfl)
      · exact .group hkind (hawaits rfl) awaitsFactor_nil
  | closer =>
      refine ⟨by simpa using hcount, nofun, fun _ => ?_⟩
      cases hholds rfl with
      | group hkind hbefore hinner =>
          rw [List.append_assoc]
          exact hbefore.holds (by simpa [hkind] using is_factor_group hinner)
  | operator hkind =>
      refine ⟨by simpa using hcount, fun _ => ?_, nofun⟩
      cases hholds rfl with
      | base htokens => exact .base (awaitsFactor_operator htokens hkind)
      | group hkind' hbefore hinner =>
          rw [List.append_assoc, List.cons_append]
          exact .group hkind' hbefore (awaitsFactor_operator hinner hkind)

theorem fits_read {o o' : Outlook} {tokens more : List Token} (h : o.Fits tokens)
    (hread : o.read? more = some o') : o'.Fits (tokens ++ more) := by
  induction more generalizing o tokens with
  | nil =>
      cases hread
      simpa using h
  | cons token more ih =>
      rw [read?_cons, Option.bind_eq_some_iff] at hread
      obtain ⟨o₁, hnext, hread⟩ := hread
      have hfits := fits_step h ((next?_eq_some_iff _ _ _).1 hnext)
      simpa using ih hfits hread

end Outlook

/-- A list of kinds that can be continued to an expression. -/
def Viable (kinds : List Token.Kind) : Prop :=
  ∃ more, Is .expression (kinds ++ more)

theorem afterOperand_length_le (levels : List Level) :
    (afterOperand levels).length ≤ levels.length :=
  (List.dropWhile_sublist _).length_le

/-- The open groups can be closed one after the other. -/
theorem Holds.viable {levels : List Level} {tokens : List Token} (h : Holds levels tokens) :
    Viable (tokens.map Token.kind) := by
  cases h with
  | base htokens => exact ⟨[], by simpa using htokens⟩
  | @group levels before inner token hkind hbefore hinner =>
      have hclosed : Is .factor ((token :: inner ++ [Token.bare .closing]).map Token.kind) := by
        simpa [hkind] using is_factor_group hinner
      have hshorter := afterOperand_length_le levels
      obtain ⟨more, hmore⟩ := (hbefore.holds hclosed).viable
      exact ⟨.closing :: more, by simpa using hmore⟩
termination_by levels.length
decreasing_by
  simp only [List.length_cons]
  omega

namespace Outlook

theorem viable_of_read? {tokens : List Token} {o : Outlook} (h : start.read? tokens = some o) :
    Viable (tokens.map Token.kind) := by
  have hfits := fits_read fits_start h
  cases hdue : o.operandDue with
  | true =>
      have hnumber : Is .factor ([Token.bare (.number 0)].map Token.kind) :=
        is_factor_number 0
      obtain ⟨more, hmore⟩ := ((hfits.awaits hdue).holds hnumber).viable
      exact ⟨.number 0 :: more, by simpa using hmore⟩
  | false => exact (hfits.holds hdue).viable

theorem exists_read?_of_viable {tokens : List Token} (h : Viable (tokens.map Token.kind)) :
    ∃ o, start.read? tokens = some o := by
  obtain ⟨more, tree, levels, hderives⟩ := h
  have hkinds : (tokens ++ more.map Token.bare).map Token.kind =
      tokens.map Token.kind ++ more := by
    rw [List.map_append, Token.map_kind_map_bare]
  have hread := read?_of_derives hderives hkinds 0 []
  rw [read?_append, Option.bind_eq_some_iff] at hread
  obtain ⟨o, ho, -⟩ := hread
  exact ⟨o, ho⟩

theorem viable_iff (tokens : List Token) :
    Viable (tokens.map Token.kind) ↔ ∃ o, start.read? tokens = some o :=
  ⟨exists_read?_of_viable, fun ⟨_, h⟩ => viable_of_read? h⟩

/-- After a whole expression no operand is due and no level is open. -/
theorem is_expression_iff {tokens : List Token} {o : Outlook} (h : start.read? tokens = some o) :
    Is .expression (tokens.map Token.kind) ↔ o.operandDue = false ∧ o.levels = [] := by
  constructor
  · rintro ⟨tree, levels, hderives⟩
    cases h.symm.trans (read?_of_derives hderives rfl 0 [])
    exact ⟨rfl, rfl⟩
  · rintro ⟨hdue, hlevels⟩
    have hholds := (fits_read fits_start h).holds hdue
    rw [hlevels] at hholds
    cases hholds with
    | base htokens => exact htokens

end Outlook

end Calculator.Grammar
