import Calculator.Proofs.Grammar.Outlook
import Calculator.Proofs.Parse.Derivation

/-!
# The parser as one pass

The parser works through calls that call each other.  Which failure it comes to
is nevertheless decided by one pass over the tokens: `firstFault?` reads them
from left to right with an outlook and stops at the first token that does not
fit or that opens a level above the limit.

* `Reads.stops`, `Reads.stops_product`: a chain ends in front of a token that
  does not go on with it, so that a token is blamed only if it fits nowhere.
* `Reads.traced`: each call agrees with the pass.  What carries the induction is
  that the depth and the open groups of a reading are those of the open levels.
* `ofTokens_eq_error_iff`: the parser fails with the first fault of the pass.
-/

namespace Calculator.Parse

open Grammar (Level Outlook afterOperand afterOperand_opening afterOperand_length_le)

/-- The positions of the groups among some levels. -/
def openGroups (levels : List Level) : List Nat :=
  (levels.filter fun level => level.token.kind = .opening).map fun level => level.token.start

@[simp] theorem openGroups_nil : openGroups [] = [] := rfl

theorem openGroups_minus {level : Level} (hlevel : level.token.kind = .minus)
    (levels : List Level) : openGroups (level :: levels) = openGroups levels := by
  simp [openGroups, hlevel]

theorem openGroups_opening {level : Level} (hlevel : level.token.kind = .opening)
    (levels : List Level) :
    openGroups (level :: levels) = level.token.start :: openGroups levels := by
  simp [openGroups, hlevel]

/-- The failure at a token that does not fit. -/
def failureAt (o : Outlook) (token : Token) : Failure :=
  if token.kind = .closing ∧ openGroups o.levels = [] then .unbalanced token.start
  else unexpectedToken token

/-- The failure at the end of the tokens, if they are no whole expression. -/
def endFault? (frame : Frame) (o : Outlook) : Option Failure :=
  match openGroups o.levels with
  | opening :: _ => some (.unbalanced opening)
  | [] => if o.operandDue then some (.unexpected Failure.endOfInput frame.stop) else none

/-- The first fault of a list of tokens that is read in one pass from an outlook. -/
def firstFault? (frame : Frame) (o : Outlook) : List Token → Option Failure
  | [] => endFault? frame o
  | token :: more =>
      match o.next? token with
      | none => some (failureAt o token)
      | some o' =>
          if frame.maxDepth < o'.levels.length then some (.tooDeep frame.maxDepth token.start)
          else firstFault? frame o' more

theorem firstFault?_of_step {frame : Frame} {o o' : Outlook} {token : Token}
    (hstep : Outlook.Step o token o') (hlevels : o'.levels.length ≤ frame.maxDepth)
    (more : List Token) : firstFault? frame o (token :: more) = firstFault? frame o' more := by
  rw [firstFault?, (Outlook.next?_eq_some_iff _ _ _).2 hstep]
  exact if_neg (Nat.not_lt.2 hlevels)

theorem firstFault?_of_deep {frame : Frame} {o o' : Outlook} {token : Token}
    (hstep : Outlook.Step o token o') (hlevels : frame.maxDepth < o'.levels.length)
    (more : List Token) :
    firstFault? frame o (token :: more) = some (.tooDeep frame.maxDepth token.start) := by
  rw [firstFault?, (Outlook.next?_eq_some_iff _ _ _).2 hstep]
  exact if_pos hlevels

theorem firstFault?_of_none {o : Outlook} {token : Token} (hnext : o.next? token = none)
    (frame : Frame) (more : List Token) :
    firstFault? frame o (token :: more) = some (failureAt o token) := by
  rw [firstFault?, hnext]

/-! ## Where chains stop -/

/-- Whether the tokens ahead do not go on with a chain of a tier. -/
def Stops (tier : Tier) (reading : Reading) : Prop :=
  reading.ahead.head?.bind tier.operator? = none

theorem Reads.stops {frame : Frame} {call : Call} {reading rest : Reading} {tree : Expr}
    (h : Reads frame call reading (.parsed tree rest)) {tier : Tier}
    (hcall : call = .chain tier ∨ ∃ left, call = .chainFrom tier left) : Stops tier rest := by
  generalize hparsed : Outcome.parsed tree rest = outcome at h
  induction h generalizing tree rest with
  | chain hfirst hmore ih ih' =>
      obtain rfl : _ = tier := by simpa using hcall
      exact ih' (.inr ⟨_, rfl⟩) hparsed
  | chain_stop hstop =>
      obtain rfl : _ = tier := by simpa using hcall
      cases hparsed
      exact hstop
  | member hop hmember hmore ih ih' =>
      obtain rfl : _ = tier := by simpa using hcall
      exact ih' (.inr ⟨_, rfl⟩) hparsed
  | neg | operand | number | opened | closed => simp at hcall
  | _ => cases hparsed

/-- After a sum neither kind of chain goes on: the last product in it has stopped before. -/
theorem Reads.stops_product {frame : Frame} {call : Call} {reading rest : Reading} {tree : Expr}
    (h : Reads frame call reading (.parsed tree rest))
    (hcall : call = .chain .sum ∨
      (∃ left, call = .chainFrom .sum left) ∧ Stops .product reading) :
    Stops .product rest := by
  generalize hparsed : Outcome.parsed tree rest = outcome at h
  induction h generalizing tree rest with
  | @chain tier _ _ _ _ hfirst hmore ih ih' =>
      obtain rfl : tier = .sum := by simpa using hcall
      exact ih' (.inr ⟨⟨_, rfl⟩, hfirst.stops (.inl rfl)⟩) hparsed
  | @chain_stop tier _ _ hstop =>
      obtain ⟨-, hproduct⟩ : tier = .sum ∧ _ := by simpa using hcall
      cases hparsed
      exact hproduct
  | @member tier _ _ _ _ _ _ _ _ _ hop hmember hmore ih ih' =>
      obtain ⟨rfl, -⟩ : tier = .sum ∧ _ := by simpa using hcall
      exact ih' (.inr ⟨⟨_, rfl⟩, hmember.stops (.inl rfl)⟩) hparsed
  | neg | operand | number | opened | closed => simp at hcall
  | _ => cases hparsed

theorem kind_ne_of_stops {token : Token} {more : List Token} {depth : Nat}
    {groups : List Nat} (hsum : Stops .sum ⟨token :: more, depth, groups⟩)
    (hproduct : Stops .product ⟨token :: more, depth, groups⟩) (op : Operator) :
    token.kind ≠ op.token := by
  intro hkind
  rcases op.sum_or_product with hop | hop
  · have h := (Tier.sum.operator?_eq_some_iff token op).2 ⟨hkind, hop⟩
    cases hsum.symm.trans h
  · have h := (Tier.product.operator?_eq_some_iff token op).2 ⟨hkind, hop⟩
    cases hproduct.symm.trans h

/-! ## The parser follows the pass -/

namespace Call

/-- Whether a call starts where an operand is due. -/
def operandDue : Call → Bool
  | chainFrom _ _ => false
  | _ => true

/-- The levels that stay open after a call that started with some levels open. -/
def levelsAfter (levels : List Level) : Call → List Level
  | group _ => afterOperand levels.tail
  | _ => afterOperand levels

/-- Whether `levels` are open where a call starts with a reading. -/
def Meets (reading : Reading) (levels : List Level) : Call → Prop
  | chain _ | chainFrom _ _ =>
      afterOperand levels = levels ∧ reading.openGroups = openGroups levels
  | factor => reading.openGroups = openGroups levels
  | primary => (∀ token ∈ reading.ahead.head?, token.kind ≠ .minus) ∧
      reading.openGroups = openGroups levels
  | group opening => ∃ level outer, levels = level :: outer ∧ level.token.kind = .opening ∧
      level.token.start = opening ∧ reading.openGroups = openGroups outer

end Call

/-- What the pass from an outlook finds, where a call comes to an outcome: the same failure, or
whatever it finds after the call. -/
def Outcome.Traced (frame : Frame) (fault : Option Failure) (levels : List Level) :
    Outcome → Prop
  | failed failure _ => fault = some failure
  | parsed _ rest => ∃ count, fault = firstFault? frame ⟨count, false, levels⟩ rest.ahead

theorem Call.meets_member {tier : Tier} {reading : Reading} {levels : List Level}
    (h : (Call.chain tier).Meets reading levels) : tier.member.Meets reading levels := by
  cases tier with
  | sum => exact h
  | product => exact h.2

theorem Call.meets_inner {level : Level} (hkind : level.token.kind = .opening) {outer : List Level}
    {groups : List Nat} (hgroups : groups = openGroups outer) (ahead : List Token) (depth : Nat) :
    (Call.chain .sum).Meets ⟨ahead, depth, level.token.start :: groups⟩ (level :: outer) :=
  ⟨afterOperand_opening hkind outer, by rw [openGroups_opening hkind, hgroups]⟩

theorem Call.operandDue_member (tier : Tier) : tier.member.operandDue = true := by
  cases tier <;> rfl

theorem Call.levelsAfter_member (tier : Tier) (levels : List Level) :
    tier.member.levelsAfter levels = afterOperand levels := by
  cases tier <;> rfl

theorem Call.levelsAfter_inner {level : Level} (hkind : level.token.kind = .opening)
    (outer : List Level) : (Call.chain .sum).levelsAfter (level :: outer) = level :: outer :=
  afterOperand_opening hkind outer

theorem endFault?_eq_unexpectedEnd (frame : Frame) (count depth : Nat) (levels : List Level) :
    endFault? frame ⟨count, true, levels⟩ =
      some (unexpectedEnd frame ⟨[], depth, openGroups levels⟩) := by
  cases hgroups : openGroups levels <;> simp [endFault?, unexpectedEnd, hgroups]

theorem next?_eq_none_of_due {token : Token} (hnumber : ∀ value, token.kind ≠ .number value)
    (hopening : token.kind ≠ .opening) (hminus : token.kind ≠ .minus) (count : Nat)
    (levels : List Level) : Outlook.next? ⟨count, true, levels⟩ token = none := by
  rw [Option.eq_none_iff_forall_ne_some]
  intro o hnext
  rcases (Outlook.next?_eq_some_iff _ _ _).1 hnext with _ | hkind
  · exact hnumber _ rfl
  · rcases hkind with hkind | hkind
    · exact hminus hkind
    · exact hopening hkind

theorem next?_eq_none_of_not_due {token : Token} (hop : ∀ op : Operator, token.kind ≠ op.token)
    (count : Nat) (levels : List Level) (hclosing : token.kind = .closing → levels = []) :
    Outlook.next? ⟨count, false, levels⟩ token = none := by
  rw [Option.eq_none_iff_forall_ne_some]
  intro o hnext
  rcases (Outlook.next?_eq_some_iff _ _ _).1 hnext with _ | _ | _ | hkind
  · cases hclosing rfl
  · exact hop _ hkind

/-- Each call fails where the pass fails, or it ends where the pass has completed its operand. -/
theorem Reads.traced {frame : Frame} {call : Call} {reading : Reading} {outcome : Outcome}
    (h : Reads frame call reading outcome) (count : Nat) (levels : List Level)
    (hdepth : reading.depth = levels.length) (hlevels : levels.length ≤ frame.maxDepth)
    (hmeets : call.Meets reading levels) :
    outcome.Traced frame (firstFault? frame ⟨count, call.operandDue, levels⟩ reading.ahead)
      (call.levelsAfter levels) := by
  -- where a call ends without a tree, the pass has stopped at the same token; where it ends with
  -- one, `Reads.restores` makes the reading fit the levels again
  induction h generalizing count levels with
  | @chain_failed tier _ _ _ hfirst ih =>
      have hmember := ih count levels hdepth hlevels (Call.meets_member hmeets)
      rw [Call.operandDue_member] at hmember
      exact hmember
  | @chain tier reading rest first outcome hfirst hmore ih ih' =>
      obtain ⟨hafter, hgroups⟩ := hmeets
      obtain ⟨hdepth', hgroups'⟩ := hfirst.restores
      obtain ⟨count', hfault⟩ := ih count levels hdepth hlevels
        (Call.meets_member ⟨hafter, hgroups⟩)
      rw [Call.operandDue_member, Call.levelsAfter_member, hafter] at hfault
      have hrest := ih' count' levels (hdepth'.trans hdepth) hlevels
        ⟨hafter, hgroups'.trans hgroups⟩
      rw [show (Call.chain tier).operandDue = true from rfl, hfault]
      exact hrest
  | chain_stop hstop =>
      refine ⟨count, ?_⟩
      rw [show Call.levelsAfter levels (.chainFrom _ _) = afterOperand levels from rfl, hmeets.1]
      rfl
  | @member_failed tier left token more depth groups op failure rest hop hmember ih =>
      have hkind := ((tier.operator?_eq_some_iff token op).1 hop).1
      have hfault := ih (count + 1) levels hdepth hlevels (Call.meets_member hmeets)
      rw [Call.operandDue_member] at hfault
      rw [show (Call.chainFrom tier left).operandDue = false from rfl,
        firstFault?_of_step (.operator hkind) hlevels]
      exact hfault
  | @member tier left right token more depth groups op rest outcome hop hmember hmore ih ih' =>
      obtain ⟨hafter, hgroups⟩ := hmeets
      have hkind := ((tier.operator?_eq_some_iff token op).1 hop).1
      obtain ⟨hdepth', hgroups'⟩ := hmember.restores
      obtain ⟨count', hfault⟩ := ih (count + 1) levels hdepth hlevels
        (Call.meets_member ⟨hafter, hgroups⟩)
      rw [Call.operandDue_member, Call.levelsAfter_member, hafter] at hfault
      have hrest := ih' count' levels (hdepth'.trans hdepth) hlevels
        ⟨hafter, hgroups'.trans hgroups⟩
      rw [show (Call.chainFrom tier left).operandDue = false from rfl,
        firstFault?_of_step (.operator hkind) hlevels, hfault]
      exact hrest
  | neg hlimit hoperand ih | neg_failed hlimit hoperand ih =>
      dsimp only at hdepth
      have hdeeper : levels.length + 1 ≤ frame.maxDepth := hdepth ▸ hlimit
      -- the level of the minus is among those that `afterOperand` leaves out at the end
      rw [show Call.operandDue .factor = true from rfl,
        firstFault?_of_step (.opener (.inl rfl)) hdeeper]
      exact ih (count + 1) (_ :: levels) (congrArg (· + 1) hdepth) hdeeper
        (hmeets.trans (openGroups_minus rfl levels).symm)
  | neg_tooDeep hlimit =>
      dsimp only at hdepth
      exact firstFault?_of_deep (.opener (.inl rfl)) (by rw [List.length_cons]; omega) _
  | operand hhead hprimary ih => exact ih count levels hdepth hlevels ⟨hhead, hmeets⟩
  | ended =>
      have hgroups := hmeets.2
      dsimp only at hgroups
      subst hgroups
      exact endFault?_eq_unexpectedEnd frame count _ levels
  | number => exact ⟨count + 1, firstFault?_of_step .number
      ((afterOperand_length_le levels).trans hlevels) _⟩
  | opened hlimit hgroup ih | opened_failed hlimit hgroup ih =>
      dsimp only at hdepth
      have hdeeper : levels.length + 1 ≤ frame.maxDepth := hdepth ▸ hlimit
      rw [show Call.operandDue .primary = true from rfl,
        firstFault?_of_step (.opener (.inr rfl)) hdeeper]
      exact ih (count + 1) (_ :: levels) (congrArg (· + 1) hdepth) hdeeper
        ⟨_, _, rfl, rfl, rfl, hmeets.2⟩
  | opened_tooDeep hlimit =>
      dsimp only at hdepth
      exact firstFault?_of_deep (.opener (.inr rfl)) (by rw [List.length_cons]; omega) _
  | @stray lexeme start more depth =>
      have hgroups : [] = openGroups levels := hmeets.2
      have hnone : Outlook.next? ⟨count, true, levels⟩ ⟨.closing, lexeme, start⟩ = none := rfl
      refine (firstFault?_of_none hnone frame more).trans ?_
      rw [failureAt, if_pos ⟨rfl, hgroups.symm⟩]
  | misfit hnumber hopening hclosing =>
      obtain ⟨hminus, hgroups⟩ := hmeets
      have hnone := next?_eq_none_of_due hnumber hopening (hminus _ rfl) count levels
      refine (firstFault?_of_none hnone frame _).trans ?_
      rw [failureAt, if_neg]
      rintro ⟨hkind, hempty⟩
      exact hclosing hkind (hgroups.trans hempty)
  | group_failed hinner ih =>
      obtain ⟨level, outer, rfl, hkind, rfl, hgroups⟩ := hmeets
      exact ih count (level :: outer) hdepth hlevels (Call.meets_inner hkind hgroups _ _)
  | unclosed hinner ih =>
      -- the tokens end inside the group, so that it is the innermost one
      obtain ⟨level, outer, rfl, hkind, rfl, hgroups⟩ := hmeets
      obtain ⟨count', hfault⟩ := ih count (level :: outer) hdepth hlevels
        (Call.meets_inner hkind hgroups _ _)
      refine hfault.trans ?_
      rw [Call.levelsAfter_inner hkind, firstFault?, endFault?, openGroups_opening hkind]
  | @closed _ _ more _ _ _ _ _ lexeme start hinner ih =>
      obtain ⟨level, outer, rfl, hkind, rfl, hgroups⟩ := hmeets
      obtain ⟨count', hfault⟩ := ih count (level :: outer) hdepth hlevels
        (Call.meets_inner hkind hgroups _ _)
      have hshorter : (afterOperand outer).length ≤ frame.maxDepth :=
        (afterOperand_length_le outer).trans (Nat.le_of_succ_le hlevels)
      refine ⟨count' + 1, hfault.trans ?_⟩
      rw [Call.levelsAfter_inner hkind]
      exact firstFault?_of_step .closer hshorter more
  | @notClosed _ _ more _ _ _ _ _ token hinner hclosing ih =>
      obtain ⟨level, outer, rfl, hkind, rfl, hgroups⟩ := hmeets
      obtain ⟨count', hfault⟩ := ih count (level :: outer) hdepth hlevels
        (Call.meets_inner hkind hgroups _ _)
      -- both chains have stopped at the token, so that it is no operator
      have hop := kind_ne_of_stops (hinner.stops (.inl rfl))
        (hinner.stops_product (.inl rfl))
      have hnone := next?_eq_none_of_not_due hop count'
        (Call.levelsAfter (level :: outer) (.chain .sum)) fun h => absurd h hclosing
      refine hfault.trans ((firstFault?_of_none hnone frame more).trans ?_)
      rw [failureAt, if_neg fun h => hclosing h.1]

/-! ## Whole lists of tokens -/

theorem Reads.verdict_eq_error_iff {frame : Frame} {tokens : List Token} {outcome : Outcome}
    (h : Reads frame (.chain .sum) ⟨tokens, 0, []⟩ outcome) (failure : Failure) :
    outcome.verdict = .error failure ↔ firstFault? frame .start tokens = some failure := by
  have htraced : outcome.Traced frame (firstFault? frame .start tokens) [] :=
    h.traced 0 [] rfl (Nat.zero_le _) ⟨rfl, rfl⟩
  match outcome, h, htraced with
  | .failed failure' rest, h, htraced =>
      rw [show firstFault? frame .start tokens = some failure' from htraced]
      simp [Outcome.verdict]
  | .parsed tree ⟨[], depth, groups⟩, h, htraced =>
      obtain ⟨count, hfault⟩ := htraced
      rw [hfault]
      simp [Outcome.verdict, firstFault?, endFault?]
  | .parsed tree ⟨token :: more, depth, groups⟩, h, htraced =>
      obtain ⟨count, hfault⟩ := htraced
      have hop := kind_ne_of_stops (h.stops (.inl rfl)) (h.stops_product (.inl rfl))
      have hnone := next?_eq_none_of_not_due hop count [] fun _ => rfl
      rw [hfault, firstFault?_of_none hnone]
      obtain ⟨kind, lexeme, start⟩ := token
      cases kind <;> simp [Outcome.verdict, failureAt]

/-- The parser fails with the first fault that one pass over the tokens meets. -/
theorem ofTokens_eq_error_iff {tokens : List Token} (htokens : tokens ≠ []) (maxDepth stop : Nat)
    (failure : Failure) :
    Expr.ofTokens maxDepth stop tokens = .error failure ↔
      firstFault? ⟨maxDepth, stop⟩ .start tokens = some failure := by
  have hreads := reads_expression ⟨maxDepth, stop⟩ ⟨tokens, 0, []⟩ (Nat.le_refl _)
  rw [ofTokens_of_reads htokens hreads]
  exact hreads.verdict_eq_error_iff failure

end Calculator.Parse
