import Mathlib.Order.Nat
import Mathlib.Order.SuccPred.Archimedean
import Calculator.Evaluate
import Calculator.Proofs.Grammar.Levels
import Calculator.Proofs.Parse.OnePass

/-!
# Which token is blamed

A list of tokens that is no expression within the limit has one failure, and
the grammar alone says which one: the tokens are read up to the first one that
makes it impossible to go on, or that opens a level above the limit.  Where no
token does so, the tokens end too early.

`Blamed` says this in terms of the prefixes that can be continued
(`Grammar.Viable`) and of the levels open in them (`Grammar.openLevels`), and
`ofTokens_eq_error_iff_blamed` that the parser reports this failure.
-/

namespace Calculator.Parse

open Grammar (Is Level Opens Outlook StillOpen Viable openLevels)

/-- The token at `index` opens a level above the limit. -/
def TooDeepAt (maxDepth : Nat) (kinds : List Token.Kind) (index : Nat) : Prop :=
  Opens kinds index ∧ maxDepth < openLevels (kinds.take (index + 1))

/-- The tokens up to the one at `index` cannot be continued to an expression. -/
def StuckAt (kinds : List Token.Kind) (index : Nat) : Prop :=
  index < kinds.length ∧ ¬ Viable (kinds.take (index + 1))

/-- A reading from left to right comes no further than to the token at `index`. -/
def FaultAt (maxDepth : Nat) (kinds : List Token.Kind) (index : Nat) : Prop :=
  StuckAt kinds index ∨ TooDeepAt maxDepth kinds index

/-- The parenthesis at `index` opens a group that is not closed. -/
def OpenGroup (kinds : List Token.Kind) (index : Nat) : Prop :=
  kinds[index]? = some .opening ∧ StillOpen kinds index

/-- `Blamed maxDepth stop tokens failure`: the failure of a list of tokens from a
text with `stop` characters. -/
inductive Blamed (maxDepth stop : Nat) (tokens : List Token) : Failure → Prop
  | empty (htokens : tokens = []) : Blamed maxDepth stop tokens .emptyExpression
  | tooDeep {index : Nat} {token : Token}
      (hfirst : IsLeast {i | FaultAt maxDepth (tokens.map Token.kind) i} index)
      (htoken : tokens[index]? = some token)
      (hdeep : TooDeepAt maxDepth (tokens.map Token.kind) index) :
      Blamed maxDepth stop tokens (.tooDeep maxDepth token.start)
  | stray {index : Nat} {token : Token}
      (hfirst : IsLeast {i | FaultAt maxDepth (tokens.map Token.kind) i} index)
      (htoken : tokens[index]? = some token) (hstuck : StuckAt (tokens.map Token.kind) index)
      (hclosing : token.kind = .closing)
      (hgroup : ∀ i, ¬ OpenGroup ((tokens.take index).map Token.kind) i) :
      Blamed maxDepth stop tokens (.unbalanced token.start)
  | misfit {index : Nat} {token : Token}
      (hfirst : IsLeast {i | FaultAt maxDepth (tokens.map Token.kind) i} index)
      (htoken : tokens[index]? = some token) (hstuck : StuckAt (tokens.map Token.kind) index)
      (hother : token.kind = .closing → ∃ i, OpenGroup ((tokens.take index).map Token.kind) i) :
      Blamed maxDepth stop tokens
        (.unexpected ("'" ++ String.ofList token.lexeme ++ "'") token.start)
  | unclosed {index : Nat} {token : Token}
      (hfirst : ∀ i, ¬ FaultAt maxDepth (tokens.map Token.kind) i)
      (htoken : tokens[index]? = some token)
      (hgroup : IsGreatest {i | OpenGroup (tokens.map Token.kind) i} index) :
      Blamed maxDepth stop tokens (.unbalanced token.start)
  | ended (hfirst : ∀ i, ¬ FaultAt maxDepth (tokens.map Token.kind) i)
      (htokens : tokens ≠ []) (hgroup : ∀ i, ¬ OpenGroup (tokens.map Token.kind) i)
      (hexpression : ¬ Is .expression (tokens.map Token.kind)) :
      Blamed maxDepth stop tokens (.unexpected "end of input" stop)

/-! ## Open groups -/

section Reading

variable {tokens : List Token} {o : Outlook}

theorem openGroup_iff (hread : Outlook.start.read? tokens = some o) (index : Nat) :
    OpenGroup (tokens.map Token.kind) index ↔
      ∃ level ∈ o.levels, level.token.kind = .opening ∧ level.index = index := by
  have htracks : o.Tracks tokens := Outlook.tracks_read Outlook.tracks_start hread
  rw [OpenGroup, Outlook.stillOpen_iff hread]
  constructor
  · rintro ⟨hkind, level, hlevel, rfl⟩
    rw [List.getElem?_map, (htracks.placed level hlevel).1] at hkind
    exact ⟨level, hlevel, Option.some.inj hkind, rfl⟩
  · rintro ⟨level, hlevel, hkind, rfl⟩
    rw [List.getElem?_map, (htracks.placed level hlevel).1]
    exact ⟨congrArg some hkind, level, hlevel, rfl⟩

theorem openGroups_eq_nil_iff (hread : Outlook.start.read? tokens = some o) :
    openGroups o.levels = [] ↔ ∀ index, ¬ OpenGroup (tokens.map Token.kind) index := by
  simp only [openGroups, openGroup_iff hread, List.map_eq_nil_iff, List.filter_eq_nil_iff,
    decide_eq_true_eq]
  constructor
  · rintro hnone index ⟨level, hlevel, hkind, -⟩
    exact hnone level hlevel hkind
  · exact fun hnone level hlevel hkind => hnone level.index ⟨level, hlevel, hkind, rfl⟩

/-- The innermost open group is the last one. -/
theorem openGroups_eq_cons (hread : Outlook.start.read? tokens = some o) {index : Nat}
    (hgroup : IsGreatest {i | OpenGroup (tokens.map Token.kind) i} index) {token : Token}
    (htoken : tokens[index]? = some token) :
    ∃ outer, openGroups o.levels = token.start :: outer := by
  have htracks : o.Tracks tokens := Outlook.tracks_read Outlook.tracks_start hread
  obtain ⟨level, hlevel, hkind, rfl⟩ := (openGroup_iff hread _).1 hgroup.1
  rw [(htracks.placed level hlevel).1, Option.some.injEq] at htoken
  subst htoken
  have hsorted := htracks.sorted.filter fun level => decide (level.token.kind = .opening)
  have hmem : level ∈ o.levels.filter fun level => decide (level.token.kind = .opening) := by
    simp [hlevel, hkind]
  rw [openGroups]
  cases hgroups : o.levels.filter fun level => decide (level.token.kind = .opening) with
  | nil => simp [hgroups] at hmem
  | cons inner outer =>
      -- the levels are sorted, so that no other group lies behind the first one
      rw [hgroups] at hsorted hmem
      obtain ⟨hinner, hinnerKind⟩ := List.mem_filter.1 (hgroups ▸ List.mem_cons_self)
      have hle : inner.index ≤ level.index :=
        hgroup.2 ((openGroup_iff hread _).2 ⟨inner, hinner, of_decide_eq_true hinnerKind, rfl⟩)
      rcases List.mem_cons.1 hmem with rfl | hmem
      · exact ⟨_, rfl⟩
      · have hlt := (List.pairwise_cons.1 hsorted).1 level hmem
        omega

/-! ## Faults and the pass -/

variable {token : Token}

theorem viable_take_iff (hread : Outlook.start.read? tokens = some o) (more : List Token) :
    Viable (((tokens ++ token :: more).map Token.kind).take (tokens.length + 1)) ↔
      ∃ o', Outlook.Step o token o' := by
  have htake : (tokens ++ token :: more).take (tokens.length + 1) = tokens ++ [token] := by
    simp [List.take_append]
  rw [← List.map_take, htake, Outlook.viable_iff]
  simp [Outlook.read?_append, hread, Outlook.read?_cons, ← Outlook.next?_eq_some_iff]

theorem stuckAt_iff (hread : Outlook.start.read? tokens = some o) (more : List Token) :
    StuckAt ((tokens ++ token :: more).map Token.kind) tokens.length ↔ o.next? token = none := by
  rw [StuckAt, viable_take_iff hread, Option.eq_none_iff_forall_ne_some]
  simp [← Outlook.next?_eq_some_iff]

theorem tooDeepAt_iff (hread : Outlook.start.read? tokens = some o) {maxDepth : Nat}
    (hlevels : o.levels.length ≤ maxDepth) (more : List Token) :
    TooDeepAt maxDepth ((tokens ++ token :: more).map Token.kind) tokens.length ↔
      ∃ o', Outlook.Step o token o' ∧ maxDepth < o'.levels.length := by
  have htake : (tokens ++ token :: more).take (tokens.length + 1) = tokens ++ [token] := by
    simp [List.take_append]
  have hdue : o.operandDue = Grammar.isOperandDue (tokens.map Token.kind) :=
    (Outlook.tracks_read Outlook.tracks_start hread : o.Tracks tokens).due
  have hread' {o' : Outlook} (hstep : Outlook.Step o token o') :
      Outlook.start.read? (tokens ++ [token]) = some o' := by
    simp [Outlook.read?_append, hread, Outlook.read?_cons,
      (Outlook.next?_eq_some_iff _ _ _).2 hstep]
  have hopens : Opens ((tokens ++ token :: more).map Token.kind) tokens.length ↔
      o.operandDue = true ∧ (token.kind = .minus ∨ token.kind = .opening) := by
    simp [Opens, hdue]
  rw [TooDeepAt, ← List.map_take, htake, hopens]
  constructor
  · rintro ⟨⟨hdue', hkind⟩, hdeep⟩
    obtain ⟨count, due, levels⟩ := o
    cases hdue'
    have hstep : Outlook.Step ⟨count, true, levels⟩ token _ := .opener hkind
    exact ⟨_, hstep, by rwa [Outlook.openLevels_eq_length (hread' hstep)] at hdeep⟩
  · rintro ⟨o', hstep, hdeep⟩
    rw [Outlook.openLevels_eq_length (hread' hstep)]
    -- only a token that opens a level can exceed a limit that was kept before it
    rcases hstep.levels with hsublist | ⟨hdue', hkind, -⟩
    · have := hsublist.length_le
      omega
    · exact ⟨⟨hdue', hkind⟩, hdeep⟩

end Reading

/-- Up to the first fault the pass reads on. -/
theorem exists_read?_of_no_fault {frame : Frame} {before after : List Token}
    (hfirst : ∀ i < before.length,
      ¬ FaultAt frame.maxDepth ((before ++ after).map Token.kind) i) :
    ∃ o, Outlook.start.read? before = some o ∧ o.levels.length ≤ frame.maxDepth ∧
      firstFault? frame .start (before ++ after) = firstFault? frame o after := by
  induction before using List.reverseRecOn generalizing after with
  | nil => exact ⟨.start, rfl, Nat.zero_le _, rfl⟩
  | append_singleton before token ih =>
      rw [List.append_assoc, List.singleton_append] at hfirst ⊢
      simp only [List.length_append, List.length_singleton] at hfirst
      obtain ⟨o, hread, hlevels, hfault⟩ := ih fun i hi => hfirst i (by omega)
      have hhere := hfirst before.length (by omega)
      rw [FaultAt, stuckAt_iff hread, tooDeepAt_iff hread hlevels, not_or] at hhere
      obtain ⟨o', hnext⟩ := Option.ne_none_iff_exists'.1 hhere.1
      have hstep := (Outlook.next?_eq_some_iff _ _ _).1 hnext
      have hlevels' : o'.levels.length ≤ frame.maxDepth :=
        Nat.le_of_not_lt fun hdeep => hhere.2 ⟨o', hstep, hdeep⟩
      refine ⟨o', ?_, hlevels', ?_⟩
      · rw [Outlook.read?_append, hread, Option.bind_some, Outlook.read?_cons, hnext]
        rfl
      · rw [hfault, firstFault?_of_step hstep hlevels']

/-! ## The failure of a list of tokens -/

theorem FaultAt.lt_length {maxDepth : Nat} {kinds : List Token.Kind} {index : Nat}
    (h : FaultAt maxDepth kinds index) : index < kinds.length := by
  rcases h with h | ⟨⟨-, h | h⟩, -⟩
  · exact h.1
  · exact (List.getElem?_eq_some_iff.1 h).1
  · exact (List.getElem?_eq_some_iff.1 h).1

/-- The tokens before the first fault, and what the pass makes of the others. -/
theorem exists_read?_of_isLeast {frame : Frame} {tokens : List Token} {index : Nat} {token : Token}
    (hfirst : IsLeast {i | FaultAt frame.maxDepth (tokens.map Token.kind) i} index)
    (htoken : tokens[index]? = some token) :
    ∃ before more o, tokens = before ++ token :: more ∧ before = tokens.take index ∧
      before.length = index ∧ Outlook.start.read? before = some o ∧
      o.levels.length ≤ frame.maxDepth ∧
      firstFault? frame .start tokens = firstFault? frame o (token :: more) := by
  obtain ⟨hindex, rfl⟩ := List.getElem?_eq_some_iff.1 htoken
  have hsplit : tokens.take index ++ tokens[index] :: tokens.drop (index + 1) = tokens := by
    rw [List.cons_getElem_drop_succ, List.take_append_drop]
  have hlength : (tokens.take index).length = index := List.length_take_of_le (Nat.le_of_lt hindex)
  have hbefore : ∀ i < (tokens.take index).length, ¬ FaultAt frame.maxDepth
      ((tokens.take index ++ tokens[index] :: tokens.drop (index + 1)).map Token.kind) i := by
    rw [hsplit, hlength]
    exact fun i hi hfault => Nat.not_lt.2 (hfirst.2 hfault) hi
  obtain ⟨o, hread, hlevels, hfault⟩ := exists_read?_of_no_fault hbefore
  rw [hsplit] at hfault
  exact ⟨_, _, o, hsplit.symm, rfl, hlength, hread, hlevels, hfault⟩

theorem exists_read?_of_forall {frame : Frame} {tokens : List Token}
    (hfirst : ∀ i, ¬ FaultAt frame.maxDepth (tokens.map Token.kind) i) :
    ∃ o, Outlook.start.read? tokens = some o ∧
      firstFault? frame .start tokens = endFault? frame o := by
  rw [← List.append_nil tokens] at hfirst
  obtain ⟨o, hread, -, hfault⟩ := exists_read?_of_no_fault fun i _ => hfirst i
  rw [List.append_nil] at hfault
  exact ⟨o, hread, hfault⟩

/-- Where an operand is complete and no group is open, nothing is open. -/
theorem is_expression_of_openGroups {tokens : List Token} {o : Outlook}
    (hread : Outlook.start.read? tokens = some o) (hdue : o.operandDue = false)
    (hgroups : openGroups o.levels = []) : Is .expression (tokens.map Token.kind) := by
  have hholds := (Outlook.fits_read Outlook.fits_start hread).holds hdue
  cases hlevels : o.levels with
  | nil => exact (Outlook.is_expression_iff hread).2 ⟨hdue, hlevels⟩
  | cons level outer =>
      rw [hlevels] at hholds hgroups
      cases hholds with
      | group hkind => cases (openGroups_opening hkind _).symm.trans hgroups

theorem Blamed.firstFault?_eq {frame : Frame} {tokens : List Token} {failure : Failure}
    (htokens : tokens ≠ []) (h : Blamed frame.maxDepth frame.stop tokens failure) :
    firstFault? frame .start tokens = some failure := by
  cases h with
  | empty hempty => exact absurd hempty htokens
  | @tooDeep index token hfirst htoken hdeep =>
      obtain ⟨before, more, o, rfl, -, rfl, hread, hlevels, hfault⟩ :=
        exists_read?_of_isLeast hfirst htoken
      obtain ⟨o', hstep, hdeep⟩ := (tooDeepAt_iff hread hlevels more).1 hdeep
      rw [hfault, firstFault?_of_deep hstep hdeep]
  | @stray index token hfirst htoken hstuck hclosing hgroup =>
      obtain ⟨before, more, o, rfl, hbefore, rfl, hread, hlevels, hfault⟩ :=
        exists_read?_of_isLeast hfirst htoken
      rw [← hbefore] at hgroup
      have hgroups := (openGroups_eq_nil_iff hread).2 hgroup
      rw [hfault, firstFault?_of_none ((stuckAt_iff hread more).1 hstuck), failureAt,
        if_pos ⟨hclosing, hgroups⟩]
  | @misfit index token hfirst htoken hstuck hother =>
      obtain ⟨before, more, o, rfl, hbefore, rfl, hread, hlevels, hfault⟩ :=
        exists_read?_of_isLeast hfirst htoken
      rw [← hbefore] at hother
      rw [hfault, firstFault?_of_none ((stuckAt_iff hread more).1 hstuck), failureAt, if_neg]
      · rfl
      · rintro ⟨hclosing, hgroups⟩
        obtain ⟨i, hopen⟩ := hother hclosing
        exact (openGroups_eq_nil_iff hread).1 hgroups i hopen
  | unclosed hfirst htoken hgroup =>
      obtain ⟨o, hread, hfault⟩ := exists_read?_of_forall hfirst
      obtain ⟨outer, hgroups⟩ := openGroups_eq_cons hread hgroup htoken
      rw [hfault, endFault?, hgroups]
  | ended hfirst _ hgroup hexpression =>
      obtain ⟨o, hread, hfault⟩ := exists_read?_of_forall hfirst
      have hgroups := (openGroups_eq_nil_iff hread).2 hgroup
      have hdue : o.operandDue = true := by
        by_contra hdue
        rw [Bool.not_eq_true] at hdue
        exact hexpression (is_expression_of_openGroups hread hdue hgroups)
      rw [hfault, endFault?, hgroups, hdue]
      rfl

theorem exists_isGreatest_openGroup {kinds : List Token.Kind} (h : ∃ i, OpenGroup kinds i) :
    ∃ index, IsGreatest {i | OpenGroup kinds i} index := by
  refine BddAbove.exists_isGreatest_of_nonempty ⟨kinds.length, ?_⟩ h
  rintro i ⟨hkind, -⟩
  exact Nat.le_of_lt (List.getElem?_eq_some_iff.1 hkind).1

/-- A list of tokens without a failure is an expression within the limit. -/
theorem exists_blamed_or (maxDepth stop : Nat) {tokens : List Token} (htokens : tokens ≠ []) :
    (∃ failure, Blamed maxDepth stop tokens failure) ∨
      (∀ i, ¬ FaultAt maxDepth (tokens.map Token.kind) i) ∧
        Is .expression (tokens.map Token.kind) := by
  classical
  by_cases hfault : ∃ i, FaultAt maxDepth (tokens.map Token.kind) i
  · have hfirst := Nat.isLeast_find hfault
    have hindex : Nat.find hfault < tokens.length := by
      simpa using (Nat.find_spec hfault).lt_length
    have htoken := List.getElem?_eq_getElem hindex
    left
    rcases hfirst.1 with hstuck | hdeep
    · by_cases hstray : tokens[Nat.find hfault].kind = .closing ∧
          ∀ i, ¬ OpenGroup ((tokens.take (Nat.find hfault)).map Token.kind) i
      · exact ⟨_, .stray hfirst htoken hstuck hstray.1 hstray.2⟩
      · refine ⟨_, .misfit hfirst htoken hstuck fun hclosing => ?_⟩
        by_contra hnone
        exact hstray ⟨hclosing, not_exists.1 hnone⟩
    · exact ⟨_, .tooDeep hfirst htoken hdeep⟩
  · have hnone := not_exists.1 hfault
    by_cases hgroup : ∃ i, OpenGroup (tokens.map Token.kind) i
    · obtain ⟨index, hgreatest⟩ := exists_isGreatest_openGroup hgroup
      have hindex : index < tokens.length := by
        simpa using (List.getElem?_eq_some_iff.1 hgreatest.1.1).1
      exact .inl ⟨_, .unclosed hnone (List.getElem?_eq_getElem hindex) hgreatest⟩
    · by_cases hexpression : Is .expression (tokens.map Token.kind)
      · exact .inr ⟨hnone, hexpression⟩
      · exact .inl ⟨_, .ended hnone htokens (not_exists.1 hgroup) hexpression⟩

theorem firstFault?_eq_none {frame : Frame} {tokens : List Token}
    (hfirst : ∀ i, ¬ FaultAt frame.maxDepth (tokens.map Token.kind) i)
    (hexpression : Is .expression (tokens.map Token.kind)) :
    firstFault? frame .start tokens = none := by
  obtain ⟨o, hread, hfault⟩ := exists_read?_of_forall hfirst
  obtain ⟨hdue, hlevels⟩ := (Outlook.is_expression_iff hread).1 hexpression
  rw [hfault, endFault?, hlevels, openGroups_nil, hdue]
  rfl

theorem firstFault?_eq_some_iff {frame : Frame} {tokens : List Token} (htokens : tokens ≠ [])
    (failure : Failure) :
    firstFault? frame .start tokens = some failure ↔
      Blamed frame.maxDepth frame.stop tokens failure := by
  constructor
  · intro hfault
    rcases exists_blamed_or frame.maxDepth frame.stop htokens with ⟨failure', hblamed⟩ | ⟨h, h'⟩
    · cases hfault.symm.trans (hblamed.firstFault?_eq htokens)
      exact hblamed
    · cases hfault.symm.trans (firstFault?_eq_none h h')
  · exact fun hblamed => hblamed.firstFault?_eq htokens

theorem ofTokens_eq_error_iff_of_nil (maxDepth stop : Nat) (failure : Failure) :
    Expr.ofTokens maxDepth stop [] = .error failure ↔ Blamed maxDepth stop [] failure := by
  constructor
  · intro h
    cases h
    exact .empty rfl
  · intro h
    cases h with
    | empty => rfl
    | tooDeep _ htoken | stray _ htoken | misfit _ htoken | unclosed _ htoken => cases htoken
    | ended _ hne => exact absurd rfl hne

theorem fails_iff_blamed (maxDepth stop : Nat) (tokens : List Token) (failure : Failure) :
    Expr.ofTokens maxDepth stop tokens = .error failure ↔ Blamed maxDepth stop tokens failure := by
  by_cases htokens : tokens = []
  · subst htokens
    exact ofTokens_eq_error_iff_of_nil maxDepth stop failure
  · rw [ofTokens_eq_error_iff htokens]
    exact firstFault?_eq_some_iff htokens failure

/-- The parser reports the failure that the grammar blames.  For the tokens of a text the end of the
input stands after its last character. -/
theorem ofTokens_eq_error_iff_blamed (maxDepth stop : Nat) (tokens : List Token) (source : String)
    (failure : Failure) :
    (Expr.ofTokens maxDepth stop tokens = .error failure ↔ Blamed maxDepth stop tokens failure) ∧
    (Expr.read maxDepth source = .error failure ↔
      Token.screenAndScan source.toList = .error failure ∨
      ∃ scanned, Token.screenAndScan source.toList = .ok scanned ∧
        Blamed maxDepth source.length scanned failure) := by
  refine ⟨fails_iff_blamed maxDepth stop tokens failure, ?_⟩
  rw [Expr.read, String.length_toList]
  cases hscan : Token.screenAndScan source.toList with
  | error failure' => simp
  | ok scanned => simp [fails_iff_blamed]

end Calculator.Parse
