import Calculator.Proofs.Parse.Derivation

/-!
# Groups that are left open

`unclosed?` reads the parentheses of a list of tokens: it keeps the positions of
those that are opened and not closed again.  `OpensFrom entry now` says that the open
groups of one state of the parser are those of an earlier state and the ones that
the tokens used up in between have opened and not closed.

* `opens_of_reads`: a production that gives a tree has closed every group that it
  opened, and it has used up at least one token (`length_lt_of_reads`).
* `Reads.abandons`: a call that fails leaves the groups open that it was in.
-/

namespace Calculator.Parse

open Grammar (Derives Symbol derives_ne_nil)

/-- The open groups after one more token, if the token does not close a group before the first. -/
def openStep (groups : List Nat) (token : Token) : Option (List Nat) :=
  match token.kind with
  | .opening => some (token.start :: groups)
  | .closing => groups.tail?
  | _ => some groups

/-- The positions of the parentheses that a list of tokens opens and does not close, the innermost
first, if it closes none but its own. -/
def unclosed? (tokens : List Token) : Option (List Nat) :=
  tokens.foldlM openStep []

theorem openStep_append {groups groups' : List Nat} {token : Token}
    (h : openStep groups token = some groups') (outer : List Nat) :
    openStep (groups ++ outer) token = some (groups' ++ outer) := by
  obtain ⟨kind, lexeme, start⟩ := token
  cases kind with
  | opening =>
      cases h
      rfl
  | closing =>
      cases groups with
      | nil => cases h
      | cons opening groups =>
          cases h
          rfl
  | _ =>
      cases h
      rfl

theorem foldlM_openStep_append {tokens : List Token} {groups groups' : List Nat}
    (h : tokens.foldlM openStep groups = some groups') (outer : List Nat) :
    tokens.foldlM openStep (groups ++ outer) = some (groups' ++ outer) := by
  induction tokens generalizing groups with
  | nil =>
      cases h
      rfl
  | cons token tokens ih =>
      rw [List.foldlM_cons] at h
      obtain ⟨next, hstep, hmore⟩ := Option.bind_eq_some_iff.1 h
      rw [List.foldlM_cons, openStep_append hstep outer]
      exact ih hmore

theorem unclosed?_append {used used' : List Token} {groups groups' : List Nat}
    (h : unclosed? used = some groups) (h' : unclosed? used' = some groups') :
    unclosed? (used ++ used') = some (groups' ++ groups) := by
  have hlater := foldlM_openStep_append h' groups
  rw [unclosed?, List.foldlM_append]
  rw [unclosed?] at h
  rw [h]
  exact hlater

/-- What is derived from a symbol closes all its groups. -/
theorem unclosed?_of_derives {symbol : Symbol} {kinds : List Token.Kind} {tree : Expr}
    {levels : Nat} (h : Derives symbol kinds tree levels) {tokens : List Token}
    (htokens : tokens.map Token.kind = kinds) : unclosed? tokens = some [] := by
  induction h generalizing tokens with
  | expression_term _ ih | term_factor _ ih | factor_primary _ ih => exact ih htokens
  | @expression_chain op _ _ _ _ _ _ hop hleft hright ihleft ihright
  | @term_chain op _ _ _ _ _ _ hop hleft hright ihleft ihright =>
      obtain ⟨before, rest, rfl, hbefore, hrest⟩ := List.map_eq_append_iff.1 htokens
      obtain ⟨⟨kind, lexeme, start⟩, after, rfl, rfl, hafter⟩ := List.map_eq_cons_iff.1 hrest
      have hoperator : unclosed? [⟨op.token, lexeme, start⟩] = some [] := by cases op <;> rfl
      exact unclosed?_append (ihleft hbefore) (unclosed?_append hoperator (ihright hafter))
  | factor_neg hfactor ih =>
      obtain ⟨⟨kind, lexeme, start⟩, after, rfl, rfl, hafter⟩ := List.map_eq_cons_iff.1 htokens
      have hminus : unclosed? [⟨.minus, lexeme, start⟩] = some [] := rfl
      exact unclosed?_append hminus (ih hafter)
  | primary_number value =>
      obtain ⟨⟨kind, lexeme, start⟩, after, rfl, rfl, hafter⟩ := List.map_eq_cons_iff.1 htokens
      rw [List.map_eq_nil_iff.1 hafter]
      rfl
  | primary_group hexpression ih =>
      obtain ⟨⟨kind, lexeme, start⟩, rest, rfl, rfl, hrest⟩ := List.map_eq_cons_iff.1 htokens
      obtain ⟨inner, last, rfl, hinner, hlast⟩ := List.map_eq_append_iff.1 hrest
      obtain ⟨⟨kind', lexeme', start'⟩, tail, rfl, rfl, htail⟩ := List.map_eq_cons_iff.1 hlast
      have hopening : unclosed? [⟨.opening, lexeme, start⟩] = some [start] := rfl
      have hbefore := unclosed?_append hopening (ih hinner)
      rw [List.map_eq_nil_iff.1 htail]
      rw [unclosed?] at hbefore
      rw [← List.singleton_append, ← List.append_assoc, unclosed?, List.foldlM_append, hbefore]
      rfl

/-- `OpensFrom entry now`: on the way from `entry` to `now` tokens were used up, and the open groups
are those of `entry` and the ones that these tokens have opened and not closed. -/
def OpensFrom (entry now : Reading) : Prop :=
  ∃ used groups, entry.ahead = used ++ now.ahead ∧ unclosed? used = some groups ∧
    now.openGroups = groups ++ entry.openGroups

namespace OpensFrom

theorem refl (entry : Reading) : OpensFrom entry entry :=
  ⟨[], [], rfl, rfl, rfl⟩

theorem trans {entry now later : Reading} (h : OpensFrom entry now) (h' : OpensFrom now later) :
    OpensFrom entry later := by
  obtain ⟨used, groups, hahead, hunclosed, hgroups⟩ := h
  obtain ⟨used', groups', hahead', hunclosed', hgroups'⟩ := h'
  refine ⟨used ++ used', groups' ++ groups, ?_, unclosed?_append hunclosed hunclosed', ?_⟩
  · rw [hahead, hahead', List.append_assoc]
  · rw [hgroups', hgroups, List.append_assoc]

/-- An operator or a unary minus is used up. -/
theorem operator {token : Token} {op : Operator} (hkind : token.kind = op.token)
    (more : List Token) (depth depth' : Nat) (groups : List Nat) :
    OpensFrom ⟨token :: more, depth, groups⟩ ⟨more, depth', groups⟩ := by
  have hunclosed : unclosed? [token] = some [] := by
    cases op <;> simp [unclosed?, openStep, hkind, Operator.token]
  exact ⟨[token], [], rfl, hunclosed, rfl⟩

/-- An opening parenthesis is used up. -/
theorem opening {token : Token} (hkind : token.kind = .opening) (more : List Token)
    (depth depth' : Nat) (groups : List Nat) :
    OpensFrom ⟨token :: more, depth, groups⟩ ⟨more, depth', token.start :: groups⟩ :=
  ⟨[token], [token.start], rfl, by simp [unclosed?, openStep, hkind], rfl⟩

end OpensFrom

/-! ## What calls leave behind -/

/-- A call that fails closes its levels, leaves the open groups that it found at their places, and
has used up some of the tokens. -/
theorem Reads.abandons {frame : Frame} {call : Call} {reading rest : Reading} {failure : Failure}
    (h : Reads frame call reading (.failed failure rest)) :
    rest.depth = reading.depth ∧ reading.openGroups <:+ rest.openGroups ∧
      rest.ahead <:+ reading.ahead := by
  generalize hfailed : Outcome.failed failure rest = outcome at h
  induction h generalizing failure rest with
  | chain_stop | neg | number | opened | closed => cases hfailed
  | chain_failed hfirst ih | operand hhead hfirst ih => exact ih hfailed
  | chain hfirst hmore ih ih' =>
      obtain ⟨hdepth, hgroups⟩ := hfirst.restores
      obtain ⟨used, hahead, -⟩ := hfirst.exists_yields
      obtain ⟨hdepth', hgroups', hahead'⟩ := ih' hfailed
      exact ⟨hdepth'.trans hdepth, hgroups ▸ hgroups', hahead'.trans ⟨used, hahead.symm⟩⟩
  | member_failed hop hmember ih =>
      obtain ⟨hdepth, hgroups, hahead⟩ := ih hfailed
      exact ⟨hdepth, hgroups, hahead.trans (List.suffix_cons ..)⟩
  | member hop hmember hmore ih ih' =>
      obtain ⟨hdepth, hgroups⟩ := hmember.restores
      obtain ⟨used, hahead, -⟩ := hmember.exists_yields
      obtain ⟨hdepth', hgroups', hahead'⟩ := ih' hfailed
      exact ⟨hdepth'.trans hdepth, hgroups ▸ hgroups',
        (hahead'.trans ⟨used, hahead.symm⟩).trans (List.suffix_cons ..)⟩
  | neg_failed hlimit hoperand ih | opened_failed hlimit hoperand ih =>
      cases hfailed
      obtain ⟨-, hgroups, hahead⟩ := ih rfl
      exact ⟨rfl, hgroups, hahead.trans (List.suffix_cons ..)⟩
  | neg_tooDeep | opened_tooDeep | stray | misfit =>
      cases hfailed
      exact ⟨rfl, List.suffix_refl _, List.suffix_cons ..⟩
  | ended =>
      cases hfailed
      exact ⟨rfl, List.suffix_refl _, List.suffix_refl _⟩
  | group_failed hinner ih =>
      obtain ⟨hdepth, hgroups, hahead⟩ := ih hfailed
      exact ⟨hdepth, (List.suffix_cons ..).trans hgroups, hahead⟩
  | unclosed hinner =>
      cases hfailed
      obtain ⟨hdepth, hgroups⟩ := hinner.restores
      dsimp only at hgroups
      exact ⟨hdepth, hgroups ▸ List.suffix_cons .., List.nil_suffix⟩
  | notClosed hinner =>
      cases hfailed
      obtain ⟨hdepth, hgroups⟩ := hinner.restores
      obtain ⟨used, hahead, -⟩ := hinner.exists_yields
      dsimp only at hgroups hahead
      exact ⟨hdepth, hgroups ▸ List.suffix_cons .., (List.suffix_cons ..).trans ⟨used, hahead.symm⟩⟩

/-- The productions of the grammar, as they are called. -/
inductive Production where
  | expression
  | chain (tier : Tier)
  | factor
  | primary

/-- The production of the members of a chain. -/
def Tier.memberProduction : Tier → Production
  | sum => .chain product
  | product => .factor

namespace Production

/-- The call that a production makes. -/
def call : Production → Call
  | expression => .chain .sum
  | chain tier => .chain tier
  | factor => .factor
  | primary => .primary

theorem call_memberProduction (tier : Tier) : tier.memberProduction.call = tier.member := by
  cases tier <;> rfl

/-- What a production has used up when it gives a tree is a phrase. -/
theorem exists_derives {frame : Frame} {production : Production} {reading rest : Reading}
    {tree : Expr} (h : Reads frame production.call reading (.parsed tree rest)) :
    ∃ used symbol levels, reading.ahead = used ++ rest.ahead ∧
      Derives symbol (used.map Token.kind) tree levels := by
  obtain ⟨used, hahead, hyields⟩ := h.exists_yields
  refine ⟨used, ?_⟩
  cases production <;> exact ⟨_, hyields.choose, hahead, hyields.choose_spec.2⟩

theorem length_lt_of_reads {frame : Frame} {production : Production} {reading rest : Reading}
    {tree : Expr} (h : Reads frame production.call reading (.parsed tree rest)) :
    rest.ahead.length < reading.ahead.length := by
  obtain ⟨used, symbol, levels, hahead, hderives⟩ := exists_derives h
  have hused : used ≠ [] := fun hnil => derives_ne_nil hderives (by rw [hnil, List.map_nil])
  have hpos := List.length_pos_iff.2 hused
  rw [hahead, List.length_append]
  omega

theorem opens_of_reads {frame : Frame} {production : Production} {reading rest : Reading}
    {tree : Expr} (h : Reads frame production.call reading (.parsed tree rest)) :
    OpensFrom reading rest := by
  obtain ⟨used, symbol, levels, hahead, hderives⟩ := exists_derives h
  exact ⟨used, [], hahead, unclosed?_of_derives hderives rfl, h.restores.2⟩

end Production

end Calculator.Parse
