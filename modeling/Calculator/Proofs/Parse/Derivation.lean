import Mathlib.Data.Set.Subsingleton
import Calculator.Proofs.Grammar
import Calculator.Proofs.Parse.Rules

/-!
# The parser and the grammar

The parser accepts a list of tokens exactly if the kinds of the tokens are
derived in the grammar with a nesting within the limit, and the tree that it
gives is the tree of the derivation (`ofTokens_eq_ok_iff_derives`).

* `Reads.exists_yields`: what a call has used up is derived in the grammar.  The
  members of a chain so far are carried along as a derivation of their own, so
  that the tree grows to the left as the rules of the grammar want it.
* `accepts_of_derives`: what is derived in the grammar is read, whatever comes
  after it.  The outcome of a chain is stated through the call that reads its
  further members, so that nothing need be known about how far the chain goes on.

A list of kinds has at most one tree, since the parser has one answer.
-/

namespace Calculator.Parse

open Grammar (Derives Symbol derives_ne_nil)

namespace Tier

/-- The symbol that the chains of a tier are derived from. -/
def symbol : Tier → Symbol
  | sum => .expression
  | product => .term

/-- The symbol that the members of these chains are derived from. -/
def memberSymbol : Tier → Symbol
  | sum => .term
  | product => .factor

/-- Whether an operator joins the members of the chains of a tier. -/
def Joins : Tier → Operator → Prop
  | sum, op => op = .add ∨ op = .sub
  | product, op => op = .mul ∨ op = .div

theorem operator?_eq_some_iff (tier : Tier) (token : Token) (op : Operator) :
    tier.operator? token = some op ↔
      token.kind = op.token ∧ tier.Joins op := by
  cases tier <;>
    simp [operator?, sumOperator?, productOperator?, Joins, Option.filter_eq_some_iff,
      Operator.ofToken?_eq_some_iff, Operator.isAdditive_iff, Operator.not_isAdditive_iff]

theorem derives_member {tier : Tier} {kinds : List Token.Kind} {tree : Expr} {levels : Nat}
    (hmember : Derives tier.memberSymbol kinds tree levels) :
    Derives tier.symbol kinds tree levels := by
  cases tier with
  | sum => exact .expression_term hmember
  | product => exact .term_factor hmember

theorem derives_chain {tier : Tier} {op : Operator} {kinds kinds' : List Token.Kind}
    {left right : Expr} {levels levels' : Nat} (hop : tier.Joins op)
    (hleft : Derives tier.symbol kinds left levels)
    (hright : Derives tier.memberSymbol kinds' right levels') :
    Derives tier.symbol (kinds ++ op.token :: kinds') (.binary op left right)
      (max levels levels') := by
  cases tier with
  | sum => exact .expression_chain hop hleft hright
  | product => exact .term_chain hop hleft hright

end Tier

/-- What the tokens that a call has used up must be for it to give `tree`, if `bound` more levels
may be opened. -/
def Call.Yields (bound : Nat) (tree : Expr) (used : List Token.Kind) : Call → Prop
  | .chain tier => ∃ levels ≤ bound, Derives tier.symbol used tree levels
  | .chainFrom tier left => ∀ kinds, ∀ levels ≤ bound, Derives tier.symbol kinds left levels →
      ∃ levels' ≤ bound, Derives tier.symbol (kinds ++ used) tree levels'
  | .factor => ∃ levels ≤ bound, Derives .factor used tree levels
  | .primary => ∃ levels ≤ bound, Derives .primary used tree levels
  | .group _ => ∃ inner, used = inner ++ [.closing] ∧
      ∃ levels ≤ bound, Derives .expression inner tree levels

theorem Call.yields_member {tier : Tier} {bound : Nat} {tree : Expr} {used : List Token.Kind} :
    tier.member.Yields bound tree used ↔
      ∃ levels ≤ bound, Derives tier.memberSymbol used tree levels := by
  cases tier <;> rfl

/-- A call that gives a tree leaves the levels as it found them. -/
theorem Reads.restores {frame : Frame} {call : Call} {reading rest : Reading} {tree : Expr}
    (h : Reads frame call reading (.parsed tree rest)) :
    rest.depth = reading.depth ∧ rest.openGroups = reading.openGroups := by
  generalize hparsed : Outcome.parsed tree rest = outcome at h
  induction h generalizing tree rest with
  | chain_failed | member_failed | neg_failed | neg_tooDeep | ended | opened_failed
  | opened_tooDeep | stray | misfit | group_failed | unclosed | notClosed => cases hparsed
  | chain hfirst hmore ih ih' | member hop hfirst hmore ih ih' =>
      obtain ⟨hdepth, hgroups⟩ := ih rfl
      obtain ⟨hdepth', hgroups'⟩ := ih' hparsed
      exact ⟨hdepth'.trans hdepth, hgroups'.trans hgroups⟩
  | chain_stop | number =>
      cases hparsed
      exact ⟨rfl, rfl⟩
  | neg hdepth hoperand ih | opened hdepth hoperand ih =>
      -- the depth is set back, and nothing else was changed
      cases hparsed
      exact ⟨rfl, (ih rfl).2⟩
  | operand hhead hprimary ih => exact ih hparsed
  | closed hinner ih =>
      cases hparsed
      obtain ⟨hdepth, hgroups⟩ := ih rfl
      exact ⟨hdepth, congrArg List.tail hgroups⟩

/-- What a call that gives a tree has used up is derived in the grammar with this tree, within the
levels that could still be opened. -/
theorem Reads.exists_yields {frame : Frame} {call : Call} {reading rest : Reading} {tree : Expr}
    (h : Reads frame call reading (.parsed tree rest)) :
    ∃ used, reading.ahead = used ++ rest.ahead ∧
      call.Yields (frame.maxDepth - reading.depth) tree (used.map Token.kind) := by
  generalize hparsed : Outcome.parsed tree rest = outcome at h
  induction h generalizing tree rest with
  | chain_failed | member_failed | neg_failed | neg_tooDeep | ended | opened_failed
  | opened_tooDeep | stray | misfit | group_failed | unclosed | notClosed => cases hparsed
  | chain hfirst hmore ih ih' =>
      -- the first member is the chain that the further members extend
      obtain ⟨used, hahead, hyields⟩ := ih rfl
      obtain ⟨used', hahead', hyields'⟩ := ih' hparsed
      obtain ⟨levels, hlevels, hderives⟩ := Call.yields_member.1 hyields
      refine ⟨used ++ used', ?_, ?_⟩
      · rw [hahead, hahead', List.append_assoc]
      · rw [hfirst.restores.1] at hyields'
        rw [List.map_append]
        exact hyields' _ levels hlevels (Tier.derives_member hderives)
  | chain_stop hstop =>
      cases hparsed
      refine ⟨[], rfl, ?_⟩
      intro kinds levels hlevels hderives
      exact ⟨levels, hlevels, by simpa using hderives⟩
  | @member tier _ _ token more _ _ op _ _ hop hmember hmore ih ih' =>
      obtain ⟨used, hahead, hyields⟩ := ih rfl
      obtain ⟨used', hahead', hyields'⟩ := ih' hparsed
      obtain ⟨levels', hlevels', hderives'⟩ := Call.yields_member.1 hyields
      obtain ⟨hkind, hadditive⟩ := (tier.operator?_eq_some_iff token op).1 hop
      refine ⟨token :: (used ++ used'), ?_, ?_⟩
      · have hmore : more = used ++ (used' ++ rest.ahead) := hahead'.symm ▸ hahead
        simp [hmore]
      · rw [hmember.restores.1] at hyields'
        intro kinds levels hlevels hderives
        -- the chain so far grows by this member before the next ones are read
        have hchain := hyields' _ _ (Nat.max_le.2 ⟨hlevels, hlevels'⟩)
          (Tier.derives_chain hadditive hderives hderives')
        simpa [hkind] using hchain
  | @neg lexeme start more depth _ _ _ hdepth hoperand ih =>
      obtain ⟨used, hahead, levels, hlevels, hderives⟩ := ih rfl
      cases hparsed
      have hbound : levels + 1 ≤ frame.maxDepth - depth := by
        dsimp only at hlevels
        omega
      exact ⟨⟨.minus, lexeme, start⟩ :: used, congrArg _ hahead, levels + 1, hbound,
        .factor_neg hderives⟩
  | operand hhead hprimary ih =>
      obtain ⟨used, hahead, levels, hlevels, hderives⟩ := ih hparsed
      exact ⟨used, hahead, levels, hlevels, .factor_primary hderives⟩
  | @number value lexeme start =>
      cases hparsed
      exact ⟨[⟨.number value, lexeme, start⟩], rfl, 0, Nat.zero_le _, .primary_number value⟩
  | @opened lexeme start more depth _ _ _ hdepth hgroup ih =>
      obtain ⟨used, hahead, inner, hinner, levels, hlevels, hderives⟩ := ih rfl
      cases hparsed
      have hbound : levels + 1 ≤ frame.maxDepth - depth := by
        dsimp only at hlevels
        omega
      refine ⟨⟨.opening, lexeme, start⟩ :: used, congrArg _ hahead, levels + 1, hbound, ?_⟩
      rw [List.map_cons, hinner]
      exact .primary_group hderives
  | @closed _ ahead more _ _ _ _ _ lexeme start hinner ih =>
      obtain ⟨used, hahead, hyields⟩ := ih rfl
      cases hparsed
      have hmore : ahead = used ++ ⟨.closing, lexeme, start⟩ :: more := hahead
      exact ⟨used ++ [⟨.closing, lexeme, start⟩], by simp [hmore],
        used.map Token.kind, by simp, hyields⟩

/-! ## From the grammar to the rules -/

/-- What is read from tokens that are derived from a symbol, whatever comes after them.  A chain
is followed by its further members, so the outcome is left to `Call.chainFrom`; the operator that
follows a sum must not belong to the last product in it. -/
def Accepts (frame : Frame) (used : List Token) (tree : Expr) (levels : Nat) : Symbol → Prop
  | .expression => ∀ more depth groups outcome, depth + levels ≤ frame.maxDepth →
      more.head?.bind productOperator? = none →
      Reads frame (.chainFrom .sum tree) ⟨more, depth, groups⟩ outcome →
      Reads frame (.chain .sum) ⟨used ++ more, depth, groups⟩ outcome
  | .term => ∀ more depth groups outcome, depth + levels ≤ frame.maxDepth →
      Reads frame (.chainFrom .product tree) ⟨more, depth, groups⟩ outcome →
      Reads frame (.chain .product) ⟨used ++ more, depth, groups⟩ outcome
  | .factor => ∀ more depth groups, depth + levels ≤ frame.maxDepth →
      Reads frame .factor ⟨used ++ more, depth, groups⟩ (.parsed tree ⟨more, depth, groups⟩)
  | .primary => ∀ more depth groups, depth + levels ≤ frame.maxDepth →
      Reads frame .primary ⟨used ++ more, depth, groups⟩ (.parsed tree ⟨more, depth, groups⟩)

theorem head?_of_derives_primary {used : List Token} {tree : Expr} {levels : Nat}
    (h : Derives .primary (used.map Token.kind) tree levels) (more : List Token) :
    ∀ token ∈ (used ++ more).head?, token.kind ≠ .minus := by
  cases used with
  | nil => cases h
  | cons token used =>
      intro token' htoken'
      cases htoken'
      intro hkind
      rw [List.map_cons, hkind] at h
      cases h

theorem accepts_of_derives (frame : Frame) {symbol : Symbol} {kinds : List Token.Kind}
    {tree : Expr} {levels : Nat} (h : Derives symbol kinds tree levels) {used : List Token}
    (hused : used.map Token.kind = kinds) : Accepts frame used tree levels symbol := by
  induction h generalizing used with
  | expression_term hterm ih =>
      intro more depth groups outcome hlevels hstop hmore
      have hfirst := ih hused more depth groups _ hlevels (.chain_stop hstop)
      exact .chain hfirst hmore
  | @expression_chain op _ _ _ _ levels levels' hop hleft hright ihleft ihright =>
      intro more depth groups outcome hlevels hstop hmore
      obtain ⟨used, rest, rfl, hkinds, hrest⟩ := List.map_eq_append_iff.1 hused
      obtain ⟨token, used', rfl, htoken, hkinds'⟩ := List.map_eq_cons_iff.1 hrest
      have hsum : Tier.sum.operator? token = some op :=
        (Tier.sum.operator?_eq_some_iff token op).2 ⟨htoken, hop⟩
      -- the operator ends the last product of the sum on its left
      have hproduct : productOperator? token = none := by
        refine Option.eq_none_iff_forall_ne_some.2 fun op' hop' => ?_
        obtain ⟨htoken', hop'⟩ := (Tier.product.operator?_eq_some_iff token op').1 hop'
        rw [Operator.token_injective (htoken.symm.trans htoken')] at hop
        exact Operator.not_product_of_sum hop hop'
      have hmember := ihright hkinds' more depth groups _ (by omega) (.chain_stop hstop)
      rw [List.append_assoc]
      exact ihleft hkinds _ depth groups _ (by omega) hproduct (.member hsum hmember hmore)
  | term_factor hfactor ih =>
      intro more depth groups outcome hlevels hmore
      exact .chain (ih hused more depth groups hlevels) hmore
  | @term_chain op _ _ _ _ levels levels' hop hleft hright ihleft ihright =>
      intro more depth groups outcome hlevels hmore
      obtain ⟨used, rest, rfl, hkinds, hrest⟩ := List.map_eq_append_iff.1 hused
      obtain ⟨token, used', rfl, htoken, hkinds'⟩ := List.map_eq_cons_iff.1 hrest
      have hproduct : Tier.product.operator? token = some op :=
        (Tier.product.operator?_eq_some_iff token op).2 ⟨htoken, hop⟩
      have hmember := ihright hkinds' more depth groups (by omega)
      rw [List.append_assoc]
      exact ihleft hkinds _ depth groups _ (by omega) (.member hproduct hmember hmore)
  | factor_neg hfactor ih =>
      intro more depth groups hlevels
      obtain ⟨⟨kind, lexeme, start⟩, used', rfl, rfl, hkinds⟩ := List.map_eq_cons_iff.1 hused
      exact .neg (by omega) (ih hkinds more (depth + 1) groups (by omega))
  | factor_primary hprimary ih =>
      intro more depth groups hlevels
      subst hused
      exact .operand (head?_of_derives_primary hprimary more) (ih rfl more depth groups hlevels)
  | primary_number value =>
      intro more depth groups hlevels
      obtain ⟨⟨kind, lexeme, start⟩, used', rfl, rfl, hkinds⟩ := List.map_eq_cons_iff.1 hused
      rw [List.map_eq_nil_iff.1 hkinds]
      exact .number
  | primary_group hexpression ih =>
      intro more depth groups hlevels
      obtain ⟨⟨kind, lexeme, start⟩, rest, rfl, rfl, hrest⟩ := List.map_eq_cons_iff.1 hused
      obtain ⟨used', last, rfl, hkinds, hlast⟩ := List.map_eq_append_iff.1 hrest
      obtain ⟨⟨kind', lexeme', start'⟩, tail, rfl, rfl, htail⟩ := List.map_eq_cons_iff.1 hlast
      rw [List.map_eq_nil_iff.1 htail]
      -- no chain goes on at the closing parenthesis
      have hinner := ih hkinds (⟨.closing, lexeme', start'⟩ :: more) (depth + 1) (start :: groups)
        _ (by omega) rfl (.chain_stop rfl)
      have hopened : Reads frame .primary
          ⟨⟨.opening, lexeme, start⟩ :: (used' ++ ⟨.closing, lexeme', start'⟩ :: more),
            depth, groups⟩ (.parsed _ ⟨more, depth, groups⟩) :=
        .opened (by omega) (.closed hinner)
      simpa using hopened

/-! ## Whole lists of tokens -/

/-- What becomes of the outcome of a whole list of tokens. -/
def Outcome.verdict : Outcome → Except Failure Expr
  | .failed failure _ => .error failure
  | .parsed tree rest =>
      match rest.ahead with
      | [] => .ok tree
      | ⟨.closing, _, start⟩ :: _ => .error (.unbalanced start)
      | token :: _ => .error (unexpectedToken token)

theorem ofTokens_of_reads {maxDepth stop : Nat} {tokens : List Token} {outcome : Outcome}
    (htokens : tokens ≠ []) (h : Reads ⟨maxDepth, stop⟩ (.chain .sum) ⟨tokens, 0, []⟩ outcome) :
    Expr.ofTokens maxDepth stop tokens = outcome.verdict := by
  cases tokens with
  | nil => exact absurd rfl htokens
  | cons token more =>
      have hparser := reads_expression ⟨maxDepth, stop⟩ ⟨token :: more, 0, []⟩ (Nat.le_refl _)
      rw [h.unique hparser, Expr.ofTokens]
      cases expression ⟨maxDepth, stop⟩ ⟨token :: more, 0, []⟩ (Nat.le_refl _) with
      | failed failure rest => rfl
      | parsed tree rest hrest => rfl

theorem Outcome.verdict_eq_ok_iff (outcome : Outcome) (tree : Expr) :
    outcome.verdict = .ok tree ↔ ∃ rest, outcome = .parsed tree rest ∧ rest.ahead = [] := by
  match outcome with
  | .failed failure rest => simp [verdict]
  | .parsed tree' ⟨[], depth, groups⟩ => simp [verdict, eq_comm]
  | .parsed tree' ⟨⟨kind, lexeme, start⟩ :: more, depth, groups⟩ =>
      constructor
      · intro h
        cases kind <;> cases h
      · rintro ⟨rest, hparsed, hrest⟩
        cases hparsed
        cases hrest

theorem ofTokens_of_derives {maxDepth : Nat} {tokens : List Token} {tree : Expr} {levels : Nat}
    (h : Derives .expression (tokens.map Token.kind) tree levels) (hlevels : levels ≤ maxDepth)
    (stop : Nat) : Expr.ofTokens maxDepth stop tokens = .ok tree := by
  have htokens : tokens ≠ [] := fun hnil => derives_ne_nil h (by rw [hnil, List.map_nil])
  have hreads := accepts_of_derives ⟨maxDepth, stop⟩ h rfl [] 0 [] _ (by simpa using hlevels) rfl
    (.chain_stop rfl)
  rw [List.append_nil] at hreads
  exact ofTokens_of_reads htokens hreads

theorem derives_of_ofTokens {maxDepth stop : Nat} {tokens : List Token} {tree : Expr}
    (h : Expr.ofTokens maxDepth stop tokens = .ok tree) :
    ∃ levels ≤ maxDepth, Derives .expression (tokens.map Token.kind) tree levels := by
  have htokens : tokens ≠ [] := by
    rintro rfl
    cases h
  have hreads := reads_expression ⟨maxDepth, stop⟩ ⟨tokens, 0, []⟩ (Nat.le_refl _)
  rw [ofTokens_of_reads htokens hreads] at h
  obtain ⟨rest, hparsed, hrest⟩ := (Outcome.verdict_eq_ok_iff _ _).1 h
  rw [hparsed] at hreads
  obtain ⟨used, hahead, hyields⟩ := hreads.exists_yields
  rw [hrest, List.append_nil] at hahead
  dsimp only at hahead
  rw [hahead]
  exact hyields

/-- A list of kinds has at most one tree. -/
theorem derives_unique {kinds : List Token.Kind} {tree tree' : Expr} {levels levels' : Nat}
    (h : Derives .expression kinds tree levels) (h' : Derives .expression kinds tree' levels') :
    tree = tree' := by
  rw [← Token.map_kind_map_bare kinds] at h h'
  have hread := ofTokens_of_derives h (Nat.le_max_left levels levels') 0
  have hread' := ofTokens_of_derives h' (Nat.le_max_right levels levels') 0
  exact Except.ok.inj (hread.symm.trans hread')

/-- The parser accepts exactly what the grammar derives within the limit, and gives the tree of the
derivation; no list of tokens has two trees. -/
theorem ofTokens_eq_ok_iff_derives (maxDepth stop : Nat) (tokens : List Token) (tree : Expr) :
    (Expr.ofTokens maxDepth stop tokens = .ok tree ↔
      ∃ levels ≤ maxDepth, Derives .expression (tokens.map Token.kind) tree levels) ∧
    {tree' | ∃ levels, Derives .expression (tokens.map Token.kind) tree' levels}.Subsingleton := by
  refine ⟨⟨derives_of_ofTokens, ?_⟩, ?_⟩
  · rintro ⟨levels, hlevels, hderives⟩
    exact ofTokens_of_derives hderives hlevels stop
  · rintro tree₁ ⟨levels₁, h₁⟩ tree₂ ⟨levels₂, h₂⟩
    exact derives_unique h₁ h₂

end Calculator.Parse
