import Calculator.Expr.Parse

/-!
# The steps of a reading as rules

The productions of the parser call each other and carry proofs about lengths.
Here the same calls are written as the rules of one inductive relation without
such proofs: `Reads frame call reading outcome` says that a call, started with
`reading`, comes to `outcome`.  `reads_expression` shows that the parser follows
the rules, and `Reads.unique` that the rules leave no choice.  What is true of
every reading is proved by induction on this relation.

Sums and products are read alike; their rules are written once, for a tier.
-/

namespace Calculator.Parse

/-- What a call comes to: `Progress` without the proof about lengths. -/
inductive Outcome where
  | parsed (tree : Expr) (rest : Reading)
  | failed (failure : Failure) (rest : Reading)

def Progress.outcome {entry : List Token} : Progress entry → Outcome
  | parsed tree rest _ => .parsed tree rest
  | failed failure rest => .failed failure rest

/-- The two kinds of chains. -/
inductive Tier where
  | sum
  | product

/-- The calls that a reading is made of. -/
inductive Call where
  /-- A whole chain. -/
  | chain (tier : Tier)
  /-- The further members of a chain whose members so far make up `left`. -/
  | chainFrom (tier : Tier) (left : Expr)
  /-- An operand with the unary minuses in front of it. -/
  | factor
  /-- A number or a group. -/
  | primary
  /-- A group after its opening parenthesis, which stands at `opening`. -/
  | group (opening : Nat)

namespace Tier

/-- The operator of the tier that a token stands for. -/
def operator? : Tier → Token → Option Operator
  | sum => sumOperator?
  | product => productOperator?

/-- The call that reads a member of a chain. -/
def member : Tier → Call
  | sum => .chain product
  | product => .factor

end Tier

inductive Reads (frame : Frame) : Call → Reading → Outcome → Prop
  | chain_failed {tier : Tier} {reading rest : Reading} {failure : Failure}
      (hfirst : Reads frame tier.member reading (.failed failure rest)) :
      Reads frame (.chain tier) reading (.failed failure rest)
  | chain {tier : Tier} {reading rest : Reading} {first : Expr} {outcome : Outcome}
      (hfirst : Reads frame tier.member reading (.parsed first rest))
      (hmore : Reads frame (.chainFrom tier first) rest outcome) :
      Reads frame (.chain tier) reading outcome
  | chain_stop {tier : Tier} {left : Expr} {reading : Reading}
      (hstop : reading.ahead.head?.bind tier.operator? = none) :
      Reads frame (.chainFrom tier left) reading (.parsed left reading)
  | member_failed {tier : Tier} {left : Expr} {token : Token} {more : List Token} {depth : Nat}
      {groups : List Nat} {op : Operator} {failure : Failure} {rest : Reading}
      (hop : tier.operator? token = some op)
      (hmember : Reads frame tier.member ⟨more, depth, groups⟩ (.failed failure rest)) :
      Reads frame (.chainFrom tier left) ⟨token :: more, depth, groups⟩ (.failed failure rest)
  | member {tier : Tier} {left right : Expr} {token : Token} {more : List Token} {depth : Nat}
      {groups : List Nat} {op : Operator} {rest : Reading} {outcome : Outcome}
      (hop : tier.operator? token = some op)
      (hmember : Reads frame tier.member ⟨more, depth, groups⟩ (.parsed right rest))
      (hmore : Reads frame (.chainFrom tier (.binary op left right)) rest outcome) :
      Reads frame (.chainFrom tier left) ⟨token :: more, depth, groups⟩ outcome
  | neg {lexeme : List Char} {start : Nat} {more : List Token} {depth : Nat}
      {groups : List Nat} {tree : Expr} {rest : Reading}
      (hdepth : depth < frame.maxDepth)
      (hoperand : Reads frame .factor ⟨more, depth + 1, groups⟩ (.parsed tree rest)) :
      Reads frame .factor ⟨⟨.minus, lexeme, start⟩ :: more, depth, groups⟩
        (.parsed (.neg tree) { rest with depth := depth })
  | neg_failed {lexeme : List Char} {start : Nat} {more : List Token} {depth : Nat}
      {groups : List Nat} {failure : Failure} {rest : Reading}
      (hdepth : depth < frame.maxDepth)
      (hoperand : Reads frame .factor ⟨more, depth + 1, groups⟩ (.failed failure rest)) :
      Reads frame .factor ⟨⟨.minus, lexeme, start⟩ :: more, depth, groups⟩
        (.failed failure { rest with depth := depth })
  | neg_tooDeep {lexeme : List Char} {start : Nat} {more : List Token} {depth : Nat}
      {groups : List Nat} (hdepth : frame.maxDepth ≤ depth) :
      Reads frame .factor ⟨⟨.minus, lexeme, start⟩ :: more, depth, groups⟩
        (.failed (.tooDeep frame.maxDepth start) ⟨more, depth, groups⟩)
  | operand {reading : Reading} {outcome : Outcome}
      (hhead : ∀ token ∈ reading.ahead.head?, token.kind ≠ .minus)
      (hprimary : Reads frame .primary reading outcome) :
      Reads frame .factor reading outcome
  | ended {depth : Nat} {groups : List Nat} :
      Reads frame .primary ⟨[], depth, groups⟩
        (.failed (unexpectedEnd frame ⟨[], depth, groups⟩) ⟨[], depth, groups⟩)
  | number {value : Float} {lexeme : List Char} {start : Nat} {more : List Token} {depth : Nat}
      {groups : List Nat} :
      Reads frame .primary ⟨⟨.number value, lexeme, start⟩ :: more, depth, groups⟩
        (.parsed (.number value) ⟨more, depth, groups⟩)
  | opened {lexeme : List Char} {start : Nat} {more : List Token} {depth : Nat}
      {groups : List Nat} {tree : Expr} {rest : Reading}
      (hdepth : depth < frame.maxDepth)
      (hgroup : Reads frame (.group start) ⟨more, depth + 1, groups⟩ (.parsed tree rest)) :
      Reads frame .primary ⟨⟨.opening, lexeme, start⟩ :: more, depth, groups⟩
        (.parsed tree { rest with depth := depth })
  | opened_failed {lexeme : List Char} {start : Nat} {more : List Token} {depth : Nat}
      {groups : List Nat} {failure : Failure} {rest : Reading}
      (hdepth : depth < frame.maxDepth)
      (hgroup : Reads frame (.group start) ⟨more, depth + 1, groups⟩ (.failed failure rest)) :
      Reads frame .primary ⟨⟨.opening, lexeme, start⟩ :: more, depth, groups⟩
        (.failed failure { rest with depth := depth })
  | opened_tooDeep {lexeme : List Char} {start : Nat} {more : List Token} {depth : Nat}
      {groups : List Nat} (hdepth : frame.maxDepth ≤ depth) :
      Reads frame .primary ⟨⟨.opening, lexeme, start⟩ :: more, depth, groups⟩
        (.failed (.tooDeep frame.maxDepth start) ⟨more, depth, groups⟩)
  | stray {lexeme : List Char} {start : Nat} {more : List Token} {depth : Nat} :
      Reads frame .primary ⟨⟨.closing, lexeme, start⟩ :: more, depth, []⟩
        (.failed (.unbalanced start) ⟨more, depth, []⟩)
  | misfit {token : Token} {more : List Token} {depth : Nat} {groups : List Nat}
      (hnumber : ∀ value, token.kind ≠ .number value) (hopening : token.kind ≠ .opening)
      (hclosing : token.kind = .closing → groups ≠ []) :
      Reads frame .primary ⟨token :: more, depth, groups⟩
        (.failed (unexpectedToken token) ⟨more, depth, groups⟩)
  | group_failed {opening : Nat} {ahead : List Token} {depth : Nat} {groups : List Nat}
      {failure : Failure} {rest : Reading}
      (hinner : Reads frame (.chain .sum) ⟨ahead, depth, opening :: groups⟩
        (.failed failure rest)) :
      Reads frame (.group opening) ⟨ahead, depth, groups⟩ (.failed failure rest)
  | unclosed {opening : Nat} {ahead : List Token} {depth depth' : Nat} {groups groups' : List Nat}
      {tree : Expr}
      (hinner : Reads frame (.chain .sum) ⟨ahead, depth, opening :: groups⟩
        (.parsed tree ⟨[], depth', groups'⟩)) :
      Reads frame (.group opening) ⟨ahead, depth, groups⟩
        (.failed (.unbalanced opening) ⟨[], depth', groups'⟩)
  | closed {opening : Nat} {ahead more : List Token} {depth depth' : Nat}
      {groups groups' : List Nat} {tree : Expr} {lexeme : List Char} {start : Nat}
      (hinner : Reads frame (.chain .sum) ⟨ahead, depth, opening :: groups⟩
        (.parsed tree ⟨⟨.closing, lexeme, start⟩ :: more, depth', groups'⟩)) :
      Reads frame (.group opening) ⟨ahead, depth, groups⟩
        (.parsed tree ⟨more, depth', groups'.tail⟩)
  | notClosed {opening : Nat} {ahead more : List Token} {depth depth' : Nat}
      {groups groups' : List Nat} {tree : Expr} {token : Token}
      (hinner : Reads frame (.chain .sum) ⟨ahead, depth, opening :: groups⟩
        (.parsed tree ⟨token :: more, depth', groups'⟩))
      (hclosing : token.kind ≠ .closing) :
      Reads frame (.group opening) ⟨ahead, depth, groups⟩
        (.failed (unexpectedToken token) ⟨more, depth', groups'⟩)

/-! ## The parser and the rules -/

mutual

/-- The parser follows the rules. -/
theorem reads_expression (frame : Frame) (reading : Reading) {entry : List Token}
    (hentry : reading.ahead.length ≤ entry.length) :
    Reads frame (.chain .sum) reading (expression frame reading hentry).outcome := by
  have hfirst := reads_term frame reading hentry
  rw [expression]
  cases hterm : term frame reading hentry with
  | failed failure rest =>
      rw [hterm] at hfirst
      exact .chain_failed hfirst
  | parsed left rest hrest =>
      rw [hterm] at hfirst
      exact .chain hfirst (reads_sumFrom frame left rest hrest)
termination_by 6 * entry.length + 4

theorem reads_sumFrom (frame : Frame) (left : Expr) : ∀ (reading : Reading) {entry : List Token}
    (hentry : reading.ahead.length < entry.length),
    Reads frame (.chainFrom .sum left) reading (sumFrom frame left reading hentry).outcome
  | ⟨[], depth, groups⟩, entry, hentry => by
      rw [sumFrom]
      exact .chain_stop rfl
  | ⟨token :: more, depth, groups⟩, entry, hentry => by
      rw [sumFrom]
      cases hop : sumOperator? token with
      | none =>
          simp only [hop]
          exact .chain_stop hop
      | some op =>
          have hmember := reads_term frame ⟨more, depth, groups⟩ (Nat.le_refl _)
          simp only [hop]
          cases hterm : term frame ⟨more, depth, groups⟩ (Nat.le_refl _) with
          | failed failure rest =>
              rw [hterm] at hmember
              exact .member_failed hop hmember
          | parsed right rest hrest =>
              rw [hterm] at hmember
              have hshorter : rest.ahead.length < more.length := hrest
              exact .member hop hmember (reads_sumFrom frame (.binary op left right) rest _)
termination_by reading => 6 * reading.ahead.length
decreasing_by
  all_goals simp only [List.length_cons] at *; omega

theorem reads_term (frame : Frame) (reading : Reading) {entry : List Token}
    (hentry : reading.ahead.length ≤ entry.length) :
    Reads frame (.chain .product) reading (term frame reading hentry).outcome := by
  have hfirst := reads_factor frame reading hentry
  rw [term]
  cases hfactor : factor frame reading hentry with
  | failed failure rest =>
      rw [hfactor] at hfirst
      exact .chain_failed hfirst
  | parsed left rest hrest =>
      rw [hfactor] at hfirst
      exact .chain hfirst (reads_productFrom frame left rest hrest)
termination_by 6 * entry.length + 3

theorem reads_productFrom (frame : Frame) (left : Expr) : ∀ (reading : Reading)
    {entry : List Token} (hentry : reading.ahead.length < entry.length),
    Reads frame (.chainFrom .product left) reading (productFrom frame left reading hentry).outcome
  | ⟨[], depth, groups⟩, entry, hentry => by
      rw [productFrom]
      exact .chain_stop rfl
  | ⟨token :: more, depth, groups⟩, entry, hentry => by
      rw [productFrom]
      cases hop : productOperator? token with
      | none =>
          simp only [hop]
          exact .chain_stop hop
      | some op =>
          have hmember := reads_factor frame ⟨more, depth, groups⟩ (Nat.le_refl _)
          simp only [hop]
          cases hfactor : factor frame ⟨more, depth, groups⟩ (Nat.le_refl _) with
          | failed failure rest =>
              rw [hfactor] at hmember
              exact .member_failed hop hmember
          | parsed right rest hrest =>
              rw [hfactor] at hmember
              have hshorter : rest.ahead.length < more.length := hrest
              exact .member hop hmember (reads_productFrom frame (.binary op left right) rest _)
termination_by reading => 6 * reading.ahead.length
decreasing_by
  all_goals simp only [List.length_cons] at *; omega

theorem reads_factor (frame : Frame) : ∀ (reading : Reading) {entry : List Token}
    (hentry : reading.ahead.length ≤ entry.length),
    Reads frame .factor reading (factor frame reading hentry).outcome
  | ⟨[], depth, groups⟩, entry, hentry => by
      rw [factor]
      exact .operand (by simp) (reads_primary frame _ hentry)
  | ⟨⟨kind, lexeme, start⟩ :: more, depth, groups⟩, entry, hentry => by
      -- a minus is read here, everything else by `primary`
      cases kind with
      | minus =>
          rw [factor]
          dsimp only
          split
          · next hdepth =>
              have hoperand := reads_factor frame ⟨more, depth + 1, groups⟩ (Nat.le_refl _)
              cases hresult : factor frame ⟨more, depth + 1, groups⟩ (Nat.le_refl _) with
              | failed failure rest =>
                  rw [hresult] at hoperand
                  exact .neg_failed hdepth hoperand
              | parsed tree rest hrest =>
                  rw [hresult] at hoperand
                  exact .neg hdepth hoperand
          · next hdepth => exact .neg_tooDeep (Nat.le_of_not_lt hdepth)
      | _ =>
          rw [factor]
          exact .operand (by simp) (reads_primary frame _ hentry)
termination_by _ entry => 6 * entry.length + 2
decreasing_by
  all_goals simp only [List.length_cons] at *; omega

theorem reads_primary (frame : Frame) : ∀ (reading : Reading) {entry : List Token}
    (hentry : reading.ahead.length ≤ entry.length),
    Reads frame .primary reading (primary frame reading hentry).outcome
  | ⟨[], depth, groups⟩, entry, hentry => by
      rw [primary]
      exact .ended
  | ⟨⟨kind, lexeme, start⟩ :: more, depth, groups⟩, entry, hentry => by
      rw [primary]
      cases kind with
      | number value => exact .number
      | opening =>
          dsimp only
          split
          · next hdepth =>
              have hgroup := reads_group frame start ⟨more, depth + 1, groups⟩ (Nat.le_refl _)
              cases hresult : group frame start ⟨more, depth + 1, groups⟩ (Nat.le_refl _) with
              | failed failure rest =>
                  rw [hresult] at hgroup
                  exact .opened_failed hdepth hgroup
              | parsed tree rest hrest =>
                  rw [hresult] at hgroup
                  exact .opened hdepth hgroup
          · next hdepth => exact .opened_tooDeep (Nat.le_of_not_lt hdepth)
      | closing =>
          cases groups with
          | nil => exact .stray
          | cons opening groups => exact .misfit (by simp) (by simp) (by simp)
      | plus | minus | star | slash => exact .misfit (by simp) (by simp) (by simp)
termination_by _ entry => 6 * entry.length + 1
decreasing_by
  simp only [List.length_cons] at *; omega

theorem reads_group (frame : Frame) (opening : Nat) (reading : Reading) {entry : List Token}
    (hentry : reading.ahead.length ≤ entry.length) :
    Reads frame (.group opening) reading (group frame opening reading hentry).outcome := by
  obtain ⟨ahead, depth, groups⟩ := reading
  have hinner := reads_expression frame ⟨ahead, depth, opening :: groups⟩ hentry
  rw [group]
  dsimp only
  cases hresult : expression frame ⟨ahead, depth, opening :: groups⟩ hentry with
  | failed failure rest =>
      rw [hresult] at hinner
      exact .group_failed hinner
  | parsed tree rest hrest =>
      rw [hresult] at hinner
      rcases rest with ⟨_ | ⟨⟨kind, lexeme, start⟩, more⟩, depth', groups'⟩
      · exact .unclosed hinner
      cases kind with
      | closing => exact .closed hinner
      | _ => exact .notClosed hinner (by simp)
termination_by 6 * entry.length + 5

end

/-! ## The rules leave no choice -/

/-- A call has one outcome. -/
theorem Reads.unique {frame : Frame} {call : Call} {reading : Reading} {outcome outcome' : Outcome}
    (h : Reads frame call reading outcome) (h' : Reads frame call reading outcome') :
    outcome = outcome' := by
  -- two rules for the same call differ in the token ahead, in the limit or in what a call inside
  -- has come to; the last is settled by the induction hypothesis
  induction h generalizing outcome' with
  | chain_failed hfirst ih =>
      cases h' with
      | chain_failed hfirst' => exact ih hfirst'
      | chain hfirst' hmore' => cases ih hfirst'
  | chain hfirst hmore ih ih' =>
      cases h' with
      | chain_failed hfirst' => cases ih hfirst'
      | chain hfirst' hmore' =>
          cases ih hfirst'
          exact ih' hmore'
  | chain_stop hstop =>
      cases h' with
      | chain_stop => rfl
      | member_failed hop => simp_all
      | member hop => simp_all
  | member_failed hop hmember ih =>
      cases h' with
      | chain_stop hstop => simp_all
      | member_failed hop' hmember' => exact ih hmember'
      | member hop' hmember' hmore' => cases ih hmember'
  | member hop hmember hmore ih ih' =>
      cases h' with
      | chain_stop hstop => simp_all
      | member_failed hop' hmember' => cases ih hmember'
      | member hop' hmember' hmore' =>
          cases hop.symm.trans hop'
          cases ih hmember'
          exact ih' hmore'
  | neg hdepth hoperand ih =>
      cases h' with
      | neg hdepth' hoperand' =>
          cases ih hoperand'
          rfl
      | neg_failed hdepth' hoperand' => cases ih hoperand'
      | neg_tooDeep hdepth' => omega
      | operand hhead' => simp at hhead'
  | neg_failed hdepth hoperand ih =>
      cases h' with
      | neg hdepth' hoperand' => cases ih hoperand'
      | neg_failed hdepth' hoperand' =>
          cases ih hoperand'
          rfl
      | neg_tooDeep hdepth' => omega
      | operand hhead' => simp at hhead'
  | neg_tooDeep hdepth =>
      cases h' with
      | neg_tooDeep hdepth' => rfl
      | neg hdepth' | neg_failed hdepth' => omega
      | operand hhead' => simp at hhead'
  | operand hhead hprimary ih =>
      cases h' with
      | operand hhead' hprimary' => exact ih hprimary'
      | _ => simp at hhead
  | ended =>
      cases h' with
      | ended => rfl
  | number =>
      cases h' with
      | number => rfl
      | misfit hnumber => simp at hnumber
  | opened hdepth hgroup ih =>
      cases h' with
      | opened hdepth' hgroup' =>
          cases ih hgroup'
          rfl
      | opened_failed hdepth' hgroup' => cases ih hgroup'
      | opened_tooDeep hdepth' => omega
      | misfit hnumber hopening => simp at hopening
  | opened_failed hdepth hgroup ih =>
      cases h' with
      | opened hdepth' hgroup' => cases ih hgroup'
      | opened_failed hdepth' hgroup' =>
          cases ih hgroup'
          rfl
      | opened_tooDeep hdepth' => omega
      | misfit hnumber hopening => simp at hopening
  | opened_tooDeep hdepth =>
      cases h' with
      | opened_tooDeep hdepth' => rfl
      | opened hdepth' | opened_failed hdepth' => omega
      | misfit hnumber hopening => simp at hopening
  | stray =>
      cases h' with
      | stray => rfl
      | misfit hnumber hopening hclosing => simp at hclosing
  | misfit hnumber hopening hclosing =>
      cases h' with
      | misfit => rfl
      | number => simp at hnumber
      | stray => simp at hclosing
      | _ => simp at hopening
  | group_failed hinner ih =>
      cases h' with
      | group_failed hinner' => exact ih hinner'
      | unclosed hinner' | closed hinner' | notClosed hinner' => cases ih hinner'
  | unclosed hinner ih =>
      cases h' with
      | unclosed hinner' =>
          cases ih hinner'
          rfl
      | group_failed hinner' | closed hinner' | notClosed hinner' => cases ih hinner'
  | closed hinner ih =>
      cases h' with
      | closed hinner' =>
          cases ih hinner'
          rfl
      | notClosed hinner' hclosing =>
          cases ih hinner'
          simp at hclosing
      | group_failed hinner' | unclosed hinner' => cases ih hinner'
  | notClosed hinner hclosing ih =>
      cases h' with
      | notClosed hinner' =>
          cases ih hinner'
          rfl
      | closed hinner' =>
          cases ih hinner'
          simp at hclosing
      | group_failed hinner' | unclosed hinner' => cases ih hinner'

end Calculator.Parse
