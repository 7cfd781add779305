import Calculator.Proofs.Parse.Action

/-!
# The bookkeeping of the parser

Here the productions are written once more, as work on the cells with a record
of every moment.  A limit check, a change of the depth and a push or a pop are
steps of their own, and so are the branches for a token that was seen ahead and
is not there.  The calls take fuel.

* `follows_run`: given enough fuel, a production comes to what the rules say, and
  so to what the parser comes to; on the way the depth stays within the limit, the
  open groups are those of the tokens used up, and none of these branches is taken.
  Each production has a lemma of its own, from the calls inside it; the induction
  is on the fuel.
* `bookkeeping_restored`: the depth, the open groups and the tokens ahead after
  each production, and at every moment of it.
-/

namespace Calculator.Parse

variable {α : Type}

/-! ## The productions as work on the cells -/

namespace Action

/-- Comes to the failure for tokens that end too early. -/
def reportEnd (frame : Frame) : Action α := do
  record .endReported
  fail (unexpectedEnd frame (← getCells))

/-- Takes the operator that was seen ahead. -/
def takeOperator (frame : Frame) : Action Operator := do
  match ← advance with
  | none => do
      record .operatorMissing
      reportEnd frame
  | some token =>
      match Operator.ofToken? token.kind with
      | none => do
          record .operatorRefused
          fail (unexpectedToken token)
      | some op => return op

/-- Does some work one level deeper, for a token that stands at `position`. -/
def nested (frame : Frame) (position : Nat) (inner : Action Expr) : Action Expr := do
  let depth := (← getCells).depth + 1
  if frame.maxDepth < depth then fail (.tooDeep frame.maxDepth position)
  else do
    change fun cells => { cells with depth := depth }
    thenChange inner fun cells => { cells with depth := depth - 1 }

/-- Reads a group after its opening parenthesis. -/
def group (opening : Token) (expression : Action Expr) : Action Expr := do
  change fun cells => { cells with openGroups := opening.start :: cells.openGroups }
  let tree ← expression
  match ← advance with
  | none => fail (.unbalanced opening.start)
  | some token =>
      if token.kind = .closing then do
        change fun cells => { cells with openGroups := cells.openGroups.tail }
        return tree
      else fail (unexpectedToken token)

end Action

/-- Whether the next token goes on with a chain. -/
def Tier.goesOn : Tier → Option Token.Kind → Bool
  | sum, some .plus | sum, some .minus => true
  | product, some .star | product, some .slash => true
  | _, _ => false

theorem Tier.operator?_eq_none {tier : Tier} {ahead : List Token}
    (h : tier.goesOn (ahead.head?.map Token.kind) = false) :
    ahead.head?.bind tier.operator? = none := by
  cases ahead with
  | nil => rfl
  | cons token more =>
      obtain ⟨kind, lexeme, start⟩ := token
      cases tier <;> cases kind <;> first | rfl | cases h

theorem Tier.exists_operator {tier : Tier} {token : Token}
    (h : tier.goesOn (some token.kind) = true) :
    ∃ op, Operator.ofToken? token.kind = some op ∧ tier.operator? token = some op := by
  obtain ⟨kind, lexeme, start⟩ := token
  cases tier <;> cases kind <;> first | exact ⟨_, rfl, rfl⟩ | cases h

namespace Production

open Calculator.Parse.Action

/-- Reads the further members of a chain whose members so far make up `left`. -/
def further (frame : Frame) (tier : Tier) (member : Action Expr) : Nat → Expr → Action Expr
  | 0, _ => cut
  | fuel + 1, left => do
      if tier.goesOn (← peek) then do
        let op ← takeOperator frame
        let right ← member
        further frame tier member fuel (.binary op left right)
      else return left

/-- Runs a production. -/
def run (frame : Frame) : Nat → Production → Action Expr
  | 0, _ => cut
  | fuel + 1, expression => do
      record (.called expression)
      run frame fuel (chain .sum)
  | fuel + 1, chain tier => do
      record (.called (chain tier))
      let first ← run frame fuel tier.memberProduction
      further frame tier (run frame fuel tier.memberProduction) fuel first
  | fuel + 1, factor => do
      record (.called factor)
      match ← peek with
      | some .minus =>
          match ← advance with
          | none => do
              record .minusMissing
              reportEnd frame
          | some operator => do
              let operand ← nested frame operator.start (run frame fuel factor)
              return .neg operand
      | _ => run frame fuel primary
  | fuel + 1, primary => do
      record (.called primary)
      match ← advance with
      | none => reportEnd frame
      | some token =>
          match token.kind with
          | .number value => return .number value
          | .opening => nested frame token.start (Action.group token (run frame fuel expression))
          | .closing => do
              if (← getCells).openGroups.isEmpty then fail (.unbalanced token.start)
              else fail (unexpectedToken token)
          | _ => fail (unexpectedToken token)

/-- Reads a whole list of tokens. -/
def runWhole (frame : Frame) (fuel : Nat) : Action Expr := do
  if (← peek).isNone then fail .emptyExpression
  else do
    let tree ← run frame fuel expression
    match ← advance with
    | none => return tree
    | some token =>
        if token.kind = .closing then fail (.unbalanced token.start)
        else fail (unexpectedToken token)

end Production

/-! ## Every moment of a run -/

namespace Event

/-- Whether a production or the failure at the end of the tokens is called. -/
def IsCall : Event → Prop
  | called _ | endReported => True
  | _ => False

/-- Whether what was seen ahead is not there. -/
def IsLost : Event → Prop
  | minusMissing | operatorMissing | operatorRefused => True
  | _ => False

end Event

/-- What holds at every moment of a run that was started with `entry`. -/
structure Kept (frame : Frame) (entry : Reading) (moment : Moment) : Prop where
  depth_le : moment.cells.depth ≤ frame.maxDepth
  not_lost : ¬ moment.event.IsLost
  opens : moment.event.IsCall → OpensFrom entry moment.cells

theorem Kept.changed {frame : Frame} {ahead : List Token} {depth : Nat} {groups : List Nat}
    (hdepth : depth ≤ frame.maxDepth) (entry : Reading) :
    Kept frame entry ⟨.changed, ⟨ahead, depth, groups⟩⟩ :=
  ⟨hdepth, id, False.elim⟩

theorem Kept.called {frame : Frame} {cells : Reading} (hdepth : cells.depth ≤ frame.maxDepth)
    (production : Production) : Kept frame cells ⟨.called production, cells⟩ :=
  ⟨hdepth, id, fun _ => .refl cells⟩

theorem Kept.of_opens {frame : Frame} {entry now : Reading} (hopens : OpensFrom entry now)
    (moment : Moment) (h : Kept frame now moment) : Kept frame entry moment :=
  ⟨h.depth_le, h.not_lost, fun hcall => hopens.trans (h.opens hcall)⟩

/-- The action, started with `cells`, comes to what the rules say of the call, and every moment on
the way is as it should be. -/
def Follows (frame : Frame) (call : Call) (action : Action Expr) (cells : Reading) : Prop :=
  Ensures (Kept frame cells) action cells
    (fun tree rest => Reads frame call cells (.parsed tree rest))
    (fun failure rest => Reads frame call cells (.failed failure rest))

namespace Ensures

variable {frame : Frame} {entry cells : Reading} {blame : Failure → Reading → Prop}

theorem reportEnd {post : α → Reading → Prop} (hdepth : cells.depth ≤ frame.maxDepth)
    (hopens : OpensFrom entry cells) (hblame : blame (unexpectedEnd frame cells) cells) :
    Ensures (Kept frame entry) (Action.reportEnd frame) cells post blame :=
  .bind (.record ⟨hdepth, id, fun _ => hopens⟩ (.bind (.getCells (.fail hblame))))

/-- An operator that was seen ahead is there. -/
theorem takeOperator {tier : Tier} {post : Operator → Reading → Prop}
    (hgoesOn : tier.goesOn (cells.ahead.head?.map Token.kind) = true)
    (hdepth : cells.depth ≤ frame.maxDepth)
    (hpost : ∀ token more op, cells.ahead = token :: more → tier.operator? token = some op →
      post op { cells with ahead := more }) :
    Ensures (Kept frame entry) (Action.takeOperator frame) cells post blame := by
  refine .bind (.advance ?_ ?_)
  · intro hnil
    rw [hnil] at hgoesOn
    cases tier <;> cases hgoesOn
  · intro token more hahead
    rw [hahead] at hgoesOn
    obtain ⟨op, htoken, hop⟩ := Tier.exists_operator hgoesOn
    refine ⟨.changed hdepth entry, ?_⟩
    dsimp only
    rw [htoken]
    exact .pure (hpost token more op hahead hop)

theorem nested {position : Nat} {inner : Action Expr} {post : Expr → Reading → Prop}
    (hdepth : cells.depth ≤ frame.maxDepth)
    (hdeep : frame.maxDepth ≤ cells.depth → blame (.tooDeep frame.maxDepth position) cells)
    (hinner : cells.depth < frame.maxDepth →
      Ensures (Kept frame entry) inner { cells with depth := cells.depth + 1 }
        (fun tree rest => post tree { rest with depth := cells.depth })
        (fun failure rest => blame failure { rest with depth := cells.depth })) :
    Ensures (Kept frame entry) (Action.nested frame position inner) cells post blame := by
  refine .bind (.getCells ?_)
  dsimp only
  split
  · next hlimit => exact .fail (hdeep (Nat.le_of_lt_succ hlimit))
  · next hlimit =>
      have hlimit : cells.depth < frame.maxDepth := Nat.le_of_not_lt hlimit
      refine .bind (.change (.changed hlimit entry) (.thenChange ?_))
      exact (hinner hlimit).mono (fun _ => id)
        (fun tree rest hpost => ⟨.changed hdepth entry, hpost⟩)
        (fun failure rest hblame => ⟨.changed hdepth entry, hblame⟩)

theorem group (opening : Token) {expression : Action Expr} {ahead : List Token} {depth : Nat}
    {groups : List Nat} (hdepth : depth ≤ frame.maxDepth)
    (hopens : OpensFrom entry ⟨ahead, depth, opening.start :: groups⟩)
    (hexpression : Follows frame (.chain .sum) expression
      ⟨ahead, depth, opening.start :: groups⟩) :
    Ensures (Kept frame entry) (Action.group opening expression) ⟨ahead, depth, groups⟩
      (fun tree rest => Reads frame (.group opening.start) ⟨ahead, depth, groups⟩
        (.parsed tree rest))
      (fun failure rest => Reads frame (.group opening.start) ⟨ahead, depth, groups⟩
        (.failed failure rest)) := by
  refine .bind (.change (.changed hdepth entry) (.bind ?_))
  refine hexpression.mono (Kept.of_opens hopens) ?_
    fun failure rest hfailed => .group_failed hfailed
  rintro tree ⟨ahead', depth', groups'⟩ hparsed
  have hdepth' : depth' ≤ frame.maxDepth := hparsed.restores.1.trans_le hdepth
  refine .bind (.advance ?_ ?_)
  · rintro rfl
    exact .fail (.unclosed hparsed)
  · rintro ⟨kind, lexeme, start⟩ more rfl
    refine ⟨.changed hdepth' entry, ?_⟩
    dsimp only
    split
    · next hkind =>
        subst hkind
        exact .bind (.change (.changed hdepth' entry) (.pure (.closed hparsed)))
    · next hkind => exact .fail (.notClosed hparsed hkind)

end Ensures

/-! ## The productions one by one -/

namespace Production

/-- The number of calls that may stand between a production and the first token it takes. -/
def rank : Production → Nat
  | expression => 4
  | chain .sum => 3
  | chain .product => 2
  | factor => 1
  | primary => 0

theorem rank_memberProduction (tier : Tier) :
    tier.memberProduction.rank < (chain tier).rank := by
  cases tier <;> decide

/-- Some fuel suffices for every production that has few enough tokens ahead. -/
def Suffices (frame : Frame) (fuel : Nat) : Prop :=
  ∀ (production : Production) (cells : Reading),
    5 * cells.ahead.length + production.rank < fuel → cells.depth ≤ frame.maxDepth →
      Follows frame production.call (production.run frame fuel) cells

variable {frame : Frame} {fuel : Nat}

/-- The loop of a chain.  Each member uses up tokens, so that the fuel suffices for the next one. -/
theorem follows_further {tier : Tier} {member : Action Expr} {bound : Nat}
    (hmember : ∀ cells : Reading, cells.ahead.length < bound → cells.depth ≤ frame.maxDepth →
      Follows frame tier.memberProduction.call member cells) {fuel : Nat} (left : Expr)
    (cells : Reading) (hfuel : cells.ahead.length < fuel) (hbound : cells.ahead.length ≤ bound)
    (hdepth : cells.depth ≤ frame.maxDepth) :
    Follows frame (.chainFrom tier left) (further frame tier member fuel left) cells := by
  induction fuel generalizing left cells with
  | zero => exact absurd hfuel (Nat.not_lt_zero _)
  | succ fuel ih =>
      obtain ⟨ahead, depth, groups⟩ := cells
      dsimp only at hfuel hbound hdepth
      refine .bind (.peek ?_)
      dsimp only
      split
      · next hgoesOn =>
          refine .bind (.takeOperator hgoesOn hdepth ?_)
          rintro token more op rfl hop
          rw [List.length_cons] at hfuel hbound
          have hused : OpensFrom ⟨token :: more, depth, groups⟩ ⟨more, depth, groups⟩ :=
            .operator ((tier.operator?_eq_some_iff token op).1 hop).1 more depth depth groups
          refine .bind ((hmember ⟨more, depth, groups⟩ hbound hdepth).mono
            (Kept.of_opens hused) ?_ ?_)
          · intro right rest hparsed
            have hshorter : rest.ahead.length < more.length := length_lt_of_reads hparsed
            have hopens := hused.trans (opens_of_reads hparsed)
            have hrest := hparsed.restores.1.trans_le hdepth
            rw [call_memberProduction] at hparsed
            exact (ih (.binary op left right) rest (by omega) (by omega) hrest).mono
              (Kept.of_opens hopens) (fun tree rest' hmore => .member hop hparsed hmore)
              (fun failure rest' hmore => .member hop hparsed hmore)
          · intro failure rest hfailed
            rw [call_memberProduction] at hfailed
            exact .member_failed hop hfailed
      · next hstop =>
          rw [Bool.not_eq_true] at hstop
          exact .pure (.chain_stop (Tier.operator?_eq_none hstop))

theorem follows_chain (ih : Suffices frame fuel) {tier : Tier} {cells : Reading}
    (hfuel : 5 * cells.ahead.length + (chain tier).rank < fuel + 1)
    (hdepth : cells.depth ≤ frame.maxDepth) :
    Follows frame (.chain tier) (run frame (fuel + 1) (chain tier)) cells := by
  have hrank := rank_memberProduction tier
  have hmember : ∀ cells' : Reading, cells'.ahead.length < cells.ahead.length →
      cells'.depth ≤ frame.maxDepth →
      Follows frame tier.memberProduction.call (run frame fuel tier.memberProduction) cells' :=
    fun cells' hshorter hdepth' => ih tier.memberProduction cells' (by omega) hdepth'
  refine .bind (.record (.called hdepth _) (.bind ?_))
  refine (ih tier.memberProduction cells (by omega) hdepth).mono (fun _ => id) ?_ ?_
  · intro first rest hparsed
    have hshorter := length_lt_of_reads hparsed
    have hopens := opens_of_reads hparsed
    have hrest := hparsed.restores.1.trans_le hdepth
    rw [call_memberProduction] at hparsed
    exact (follows_further hmember first rest (by omega) (Nat.le_of_lt hshorter) hrest).mono
      (Kept.of_opens hopens) (fun tree rest' hmore => .chain hparsed hmore)
      (fun failure rest' hmore => .chain hparsed hmore)
  · intro failure rest hfailed
    rw [call_memberProduction] at hfailed
    exact .chain_failed hfailed

theorem follows_factor (ih : Suffices frame fuel) {cells : Reading}
    (hfuel : 5 * cells.ahead.length + factor.rank < fuel + 1)
    (hdepth : cells.depth ≤ frame.maxDepth) :
    Follows frame .factor (run frame (fuel + 1) factor) cells := by
  obtain ⟨ahead, depth, groups⟩ := cells
  refine .bind (.record (.called hdepth _) (.bind (.peek ?_)))
  dsimp only [rank] at hfuel hdepth ⊢
  split
  · next hminus =>
      refine .bind (.advance ?_ ?_)
      · rintro rfl
        cases hminus
      · rintro ⟨kind, lexeme, start⟩ more rfl
        obtain rfl : kind = .minus := Option.some.inj hminus
        rw [List.length_cons] at hfuel
        refine ⟨.changed hdepth _, .bind (.nested hdepth (fun hlimit => .neg_tooDeep hlimit) ?_)⟩
        intro hlimit
        have hused : OpensFrom ⟨⟨.minus, lexeme, start⟩ :: more, depth, groups⟩
            ⟨more, depth + 1, groups⟩ :=
          .operator (show _ = Operator.token .sub from rfl) more depth (depth + 1) groups
        have hbound : 5 * more.length + factor.rank < fuel := by
          dsimp only [rank]
          omega
        exact (ih factor ⟨more, depth + 1, groups⟩ hbound hlimit).mono (Kept.of_opens hused)
          (fun tree rest hparsed => .pure (.neg hlimit hparsed))
          (fun failure rest hfailed => .neg_failed hlimit hfailed)
  · next hother =>
      have hhead : ∀ token ∈ ahead.head?, token.kind ≠ .minus := by
        intro token htoken hkind
        exact hother (by rw [Option.mem_def.1 htoken, Option.map_some, hkind])
      exact (ih primary ⟨ahead, depth, groups⟩ (Nat.lt_of_succ_lt_succ hfuel) hdepth).mono
        (fun _ => id) (fun tree rest hparsed => .operand hhead hparsed)
        (fun failure rest hfailed => .operand hhead hfailed)

theorem follows_primary (ih : Suffices frame fuel) {cells : Reading}
    (hfuel : 5 * cells.ahead.length + primary.rank < fuel + 1)
    (hdepth : cells.depth ≤ frame.maxDepth) :
    Follows frame .primary (run frame (fuel + 1) primary) cells := by
  obtain ⟨ahead, depth, groups⟩ := cells
  refine .bind (.record (.called hdepth _) (.bind (.advance ?_ ?_)))
  · rintro rfl
    exact .reportEnd hdepth (.refl _) .ended
  · rintro ⟨kind, lexeme, start⟩ more rfl
    refine ⟨.changed hdepth _, ?_⟩
    cases kind with
    | number value => exact .pure .number
    | opening =>
        refine .nested hdepth (fun hlimit => .opened_tooDeep hlimit) fun hlimit => ?_
        have hused : OpensFrom ⟨⟨.opening, lexeme, start⟩ :: more, depth, groups⟩
            ⟨more, depth + 1, start :: groups⟩ := .opening rfl more depth (depth + 1) groups
        have hbound : 5 * more.length + expression.rank < fuel := by
          dsimp only [rank] at hfuel ⊢
          rw [List.length_cons] at hfuel
          omega
        exact (Ensures.group ⟨.opening, lexeme, start⟩ hlimit hused
          (ih expression ⟨more, depth + 1, start :: groups⟩ hbound hlimit)).mono (fun _ => id)
          (fun tree rest hparsed => .opened hlimit hparsed)
          (fun failure rest hfailed => .opened_failed hlimit hfailed)
    | closing =>
        refine .bind (.getCells ?_)
        cases groups with
        | nil => exact .fail .stray
        | cons opening groups => exact .fail (.misfit (by simp) (by simp) (by simp))
    | plus | minus | star | slash => exact .fail (.misfit (by simp) (by simp) (by simp))

theorem follows_run (frame : Frame) (fuel : Nat) : Suffices frame fuel := by
  induction fuel with
  | zero => exact fun production cells hfuel => absurd hfuel (Nat.not_lt_zero _)
  | succ fuel ih =>
      intro production cells hfuel hdepth
      cases production with
      | expression =>
          exact .bind (.record (.called hdepth _)
            (ih (chain .sum) cells (Nat.lt_of_succ_lt_succ hfuel) hdepth))
      | chain tier => exact follows_chain ih hfuel hdepth
      | factor => exact follows_factor ih hfuel hdepth
      | primary => exact follows_primary ih hfuel hdepth

end Production

/-! ## What the parser comes to -/

/-- The outcome of a run, unless the fuel gave out. -/
def Run.outcome? (run : Run Expr) : Option Outcome :=
  match run.result with
  | some (.ok tree) => some (.parsed tree run.cells)
  | some (.error failure) => some (.failed failure run.cells)
  | none => none

theorem Follows.outcome?_eq {frame : Frame} {call : Call} {action : Action Expr} {cells : Reading}
    {outcome : Outcome} (h : Follows frame call action cells)
    (hreads : Reads frame call cells outcome) : (action cells).outcome? = some outcome := by
  have hends := h.ends
  rcases hrun : action cells with ⟨moments, _ | failure | tree, rest⟩ <;> rw [hrun] at hends
  · exact hends.elim
  · exact congrArg some (Reads.unique hends hreads)
  · exact congrArg some (Reads.unique hends hreads)

namespace Production

variable {frame : Frame} {fuel : Nat}

/-- What the parser comes to on a production. -/
def outcome (frame : Frame) (entry : Reading) : Production → Outcome
  | expression | chain .sum => (Parse.expression frame entry (Nat.le_refl _)).outcome
  | chain .product => (Parse.term frame entry (Nat.le_refl _)).outcome
  | factor => (Parse.factor frame entry (Nat.le_refl _)).outcome
  | primary => (Parse.primary frame entry (Nat.le_refl _)).outcome

theorem reads_outcome (frame : Frame) (entry : Reading) (production : Production) :
    Reads frame production.call entry (production.outcome frame entry) := by
  match production with
  | expression | chain .sum => exact reads_expression frame entry (Nat.le_refl _)
  | chain .product => exact reads_term frame entry (Nat.le_refl _)
  | factor => exact reads_factor frame entry (Nat.le_refl _)
  | primary => exact reads_primary frame entry (Nat.le_refl _)

theorem follows_of_fuel (production : Production) {entry : Reading}
    (hdepth : entry.depth ≤ frame.maxDepth) (hfuel : 5 * (entry.ahead.length + 1) ≤ fuel) :
    Follows frame production.call (production.run frame fuel) entry := by
  have hrank : production.rank < 5 := by
    match production with
    | expression | chain .sum | chain .product | factor | primary => decide
  exact follows_run frame fuel production entry (by omega) hdepth

/-- A whole list of tokens is read as by the parser. -/
theorem ensures_runWhole (frame : Frame) {tokens : List Token}
    (hfuel : 5 * (tokens.length + 1) ≤ fuel) :
    Ensures (Kept frame ⟨tokens, 0, []⟩) (runWhole frame fuel) ⟨tokens, 0, []⟩
      (fun tree _ => Expr.ofTokens frame.maxDepth frame.stop tokens = .ok tree)
      (fun failure _ => Expr.ofTokens frame.maxDepth frame.stop tokens = .error failure) := by
  refine .bind (.peek ?_)
  cases tokens with
  | nil => exact .fail rfl
  | cons token more =>
      have hverdict {outcome : Outcome}
          (h : Reads frame (.chain .sum) ⟨token :: more, 0, []⟩ outcome) :
          Expr.ofTokens frame.maxDepth frame.stop (token :: more) = outcome.verdict :=
        ofTokens_of_reads (List.cons_ne_nil _ _) h
      refine .bind ((follows_of_fuel expression (Nat.zero_le _) hfuel).mono (fun _ => id) ?_
        fun failure rest hfailed => hverdict hfailed)
      rintro tree ⟨ahead, depth, groups⟩ hparsed
      have hdepth : depth ≤ frame.maxDepth := hparsed.restores.1.trans_le (Nat.zero_le _)
      refine .bind (.advance ?_ ?_)
      · rintro rfl
        exact .pure (hverdict hparsed)
      · rintro ⟨kind, lexeme, start⟩ later rfl
        refine ⟨.changed hdepth _, ?_⟩
        cases kind <;> exact .fail (hverdict hparsed)

theorem result_runWhole (frame : Frame) (tokens : List Token)
    (hfuel : 5 * (tokens.length + 1) ≤ fuel) :
    (runWhole frame fuel ⟨tokens, 0, []⟩).result =
      some (Expr.ofTokens frame.maxDepth frame.stop tokens) := by
  have hends := (ensures_runWhole frame hfuel).ends
  rcases hrun : runWhole frame fuel ⟨tokens, 0, []⟩ with ⟨moments, _ | failure | tree, rest⟩ <;>
    rw [hrun] at hends
  · exact hends.elim
  · exact congrArg some hends.symm
  · exact congrArg some hends.symm

end Production

/-- The books of a production that is started with `entry`. -/
structure Bookkeeping (frame : Frame) (production : Production) (entry : Reading)
    (run : Run Expr) : Prop where
  /-- The run comes to an end, with what the parser comes to. -/
  ends : run.outcome? = some (production.outcome frame entry)
  kept : ∀ moment ∈ run.moments, Kept frame entry moment
  of_parsed : ∀ tree rest, production.outcome frame entry = .parsed tree rest →
    rest.depth = entry.depth ∧ rest.openGroups = entry.openGroups ∧
      rest.ahead <:+ entry.ahead ∧ rest.ahead ≠ entry.ahead
  of_failed : ∀ failure rest, production.outcome frame entry = .failed failure rest →
    rest.depth = entry.depth ∧ entry.openGroups <:+ rest.openGroups ∧ rest.ahead <:+ entry.ahead

/-- Every production restores the depth and the open groups, and keeps them right at every moment;
a whole list of tokens is read to an end, and nothing that was seen ahead is lost. -/
theorem bookkeeping_restored (frame : Frame) (production : Production) (entry : Reading)
    (hdepth : entry.depth ≤ frame.maxDepth) {fuel : Nat}
    (hfuel : 5 * (entry.ahead.length + 1) ≤ fuel) :
    Bookkeeping frame production entry (production.run frame fuel entry) ∧
      (Production.runWhole frame fuel ⟨entry.ahead, 0, []⟩).result =
        some (Expr.ofTokens frame.maxDepth frame.stop entry.ahead) ∧
      ∀ moment ∈ (Production.runWhole frame fuel ⟨entry.ahead, 0, []⟩).moments,
        ¬ moment.event.IsLost := by
  have hfollows := Production.follows_of_fuel production hdepth hfuel
  have hwhole := Production.ensures_runWhole frame hfuel
  have hreads := Production.reads_outcome frame entry production
  refine ⟨⟨hfollows.outcome?_eq hreads, hfollows.guaranteed, ?_, ?_⟩,
    Production.result_runWhole frame entry.ahead hfuel,
    fun moment hmoment => (hwhole.guaranteed moment hmoment).not_lost⟩
  · intro tree rest hparsed
    rw [hparsed] at hreads
    obtain ⟨hdepth', hgroups⟩ := hreads.restores
    obtain ⟨used, hahead, -⟩ := hreads.exists_yields
    refine ⟨hdepth', hgroups, ⟨used, hahead.symm⟩, ?_⟩
    intro hsame
    exact Nat.ne_of_lt (Production.length_lt_of_reads hreads) (congrArg List.length hsame)
  · intro failure rest hfailed
    rw [hfailed] at hreads
    exact hreads.abandons

/-- The tokens of `2-(-3*(4+`, inside a group that was opened at position 0. -/
def unclosedSample : Reading :=
  ⟨[⟨.number 2, ['2'], 1⟩, ⟨.minus, ['-'], 2⟩, ⟨.opening, ['('], 3⟩, ⟨.minus, ['-'], 4⟩,
    ⟨.number 3, ['3'], 5⟩, ⟨.star, ['*'], 6⟩, ⟨.opening, ['('], 7⟩, ⟨.number 4, ['4'], 8⟩,
    ⟨.plus, ['+'], 9⟩], 1, [0]⟩

/-- Here the tokens end where an operand is due: the levels are closed, and the groups at 3 and 7
are left open. -/
theorem bookkeeping_restored_unclosed :
    unclosedSample.depth ≤ 3 ∧ 5 * (unclosedSample.ahead.length + 1) ≤ 50 ∧
      Bookkeeping ⟨3, 10⟩ .expression unclosedSample
        (Production.expression.run ⟨3, 10⟩ 50 unclosedSample) ∧
      (Production.expression.run ⟨3, 10⟩ 50 unclosedSample).cells.depth = 1 ∧
      (Production.expression.run ⟨3, 10⟩ 50 unclosedSample).cells.openGroups = [7, 3, 0] := by
  have hdepth : unclosedSample.depth ≤ 3 := by decide
  have hfuel : 5 * (unclosedSample.ahead.length + 1) ≤ 50 := by decide
  have hbooks := (bookkeeping_restored ⟨3, 10⟩ .expression unclosedSample hdepth hfuel).1
  exact ⟨hdepth, hfuel, hbooks, by decide +kernel, by decide +kernel⟩

end Calculator.Parse
