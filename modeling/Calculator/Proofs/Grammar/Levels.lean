import Mathlib.Data.Set.Card
import Calculator.Proofs.Grammar.Outlook

/-!
# Open levels

The groups and unary minuses that are open after a list of kinds, said without
reading the list token by token: a parenthesis or a minus where an operand is
due opens a level, and the level stays open until a factor stands there, that
is, until the group is closed or the operand of the minus is complete.

`stillOpen_iff` shows that the outlook keeps exactly these levels, and
`openLevels_eq_length` counts them.
-/

namespace Calculator.Grammar

/-- Whether an operand is due after a list of kinds. -/
def isOperandDue (kinds : List Token.Kind) : Bool :=
  match kinds.getLast? with
  | some .closing | some (.number _) => false
  | _ => true

/-- Whether the kind at `index` opens a level: it is a unary minus or an opening parenthesis. -/
def Opens (kinds : List Token.Kind) (index : Nat) : Prop :=
  isOperandDue (kinds.take index) = true ∧
    (kinds[index]? = some .minus ∨ kinds[index]? = some .opening)

/-- Whether the kind at `index` opens a level that is not complete: no factor stands there yet. -/
def StillOpen (kinds : List Token.Kind) (index : Nat) : Prop :=
  Opens kinds index ∧ ∀ used, used <+: kinds.drop index → ¬ Is .factor used

/-- The number of levels that are open after a list of kinds. -/
noncomputable def openLevels (kinds : List Token.Kind) : Nat :=
  {index | StillOpen kinds index}.ncard

theorem opens_append_iff {kinds : List Token.Kind} {index : Nat} (hindex : index < kinds.length)
    (more : List Token.Kind) : Opens (kinds ++ more) index ↔ Opens kinds index := by
  simp only [Opens, List.take_append_of_le_length (Nat.le_of_lt hindex),
    List.getElem?_append_left hindex]

theorem StillOpen.of_append {kinds more : List Token.Kind} {index : Nat}
    (h : StillOpen (kinds ++ more) index) (hindex : index < kinds.length) :
    StillOpen kinds index := by
  refine ⟨(opens_append_iff hindex more).1 h.1, fun used hused => h.2 used ?_⟩
  rw [List.drop_append_of_le_length (Nat.le_of_lt hindex)]
  exact hused.trans (List.prefix_append _ _)

namespace Outlook

/-- Where the levels of an outlook were opened. -/
structure Tracks (o : Outlook) (tokens : List Token) : Prop where
  count : o.count = tokens.length
  due : o.operandDue = isOperandDue (tokens.map Token.kind)
  placed : ∀ level ∈ o.levels, tokens[level.index]? = some level.token ∧
    Opens (tokens.map Token.kind) level.index
  sorted : o.levels.Pairwise fun inner outer => outer.index < inner.index

theorem Tracks.index_lt {o : Outlook} {tokens : List Token} (h : o.Tracks tokens) {level : Level}
    (hlevel : level ∈ o.levels) : level.index < tokens.length :=
  (List.getElem?_eq_some_iff.1 (h.placed level hlevel).1).1

theorem tracks_start : start.Tracks [] :=
  ⟨rfl, rfl, by simp [start], by simp [start]⟩

theorem Step.due {o o' : Outlook} {token : Token} (h : Step o token o')
    (tokens : List Token) : o'.operandDue = isOperandDue ((tokens ++ [token]).map Token.kind) := by
  cases h with
  | number | closer => simp [isOperandDue]
  | opener hkind => rcases hkind with hkind | hkind <;> simp [isOperandDue, hkind]
  | @operator _ _ _ op hkind => cases op <;> simp [isOperandDue, hkind, Operator.token]

/-- A level after a step was open before, or it was opened by the token. -/
theorem Step.levels {o o' : Outlook} {token : Token} (h : Step o token o') :
    o'.levels.Sublist o.levels ∨
      (o.operandDue = true ∧ (token.kind = .minus ∨ token.kind = .opening) ∧
        o'.levels = ⟨o.count, token⟩ :: o.levels) := by
  cases h with
  | number => exact .inl (afterOperand_sublist _)
  | opener hkind => exact .inr ⟨rfl, hkind, rfl⟩
  | closer => exact .inl ((afterOperand_sublist _).trans (List.sublist_cons_self _ _))
  | operator hkind => exact .inl (List.Sublist.refl _)

theorem Step.count {o o' : Outlook} {token : Token} (h : Step o token o') :
    o'.count = o.count + 1 := by
  cases h <;> rfl

theorem tracks_step {o o' : Outlook} {tokens : List Token} {token : Token} (h : o.Tracks tokens)
    (hstep : Step o token o') : o'.Tracks (tokens ++ [token]) := by
  have hkept : ∀ level ∈ o.levels, (tokens ++ [token])[level.index]? = some level.token ∧
      Opens ((tokens ++ [token]).map Token.kind) level.index := by
    intro level hlevel
    have hindex := h.index_lt hlevel
    obtain ⟨htoken, hopens⟩ := h.placed level hlevel
    refine ⟨by rw [List.getElem?_append_left hindex, htoken], ?_⟩
    rw [List.map_append]
    exact (opens_append_iff (by simpa using hindex) _).2 hopens
  refine ⟨by simp [hstep.count, h.count], hstep.due tokens, ?_, ?_⟩
  · rcases hstep.levels with hlevels | ⟨hdue, hkind, hlevels⟩
    · exact fun level hlevel => hkept level (hlevels.subset hlevel)
    · rw [hlevels]
      intro level hlevel
      rcases List.mem_cons.1 hlevel with rfl | hlevel
      · rw [h.due] at hdue
        refine ⟨by simp [h.count], ?_, ?_⟩
        · simpa [h.count] using hdue
        · simpa [h.count] using hkind
      · exact hkept level hlevel
  · rcases hstep.levels with hlevels | ⟨hdue, hkind, hlevels⟩
    · exact h.sorted.sublist hlevels
    · rw [hlevels, List.pairwise_cons]
      refine ⟨fun level hlevel => ?_, h.sorted⟩
      rw [h.count]
      exact h.index_lt hlevel

theorem tracks_read {o o' : Outlook} {tokens more : List Token} (h : o.Tracks tokens)
    (hread : o.read? more = some o') : o'.Tracks (tokens ++ more) := by
  induction more generalizing o tokens with
  | nil =>
      cases hread
      simpa using h
  | cons token more ih =>
      rw [read?_cons, Option.bind_eq_some_iff] at hread
      obtain ⟨o₁, hnext, hread⟩ := hread
      have htracks := tracks_step h ((next?_eq_some_iff _ _ _).1 hnext)
      simpa using ih htracks hread

/-- A level after some tokens was open before them, or it was opened by one of them. -/
theorem mem_levels_of_read? {o o' : Outlook} {tokens : List Token} (h : o.read? tokens = some o')
    {level : Level} (hlevel : level ∈ o'.levels) : level ∈ o.levels ∨ o.count ≤ level.index := by
  induction tokens generalizing o with
  | nil =>
      cases h
      exact .inl hlevel
  | cons token more ih =>
      rw [read?_cons, Option.bind_eq_some_iff] at h
      obtain ⟨o₁, hnext, hread⟩ := h
      have hstep := (next?_eq_some_iff _ _ _).1 hnext
      rcases ih hread with hmem | hindex
      · rcases hstep.levels with hlevels | ⟨-, -, hlevels⟩
        · exact .inl (hlevels.subset hmem)
        · rw [hlevels] at hmem
          rcases List.mem_cons.1 hmem with rfl | hmem
          · exact .inr (Nat.le_refl _)
          · exact .inl hmem
      · rw [hstep.count] at hindex
        exact .inr (Nat.le_of_succ_le hindex)

/-- Where a level is open no factor stands: reading the factor would have completed it. -/
theorem stillOpen_of_mem {tokens : List Token} {o : Outlook} (h : start.read? tokens = some o)
    {level : Level} (hlevel : level ∈ o.levels) :
    StillOpen (tokens.map Token.kind) level.index := by
  have htracks : o.Tracks tokens := tracks_read tracks_start h
  have hopens := (htracks.placed level hlevel).2
  refine ⟨hopens, ?_⟩
  rintro used ⟨later, hlater⟩ ⟨tree, depth, hderives⟩
  have hindex := htracks.index_lt hlevel
  rw [← List.map_drop] at hlater
  -- up to the level an operand is due; then the factor is read, and it leaves no level at its start
  obtain ⟨operand, after, hdrop, hoperand, -⟩ := List.map_eq_append_iff.1 hlater.symm
  rw [← List.take_append_drop level.index tokens, hdrop, read?_append,
    Option.bind_eq_some_iff] at h
  obtain ⟨o₁, hbefore, h⟩ := h
  have htracks₁ : o₁.Tracks (tokens.take level.index) := tracks_read tracks_start hbefore
  obtain ⟨count, due, levels⟩ := o₁
  have hdue : due = true := by
    refine htracks₁.due.trans ?_
    rw [List.map_take]
    exact hopens.1
  subst hdue
  rw [read?_append, read?_of_derives hderives hoperand, Option.bind_some] at h
  have hcount : count = level.index := by
    refine htracks₁.count.trans ?_
    rw [List.length_take]
    omega
  rcases mem_levels_of_read? h hlevel with hmem | hlater
  · have hlt := htracks₁.index_lt ((afterOperand_sublist levels).subset hmem)
    rw [List.length_take] at hlt
    omega
  · have hpos : operand ≠ [] := by
      rintro rfl
      exact derives_ne_nil hderives hoperand.symm
    have := List.length_pos_iff.2 hpos
    dsimp only at hlater
    omega

end Outlook

/-- A factor completes the unary minuses that `afterOperand` leaves out. -/
theorem Awaits.is_factor {levels : List Level} {tokens : List Token} (h : Awaits levels tokens)
    {operand : List Token} (hoperand : Is .factor (operand.map Token.kind)) {level : Level}
    (hlevel : level ∈ levels) (hcomplete : level ∉ afterOperand levels) :
    Is .factor (((tokens ++ operand).drop level.index).map Token.kind) := by
  induction h generalizing operand with
  | base htokens => cases hlevel
  | @minus levels before token hkind hbefore ih =>
      have hminus : Is .factor ((token :: operand).map Token.kind) := by
        simpa [hkind] using is_factor_neg hoperand
      rw [List.append_assoc, List.singleton_append]
      rcases List.mem_cons.1 hlevel with rfl | hlevel
      · rwa [List.drop_left]
      · rw [afterOperand_minus hkind] at hcomplete
        exact ih hminus hlevel hcomplete
  | group hkind hbefore hinner ih =>
      rw [afterOperand_opening hkind] at hcomplete
      exact absurd hlevel hcomplete

namespace Outlook

/-- A level that a token completes: a factor that ends with the token stands there. -/
theorem Step.is_factor {o o' : Outlook} {tokens : List Token} {token : Token}
    (h : Step o token o') (hfits : o.Fits tokens) {level : Level} (hlevel : level ∈ o.levels)
    (hcomplete : level ∉ o'.levels) :
    Is .factor (((tokens ++ [token]).drop level.index).map Token.kind) := by
  cases h with
  | @number _ _ value lexeme start =>
      have hnumber : Is .factor ([(⟨.number value, lexeme, start⟩ : Token)].map Token.kind) :=
        is_factor_number value
      exact (hfits.awaits rfl).is_factor hnumber hlevel hcomplete
  | opener hkind => exact absurd (List.mem_cons_of_mem _ hlevel) hcomplete
  | operator hkind => exact absurd hlevel hcomplete
  | @closer _ _ _ lexeme start =>
      cases hfits.holds rfl with
      | @group levels before inner token hkind hbefore hinner =>
          have hgroup : Is .factor
              ((token :: inner ++ [(⟨.closing, lexeme, start⟩ : Token)]).map Token.kind) := by
            simpa [hkind] using is_factor_group hinner
          rw [List.append_assoc]
          rcases List.mem_cons.1 hlevel with rfl | hlevel
          · rwa [List.drop_left]
          · exact hbefore.is_factor hgroup hlevel hcomplete

theorem mem_of_stillOpen {tokens : List Token} {o : Outlook} (h : start.read? tokens = some o)
    {index : Nat} (hopen : StillOpen (tokens.map Token.kind) index) :
    ∃ level ∈ o.levels, level.index = index := by
  induction tokens using List.reverseRecOn generalizing o with
  | nil => simp [StillOpen, Opens] at hopen
  | append_singleton tokens token ih =>
      rw [read?_append, Option.bind_eq_some_iff] at h
      obtain ⟨o₁, hread, hnext⟩ := h
      rw [read?_cons, Option.bind_eq_some_iff] at hnext
      obtain ⟨o₂, hnext, hdone⟩ := hnext
      cases hdone
      have hstep := (next?_eq_some_iff _ _ _).1 hnext
      rw [List.map_append] at hopen
      by_cases hindex : index < tokens.length
      · obtain ⟨level, hlevel, rfl⟩ := ih hread (hopen.of_append (by simpa using hindex))
        refine ⟨level, ?_, rfl⟩
        by_contra hcomplete
        have hfactor := hstep.is_factor (fits_read fits_start hread) hlevel hcomplete
        rw [List.nil_append, List.map_drop, List.map_append] at hfactor
        exact hopen.2 _ (List.prefix_refl _) hfactor
      · have hlength : index = tokens.length := by
          obtain ⟨-, hkind | hkind⟩ := hopen.1 <;>
            have hlt := (List.getElem?_eq_some_iff.1 hkind).1 <;>
            simp only [List.length_append, List.length_map, List.length_singleton] at hlt <;>
            omega
        subst hlength
        obtain ⟨hdue, hkind⟩ := hopen.1
        have htracks : o₁.Tracks tokens := tracks_read tracks_start hread
        have hdue₁ : o₁.operandDue = true := by
          rw [htracks.due]
          simpa using hdue
        have hkind : token.kind = .minus ∨ token.kind = .opening := by simpa using hkind
        cases hstep with
        | number => simp at hkind
        | opener => exact ⟨_, List.mem_cons_self, htracks.count⟩
        | closer | operator => cases hdue₁

theorem stillOpen_iff {tokens : List Token} {o : Outlook} (h : start.read? tokens = some o)
    (index : Nat) :
    StillOpen (tokens.map Token.kind) index ↔ ∃ level ∈ o.levels, level.index = index := by
  constructor
  · exact mem_of_stillOpen h
  · rintro ⟨level, hlevel, rfl⟩
    exact stillOpen_of_mem h hlevel

theorem openLevels_eq_length {tokens : List Token} {o : Outlook}
    (h : start.read? tokens = some o) :
    openLevels (tokens.map Token.kind) = o.levels.length := by
  have hset : {index | StillOpen (tokens.map Token.kind) index} =
      ((o.levels.map Level.index).toFinset : Set Nat) := by
    ext index
    simp [stillOpen_iff h]
  have hsorted := (tracks_read tracks_start h).sorted
  have hnodup : (o.levels.map Level.index).Nodup :=
    List.pairwise_map.2 (hsorted.imp fun hlt => (Nat.ne_of_lt hlt).symm)
  rw [openLevels, hset, Set.ncard_coe_finset, List.toFinset_card_of_nodup hnodup, List.length_map]

end Outlook

end Calculator.Grammar
