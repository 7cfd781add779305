import Calculator.Proofs.Screen

/-!
# What a failure points at

A failure that has a position says something about the text there, and what it
quotes is taken from the text.  `PointsAt text position failure` lists both,
one constructor for each thing that can be pointed at; an evaluation reports no
other failure with a position (`pointsAt_of_evaluate`).

No failure but that of a foreign character quotes anything that could not stand
in an expression (`failure_points_at`).
-/

namespace Calculator

open Alphabet (isAllowed isAllowed_eq isForeign isSymbol)
open Failure (endOfInput quoted)
open Text (dropBlanks isBlank)
open Token (RunAt)

/-- `PointsAt text position failure`: what a failure says of a position in a text. -/
inductive PointsAt (text : List Char) (position : Nat) : Failure → Prop
  | foreignCharacter {c : Char} (hc : text[position]? = some c) (hforeign : isForeign c = true) :
      PointsAt text position (.foreignCharacter c position)
  | malformedNumeral {run : List Char} (hrun : RunAt text position run)
      (hform : ¬ Numeral.WellFormed (dropBlanks run)) :
      PointsAt text position (.malformedNumeral (String.ofList (dropBlanks run)) position)
  | unexpectedSymbol {c : Char} (hc : text[position]? = some c) (hsymbol : isSymbol c = true) :
      PointsAt text position (.unexpected (quoted [c]) position)
  | unexpectedNumeral {run : List Char} (hrun : RunAt text position run) :
      PointsAt text position (.unexpected (quoted run) position)
  | unexpectedEnd (hend : position = text.length) :
      PointsAt text position (.unexpected endOfInput position)
  | unbalanced {c : Char} (hc : text[position]? = some c) (hparen : c = '(' ∨ c = ')') :
      PointsAt text position (.unbalanced position)
  | tooDeep {c : Char} {limit : Nat} (hc : text[position]? = some c) (hopens : c = '(' ∨ c = '-') :
      PointsAt text position (.tooDeep limit position)

/-- `failure.Quotes excerpt`: a failure repeats some characters of the text. -/
inductive Failure.Quotes : Failure → List Char → Prop
  | foreignCharacter (c : Char) (position : Nat) : Quotes (.foreignCharacter c position) [c]
  | malformedNumeral (numeral : String) (position : Nat) :
      Quotes (.malformedNumeral numeral position) numeral.toList
  | unexpected (lexeme : List Char) (position : Nat) :
      Quotes (.unexpected (quoted lexeme) position) lexeme

/-! ## Quotations -/

theorem toList_quoted (lexeme : List Char) : (quoted lexeme).toList = '\'' :: lexeme ++ ['\''] := by
  simp [quoted]

theorem quoted_injective {lexeme lexeme' : List Char} (h : quoted lexeme = quoted lexeme') :
    lexeme = lexeme' := by
  have hlist := congrArg String.toList h
  rw [toList_quoted, toList_quoted] at hlist
  exact List.append_cancel_right (List.cons.inj hlist).2

/-- The end of the input is no quotation. -/
theorem quoted_ne_endOfInput (lexeme : List Char) : quoted lexeme ≠ endOfInput := by
  intro h
  have hlist := congrArg String.toList h
  have hend : endOfInput.toList = 'e' :: "nd of input".toList := by decide
  rw [toList_quoted, hend] at hlist
  exact absurd (List.cons.inj hlist).1 (by decide)

/-! ## Where failures point -/

namespace PointsAt

variable {text : List Char} {position : Nat} {failure : Failure}

/-- There is a character, and it is no blank, unless the text ends there. -/
theorem ends_or_exists (h : PointsAt text position failure) :
    (failure = .unexpected endOfInput position ∧ position = text.length) ∨
      ∃ c, text[position]? = some c ∧ isBlank c = false := by
  cases h with
  | foreignCharacter hc hforeign =>
      exact .inr ⟨_, hc, ((Token.isForeign_iff _).1 hforeign).1⟩
  | malformedNumeral hrun | unexpectedNumeral hrun =>
      obtain ⟨c, hc, hnumeral⟩ := hrun.exists_getElem?
      exact .inr ⟨c, hc, Token.isBlank_of_isNumeral hnumeral⟩
  | unexpectedSymbol hc hsymbol => exact .inr ⟨_, hc, Token.isBlank_of_isSymbol hsymbol⟩
  | unexpectedEnd hend => exact .inl ⟨rfl, hend⟩
  | unbalanced hc hparen => exact .inr ⟨_, hc, by rcases hparen with rfl | rfl <;> decide⟩
  | tooDeep hc hopens => exact .inr ⟨_, hc, by rcases hopens with rfl | rfl <;> decide⟩

theorem le_length (h : PointsAt text position failure) : position ≤ text.length := by
  rcases h.ends_or_exists with ⟨-, hend⟩ | ⟨c, hc, -⟩
  · exact Nat.le_of_eq hend
  · exact Nat.le_of_lt (List.getElem?_eq_some_iff.1 hc).1

/-- What is quoted belongs to the alphabet, unless it is quoted for being foreign. -/
theorem allowed_of_quotes (h : PointsAt text position failure)
    (hforeign : ∀ c other, failure ≠ .foreignCharacter c other) {excerpt : List Char}
    (hquotes : failure.Quotes excerpt) :
    ∀ c ∈ excerpt, isAllowed c = true ∨ isBlank c = true := by
  cases hquotes with
  | foreignCharacter c other => exact absurd rfl (hforeign c other)
  | malformedNumeral numeral other =>
      cases h with
      | malformedNumeral hrun hform =>
          rw [String.toList_ofList]
          exact hrun.isRun.dropBlanks.allowed
  | unexpected lexeme other =>
      generalize hfound : quoted excerpt = found at h
      cases h with
      | unexpectedSymbol hc hsymbol =>
          obtain rfl := quoted_injective hfound
          intro c hmem
          obtain rfl := List.mem_singleton.1 hmem
          exact .inl (by rw [isAllowed_eq, hsymbol, Bool.or_true])
      | unexpectedNumeral hrun =>
          obtain rfl := quoted_injective hfound
          exact hrun.isRun.allowed
      | unexpectedEnd => exact absurd hfound (quoted_ne_endOfInput excerpt)

end PointsAt

theorem pointsAt_of_fault {text : List Char} {position : Nat} {failure : Failure}
    (h : Token.Fault text position failure) :
    failure.position? = some position ∧ PointsAt text position failure := by
  cases h with
  | foreign hc hforeign => exact ⟨rfl, .foreignCharacter hc hforeign⟩
  | malformed hrun hform =>
      obtain ⟨raw, hraw, rfl⟩ := Token.exists_runAt_of_dropBlanks hrun
      exact ⟨rfl, .malformedNumeral hraw hform⟩

section Tokens

variable {text : List Char} {tokens : List Token}

theorem pointsAt_quoted (htiles : Token.Tiles 0 text tokens) {token : Token}
    (htoken : token ∈ tokens) :
    PointsAt text token.start (.unexpected (quoted token.lexeme) token.start) := by
  rcases htiles.placed htoken with ⟨c, hlexeme, hc, hkind⟩ | ⟨-, hrun⟩
  · rw [hlexeme]
    exact .unexpectedSymbol hc (Token.isSymbol_of_ofSymbol? hkind)
  · exact .unexpectedNumeral hrun

/-- The kind that the grammar sees is the kind of the token. -/
theorem kind_of_getElem? {index : Nat} {token : Token} {kind : Token.Kind}
    (htoken : tokens[index]? = some token)
    (hkind : (tokens.map Token.kind)[index]? = some kind) : token.kind = kind := by
  rw [List.getElem?_map, htoken] at hkind
  exact Option.some.inj hkind

theorem pointsAt_of_blamed (htiles : Token.Tiles 0 text tokens) {maxDepth position : Nat}
    {failure : Failure} (h : Parse.Blamed maxDepth text.length tokens failure)
    (hposition : failure.position? = some position) : PointsAt text position failure := by
  cases h with
  | empty => cases hposition
  | @tooDeep index token hfirst htoken hdeep =>
      cases hposition
      have hmem := List.mem_of_getElem? htoken
      rcases hdeep.1.2 with hkind | hkind
      · exact .tooDeep (htiles.getElem?_of_kind hmem (by rw [kind_of_getElem? htoken hkind]; rfl))
          (.inr rfl)
      · exact .tooDeep (htiles.getElem?_of_kind hmem (by rw [kind_of_getElem? htoken hkind]; rfl))
          (.inl rfl)
  | @stray index token hfirst htoken hstuck hclosing hgroup =>
      cases hposition
      exact .unbalanced (htiles.getElem?_of_kind (List.mem_of_getElem? htoken)
        (by rw [hclosing]; rfl)) (.inr rfl)
  | misfit hfirst htoken hstuck hother =>
      cases hposition
      exact pointsAt_quoted htiles (List.mem_of_getElem? htoken)
  | @unclosed index token hfirst htoken hgroup =>
      cases hposition
      exact .unbalanced (htiles.getElem?_of_kind (List.mem_of_getElem? htoken)
        (by rw [kind_of_getElem? htoken hgroup.1.1]; rfl)) (.inl rfl)
  | ended =>
      cases hposition
      exact .unexpectedEnd rfl

end Tokens

theorem pointsAt_of_evaluate {limits : Limits} {source : String} {failure : Failure}
    {position : Nat} (h : evaluate limits source = .error failure)
    (hposition : failure.position? = some position) :
    PointsAt source.toList position failure := by
  cases (evaluate_eq_error_iff ..).1 h with
  | length => cases hposition
  | tokens hlength hscan =>
      obtain ⟨other, hfault⟩ := Token.exists_fault_of_screenAndScan hscan
      obtain ⟨hother, hpoints⟩ := pointsAt_of_fault hfault
      obtain rfl := Option.some.inj (hother.symm.trans hposition)
      exact hpoints
  | tree hlength hscan hblamed =>
      rw [← String.length_toList] at hblamed
      exact pointsAt_of_blamed (Token.tiles_of_screenAndScan hscan) hblamed hposition
  | value hlength hscan htree hvalue =>
      rcases Expr.failure_of_value hvalue with rfl | rfl <;> cases hposition

/-- What is quoted stands at a position. -/
theorem Failure.Quotes.exists_position {failure : Failure} {excerpt : List Char}
    (h : failure.Quotes excerpt) : ∃ position, failure.position? = some position := by
  cases h <;> exact ⟨_, rfl⟩

/-- A failure with a position speaks of the text at that position, which is a character of the text
and no blank unless the text ends there; and it quotes nothing foreign unless it reports that. -/
theorem failure_points_at {limits : Limits} {source : String} {failure : Failure}
    (h : evaluate limits source = .error failure) :
    (∀ position, failure.position? = some position →
      position ≤ source.length ∧ PointsAt source.toList position failure ∧
      ((∀ other, failure ≠ .unexpected endOfInput other) → position < source.length ∧
        ∃ c, source.toList[position]? = some c ∧ isBlank c = false)) ∧
    ((∀ c other, failure ≠ .foreignCharacter c other) → ∀ excerpt, failure.Quotes excerpt →
      ∀ c ∈ excerpt, isAllowed c = true ∨ isBlank c = true) := by
  constructor
  · intro position hposition
    have hpoints := pointsAt_of_evaluate h hposition
    refine ⟨String.length_toList ▸ hpoints.le_length, hpoints, fun hend => ?_⟩
    rcases hpoints.ends_or_exists with ⟨hended, -⟩ | ⟨c, hc, hblank⟩
    · exact absurd hended (hend position)
    · exact ⟨String.length_toList ▸ (List.getElem?_eq_some_iff.1 hc).1, c, hc, hblank⟩
  · intro hforeign excerpt hquotes
    obtain ⟨position, hposition⟩ := hquotes.exists_position
    exact (pointsAt_of_evaluate h hposition).allowed_of_quotes hforeign hquotes

theorem failure_points_at_numeral :
    evaluate {} "(1) 2 .5" = .error (.unexpected (quoted "2 .5".toList) 4) ∧
    PointsAt "(1) 2 .5".toList 4 (.unexpected (quoted "2 .5".toList) 4) ∧
    (4 < "(1) 2 .5".length ∧ ∃ c, "(1) 2 .5".toList[4]? = some c ∧ isBlank c = false) ∧
    ∀ c ∈ "2 .5".toList, isAllowed c = true ∨ isBlank c = true := by
  have hresult : evaluate {} "(1) 2 .5" = .error (.unexpected (quoted "2 .5".toList) 4) := by
    decide +kernel
  have hend : ∀ other,
      Failure.unexpected (quoted "2 .5".toList) 4 ≠ .unexpected endOfInput other := by
    intro other h
    exact quoted_ne_endOfInput _ (Failure.unexpected.inj h).1
  obtain ⟨hposition, hquotes⟩ := failure_points_at hresult
  obtain ⟨-, hpoints, hinside⟩ := hposition 4 rfl
  exact ⟨hresult, hpoints, hinside hend, hquotes nofun _ (.unexpected _ _)⟩

end Calculator
