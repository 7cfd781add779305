import Calculator.Proofs.Scan.Fault

/-!
# Tokens tile the text

`Tiles start text tokens` says that a text consists of blanks and of the lexemes
of some tokens, in their order.  What makes a lexeme the lexeme of its token is
said by `Spells`: a symbol is one character, and a number is a run that does not
go on behind it.

* `scanFrom_eq_ok_iff`: the tokens of a text are those that tile it.
* `Tiles.exists_split`: where a token stands in the text, with what is before it
  and behind it.
* `Tiles.ordered`, `Tiles.covered`, `Tiles.separated`: how the tokens lie to each
  other.
-/

namespace Calculator.Token

open Text (dropBlanks dropBlanks_cons_of_blank isBlank)

/-- `Spells rest token`: the lexeme of a token writes it, where `rest` comes next. -/
inductive Spells (rest : List Char) : Token → Prop
  | symbol {c : Char} {kind : Kind} {start : Nat} (hkind : Kind.ofSymbol? c = some kind) :
      Spells rest ⟨kind, [c], start⟩
  | number {run : List Char} {numeral : Numeral} {start : Nat} (hrun : IsRun run)
      (hapart : Apart run rest) (hread : Numeral.read? (dropBlanks run) = some numeral) :
      Spells rest ⟨.number numeral.value, run, start⟩

/-- `Tiles start text tokens`: a text, whose first character has position `start`, consists of
blanks and of the lexemes of `tokens`. -/
inductive Tiles : Nat → List Char → List Token → Prop
  | nil {start : Nat} : Tiles start [] []
  | blank {start : Nat} {c : Char} {rest : List Char} {tokens : List Token}
      (hblank : isBlank c = true) (hrest : Tiles (start + 1) rest tokens) :
      Tiles start (c :: rest) tokens
  | token {token : Token} {rest : List Char} {tokens : List Token} (htoken : Spells rest token)
      (hrest : Tiles token.stop rest tokens) :
      Tiles token.start (token.lexeme ++ rest) (token :: tokens)

/-! ## The scanner and the tilings -/

theorem map_eq_ok_iff {α β : Type} {result : Except Failure α} (f : α → β) (b : β) :
    result.map f = .ok b ↔ ∃ a, result = .ok a ∧ f a = b := by
  cases result <;> simp [Except.map]

theorem tiles_of_scanFrom {start : Nat} {text : List Char} {tokens : List Token}
    (h : scanFrom start text = .ok tokens) : Tiles start text tokens := by
  induction text using pieces_induction generalizing start tokens with
  | nil =>
      rw [scanFrom] at h
      cases h
      exact .nil
  | blank c rest hblank ih =>
      rw [scanFrom_blank hblank] at h
      exact .blank hblank (ih h)
  | symbol c kind rest hkind ih =>
      have hblank := isBlank_of_isSymbol (isSymbol_of_ofSymbol? hkind)
      rw [scanFrom_symbol hblank hkind, map_eq_ok_iff] at h
      obtain ⟨tokens, hscan, rfl⟩ := h
      have hspells : Spells rest ⟨kind, [c], start⟩ := .symbol hkind
      exact .token hspells (ih hscan)
  | run run rest hrun hapart ih =>
      rw [scanFrom_run hrun hapart] at h
      cases hread : Numeral.read? (dropBlanks run) with
      | none => simp [hread] at h
      | some numeral =>
          simp only [hread, map_eq_ok_iff] at h
          obtain ⟨tokens, hscan, rfl⟩ := h
          have hspells : Spells rest ⟨.number numeral.value, run, start⟩ :=
            .number hrun hapart hread
          exact .token hspells (ih hscan)
  | foreign c rest hforeign ih =>
      rw [scanFrom_of_isForeign hforeign] at h
      cases h

theorem scanFrom_of_tiles {start : Nat} {text : List Char} {tokens : List Token}
    (h : Tiles start text tokens) : scanFrom start text = .ok tokens := by
  induction h with
  | nil => rw [scanFrom]
  | blank hblank hrest ih => rw [scanFrom_blank hblank, ih]
  | token htoken hrest ih =>
      cases htoken with
      | @symbol c kind start hkind =>
          have hblank := isBlank_of_isSymbol (isSymbol_of_ofSymbol? hkind)
          rw [List.singleton_append, scanFrom_symbol hblank hkind]
          exact (map_eq_ok_iff _ _).2 ⟨_, ih, rfl⟩
      | number hrun hapart hread =>
          rw [scanFrom_run hrun hapart, hread]
          exact (map_eq_ok_iff _ _).2 ⟨_, ih, rfl⟩

/-- The tokens of a text are the tokens that tile it. -/
theorem scanFrom_eq_ok_iff (start : Nat) (text : List Char) (tokens : List Token) :
    scanFrom start text = .ok tokens ↔ Tiles start text tokens :=
  ⟨tiles_of_scanFrom, scanFrom_of_tiles⟩

/-! ## One token -/

section Spelling

variable {rest : List Char} {token : Token}

theorem Spells.apart (h : Spells rest token) : Apart token.lexeme rest := by
  cases h with
  | symbol hkind =>
      exact apart_singleton_left (isNumeral_of_isSymbol (isSymbol_of_ofSymbol? hkind)) rest
  | number hrun hapart hread => exact hapart

/-- A lexeme does not begin with a blank. -/
theorem Spells.exists_cons (h : Spells rest token) :
    ∃ c more, token.lexeme = c :: more ∧ isBlank c = false := by
  cases h with
  | @symbol c _ _ hkind =>
      exact ⟨c, [], rfl, isBlank_of_isSymbol (isSymbol_of_ofSymbol? hkind)⟩
  | number hrun hapart hread =>
      obtain ⟨c, more, hfirst, hc⟩ := hrun.first
      exact ⟨c, more, hfirst, isBlank_of_isNumeral hc⟩

/-- A lexeme does not end with a blank. -/
theorem Spells.exists_concat (h : Spells rest token) :
    ∃ before c, token.lexeme = before ++ [c] ∧ isBlank c = false := by
  cases h with
  | @symbol c _ _ hkind =>
      exact ⟨[], c, rfl, isBlank_of_isSymbol (isSymbol_of_ofSymbol? hkind)⟩
  | number hrun hapart hread =>
      obtain ⟨before, c, hlast, hc⟩ := hrun.last
      exact ⟨before, c, hlast, isBlank_of_isNumeral hc⟩

theorem Spells.start_lt_stop (h : Spells rest token) : token.start < token.stop := by
  obtain ⟨c, more, hcons, -⟩ := h.exists_cons
  rw [stop, hcons, List.length_cons]
  omega

end Spelling

/-! ## The tokens of a tiling -/

section Tiling

variable {start : Nat} {text : List Char} {tokens : List Token}

/-- Where a token stands: no run goes on from what is before it to its lexeme. -/
theorem Tiles.exists_split (h : Tiles start text tokens) {token : Token} (htoken : token ∈ tokens) :
    ∃ before after, text = before ++ (token.lexeme ++ after) ∧
      token.start = start + before.length ∧ Apart before token.lexeme ∧ Spells after token := by
  induction h with
  | nil => cases htoken
  | @blank start c rest tokens hblank hrest ih =>
      obtain ⟨before, after, rfl, hstart, hapart, hspells⟩ := ih htoken
      refine ⟨c :: before, after, rfl, by rw [hstart, List.length_cons]; omega, ?_, hspells⟩
      rw [← List.singleton_append, apart_append_left]
      exact ⟨hapart, fun _ => apart_singleton_left (isNumeral_of_isBlank hblank) _⟩
  | @token first rest tokens hfirst hrest ih =>
      rcases List.mem_cons.1 htoken with rfl | htoken
      · exact ⟨[], rest, rfl, rfl, apart_nil_left _, hfirst⟩
      · obtain ⟨before, after, rfl, hstart, hapart, hspells⟩ := ih htoken
        refine ⟨first.lexeme ++ before, after, by rw [List.append_assoc], ?_, ?_, hspells⟩
        · rw [hstart, stop, List.length_append, Nat.add_assoc]
        · rw [apart_append_left]
          refine ⟨hapart, fun hblanks => ?_⟩
          exact ((apart_append_right ..).1 (((apart_append_right ..).1 hfirst.apart).2 hblanks)).1

theorem Tiles.start_le (h : Tiles start text tokens) {token : Token} (htoken : token ∈ tokens) :
    start ≤ token.start := by
  obtain ⟨before, after, -, hstart, -⟩ := h.exists_split htoken
  omega

theorem Tiles.ordered (h : Tiles start text tokens) :
    tokens.Pairwise fun token token' => token.stop ≤ token'.start := by
  induction h with
  | nil => exact .nil
  | blank hblank hrest ih => exact ih
  | token htoken hrest ih => exact .cons (fun _ hlater => hrest.start_le hlater) ih

theorem Tiles.sorted (h : Tiles start text tokens) :
    tokens.Pairwise fun token token' => token.start < token'.start := by
  refine h.ordered.imp_of_mem fun htoken _ hle => ?_
  obtain ⟨before, after, -, -, -, hspells⟩ := h.exists_split htoken
  exact Nat.lt_of_lt_of_le hspells.start_lt_stop hle

/-- Every character that is no blank belongs to a token. -/
theorem Tiles.covered (h : Tiles start text tokens) {index : Nat} {c : Char}
    (hc : text[index]? = some c) (hblank : isBlank c = false) :
    ∃ token ∈ tokens, token.start ≤ start + index ∧ start + index < token.stop := by
  induction h generalizing index with
  | nil => cases hc
  | blank hblank' hrest ih =>
      cases index with
      | zero =>
          cases hc
          cases hblank'.symm.trans hblank
      | succ index =>
          obtain ⟨token, htoken, hfrom, hto⟩ := ih hc
          exact ⟨token, htoken, by omega, by omega⟩
  | @token first rest tokens hfirst hrest ih =>
      by_cases hindex : index < first.lexeme.length
      · exact ⟨first, List.mem_cons_self, by omega, by rw [stop]; omega⟩
      · obtain ⟨index, rfl⟩ := Nat.exists_eq_add_of_le (Nat.le_of_not_lt hindex)
        rw [List.getElem?_append_right (Nat.le_add_right ..), Nat.add_sub_cancel_left] at hc
        obtain ⟨token, htoken, hfrom, hto⟩ := ih hc
        rw [stop] at hfrom hto
        exact ⟨token, List.mem_cons_of_mem _ htoken, by omega, by omega⟩

/-- The first token begins with the first character that is no blank. -/
theorem Tiles.exists_head {token : Token} (h : Tiles start text (token :: tokens)) :
    ∃ before after, text = before ++ (token.lexeme ++ after) ∧ dropBlanks before = [] ∧
      Spells after token := by
  generalize hcons : token :: tokens = all at h
  induction h with
  | nil => cases hcons
  | blank hblank hrest ih =>
      obtain ⟨before, after, rfl, hblanks, hspells⟩ := ih hcons
      exact ⟨_ :: before, after, rfl, by rw [dropBlanks_cons_of_blank hblank, hblanks], hspells⟩
  | @token first rest _ hfirst hrest ih =>
      cases hcons
      exact ⟨[], rest, rfl, rfl, hfirst⟩

end Tiling

/-- Whether a token is a number. -/
def IsNumber (token : Token) : Prop :=
  ∃ value, token.kind = .number value

theorem ofSymbol?_ne_number (c : Char) (value : Float) :
    Kind.ofSymbol? c ≠ some (.number value) := by
  unfold Kind.ofSymbol?
  split <;> simp

/-- A token names its character. -/
theorem ofSymbol?_injective {c d : Char} {kind : Kind} (hc : Kind.ofSymbol? c = some kind)
    (hd : Kind.ofSymbol? d = some kind) : c = d := by
  unfold Kind.ofSymbol? at hc
  unfold Kind.ofSymbol? at hd
  split at hc <;> cases hc <;> split at hd <;> first | rfl | cases hd

/-- The lexeme of a number is a run, and its numeral has the value of the token. -/
theorem Spells.of_number {rest : List Char} {token : Token} (h : Spells rest token) {value : Float}
    (hvalue : token.kind = .number value) :
    IsRun token.lexeme ∧
      ∃ numeral, Numeral.read? (dropBlanks token.lexeme) = some numeral ∧
        value = numeral.value := by
  cases h with
  | @symbol c kind _ hkind =>
      obtain rfl : kind = .number value := hvalue
      exact absurd hkind (ofSymbol?_ne_number c value)
  | number hrun hapart hread =>
      cases hvalue
      exact ⟨hrun, _, hread, rfl⟩

section Placed

variable {text : List Char} {tokens : List Token} {token : Token}

/-- A token stands where it says: it is the character there or the run that begins there. -/
theorem Tiles.placed (h : Tiles 0 text tokens) (htoken : token ∈ tokens) :
    (∃ c, token.lexeme = [c] ∧ text[token.start]? = some c ∧
        Kind.ofSymbol? c = some token.kind) ∨
      (token.IsNumber ∧ RunAt text token.start token.lexeme) := by
  obtain ⟨before, after, rfl, hstart, hapart, hspells⟩ := h.exists_split htoken
  rw [Nat.zero_add] at hstart
  rw [hstart]
  cases hspells with
  | @symbol c _ _ hkind => exact .inl ⟨c, rfl, by simp, hkind⟩
  | number hrun hafter hread => exact .inr ⟨⟨_, rfl⟩, hrun, before, after, rfl, rfl, hapart, hafter⟩

/-- Where a symbol stands there is its character. -/
theorem Tiles.getElem?_of_kind (h : Tiles 0 text tokens) (htoken : token ∈ tokens) {c : Char}
    (hkind : Kind.ofSymbol? c = some token.kind) : text[token.start]? = some c := by
  rcases h.placed htoken with ⟨d, -, hd, hkind'⟩ | ⟨⟨value, hvalue⟩, -⟩
  · rw [hd, ofSymbol?_injective hkind' hkind]
  · rw [hvalue] at hkind
    exact absurd hkind (ofSymbol?_ne_number c value)

end Placed

/-- No two numbers are next to each other. -/
theorem Tiles.separated {start : Nat} {text : List Char} {tokens : List Token}
    (h : Tiles start text tokens) :
    tokens.IsChain fun token token' => ¬ (token.IsNumber ∧ token'.IsNumber) := by
  induction h with
  | nil => exact .nil
  | blank hblank hrest ih => exact ih
  | @token token rest tokens htoken hrest ih =>
      cases tokens with
      | nil => exact .singleton _
      | cons token' tokens =>
          refine .cons_cons ?_ ih
          rintro ⟨⟨value, hvalue⟩, ⟨value', hvalue'⟩⟩
          obtain ⟨before, after, rfl, hblanks, hspells⟩ := hrest.exists_head
          -- the two runs would be one
          have hapart := ((apart_append_right ..).1
            (((apart_append_right ..).1 htoken.apart).2 hblanks)).1
          obtain ⟨c, hc, hnumeral⟩ := (hspells.of_number hvalue').1.head?_dropBlanks
          have hno := (apart_iff_of_isRun (htoken.of_number hvalue).1 _).1 hapart c hc
          cases hnumeral.symm.trans hno

end Calculator.Token
