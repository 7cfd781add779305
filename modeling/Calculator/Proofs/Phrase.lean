import Calculator.Proofs.Limits
import Calculator.Proofs.Scan.Append

/-!
# Texts that write a phrase

`Grammar.Writes symbol text tree levels` puts the scanner and the grammar
together: the tokens of the text are derived from a symbol, with a tree and a
nesting.  A text is read as a tree exactly if it writes an expression with this
tree within the limit (`Expr.read_eq_ok_iff`).

The rules of the grammar hold for texts as they do for tokens.  Each of them
joins its parts with a symbol between them, across which no run of digits and
dots goes on.
-/

namespace Calculator

open Text (isBlank)

namespace Operator

theorem ofSymbol?_symbol (op : Operator) : Token.Kind.ofSymbol? op.symbol = some op.token := by
  cases op <;> rfl

end Operator

namespace Grammar

/-- `Writes symbol text tree levels`: a text writes a phrase of the grammar. -/
def Writes (symbol : Symbol) (text : List Char) (tree : Expr) (levels : Nat) : Prop :=
  ∃ kinds, Token.Writes text kinds ∧ Derives symbol kinds tree levels

namespace Writes

variable {text text' : List Char} {tree left right : Expr} {levels levels' : Nat}

/-! ## Phrases that are written alike -/

theorem factor_of_primary (h : Writes .primary text tree levels) :
    Writes .factor text tree levels := by
  obtain ⟨kinds, hkinds, hderives⟩ := h
  exact ⟨kinds, hkinds, .factor_primary hderives⟩

theorem term_of_factor (h : Writes .factor text tree levels) : Writes .term text tree levels := by
  obtain ⟨kinds, hkinds, hderives⟩ := h
  exact ⟨kinds, hkinds, .term_factor hderives⟩

theorem expression_of_term (h : Writes .term text tree levels) :
    Writes .expression text tree levels := by
  obtain ⟨kinds, hkinds, hderives⟩ := h
  exact ⟨kinds, hkinds, .expression_term hderives⟩

/-- A number or a group may stand anywhere. -/
theorem of_primary (h : Writes .primary text tree levels) (symbol : Symbol) :
    Writes symbol text tree levels := by
  cases symbol with
  | primary => exact h
  | factor => exact h.factor_of_primary
  | term => exact h.factor_of_primary.term_of_factor
  | expression => exact h.factor_of_primary.term_of_factor.expression_of_term

/-! ## The rules -/

theorem number {numeral : Numeral} (hread : Numeral.read? text = some numeral) :
    Writes .primary text (.number numeral.value) 0 :=
  ⟨_, .numeral hread, .primary_number _⟩

theorem group (h : Writes .expression text tree levels) :
    Writes .primary ('(' :: text ++ [')']) tree (levels + 1) := by
  obtain ⟨kinds, hkinds, hderives⟩ := h
  have hclosed : Token.Writes (text ++ [')']) (kinds ++ [.closing]) := hkinds.around rfl .nil
  exact ⟨_, Token.Writes.nil.around rfl hclosed, .primary_group hderives⟩

theorem neg (h : Writes .factor text tree levels) :
    Writes .factor ('-' :: text) (.neg tree) (levels + 1) := by
  obtain ⟨kinds, hkinds, hderives⟩ := h
  exact ⟨_, Token.Writes.nil.around rfl hkinds, .factor_neg hderives⟩

theorem sum {op : Operator} (hop : op = .add ∨ op = .sub)
    (hleft : Writes .expression text left levels) (hright : Writes .term text' right levels') :
    Writes .expression (text ++ op.symbol :: text') (.binary op left right)
      (max levels levels') := by
  obtain ⟨kinds, hkinds, hderives⟩ := hleft
  obtain ⟨kinds', hkinds', hderives'⟩ := hright
  exact ⟨_, hkinds.around op.ofSymbol?_symbol hkinds', .expression_chain hop hderives hderives'⟩

theorem product {op : Operator} (hop : op = .mul ∨ op = .div)
    (hleft : Writes .term text left levels) (hright : Writes .factor text' right levels') :
    Writes .term (text ++ op.symbol :: text') (.binary op left right) (max levels levels') := by
  obtain ⟨kinds, hkinds, hderives⟩ := hleft
  obtain ⟨kinds', hkinds', hderives'⟩ := hright
  exact ⟨_, hkinds.around op.ofSymbol?_symbol hkinds', .term_chain hop hderives hderives'⟩

/-- Groups and numbers may be the operands of any operator. -/
theorem operation (op : Operator) (hleft : Writes .primary text left levels)
    (hright : Writes .primary text' right levels') :
    Writes .expression (text ++ op.symbol :: text') (.binary op left right)
      (max levels levels') := by
  rcases op.sum_or_product with hop | hop
  · exact .sum hop (hleft.of_primary .expression) (hright.of_primary .term)
  · exact (product hop (hleft.of_primary .term) (hright.of_primary .factor)).expression_of_term

theorem blanks_append {symbol : Symbol} {gap : List Char} (hgap : ∀ c ∈ gap, isBlank c = true)
    (h : Writes symbol text tree levels) : Writes symbol (gap ++ text) tree levels := by
  obtain ⟨kinds, hkinds, hderives⟩ := h
  exact ⟨kinds, hkinds.blanks_append hgap, hderives⟩

theorem append_blanks {symbol : Symbol} {gap : List Char} (h : Writes symbol text tree levels)
    (hgap : ∀ c ∈ gap, isBlank c = true) : Writes symbol (text ++ gap) tree levels := by
  obtain ⟨kinds, hkinds, hderives⟩ := h
  exact ⟨kinds, hkinds.append_blanks hgap, hderives⟩

end Writes

end Grammar

/-! ## Reading -/

open Grammar (Writes)

/-- A text is read as a tree if it writes an expression with this tree within the limit. -/
theorem Expr.read_eq_ok_iff (maxDepth : Nat) (source : String) (tree : Expr) :
    Expr.read maxDepth source = .ok tree ↔
      ∃ levels ≤ maxDepth, Writes .expression source.toList tree levels := by
  constructor
  · intro hread
    cases hscan : Token.screenAndScan source.toList with
    | error failure =>
        rw [Expr.read_of_error hscan] at hread
        cases hread
    | ok tokens =>
        rw [Expr.read_of_ok hscan] at hread
        obtain ⟨levels, hlevels, hderives⟩ := Parse.derives_of_ofTokens hread
        exact ⟨levels, hlevels, _, ⟨tokens, Token.tiles_of_screenAndScan hscan, rfl⟩, hderives⟩
  · rintro ⟨levels, hlevels, _, ⟨tokens, htiles, rfl⟩, hderives⟩
    have hscan := Token.screenAndScan_of_tiles htiles
    rw [Expr.read_of_ok hscan]
    exact Parse.ofTokens_of_derives hderives hlevels _

section Evaluate

variable {source : String} {tree : Expr} {levels : Nat}

/-- A text asks for the levels of the phrase that it writes. -/
theorem askedLevels_of_writes (h : Writes .expression source.toList tree levels) :
    askedLevels source = levels := by
  obtain ⟨_, ⟨tokens, htiles, rfl⟩, hderives⟩ := h
  have hscan := Token.screenAndScan_of_tiles htiles
  have hpeak := Parse.peak_of_derives hderives rfl 0 [] fun _ => rfl
  rw [List.length_nil, Nat.zero_max, Nat.zero_add] at hpeak
  rw [askedLevels_of_ok hscan]
  exact hpeak

/-- Limits that grant what a text asks for let it through to its value. -/
theorem evaluate_of_writes (h : Writes .expression source.toList tree levels) {limits : Limits}
    (hlength : source.length ≤ limits.length) (hdepth : levels ≤ limits.depth) :
    evaluate limits source = tree.value := by
  have hread : Expr.read limits.depth source = .ok tree :=
    (Expr.read_eq_ok_iff ..).2 ⟨levels, hdepth, h⟩
  rw [evaluate, if_neg (Nat.not_lt.2 hlength), hread]

end Evaluate

end Calculator
