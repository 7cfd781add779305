import Mathlib.Data.List.Basic
import Calculator.Proofs.CommandLine.Spelling

/-!
# What pieces add to a request

A request has slots: one for each setting that takes a number, one for the expression, and
the flag for HTML.  Each slot is filled once at most.  `Adds pieces r r'` says slot by slot
what pieces make of a request, without an order between pieces for different slots; only a
value that begins with a minus sign may not stand behind the expression.  What the first
piece does to its slot is told apart from what the others do (`Adds.html_iff`,
`Adds.expression_iff`, `Adds.value_iff`).
-/

namespace Calculator.CommandLine

/-! ## What pieces give -/

namespace Piece

/-- The text that a piece gives as a value of the setting. -/
def value? (setting : Setting) : Piece → Option String
  | joined setting' value => if setting' = setting then some value else none
  | separate setting' value => if setting' = setting then some value else none
  | html => none
  | expression _ => none

def isHtml : Piece → Bool
  | html => true
  | joined _ _ => false
  | separate _ _ => false
  | expression _ => false

/-- Whether the value of a piece is a next argument that begins with a minus sign. -/
def HasMinus : Piece → Prop
  | separate _ value => value.toList.head? = some '-'
  | html => False
  | joined _ _ => False
  | expression _ => False

end Piece

/-- The texts that are given as values of a setting. -/
def valuesOf (setting : Setting) (pieces : List Piece) : List String :=
  pieces.filterMap (Piece.value? setting)

/-- The expressions that are given. -/
def expressionsOf (pieces : List Piece) : List String :=
  pieces.filterMap Piece.expression?

/-! ## Settings of a request -/

namespace Request

/-- The number that a setting is set to. -/
def value? (r : Request) : Setting → Option Nat
  | .precision => r.precision
  | .maxLength => r.maxLength
  | .maxDepth => r.maxDepth
  | .html => none

/-- The request with a setting set to a number. -/
def setValue (r : Request) (n : Nat) : Setting → Request
  | .precision => { r with precision := some n }
  | .maxLength => { r with maxLength := some n }
  | .maxDepth => { r with maxDepth := some n }
  | .html => r

variable {r r' : Request}

theorem value?_setValue (r : Request) (n : Nat) {setting : Setting} (hsetting : setting ≠ .html)
    (setting' : Setting) :
    (r.setValue n setting).value? setting' =
      if setting = setting' then some n else r.value? setting' := by
  cases setting with
  | html => exact absurd rfl hsetting
  | _ => cases setting' <;> rfl

@[simp] theorem html_setValue (r : Request) (n : Nat) (setting : Setting) :
    (r.setValue n setting).html = r.html := by
  cases setting <;> rfl

@[simp] theorem expression_setValue (r : Request) (n : Nat) (setting : Setting) :
    (r.setValue n setting).expression = r.expression := by
  cases setting <;> rfl

theorem eq_of_value? (hvalue : ∀ setting, r.value? setting = r'.value? setting)
    (hhtml : r.html = r'.html) (hexpression : r.expression = r'.expression) : r = r' := by
  obtain ⟨precision, html, maxLength, maxDepth, expression⟩ := r
  obtain ⟨precision', html', maxLength', maxDepth', expression'⟩ := r'
  obtain rfl : precision = precision' := hvalue .precision
  obtain rfl : maxLength = maxLength' := hvalue .maxLength
  obtain rfl : maxDepth = maxDepth' := hvalue .maxDepth
  cases hhtml
  cases hexpression
  rfl

end Request

/-! ## Requests with pieces added -/

/-- What texts do to a slot.  No text leaves it as it is, and one text fills it, if it is empty. -/
inductive Fills {α : Type} (stands : α → String → Prop) :
    List String → Option α → Option α → Prop
  | nothing (slot : Option α) : Fills stands [] slot slot
  | one {a : α} {text : String} (h : stands a text) : Fills stands [text] none (some a)

theorem fills_nil_iff {α : Type} {stands : α → String → Prop} {slot slot' : Option α} :
    Fills stands [] slot slot' ↔ slot = slot' := by
  constructor
  · rintro ⟨⟩
    rfl
  · rintro rfl
    exact .nothing slot

theorem fills_cons_iff {α : Type} {stands : α → String → Prop} {slot slot' : Option α}
    {text : String} {texts : List String} :
    Fills stands (text :: texts) slot slot' ↔
      slot = none ∧ ∃ a, stands a text ∧ Fills stands texts (some a) slot' := by
  constructor
  · rintro (_ | h)
    exact ⟨rfl, _, h, .nothing _⟩
  · rintro ⟨rfl, a, h, hmore⟩
    cases hmore
    exact .one h

/-- `Adds pieces r r'`: with what the pieces give, the request `r` becomes `r'`. -/
structure Adds (pieces : List Piece) (r r' : Request) : Prop where
  value : ∀ setting, Fills (fun n text => setting.IsValue n text.toList)
    (valuesOf setting pieces) (r.value? setting) (r'.value? setting)
  html : r'.html.toNat = r.html.toNat + pieces.countP Piece.isHtml
  expression : Fills Eq (expressionsOf pieces) r.expression r'.expression
  /-- No next argument that begins with a minus sign is a value behind an expression. -/
  minus : pieces.Pairwise fun piece later => piece.expression?.isSome → ¬ later.HasMinus
  minus_of_isSome : r.expression.isSome → ∀ piece ∈ pieces, ¬ piece.HasMinus

namespace Adds

variable {pieces : List Piece} {r r' : Request}

theorem nil_iff : Adds [] r r' ↔ r = r' := by
  constructor
  · intro h
    have hhtml : r'.html.toNat = r.html.toNat := h.html
    refine Request.eq_of_value? (fun setting => fills_nil_iff.1 (h.value setting)) ?_
      (fills_nil_iff.1 h.expression)
    cases hr : r.html <;> cases hr' : r'.html <;> rw [hr, hr'] at hhtml <;>
      first | rfl | cases hhtml
  · rintro rfl
    exact ⟨fun setting => .nothing _, rfl, .nothing _, .nil, by simp⟩

theorem html_iff : Adds (.html :: pieces) r r' ↔
    r.html = false ∧ Adds pieces { r with html := true } r' := by
  have hcount : (Piece.html :: pieces).countP Piece.isHtml = pieces.countP Piece.isHtml + 1 :=
    List.countP_cons_of_pos rfl
  constructor
  · rintro ⟨hvalue, hhtml, hexpression, hminus, hminus'⟩
    rw [hcount] at hhtml
    have hle := r'.html.toNat_le
    have hoff : r.html = false := Bool.toNat_eq_zero.1 (by omega)
    rw [hoff] at hhtml
    refine ⟨hoff, hvalue, ?_, hexpression, (List.pairwise_cons.1 hminus).2, ?_⟩
    · exact hhtml.trans (by simp [Nat.add_comm])
    · exact fun hsome => (List.forall_mem_cons.1 (hminus' hsome)).2
  · rintro ⟨hoff, hvalue, hhtml, hexpression, hminus, hminus'⟩
    refine ⟨hvalue, ?_, hexpression, List.pairwise_cons.2 ⟨?_, hminus⟩, ?_⟩
    · rw [hcount, hoff, hhtml]
      simp [Nat.add_comm]
    · exact fun later _ hsome => absurd hsome (by simp [Piece.expression?])
    · exact fun hsome => List.forall_mem_cons.2 ⟨id, hminus' hsome⟩

theorem expression_iff {text : String} : Adds (.expression text :: pieces) r r' ↔
    r.expression = none ∧ Adds pieces { r with expression := some text } r' := by
  have hexpressions :
      expressionsOf (.expression text :: pieces) = text :: expressionsOf pieces := rfl
  constructor
  · rintro ⟨hvalue, hhtml, hexpression, hminus, -⟩
    rw [hexpressions, fills_cons_iff] at hexpression
    obtain ⟨hnone, _, rfl, hexpression⟩ := hexpression
    obtain ⟨hlater, hminus⟩ := List.pairwise_cons.1 hminus
    exact ⟨hnone, hvalue, hhtml, hexpression, hminus, fun _ later hmem => hlater later hmem rfl⟩
  · rintro ⟨hnone, hvalue, hhtml, hexpression, hminus, hlater⟩
    refine ⟨hvalue, hhtml, ?_, List.pairwise_cons.2 ⟨?_, hminus⟩, ?_⟩
    · rw [hexpressions, fills_cons_iff]
      exact ⟨hnone, text, rfl, hexpression⟩
    · exact fun later hmem _ => hlater rfl later hmem
    · rw [hnone]
      exact fun hsome => absurd hsome (by simp)

section Value

variable {piece : Piece} {setting : Setting} {text : String}

/-- A piece with a value fills the slot of its setting and leaves the slots of the others. -/
theorem values_iff
    (hvalue : ∀ setting', piece.value? setting' = if setting = setting' then some text else none) :
    (∀ setting', Fills (fun n text => setting'.IsValue n text.toList)
        (valuesOf setting' (piece :: pieces)) (r.value? setting') (r'.value? setting')) ↔
      r.value? setting = none ∧ ∃ n, setting.IsValue n text.toList ∧
        ∀ setting', Fills (fun n text => setting'.IsValue n text.toList)
          (valuesOf setting' pieces) ((r.setValue n setting).value? setting')
          (r'.value? setting') := by
  have hsame : valuesOf setting (piece :: pieces) = text :: valuesOf setting pieces :=
    List.filterMap_cons_some (by rw [hvalue, if_pos rfl])
  have hother : ∀ setting', setting ≠ setting' →
      valuesOf setting' (piece :: pieces) = valuesOf setting' pieces :=
    fun setting' hne => List.filterMap_cons_none (by rw [hvalue, if_neg hne])
  constructor
  · intro hfills
    have hfilled := hfills setting
    rw [hsame, fills_cons_iff] at hfilled
    obtain ⟨hnone, n, hn, hmore⟩ := hfilled
    refine ⟨hnone, n, hn, fun setting' => ?_⟩
    rw [Request.value?_setValue _ _ hn.ne_html]
    split
    · next heq => exact heq ▸ hmore
    · next hne => exact hother setting' hne ▸ hfills setting'
  · rintro ⟨hnone, n, hn, hfills⟩ setting'
    have hmore := hfills setting'
    rw [Request.value?_setValue _ _ hn.ne_html] at hmore
    split at hmore
    · next heq =>
        subst heq
        rw [hsame, fills_cons_iff]
        exact ⟨hnone, n, hn, hmore⟩
    · next hne => rwa [hother setting' hne]

/-- What holds of a piece with a value, whether the value is joined to the setting or not. -/
theorem value_iff
    (hvalue : ∀ setting', piece.value? setting' = if setting = setting' then some text else none)
    (hexpression : piece.expression? = none) (hhtml : piece.isHtml = false) :
    Adds (piece :: pieces) r r' ↔
      (r.expression.isSome → ¬ piece.HasMinus) ∧ r.value? setting = none ∧
        ∃ n, setting.IsValue n text.toList ∧ Adds pieces (r.setValue n setting) r' := by
  have hcount : (piece :: pieces).countP Piece.isHtml = pieces.countP Piece.isHtml :=
    List.countP_cons_of_neg (by simp [hhtml])
  have hexpressions : expressionsOf (piece :: pieces) = expressionsOf pieces :=
    List.filterMap_cons_none hexpression
  have hpairwise : (piece :: pieces).Pairwise
      (fun piece later => piece.expression?.isSome → ¬ later.HasMinus) ↔
      pieces.Pairwise fun piece later => piece.expression?.isSome → ¬ later.HasMinus := by
    simp [List.pairwise_cons, hexpression]
  constructor
  · rintro ⟨hfills, hhtml', hexpression', hminus, hminus'⟩
    rw [hcount] at hhtml'
    rw [hexpressions] at hexpression'
    obtain ⟨hnone, n, hn, hfills⟩ := (values_iff hvalue).1 hfills
    refine ⟨fun hsome => (List.forall_mem_cons.1 (hminus' hsome)).1, hnone, n, hn, hfills, ?_, ?_,
      hpairwise.1 hminus, ?_⟩
    · rwa [Request.html_setValue]
    · rwa [Request.expression_setValue]
    · rw [Request.expression_setValue]
      exact fun hsome => (List.forall_mem_cons.1 (hminus' hsome)).2
  · rintro ⟨hminus, hnone, n, hn, hfills, hhtml', hexpression', hpieces, hminus'⟩
    rw [Request.html_setValue] at hhtml'
    rw [Request.expression_setValue] at hexpression' hminus'
    exact ⟨(values_iff hvalue).2 ⟨hnone, n, hn, hfills⟩, by rwa [hcount], by rwa [hexpressions],
      hpairwise.2 hpieces, fun hsome => List.forall_mem_cons.2 ⟨hminus hsome, hminus' hsome⟩⟩

end Value

end Adds

end Calculator.CommandLine
