import Mathlib.Logic.Function.Basic
import Calculator.Cursor.Desk
import Calculator.Proofs.Cursor.Coherent

/-!
# Named cursors through any moves

The effect of a move is told by texts and positions alone: `Effect` for the
cursor it is about, no change for the others.  `textOf` follows which text each
name was last given.  Whatever the moves, every cursor of the desk keeps to that
text and shows it truly at its position (`run_true_to_text`).
-/

namespace Calculator.Cursor

/-- The name whose cursor a move is about. -/
def Move.target : Move → String
  | .create name _ => name
  | .copy name _ => name
  | .next name => name
  | .advanceWhile name _ => name

/-- The cursor a move leaves under its name. -/
def Desk.after (desk : Desk) : Move → Option Cursor
  | .create _ source => some (ofString source)
  | .copy name origin => (desk origin).or (desk name)
  | .next name => (desk name).map Cursor.next
  | .advanceWhile name accept => (desk name).map (Cursor.advanceWhile accept)

/-- The texts of named cursors. -/
abbrev Texts := String → Option String

/-- The text a move leaves under its name: the new one, that of the origin, or the one that was
there. -/
def Texts.after (texts : Texts) : Move → Option String
  | .create _ source => some source
  | .copy name origin => (texts origin).or (texts name)
  | .next name => texts name
  | .advanceWhile name _ => texts name

/-- The texts after a move. -/
def Texts.apply (texts : Texts) (move : Move) : Texts :=
  Function.update texts move.target (texts.after move)

/-- The text each name was last given by the moves. -/
def textOf (moves : List Move) : Texts :=
  moves.foldl Texts.apply fun _ => none

/-- What a cursor shows is what its text has at its position. -/
structure Truthful (c : Cursor) : Prop extends Coherent c where
  atEnd : c.atEnd = true ↔ c.offset = c.source.length
  peek : c.peek? = c.source[c.offset]?
  peekNext : c.peekNext? = c.source[c.offset + 1]?

/-- One character on, and nothing at the end. -/
structure StepsTo (c c' : Cursor) : Prop where
  source : c'.source = c.source
  offset : c.offset < c.source.length → c'.offset = c.offset + 1
  still : c.offset = c.source.length → c' = c

/-- On to the first character from here that is not accepted, or to the end. -/
structure StopsAt (accept : Char → Bool) (c c' : Cursor) : Prop where
  source : c'.source = c.source
  offset : IsLeast {position | c.offset ≤ position ∧ (position = c.source.length ∨
    ∃ x, c.source[position]? = some x ∧ accept x = false)} c'.offset

/-- `Effect desk move cursor?`: by its text and position, `cursor?` is what the move has to leave
under its name. -/
def Effect (desk : Desk) : Move → Option Cursor → Prop
  | .create _ source, cursor? =>
      ∃ c, cursor? = some c ∧ c.source = source.toList ∧ c.offset = 0
  | .copy name origin, cursor? => cursor? = (desk origin).or (desk name)
  | .next name, cursor? => Option.Rel StepsTo (desk name) cursor?
  | .advanceWhile name accept, cursor? => Option.Rel (StopsAt accept) (desk name) cursor?

theorem put_eq_update (desk : Desk) (name : String) (c : Cursor) :
    desk.put name c = Function.update desk name (some c) := by
  ext1 other
  rw [Desk.put, Function.update_apply]

/-- Changing the cursor of a name, if there is one. -/
theorem change_eq_update (desk : Desk) (name : String) (change : Cursor → Cursor) :
    (match desk name with
      | none => desk
      | some c => desk.put name (change c)) =
      Function.update desk name ((desk name).map change) := by
  cases hname : desk name with
  | none =>
      rw [Option.map_none, ← hname, Function.update_eq_self, hname]
  | some c => rw [Option.map_some, ← put_eq_update]

/-- A move sets the cursor of its name and no other. -/
theorem apply_eq_update (desk : Desk) (move : Move) :
    desk.apply move = Function.update desk move.target (desk.after move) := by
  cases move with
  | create name source => exact put_eq_update desk name (ofString source)
  | copy name origin =>
      cases horigin : desk origin with
      | none => simp [Desk.apply, Desk.after, Move.target, horigin]
      | some c => simp [Desk.apply, Desk.after, Move.target, horigin, put_eq_update]
  | next name => exact change_eq_update desk name Cursor.next
  | advanceWhile name accept => exact change_eq_update desk name (Cursor.advanceWhile accept)

/-- Every cursor of the desk is coherent and on the text that its name was given. -/
structure Tracks (desk : Desk) (texts : Texts) : Prop where
  text : ∀ name, (desk name).map source = (texts name).map String.toList
  coherent : ∀ name c, desk name = some c → c.Coherent

section Step

variable {desk : Desk} {texts : Texts} (h : Tracks desk texts)

include h

theorem Tracks.text_after (move : Move) :
    (desk.after move).map source = (texts.after move).map String.toList := by
  cases move with
  | create name source => rfl
  | copy name origin =>
      rw [Desk.after, Texts.after, Option.map_or, Option.map_or, h.text, h.text]
  | next name =>
      rw [Desk.after, Texts.after, ← h.text, Option.map_map]
      exact congrFun (congrArg Option.map (funext source_next)) (desk name)
  | advanceWhile name accept =>
      rw [Desk.after, Texts.after, ← h.text, Option.map_map]
      exact congrFun (congrArg Option.map (funext (source_advanceWhile accept))) (desk name)

theorem Tracks.coherent_after (move : Move) {c : Cursor} (hafter : desk.after move = some c) :
    c.Coherent := by
  cases move with
  | create name source =>
      rw [Desk.after, Option.some.injEq] at hafter
      exact hafter ▸ coherent_ofString source
  | copy name origin =>
      rw [Desk.after, Option.or_eq_some_iff] at hafter
      rcases hafter with horigin | ⟨-, hname⟩
      · exact h.coherent origin c horigin
      · exact h.coherent name c hname
  | next name =>
      rw [Desk.after, Option.map_eq_some_iff] at hafter
      obtain ⟨c', hname, rfl⟩ := hafter
      exact (h.coherent name c' hname).next
  | advanceWhile name accept =>
      rw [Desk.after, Option.map_eq_some_iff] at hafter
      obtain ⟨c', hname, rfl⟩ := hafter
      exact (h.coherent name c' hname).advanceWhile accept

theorem Tracks.apply (move : Move) : Tracks (desk.apply move) (texts.apply move) := by
  rw [apply_eq_update, Texts.apply]
  constructor
  · intro name
    by_cases hname : name = move.target
    · rw [hname, Function.update_self, Function.update_self, h.text_after]
    · rw [Function.update_of_ne hname, Function.update_of_ne hname, h.text]
  · intro name c hc
    by_cases hname : name = move.target
    · rw [hname, Function.update_self] at hc
      exact h.coherent_after move hc
    · rw [Function.update_of_ne hname] at hc
      exact h.coherent name c hc

theorem Tracks.run (moves : List Move) :
    Tracks (desk.run moves) (moves.foldl Texts.apply texts) := by
  induction moves generalizing desk texts with
  | nil => exact h
  | cons move moves ih => exact ih (h.apply move)

/-- The effect of a move on the cursor of its name. -/
theorem Tracks.effect (move : Move) : Effect desk move (desk.after move) := by
  cases move with
  | create name source => exact ⟨ofString source, rfl, rfl, rfl⟩
  | copy name origin => rfl
  | next name =>
      show Option.Rel StepsTo (desk name) ((desk name).map Cursor.next)
      cases hname : desk name with
      | none => exact Option.Rel.none
      | some c =>
          have hc := h.coherent name c hname
          exact Option.Rel.some ⟨source_next c, hc.next_of_offset_lt, hc.next_of_offset_eq⟩
  | advanceWhile name accept =>
      show Option.Rel (StopsAt accept) (desk name) ((desk name).map (Cursor.advanceWhile accept))
      cases hname : desk name with
      | none => exact Option.Rel.none
      | some c =>
          have hc := h.coherent name c hname
          exact Option.Rel.some ⟨source_advanceWhile accept c, hc.isLeast_offset_advanceWhile accept⟩

end Step

theorem tracks_run (moves : List Move) : Tracks (Desk.empty.run moves) (textOf moves) := by
  have hempty : Tracks Desk.empty fun _ => none := by
    constructor
    · intro name
      rfl
    · intro name c hc
      exact absurd hc.symm (Option.some_ne_none c)
  exact hempty.run moves

theorem Coherent.truthful {c : Cursor} (h : c.Coherent) : c.Truthful :=
  ⟨h, h.atEnd_iff, h.peek?_eq, h.peekNext?_eq⟩

/-- Whatever the moves, the cursors keep to the texts their names were given and tell the truth
about them, and one more move has its effect on the cursor it is about and on no other. -/
theorem run_true_to_text (moves : List Move) :
    (∀ name, (Desk.empty.run moves name).map source = (textOf moves name).map String.toList) ∧
    (∀ name c, Desk.empty.run moves name = some c → c.Truthful) ∧
    (∀ move, Effect (Desk.empty.run moves) move (Desk.empty.run (moves ++ [move]) move.target)) ∧
    (∀ move name, name ≠ move.target →
      Desk.empty.run (moves ++ [move]) name = Desk.empty.run moves name) := by
  have htracks := tracks_run moves
  have hstep : ∀ move, Desk.empty.run (moves ++ [move]) = (Desk.empty.run moves).apply move := by
    intro move
    rw [Desk.run, List.foldl_append]
    rfl
  refine ⟨htracks.text, fun name c hc => (htracks.coherent name c hc).truthful, ?_, ?_⟩
  · intro move
    rw [hstep, apply_eq_update, Function.update_self]
    exact htracks.effect move
  · intro move name hname
    rw [hstep, apply_eq_update, Function.update_of_ne hname]

theorem run_true_to_text_copied :
    Desk.empty.run [.create "a" "é+1", .next "a", .copy "b" "a"] "b" =
      some ⟨"é+1".toList, "+1".toList, 1⟩ ∧
    Truthful ⟨"é+1".toList, "+1".toList, 1⟩ ∧
    Desk.empty.run [.create "a" "é+1", .next "a", .copy "b" "a", .next "b"] "a" =
      some ⟨"é+1".toList, "+1".toList, 1⟩ := by
  have hcopy : Desk.empty.run [.create "a" "é+1", .next "a", .copy "b" "a"] "b" =
      some ⟨"é+1".toList, "+1".toList, 1⟩ := by
    rfl
  have hother : "a" ≠ (Move.next "b").target := by decide
  obtain ⟨-, htruthful, -, hkept⟩ :=
    run_true_to_text [.create "a" "é+1", .next "a", .copy "b" "a"]
  exact ⟨hcopy, htruthful "b" _ hcopy, hkept (.next "b") "a" hother⟩

end Calculator.Cursor
