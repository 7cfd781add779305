import Mathlib.Logic.Function.Iterate
import Calculator.Proofs.Cursor.Coherent

/-!
# Cursors by position

`place source position` is where a new cursor on a text stands after `position`
moves of one character.  It is coherent, so between two places in order there are
a span and a slice; `Cuts` says which, for the places at two positions.
-/

namespace Calculator.Cursor

/-- The place of a text after some of its characters. -/
def place (source : String) (position : Nat) : Cursor :=
  next^[position] (ofString source)

/-- `Cuts source start stop slice`: between the two places of the text there is a span, and it holds
`slice`. -/
structure Cuts (source : String) (start stop : Nat) (slice : List Char) : Prop where
  span : ∃ span, Span.between? (place source start) (place source stop) = some span ∧
    span.lexeme = slice
  slice : (place source start).sliceUntil? (place source stop) = some slice

theorem place_succ (source : String) (position : Nat) :
    place source (position + 1) = (place source position).next :=
  Function.iterate_succ_apply' next position (ofString source)

theorem coherent_place (source : String) (position : Nat) : (place source position).Coherent := by
  induction position with
  | zero => exact coherent_ofString source
  | succ position ih => rw [place_succ]; exact ih.next

theorem source_place (source : String) (position : Nat) :
    (place source position).source = source.toList := by
  induction position with
  | zero => rfl
  | succ position ih => rw [place_succ, source_next, ih]

theorem offset_place {source : String} {position : Nat} (hposition : position ≤ source.length) :
    (place source position).offset = position := by
  induction position with
  | zero => rfl
  | succ position ih =>
      have hoffset := ih (Nat.le_of_succ_le hposition)
      rw [place_succ, (coherent_place source position).next_of_offset_lt, hoffset]
      rw [hoffset, source_place, String.length_toList]
      exact hposition

/-- The slice between two places of a text. -/
theorem cuts_of_append {source : String} {before slice after : List Char}
    (hsplit : source.toList = before ++ (slice ++ after)) :
    Cuts source before.length (before.length + slice.length) slice := by
  have hlength : source.length = before.length + (slice.length + after.length) := by
    rw [← String.length_toList, hsplit, List.length_append, List.length_append]
  have hstart : (place source before.length).offset = before.length := offset_place (by omega)
  have hstop : (place source (before.length + slice.length)).offset =
      before.length + slice.length := offset_place (by omega)
  have hsource : (place source before.length).source =
      (place source (before.length + slice.length)).source := by
    rw [source_place, source_place]
  have hoffset : (place source before.length).offset ≤
      (place source (before.length + slice.length)).offset := by omega
  have hslice : ((place source before.length).source.drop (place source before.length).offset).take
      ((place source (before.length + slice.length)).offset -
        (place source before.length).offset) = slice := by
    rw [source_place, hstart, hstop, Nat.add_sub_cancel_left, hsplit, List.drop_left,
      List.take_left]
  have hfirst := coherent_place source before.length
  have hlast := coherent_place source (before.length + slice.length)
  obtain ⟨span, hspan, hlexeme⟩ := hfirst.exists_between? hlast hsource hoffset
  constructor
  · exact ⟨span, hspan, hlexeme.trans hslice⟩
  · rw [hfirst.sliceUntil?_of_offset_le hlast hsource hoffset, hslice]

end Calculator.Cursor
