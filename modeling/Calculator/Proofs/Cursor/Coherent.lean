import Mathlib.Order.Bounds.Defs
import Calculator.Cursor

/-!
# Cursors that agree with their text

`Coherent c` ties the three fields of a cursor together: as many characters are
passed as it counts, and the rest of the text lies ahead.  New cursors are
coherent, and passing a character keeps it.  For coherent cursors on one text,
fewer bytes ahead mean a higher count (`Coherent.byteLength_ahead_le_iff`), so
comparing and cutting by bytes is comparing and cutting by position.
-/

namespace Calculator.Cursor

open Text (byteLength byteLength_append length_le_byteLength sliceBytes? sliceBytes?_eq_some_iff)

/-- The count is a position of the text, and what lies ahead is the text from there on. -/
structure Coherent (c : Cursor) : Prop where
  offset_le : c.offset ≤ c.source.length
  ahead_eq : c.ahead = c.source.drop c.offset

theorem source_next (c : Cursor) : c.next.source = c.source := by
  cases hahead : c.ahead <;> simp [next, hahead]

theorem source_advanceWhile (accept : Char → Bool) (c : Cursor) :
    (c.advanceWhile accept).source = c.source := by
  obtain ⟨source, ahead, offset⟩ := c
  show (passWhile accept source offset ahead).source = source
  induction ahead generalizing offset with
  | nil => rfl
  | cons x rest ih =>
      by_cases hx : accept x
      · simp only [passWhile, hx, if_true, ih]
      · simp [passWhile, hx]

/-! ## Coherence is kept -/

theorem coherent_ofString (text : String) : (ofString text).Coherent :=
  ⟨Nat.zero_le _, rfl⟩

section Step

variable {source rest : List Char} {x : Char} {offset : Nat}
  (h : Coherent ⟨source, x :: rest, offset⟩)

include h

theorem Coherent.getElem?_eq : source[offset]? = some x := by
  rw [← List.head?_drop, ← h.ahead_eq, List.head?_cons]

/-- Passing one character and counting it. -/
theorem Coherent.pass : Coherent ⟨source, rest, offset + 1⟩ := by
  constructor
  · exact (List.getElem?_eq_some_iff.1 h.getElem?_eq).1
  · show rest = source.drop (offset + 1)
    rw [← List.tail_drop, ← h.ahead_eq, List.tail_cons]

end Step

section Coherent

variable {c : Cursor} (h : c.Coherent)

include h

theorem Coherent.next : c.next.Coherent := by
  obtain ⟨source, ahead, offset⟩ := c
  cases ahead with
  | nil => exact h
  | cons x rest => exact h.pass

theorem Coherent.advanceWhile (accept : Char → Bool) : (c.advanceWhile accept).Coherent := by
  obtain ⟨source, ahead, offset⟩ := c
  show (passWhile accept source offset ahead).Coherent
  induction ahead generalizing offset with
  | nil => exact h
  | cons x rest ih =>
      by_cases hx : accept x
      · simp only [passWhile, hx, if_true]
        exact ih _ h.pass
      · simp only [passWhile, hx]
        exact h

/-! ## What a coherent cursor shows -/

theorem Coherent.length_ahead : c.offset + c.ahead.length = c.source.length := by
  have hle := h.offset_le
  rw [h.ahead_eq, List.length_drop]
  omega

theorem Coherent.ahead_eq_nil_iff : c.ahead = [] ↔ c.offset = c.source.length := by
  rw [← List.length_eq_zero_iff]
  have hlength := h.length_ahead
  omega

theorem Coherent.atEnd_iff : c.atEnd = true ↔ c.offset = c.source.length := by
  rw [atEnd, List.isEmpty_iff, h.ahead_eq_nil_iff]

theorem Coherent.peek?_eq : c.peek? = c.source[c.offset]? := by
  rw [peek?, h.ahead_eq, List.head?_drop]

theorem Coherent.peekNext?_eq : c.peekNext? = c.source[c.offset + 1]? := by
  rw [peekNext?, h.ahead_eq, List.tail_drop, List.head?_drop]

theorem Coherent.next_of_offset_lt (hlt : c.offset < c.source.length) :
    c.next.offset = c.offset + 1 := by
  obtain ⟨source, ahead, offset⟩ := c
  cases ahead with
  | nil => exact absurd (h.ahead_eq_nil_iff.1 rfl) (Nat.ne_of_lt hlt)
  | cons x rest => rfl

theorem Coherent.next_of_offset_eq (hend : c.offset = c.source.length) : c.next = c := by
  rw [Cursor.next, h.ahead_eq_nil_iff.2 hend]

/-- Advancing stops at the first character that is not accepted, or at the end. -/
theorem Coherent.isLeast_offset_advanceWhile (accept : Char → Bool) :
    IsLeast {position | c.offset ≤ position ∧ (position = c.source.length ∨
        ∃ x, c.source[position]? = some x ∧ accept x = false)}
      (c.advanceWhile accept).offset := by
  obtain ⟨source, ahead, offset⟩ := c
  show IsLeast {position | offset ≤ position ∧ (position = source.length ∨
      ∃ x, source[position]? = some x ∧ accept x = false)}
    (passWhile accept source offset ahead).offset
  induction ahead generalizing offset with
  | nil =>
      have hend : offset = source.length := h.ahead_eq_nil_iff.1 rfl
      exact ⟨⟨Nat.le_refl _, Or.inl hend⟩, fun position hposition => hposition.1⟩
  | cons x rest ih =>
      have hcurrent := h.getElem?_eq
      by_cases hx : accept x
      · simp only [passWhile, hx, if_true]
        obtain ⟨⟨hle, hstop⟩, hleast⟩ := ih (offset + 1) h.pass
        refine ⟨⟨Nat.le_of_succ_le hle, hstop⟩, fun position hposition => ?_⟩
        -- The current character is there and accepted, so the current position is no candidate.
        have hne : position ≠ offset := by
          intro heq
          rcases hposition.2 with hend | ⟨y, hy, hreject⟩
          · have hlt := (List.getElem?_eq_some_iff.1 hcurrent).1
            omega
          · rw [heq, hcurrent, Option.some.injEq] at hy
            rw [← hy, hx] at hreject
            exact Bool.noConfusion hreject
        have hge := hposition.1
        exact hleast ⟨by omega, hposition.2⟩
      · simp only [passWhile, hx]
        have hreject : accept x = false := Bool.eq_false_iff.2 hx
        exact ⟨⟨Nat.le_refl _, Or.inr ⟨x, hcurrent, hreject⟩⟩,
          fun position hposition => hposition.1⟩

theorem Coherent.byteLength_take_add :
    byteLength (c.source.take c.offset) + byteLength c.ahead = byteLength c.source := by
  rw [h.ahead_eq, ← byteLength_append, List.take_append_drop]

theorem Coherent.byteOffset?_eq :
    c.byteOffset? = some (byteLength (c.source.take c.offset)) := by
  have hsum := h.byteLength_take_add
  rw [byteOffset?, if_pos (by omega)]
  congr 1
  omega

end Coherent

/-! ## Two cursors on one text -/

section Pair

variable {start stop : Cursor} (hstart : start.Coherent) (hstop : stop.Coherent)

include hstart hstop

/-- The same count on the same text is the same place. -/
theorem Coherent.beq_iff :
    (start == stop) = true ↔ start.source = stop.source ∧ start.offset = stop.offset := by
  show (start.source == stop.source && start.ahead == stop.ahead) = true ↔ _
  rw [Bool.and_eq_true, beq_iff_eq, beq_iff_eq]
  refine and_congr_right fun hsource => ?_
  constructor
  · intro hahead
    have hstartLength := hstart.length_ahead
    have hstopLength := hstop.length_ahead
    rw [hahead, hsource] at hstartLength
    omega
  · intro hoffset
    rw [hstart.ahead_eq, hstop.ahead_eq, hsource, hoffset]

variable (hsource : start.source = stop.source)

include hsource

/-- What lies ahead of the first place is the slice and what lies ahead of the second. -/
theorem Coherent.ahead_eq_append (hoffset : start.offset ≤ stop.offset) :
    start.ahead =
      (start.source.drop start.offset).take (stop.offset - start.offset) ++ stop.ahead := by
  have hdrop : stop.ahead = (start.source.drop start.offset).drop (stop.offset - start.offset) := by
    rw [hstop.ahead_eq, List.drop_drop, Nat.add_sub_cancel' hoffset, hsource]
  rw [hdrop, List.take_append_drop, hstart.ahead_eq]

/-- Every character has a byte, so the bytes ahead are fewer exactly when more is passed. -/
theorem Coherent.byteLength_ahead_le_iff :
    byteLength stop.ahead ≤ byteLength start.ahead ↔ start.offset ≤ stop.offset := by
  by_cases hoffset : start.offset ≤ stop.offset
  · have hahead := hstart.ahead_eq_append hstop hsource hoffset
    have hbytes := congrArg byteLength hahead
    rw [byteLength_append] at hbytes
    exact iff_of_true (by omega) hoffset
  · have hahead := hstop.ahead_eq_append hstart hsource.symm (by omega)
    have hbytes := congrArg byteLength hahead
    have hlength := congrArg List.length hahead
    rw [byteLength_append] at hbytes
    rw [List.length_append] at hlength
    have hslice := length_le_byteLength
      ((stop.source.drop stop.offset).take (start.offset - stop.offset))
    have hstartLength := hstart.length_ahead
    have hstopLength := hstop.length_ahead
    rw [hsource] at hstartLength
    exact iff_of_false (by omega) hoffset

/-- Cutting by bytes cuts by position. -/
theorem Coherent.sliceUntil?_of_offset_le (hoffset : start.offset ≤ stop.offset) :
    start.sliceUntil? stop =
      some ((start.source.drop start.offset).take (stop.offset - start.offset)) := by
  have hahead := hstart.ahead_eq_append hstop hsource hoffset
  have hbytes := congrArg byteLength hahead
  have hstartSum := hstart.byteLength_take_add
  have hstopSum := hstop.byteLength_take_add
  rw [byteLength_append] at hbytes
  rw [← hsource] at hstopSum
  simp only [sliceUntil?, hsource, if_true, hstart.byteOffset?_eq, hstop.byteOffset?_eq]
  rw [← hsource, sliceBytes?_eq_some_iff]
  refine ⟨start.source.take start.offset, stop.ahead, ?_, rfl, by omega⟩
  rw [← hahead, hstart.ahead_eq, List.take_append_drop]

/-- The span between two places in order holds the slice between them. -/
theorem Coherent.exists_between? (hoffset : start.offset ≤ stop.offset) :
    ∃ span, Span.between? start stop = some span ∧
      span.lexeme = (start.source.drop start.offset).take (stop.offset - start.offset) := by
  have hle := (hstart.byteLength_ahead_le_iff hstop hsource).2 hoffset
  refine ⟨⟨start, stop, hsource, hle⟩, dif_pos ⟨hsource, hle⟩, ?_⟩
  rw [Span.lexeme, hstart.sliceUntil?_of_offset_le hstop hsource hoffset, Option.getD_some]

theorem Coherent.sliceUntil?_of_offset_lt (hoffset : stop.offset < start.offset) :
    start.sliceUntil? stop = none := by
  have hle := hstart.byteLength_ahead_le_iff hstop hsource
  have hstartSum := hstart.byteLength_take_add
  have hstopSum := hstop.byteLength_take_add
  rw [hsource] at hstartSum
  simp only [sliceUntil?, hsource, if_true, hstart.byteOffset?_eq, hstop.byteOffset?_eq]
  rw [sliceBytes?, if_neg (by omega)]

omit hsource

/-- There is a slice exactly between two places of one text in order. -/
theorem Coherent.sliceUntil?_eq_none_iff :
    start.sliceUntil? stop = none ↔
      ¬ (start.source = stop.source ∧ start.offset ≤ stop.offset) := by
  by_cases hsource : start.source = stop.source
  · by_cases hoffset : start.offset ≤ stop.offset
    · rw [hstart.sliceUntil?_of_offset_le hstop hsource hoffset]
      exact iff_of_false (Option.some_ne_none _) (fun h => h ⟨hsource, hoffset⟩)
    · refine iff_of_true ?_ (fun h => hoffset h.2)
      exact hstart.sliceUntil?_of_offset_lt hstop hsource (by omega)
  · exact iff_of_true (if_neg hsource) (fun h => hsource h.1)

/-- There is a span exactly between two places of one text in order. -/
theorem Coherent.between?_eq_none_iff :
    Span.between? start stop = none ↔
      ¬ (start.source = stop.source ∧ start.offset ≤ stop.offset) := by
  by_cases hsource : start.source = stop.source
  · have hle := hstart.byteLength_ahead_le_iff hstop hsource
    by_cases hoffset : start.offset ≤ stop.offset
    · obtain ⟨span, hspan, -⟩ := hstart.exists_between? hstop hsource hoffset
      rw [hspan]
      exact iff_of_false (Option.some_ne_none _) (fun h => h ⟨hsource, hoffset⟩)
    · refine iff_of_true ?_ (fun h => hoffset h.2)
      exact dif_neg fun h => hoffset (hle.1 h.2)
  · exact iff_of_true (dif_neg fun h => hsource h.1) (fun h => hsource h.1)

end Pair

end Calculator.Cursor
