import Calculator.Proofs.Cursor.Run

/-!
# Slices between cursors that moves lead to

Places are told apart, and stretches cut out, by what lies ahead and its bytes.
For cursors that moves lead to, on one text or on two that are equal, this comes
to the same as going by position (`slices_by_position`).
-/

namespace Calculator.Cursor

/-- Some moves lead to this cursor under some name. -/
def Reached (c : Cursor) : Prop :=
  ∃ moves name, Desk.empty.run moves name = some c

theorem Reached.coherent {c : Cursor} (h : c.Reached) : c.Coherent := by
  obtain ⟨moves, name, hname⟩ := h
  exact (tracks_run moves).coherent name c hname

theorem start_stop_of_between? {start stop : Cursor} {span : Span}
    (h : Span.between? start stop = some span) : span.start = start ∧ span.stop = stop := by
  rw [Span.between?] at h
  split at h
  · rw [← Option.some.inj h]
    exact ⟨rfl, rfl⟩
  · exact absurd h.symm (Option.some_ne_none span)

/-- A span between coherent cursors is never without its slice. -/
theorem sliceUntil?_eq_some_lexeme {span : Span} (hstart : span.start.Coherent)
    (hstop : span.stop.Coherent) : span.start.sliceUntil? span.stop = some span.lexeme := by
  have hoffset := (hstart.byteLength_ahead_le_iff hstop span.source_eq).1 span.ahead_le
  have hslice := hstart.sliceUntil?_of_offset_le hstop span.source_eq hoffset
  rw [Span.lexeme, hslice, Option.getD_some]

/-- The characters at the positions from `first` to before `last`, cut at a position between. -/
theorem take_drop_append {text : List Char} {first middle last : Nat} (hfirst : first ≤ middle)
    (hlast : middle ≤ last) :
    (text.drop first).take (middle - first) ++ (text.drop middle).take (last - middle) =
      (text.drop first).take (last - first) := by
  have hdrop : text.drop middle = (text.drop first).drop (middle - first) := by
    rw [List.drop_drop, Nat.add_sub_cancel' hfirst]
  have hlength : last - first = (middle - first) + (last - middle) := by omega
  rw [hdrop, hlength, List.take_add]

/-- Between two cursors that moves lead to, there is a slice and a span unless the texts differ or
the second position is before the first, and it has the characters at the positions between.  The
cursors are the same if the texts and the positions are, and slices that follow each other join. -/
theorem slices_by_position {a b : Cursor} (ha : a.Reached) (hb : b.Reached) :
    (a.sliceUntil? b = none ↔ a.source ≠ b.source ∨ b.offset < a.offset) ∧
    (Span.between? a b = none ↔ a.source ≠ b.source ∨ b.offset < a.offset) ∧
    (∀ slice, a.sliceUntil? b = some slice →
      slice = (a.source.drop a.offset).take (b.offset - a.offset)) ∧
    (∀ span, Span.between? a b = some span →
      span.start = a ∧ span.stop = b ∧ a.sliceUntil? b = some span.lexeme) ∧
    ((a == b) = true ↔ a.source = b.source ∧ a.offset = b.offset) ∧
    (∀ c, c.Reached → a.source = b.source → b.source = c.source →
      a.offset ≤ b.offset → b.offset ≤ c.offset →
      ∃ front back, a.sliceUntil? b = some front ∧ b.sliceUntil? c = some back ∧
        a.sliceUntil? c = some (front ++ back)) := by
  have hrefused : ¬ (a.source = b.source ∧ a.offset ≤ b.offset) ↔
      a.source ≠ b.source ∨ b.offset < a.offset := by
    rw [Classical.not_and_iff_not_or_not, Nat.not_le]
  refine ⟨?_, ?_, ?_, ?_, ha.coherent.beq_iff hb.coherent, ?_⟩
  · rw [ha.coherent.sliceUntil?_eq_none_iff hb.coherent, hrefused]
  · rw [ha.coherent.between?_eq_none_iff hb.coherent, hrefused]
  · intro slice hslice
    have hordered : a.source = b.source ∧ a.offset ≤ b.offset := by
      by_contra hnot
      rw [(ha.coherent.sliceUntil?_eq_none_iff hb.coherent).2 hnot] at hslice
      exact absurd hslice.symm (Option.some_ne_none slice)
    rw [ha.coherent.sliceUntil?_of_offset_le hb.coherent hordered.1 hordered.2] at hslice
    exact (Option.some.inj hslice).symm
  · intro span hspan
    obtain ⟨rfl, rfl⟩ := start_stop_of_between? hspan
    exact ⟨rfl, rfl, sliceUntil?_eq_some_lexeme ha.coherent hb.coherent⟩
  · intro c hc hab hbc hfirst hlast
    refine ⟨_, _, ha.coherent.sliceUntil?_of_offset_le hb.coherent hab hfirst,
      hb.coherent.sliceUntil?_of_offset_le hc.coherent hbc hlast, ?_⟩
    rw [ha.coherent.sliceUntil?_of_offset_le hc.coherent (hab.trans hbc)
      (Nat.le_trans hfirst hlast),
      ← hab, take_drop_append hfirst hlast]

theorem slices_by_position_equal_texts :
    Reached ⟨"1 é2".toList, "1 é2".toList, 0⟩ ∧ Reached ⟨"1 é2".toList, ['2'], 3⟩ ∧
    Reached ⟨"1 é2".toList, [], 4⟩ ∧
    sliceUntil? ⟨"1 é2".toList, "1 é2".toList, 0⟩ ⟨"1 é2".toList, ['2'], 3⟩ =
      some ['1', ' ', 'é'] ∧
    sliceUntil? ⟨"1 é2".toList, ['2'], 3⟩ ⟨"1 é2".toList, [], 4⟩ = some ['2'] ∧
    sliceUntil? ⟨"1 é2".toList, "1 é2".toList, 0⟩ ⟨"1 é2".toList, [], 4⟩ =
      some ['1', ' ', 'é', '2'] ∧
    sliceUntil? ⟨"1 é2".toList, ['2'], 3⟩ ⟨"1 é2".toList, "1 é2".toList, 0⟩ = none := by
  have hstart : Reached ⟨"1 é2".toList, "1 é2".toList, 0⟩ :=
    ⟨[.create "a" "1 é2"], "a", rfl⟩
  -- The second and the third cursor are on a text of their own.
  have hmiddle : Reached ⟨"1 é2".toList, ['2'], 3⟩ :=
    ⟨[.create "b" ("1 " ++ "é2"), .next "b", .next "b", .next "b"], "b", rfl⟩
  have hstop : Reached ⟨"1 é2".toList, [], 4⟩ :=
    ⟨[.create "b" ("1 " ++ "é2"), .advanceWhile "b" fun _ => true], "b", rfl⟩
  obtain ⟨-, -, hfirst, -, -, hjoin⟩ := slices_by_position hstart hmiddle
  obtain ⟨-, -, hsecond, -⟩ := slices_by_position hmiddle hstop
  obtain ⟨hrefused, -⟩ := slices_by_position hmiddle hstart
  obtain ⟨front, back, hfront, hback, hwhole⟩ :=
    hjoin _ hstop rfl rfl (Nat.zero_le 3) (Nat.le_succ 3)
  obtain rfl := hfirst front hfront
  obtain rfl := hsecond back hback
  exact ⟨hstart, hmiddle, hstop, hfront, hback, hwhole, hrefused.2 (Or.inr (Nat.zero_lt_succ 2))⟩

end Calculator.Cursor
