/-!
# Texts by bytes

Positions in a text that are counted in the bytes of its UTF-8 form.  Such a
position may lie inside a character or behind the end; a text cannot be cut
there.
-/

namespace Calculator.Text

/-- The number of bytes of a text in UTF-8. -/
def byteLength : List Char → Nat
  | [] => 0
  | c :: text => c.utf8Size + byteLength text

/-- The text before and after its first `count` bytes, if these end between two characters. -/
def splitBytes? (count : Nat) : List Char → Option (List Char × List Char)
  | [] => if count = 0 then some ([], []) else none
  | c :: text =>
      if count = 0 then some ([], c :: text)
      else if count < c.utf8Size then none
      else (splitBytes? (count - c.utf8Size) text).map fun (front, rest) => (c :: front, rest)

/-- The text between two byte positions, if they are in order and lie between characters. -/
def sliceBytes? (start stop : Nat) (text : List Char) : Option (List Char) :=
  if start ≤ stop then
    match splitBytes? start text with
    | none => none
    | some (_, rest) => (splitBytes? (stop - start) rest).map Prod.fst
  else none

@[simp] theorem byteLength_append (front rest : List Char) :
    byteLength (front ++ rest) = byteLength front + byteLength rest := by
  induction front with
  | nil => simp [byteLength]
  | cons c front ih => simp only [List.cons_append, byteLength, ih]; omega

theorem length_le_byteLength (text : List Char) : text.length ≤ byteLength text := by
  induction text with
  | nil => simp
  | cons c text ih =>
      have hpos := c.utf8Size_pos
      rw [List.length_cons, byteLength]
      omega

/-- A text can be cut where some of its characters end. -/
theorem splitBytes?_append (front rest : List Char) :
    splitBytes? (byteLength front) (front ++ rest) = some (front, rest) := by
  induction front with
  | nil => cases rest <;> simp [splitBytes?, byteLength]
  | cons c front ih =>
      have hpos := c.utf8Size_pos
      have hcount : ¬ c.utf8Size + byteLength front = 0 := by omega
      have hinside : ¬ c.utf8Size + byteLength front < c.utf8Size := by omega
      simp only [byteLength, List.cons_append, splitBytes?, hcount, hinside, if_false]
      rw [Nat.add_sub_cancel_left, ih, Option.map_some]

/-- A text is cut nowhere else. -/
theorem splitBytes?_sound {count : Nat} {text front rest : List Char}
    (h : splitBytes? count text = some (front, rest)) :
    text = front ++ rest ∧ byteLength front = count := by
  induction text generalizing count front with
  | nil =>
      by_cases hcount : count = 0
      · simp only [splitBytes?, hcount, if_true, Option.some.injEq, Prod.mk.injEq] at h
        rw [← h.1, ← h.2, hcount]
        exact ⟨rfl, rfl⟩
      · simp [splitBytes?, hcount] at h
  | cons c text ih =>
      by_cases hcount : count = 0
      · simp only [splitBytes?, hcount, if_true, Option.some.injEq, Prod.mk.injEq] at h
        rw [← h.1, ← h.2, hcount]
        exact ⟨rfl, rfl⟩
      · by_cases hinside : count < c.utf8Size
        · simp [splitBytes?, hcount, hinside] at h
        · simp only [splitBytes?, hcount, hinside, if_false, Option.map_eq_some_iff,
            Prod.mk.injEq] at h
          obtain ⟨⟨front', rest'⟩, hsplit, rfl, rfl⟩ := h
          obtain ⟨rfl, hlength⟩ := ih hsplit
          refine ⟨rfl, ?_⟩
          rw [byteLength, hlength]
          omega

/-- The slice between two byte positions is what stands between them. -/
theorem sliceBytes?_eq_some_iff {start stop : Nat} {text slice : List Char} :
    sliceBytes? start stop text = some slice ↔
      ∃ before after, text = before ++ (slice ++ after) ∧ byteLength before = start ∧
        byteLength before + byteLength slice = stop := by
  constructor
  · intro h
    by_cases hle : start ≤ stop
    · rw [sliceBytes?, if_pos hle] at h
      cases hbefore : splitBytes? start text with
      | none => simp [hbefore] at h
      | some parts =>
          obtain ⟨before, rest⟩ := parts
          simp only [hbefore, Option.map_eq_some_iff] at h
          obtain ⟨⟨slice', after⟩, hslice, rfl⟩ := h
          obtain ⟨rfl, hstart⟩ := splitBytes?_sound hbefore
          obtain ⟨rfl, hlength⟩ := splitBytes?_sound hslice
          refine ⟨before, after, rfl, hstart, ?_⟩
          show byteLength before + byteLength slice' = stop
          omega
    · simp [sliceBytes?, hle] at h
  · rintro ⟨before, after, rfl, rfl, rfl⟩
    rw [sliceBytes?, if_pos (Nat.le_add_right _ _), splitBytes?_append]
    simp only [Nat.add_sub_cancel_left, splitBytes?_append, Option.map_some]

end Calculator.Text
