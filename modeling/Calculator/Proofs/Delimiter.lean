import Mathlib.Data.List.TakeWhile

/-!
# Texts that end at a delimiter

Where two texts are put together, the cut between them can be found again if it is
marked: the first text consists of characters of some kind, and the second begins
with none of them (`append_inj_of_head?`).  A character that occurs in only one of
the texts, once, marks the cut as well, from the left (`append_cons_inj`) or from
the right (`append_cons_inj_right`).
-/

namespace Calculator.Text

variable {front front' back back' : List Char}

theorem takeWhile_append_of_head? {p : Char → Bool} (hfront : ∀ c ∈ front, p c = true)
    (hback : ∀ c ∈ back.head?, p c = false) : (front ++ back).takeWhile p = front := by
  rw [List.takeWhile_append_of_pos hfront]
  cases back with
  | nil => exact List.append_nil front
  | cons c back =>
      have hc : p c = false := hback c rfl
      rw [List.takeWhile_cons_of_neg (by simp [hc]), List.append_nil]

/-- The first text ends where the first character of another kind stands. -/
theorem append_inj_of_head? {p : Char → Bool} (hfront : ∀ c ∈ front, p c = true)
    (hfront' : ∀ c ∈ front', p c = true) (hback : ∀ c ∈ back.head?, p c = false)
    (hback' : ∀ c ∈ back'.head?, p c = false) (h : front ++ back = front' ++ back') :
    front = front' ∧ back = back' := by
  have htaken := congrArg (List.takeWhile p) h
  rw [takeWhile_append_of_head? hfront hback, takeWhile_append_of_head? hfront' hback'] at htaken
  subst htaken
  exact ⟨rfl, List.append_cancel_left h⟩

/-- A character that stands in neither of two texts tells where they end. -/
theorem append_cons_inj {c : Char} (hfront : c ∉ front) (hfront' : c ∉ front')
    (h : front ++ c :: back = front' ++ c :: back') : front = front' ∧ back = back' := by
  have hother : ∀ {text : List Char}, c ∉ text → ∀ d ∈ text, (d != c) = true := by
    intro text htext d hd
    rw [bne_iff_ne]
    rintro rfl
    exact htext hd
  obtain ⟨hfronts, hbacks⟩ := append_inj_of_head? (hother hfront) (hother hfront')
    (by simp) (by simp) h
  exact ⟨hfronts, (List.cons.inj hbacks).2⟩

/-- A character that stands in neither of two texts tells where they begin. -/
theorem append_cons_inj_right {c : Char} (hback : c ∉ back) (hback' : c ∉ back')
    (h : front ++ c :: back = front' ++ c :: back') : front = front' ∧ back = back' := by
  have hreverse : back.reverse ++ c :: front.reverse = back'.reverse ++ c :: front'.reverse := by
    simpa using congrArg List.reverse h
  obtain ⟨hbacks, hfronts⟩ := append_cons_inj (by simpa using hback) (by simpa using hback') hreverse
  exact ⟨List.reverse_inj.1 hfronts, List.reverse_inj.1 hbacks⟩

end Calculator.Text
