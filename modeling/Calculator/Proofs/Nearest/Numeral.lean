import Mathlib
import Calculator.Proofs.Nearest.Double
import Calculator.Proofs.Order
import Calculator.Proofs.Scan.Tiling

/-!
# The values of numerals

What a text in decimal writes is a fraction, the number before its dot and the one
behind it (`Numeral.decimal`).  A number that the scanner finds has for its value the
double nearest to the fraction that its lexeme writes, blanks left out; in a tie the
significand is even, and from the middle between the largest finite double and 2¹⁰²⁴ on
it is infinity (`scanned_value_nearest`).  So its value depends on the fraction alone and
grows with it.
-/

namespace Calculator

open Text (dropBlanks)

/-! ## The number that a text writes -/

namespace Numeral

/-- The number that a text in decimal writes: the digits before its dot and, as decimals, those
behind it. -/
def decimal (text : List Char) : ℚ :=
  ofDigits (text.takeWhile (· != '.')) +
    ofDigits (text.dropWhile (· != '.')).tail / 10 ^ (text.dropWhile (· != '.')).tail.length

theorem ofDigits_append (digits more : List Char) :
    ofDigits (digits ++ more) = ofDigits digits * 10 ^ more.length + ofDigits more := by
  rw [ofDigits, Nat.ofDigitChars_append, Nat.ofDigitChars_eq_ofDigitChars_zero, Nat.mul_comm]
  rfl

theorem ofDigits_zeros (count : Nat) : ofDigits (List.replicate count '0') = 0 := by
  rw [ofDigits, Nat.ofDigitChars_replicate_zero, Nat.mul_zero]

section Dot

variable {text : List Char}

theorem ne_dot_of_not_mem (hdot : '.' ∉ text) : ∀ c ∈ text, (c != '.') = true := by
  intro c hc
  rw [bne_iff_ne]
  rintro rfl
  exact hdot hc

theorem decimal_of_not_mem (hdot : '.' ∉ text) : decimal text = ofDigits text := by
  rw [decimal, List.takeWhile_eq_self_iff.2 (ne_dot_of_not_mem hdot),
    List.dropWhile_eq_nil_iff.2 (ne_dot_of_not_mem hdot)]
  simp [ofDigits]

theorem decimal_pointed (hdot : '.' ∉ text) (fraction : List Char) :
    decimal (text ++ '.' :: fraction) =
      ofDigits text + ofDigits fraction / 10 ^ fraction.length := by
  rw [decimal, List.takeWhile_append_of_pos (ne_dot_of_not_mem hdot),
    List.dropWhile_append_of_pos (ne_dot_of_not_mem hdot)]
  simp

end Dot

/-- Zeros in front do not change the number. -/
theorem decimal_zeros_append (count : Nat) (text : List Char) :
    decimal (List.replicate count '0' ++ text) = decimal text := by
  have hzeros : ∀ c ∈ List.replicate count '0', (c != '.') = true := by
    intro c hc
    rw [List.eq_of_mem_replicate hc]
    decide
  rw [decimal, List.takeWhile_append_of_pos hzeros, List.dropWhile_append_of_pos hzeros,
    ofDigits_append, ofDigits_zeros, Nat.zero_mul, Nat.zero_add, decimal]

/-- Zeros behind the decimals do not change the number. -/
theorem decimal_append_zeros {text : List Char} (hdot : '.' ∈ text) (count : Nat) :
    decimal (text ++ List.replicate count '0') = decimal text := by
  obtain ⟨whole, fraction, rfl, hwhole⟩ := List.eq_append_cons_of_mem hdot
  rw [List.append_assoc, List.cons_append, decimal_pointed hwhole, decimal_pointed hwhole,
    ofDigits_append, ofDigits_zeros, List.length_append, List.length_replicate]
  push_cast
  rw [pow_add, add_zero, mul_div_mul_right _ _ (by positivity)]

theorem decimal_nonneg (text : List Char) : 0 ≤ decimal text := by
  unfold decimal
  positivity

/-- A numeral writes its digits, shifted by its decimals. -/
theorem decimal_of_read? {text : List Char} {n : Numeral} (h : read? text = some n) :
    decimal text = (n.numerator : ℚ) / (Nat.pow 10 n.places : Nat) := by
  have hnot : ∀ {digits : List Char}, Digits digits → '.' ∉ digits :=
    fun hdigits hmem => absurd (hdigits.ne_dot _ hmem) (by decide)
  cases wellFormed_of_read? h with
  | whole hdigits =>
      rw [read?_digits hdigits] at h
      obtain rfl := Option.some.inj h
      rw [decimal_of_not_mem (hnot hdigits), numerator, List.append_nil, places]
      simp
  | pointed hwhole hfraction =>
      rw [read?_pointed hwhole hfraction] at h
      obtain rfl := Option.some.inj h
      rw [decimal_pointed (hnot hwhole), numerator, ofDigits_append, places, Nat.pow_eq]
      push_cast
      field_simp

end Numeral

/-! ## The nearest double -/

namespace Binary64

/-- `IsNearest q x`: no finite double is nearer to `q` than the finite double `x`, and if another
number of a double is as near, the significand of `x` is even. -/
structure IsNearest (q : ℚ) (x : Float) : Prop where
  finite : x.isFinite = true
  le : ∀ y : Float, y.isFinite = true → |q - rational x| ≤ |q - rational y|
  even : ∀ y : Float, y.isFinite = true → rational y ≠ rational x →
    |q - rational y| = |q - rational x| → Even (significand (magnitude x))

theorem even_significand_iff (m : Nat) : Even (significand m) ↔ Even m := by
  have hmagnitude := magnitude_eq m
  rw [Nat.even_iff, Nat.even_iff]
  omega

theorem rational_ofMagnitude {m : Nat} (hm : m < infinite) : rational (ofMagnitude m) = point m := by
  rw [rational_eq_point, isNegative_ofMagnitude hm, magnitude_ofMagnitude hm,
    if_neg Bool.false_ne_true, one_mul]

/-- A double with a sign is not nearer to a number without one than the same without the sign. -/
theorem abs_sub_point_le {q : ℚ} (hq : 0 ≤ q) (y : Float) :
    |q - point (magnitude y)| ≤ |q - rational y| := by
  have habs := abs_abs_sub_abs_le q (rational y)
  rwa [abs_of_nonneg hq, abs_rational] at habs

theorem point_zero : point 0 = 0 := by
  have hunits : units 0 = 0 := by decide
  rw [point, hunits, Nat.cast_zero, zero_div]

/-- A double whose number is as near as the nearest point of the same magnitude has the number of
this point: with the other sign only 0 is as near. -/
theorem rational_eq_of_abs_sub_eq {q : ℚ} {y : Float} (hq : 0 ≤ q)
    (h : Nearest point q (magnitude y))
    (heq : |q - rational y| = |q - point (magnitude y)|) : rational y = point (magnitude y) := by
  have hpoint := point_nonneg (magnitude y)
  rcases (abs_eq hpoint).1 (abs_rational y) with hsame | hother
  · exact hsame
  · rw [hother, sub_neg_eq_add, abs_of_nonneg (add_nonneg hq hpoint)] at heq
    have hzero : point (magnitude y) = 0 := by
      rcases abs_cases (q - point (magnitude y)) with ⟨habs, -⟩ | ⟨habs, -⟩
      · linarith
      · have hleast := h.le 0
        obtain rfl : q = 0 := by linarith
        rw [point_zero, sub_zero, abs_zero, zero_sub, abs_neg] at hleast
        exact abs_nonpos_iff.1 hleast
    rw [hother, hzero, neg_zero]

theorem isNearest_ofMagnitude {q : ℚ} {m : Nat} (hq : 0 ≤ q) (hm : m < infinite)
    (h : Nearest point q m) : IsNearest q (ofMagnitude m) := by
  have hpoint := rational_ofMagnitude hm
  refine ⟨isFinite_ofMagnitude hm, fun y hy => ?_, fun y hy hne heq => ?_⟩
  · rw [hpoint]
    exact (h.le _).trans (abs_sub_point_le hq y)
  · rw [magnitude_ofMagnitude hm, even_significand_iff]
    rw [hpoint] at hne heq
    have hclose := abs_sub_point_le hq y
    by_cases hmagnitude : magnitude y = m
    · exact absurd (rational_eq_of_abs_sub_eq hq (hmagnitude ▸ h) (hmagnitude ▸ heq))
        (hmagnitude ▸ hne)
    · exact h.even _ hmagnitude (le_antisymm (hclose.trans heq.le) (h.le _))

theorem isInf_ofMagnitude_iff {m : Nat} (hm : m ≤ infinite) :
    (ofMagnitude m).isInf = true ↔ infinite ≤ m := by
  constructor
  · intro hinf
    by_contra hlt
    rw [isInf_of_isFinite (isFinite_ofMagnitude (Nat.lt_of_not_le hlt))] at hinf
    cases hinf
  · intro hle
    rw [le_antisymm hm hle]
    decide +kernel

end Binary64

/-! ## The values of lexemes -/

namespace Numeral

/-- The point of the grid that a numeral is rounded to. -/
theorem exists_nearest {text : List Char} {n : Numeral} (h : read? text = some n) :
    ∃ m, Nearest Binary64.point (decimal text) m ∧
      n.value = Binary64.ofMagnitude (min m Binary64.infinite) := by
  refine ⟨Binary64.rounded n.numerator (Nat.pow 10 n.places), ?_, ?_⟩
  · rw [decimal_of_read? h]
    exact Binary64.nearest_point n.numerator (Nat.pow_pos (by decide))
  · rw [value, Binary64.nearest_eq_min]

end Numeral

namespace Token

open Binary64 (infinite infinite_le_iff IsNearest isInf_ofMagnitude_iff isNearest_ofMagnitude
  isNegative ofMagnitude ofMagnitude_le_ofMagnitude point strictMono_point unsigned_ofMagnitude)

/-- `ScansAs lexeme x`: in some text the scanner finds a number with this lexeme and value. -/
def ScansAs (lexeme : List Char) (x : Float) : Prop :=
  ∃ source tokens, scan source = .ok tokens ∧ ∃ token ∈ tokens,
    token.lexeme = lexeme ∧ token.kind = .number x

theorem ScansAs.exists_read? {lexeme : List Char} {x : Float} (h : ScansAs lexeme x) :
    ∃ n, Numeral.read? (dropBlanks lexeme) = some n ∧ x = n.value := by
  obtain ⟨source, tokens, hscan, token, htoken, rfl, hkind⟩ := h
  obtain ⟨before, after, -, -, -, hspells⟩ :=
    ((scanFrom_eq_ok_iff 0 _ _).1 hscan).exists_split htoken
  exact (hspells.of_number hkind).2

/-- A scanned number is the nearest point of the grid, cut off at infinity. -/
theorem ScansAs.exists_nearest {lexeme : List Char} {x : Float} (h : ScansAs lexeme x) :
    ∃ m, Nearest point (Numeral.decimal (dropBlanks lexeme)) m ∧
      x = ofMagnitude (min m infinite) := by
  obtain ⟨n, hread, rfl⟩ := h.exists_read?
  exact Numeral.exists_nearest hread

theorem dot_mem_dropBlanks {lexeme : List Char} (hdot : '.' ∈ lexeme) : '.' ∈ dropBlanks lexeme :=
  List.mem_filter.2 ⟨hdot, by decide⟩

/-- The value of a number is the double nearest to the fraction that its lexeme writes, blanks left
out.  It has no sign, and it is infinity from the middle between the largest finite double and 2¹⁰²⁴
on.  A greater fraction has no smaller value, and zeros in front, zeros behind the decimals, and
blanks do not change the value. -/
theorem scanned_value_nearest {lexeme : List Char} {x : Float} (h : ScansAs lexeme x) :
    (x.isNaN = false ∧ isNegative x = false) ∧
    (x.isInf = true ↔ 2 ^ 1024 - 2 ^ 970 ≤ Numeral.decimal (dropBlanks lexeme)) ∧
    (x.isInf = false → IsNearest (Numeral.decimal (dropBlanks lexeme)) x) ∧
    (∀ lexeme' x', ScansAs lexeme' x' →
      Numeral.decimal (dropBlanks lexeme) ≤ Numeral.decimal (dropBlanks lexeme') → x ≤ x') ∧
    ∀ lexeme' x' front back, ScansAs lexeme' x' → (back = 0 ∨ '.' ∈ lexeme) →
      dropBlanks lexeme' =
        List.replicate front '0' ++ dropBlanks lexeme ++ List.replicate back '0' → x' = x := by
  obtain ⟨m, hm, rfl⟩ := h.exists_nearest
  have hcut : min m infinite ≤ infinite := Nat.min_le_right ..
  have hinf : (ofMagnitude (min m infinite)).isInf = true ↔ infinite ≤ m := by
    rw [isInf_ofMagnitude_iff hcut, le_min_iff]
    exact and_iff_left le_rfl
  refine ⟨unsigned_ofMagnitude hcut, hinf.trans (infinite_le_iff hm), ?_, ?_, ?_⟩
  · intro hfinite
    have hlt : m < infinite := by
      by_contra hle
      rw [hinf.2 (Nat.le_of_not_lt hle)] at hfinite
      cases hfinite
    rw [Nat.min_eq_left hlt.le]
    exact isNearest_ofMagnitude (Numeral.decimal_nonneg _) hlt hm
  · intro lexeme' x' h' hle
    obtain ⟨m', hm', rfl⟩ := h'.exists_nearest
    have hmono := hm.mono strictMono_point hm' hle
    exact ofMagnitude_le_ofMagnitude (min_le_min_right _ hmono) (Nat.min_le_right ..)
  · intro lexeme' x' front back h' hback htext
    obtain ⟨m', hm', rfl⟩ := h'.exists_nearest
    have hsame : Numeral.decimal (dropBlanks lexeme') = Numeral.decimal (dropBlanks lexeme) := by
      rw [htext, List.append_assoc, Numeral.decimal_zeros_append]
      rcases hback with rfl | hdot
      · rw [List.replicate_zero, List.append_nil]
      · exact Numeral.decimal_append_zeros (dot_mem_dropBlanks hdot) back
    rw [hsame] at hm'
    rw [hm'.unique strictMono_point hm]

/-- The fraction 2⁵³ + 1 lies in the middle between two doubles and goes to 2⁵³, whose significand
is even; 2⁵³ + 2 is a double. -/
theorem scanned_value_nearest_tie :
    ScansAs "9 007199254740993.0".toList 9007199254740992 ∧
    ScansAs "9007199254740994".toList 9007199254740994 ∧
    ScansAs "0009007199254740993. 000".toList
      (Numeral.value ⟨"0009007199254740993".toList, "000".toList⟩) ∧
    IsNearest 9007199254740993 9007199254740992 ∧
    (9007199254740992 : Float) ≤ 9007199254740994 ∧
    Numeral.value ⟨"0009007199254740993".toList, "000".toList⟩ = 9007199254740992 := by
  have hsingle : ∀ (lexeme : List Char) (x : Float),
      scan lexeme = .ok [⟨.number x, lexeme, 0⟩] → ScansAs lexeme x :=
    fun lexeme x hscan => ⟨_, _, hscan, _, List.mem_singleton_self _, rfl, rfl⟩
  have hmiddle := hsingle "9 007199254740993.0".toList 9007199254740992 (by decide +kernel)
  have hnext := hsingle "9007199254740994".toList 9007199254740994 (by decide +kernel)
  have hzeros := hsingle "0009007199254740993. 000".toList
    (Numeral.value ⟨"0009007199254740993".toList, "000".toList⟩) (by decide +kernel)
  have hdecimal : Numeral.decimal (dropBlanks "9 007199254740993.0".toList) = 9007199254740993 := by
    decide +kernel
  obtain ⟨-, -, hnearest, hmono, hsame⟩ := scanned_value_nearest hmiddle
  rw [hdecimal] at hnearest hmono
  exact ⟨hmiddle, hnext, hzeros, hnearest (by decide +kernel),
    hmono _ _ hnext (by decide +kernel), hsame _ _ 3 2 hzeros (.inr (by decide)) (by decide +kernel)⟩

end Token

end Calculator
