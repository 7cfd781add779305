import Mathlib
import Calculator.Proofs.Exact.Denotes
import Calculator.Proofs.Grammar.Inorder
import Calculator.Proofs.Scan.Append

/-!
# Whole numbers

Up to 2⁵³ every whole number is that of a double, and a numeral without a dot is read
as the double with the number that its digits write (`rational_ofWhole`).  The whole
numbers of a text are found without a scanner: blanks left out, they are its longest
runs of digits (`Text.wholeNumbers`).  They are the numbers of its tokens if the text
has no dot (`Token.numbers_of_tiles`).
-/

namespace Calculator

open Text (dropBlanks dropBlanks_append dropBlanks_cons dropBlanks_cons_of_blank isBlank)

/-! ## Doubles with whole numbers -/

namespace Binary64

theorem units_eq (m : Nat) : units m = significand m * 2 ^ shift m :=
  Nat.shiftLeft_eq ..

/-- A significand with all its bits, at any place. -/
theorem units_of_places {places q : Nat} (hle : 2 ^ 52 ≤ q) (hlt : q < 2 ^ 53) :
    units (places * 2 ^ 52 + q) = q * 2 ^ places := by
  have hshift : shift (places * 2 ^ 52 + q) = places := by
    rw [shift_eq]
    omega
  have hsignificand : significand (places * 2 ^ 52 + q) = q := by
    rw [significand_of_le (by omega)]
    omega
  rw [units_eq, hshift, hsignificand]

/-- Up to 2⁵³ a whole number has so few bits that a significand holds them all. -/
theorem exists_significand {n least : Nat} (hn : 0 < n) (hle : n ≤ 2 ^ 53) (hleast : 52 ≤ least) :
    ∃ places q, places ≤ least + 1 ∧ 2 ^ 52 ≤ q ∧ q < 2 ^ 53 ∧
      q * 2 ^ places = n * 2 ^ least := by
  rcases Nat.lt_or_eq_of_le hle with hlt | rfl
  · have hlog : n.log2 < 53 := (Nat.log2_lt hn.ne').2 hlt
    obtain ⟨gap, hgap⟩ : ∃ gap, n.log2 + gap = 52 := ⟨52 - n.log2, by omega⟩
    obtain ⟨places, hplaces⟩ : ∃ places, gap + places = least := ⟨least - gap, by omega⟩
    have hpower := Nat.two_pow_pos gap
    refine ⟨places, n * 2 ^ gap, by omega, ?_, ?_, ?_⟩
    · rw [← hgap, Nat.pow_add]
      exact Nat.mul_le_mul_right _ (Nat.log2_self_le hn.ne')
    · rw [show 53 = n.log2 + 1 + gap by omega, Nat.pow_add]
      exact Nat.mul_lt_mul_of_pos_right Nat.lt_log2_self hpower
    · rw [Nat.mul_assoc, ← Nat.pow_add, hplaces]
  · exact ⟨least + 1, 2 ^ 52, le_rfl, le_rfl, by decide, by rw [Nat.pow_succ]; omega⟩

theorem exists_units_eq {n : Nat} (hn : n ≤ 2 ^ 53) : ∃ m < infinite, units m = n * 2 ^ 1074 := by
  have hinfinite : infinite = 2047 * 2 ^ 52 := by decide
  rcases Nat.eq_zero_or_pos n with rfl | hpos
  · exact ⟨0, by omega, by rw [Nat.zero_mul]; decide⟩
  · obtain ⟨places, q, hplaces, hle, hlt, hunits⟩ := @exists_significand n 1074 hpos hn (by decide)
    exact ⟨places * 2 ^ 52 + q, by omega, (units_of_places hle hlt).trans hunits⟩

/-- A number that has a double is not rounded when it is read. -/
theorem nearest_of_units {m n : Nat} (hm : m < infinite) (hunits : units m = n * 2 ^ 1074) :
    nearest n 1 = m := by
  have hplace := Nat.two_pow_pos (shift m)
  have hbelow : 0 < quartersBelow m * 2 ^ shift m := by
    rcases quartersBelow_eq m with hquarters | hquarters <;> rw [hquarters] <;> omega
  rw [units_eq] at hunits
  refine nearest_eq_of_rounds hm Nat.one_pos ⟨?_, ?_, ?_⟩ <;> rw [Nat.mul_one, hunits] <;> omega

theorem rational_of_units {x : Float} {n : Nat} (hunits : units (magnitude x) = n * 2 ^ 1074) :
    rational x = (if isNegative x then -1 else 1) * n := by
  rw [rational, hunits, Nat.cast_mul, Nat.cast_pow, Nat.cast_two, ← mul_assoc]
  exact mul_div_cancel_right₀ _ (pow_ne_zero 1074 two_ne_zero)

/-- The double that a whole number is read as. -/
def ofWhole (n : Nat) : Float :=
  ofMagnitude (nearest n 1)

section Whole

variable {n : Nat}

theorem isFinite_ofWhole (hn : n ≤ 2 ^ 53) : (ofWhole n).isFinite = true := by
  obtain ⟨m, hm, hunits⟩ := exists_units_eq hn
  rw [ofWhole, nearest_of_units hm hunits]
  exact isFinite_ofMagnitude hm

/-- Up to 2⁵³ whole numbers are read without a rounding error. -/
theorem rational_ofWhole (hn : n ≤ 2 ^ 53) : rational (ofWhole n) = n := by
  obtain ⟨m, hm, hunits⟩ := exists_units_eq hn
  rw [ofWhole, nearest_of_units hm hunits]
  rw [← magnitude_ofMagnitude hm] at hunits
  rw [rational_of_units hunits, isNegative_ofMagnitude hm, if_neg Bool.false_ne_true, one_mul]

/-- Up to 2⁵³ every whole number, with either sign, is that of a double. -/
theorem exists_rational_eq {z : ℤ} (hz : |z| ≤ 2 ^ 53) :
    ∃ x : Float, x.isFinite = true ∧ rational x = z := by
  rw [Int.abs_eq_natAbs] at hz
  rcases Int.eq_nat_or_neg z with ⟨n, rfl | rfl⟩
  · have hn : n ≤ 2 ^ 53 := by omega
    exact ⟨ofWhole n, isFinite_ofWhole hn, (rational_ofWhole hn).trans (Int.cast_natCast n).symm⟩
  · have hn : n ≤ 2 ^ 53 := by omega
    obtain ⟨m, hm, hunits⟩ := exists_units_eq hn
    obtain ⟨x, hsign, rfl⟩ := exists_isNegative hm
    refine ⟨x, (isFinite_iff x).2 hm, ?_⟩
    rw [rational_of_units hunits, hsign, if_pos rfl, neg_one_mul, Int.cast_neg, Int.cast_natCast]

end Whole

end Binary64

/-! ## The whole numbers of a text -/

namespace Text

/-- The whole numbers that the digits of a text write, where blanks do not part digits. -/
def wholeNumbers (text : List Char) : List Nat :=
  (((dropBlanks text).splitOnP fun c => !c.isDigit).filter fun digits => !digits.isEmpty).map
    Numeral.ofDigits

theorem wholeNumbers_of_blank {c : Char} (hc : isBlank c = true) (text : List Char) :
    wholeNumbers (c :: text) = wholeNumbers text := by
  rw [wholeNumbers, dropBlanks_cons_of_blank hc]
  rfl

theorem wholeNumbers_of_symbol {c : Char} (hc : isBlank c = false) (hdigit : c.isDigit = false)
    (text : List Char) : wholeNumbers (c :: text) = wholeNumbers text := by
  rw [wholeNumbers, dropBlanks_cons hc, List.splitOnP_cons_eq_if_modifyHead]
  simp [hdigit, wholeNumbers]

/-- Digits that do not go on are a number by themselves. -/
theorem wholeNumbers_append {digits rest : List Char} (hdigits : Numeral.Digits (dropBlanks digits))
    (hrest : ∀ c ∈ (dropBlanks rest).head?, c.isDigit = false) :
    wholeNumbers (digits ++ rest) = Numeral.ofDigits (dropBlanks digits) :: wholeNumbers rest := by
  have hkept : ∀ c ∈ dropBlanks digits, (!c.isDigit) = false :=
    fun c hc => by rw [hdigits.2 c hc]; rfl
  rw [wholeNumbers, wholeNumbers, dropBlanks_append]
  cases hsplit : dropBlanks rest with
  | nil =>
      rw [List.append_nil, List.splitOnP_eq_singleton hkept]
      simp [hdigits.1]
  | cons c after =>
      have hc : (!c.isDigit) = true := by
        rw [hrest c (by rw [hsplit]; rfl)]
        rfl
      rw [List.splitOnP_append_cons_of_forall_mem hkept c hc, List.splitOnP_cons_eq_if_modifyHead,
        if_pos hc]
      simp [hdigits.1]

end Text

/-! ## The numbers of tokens -/

theorem Token.Kind.number?_of_symbol {c : Char} {kind : Token.Kind}
    (h : Token.Kind.ofSymbol? c = some kind) : kind.number? = none := by
  cases kind with
  | number x => exact absurd h (Token.ofSymbol?_ne_number c x)
  | _ => rfl

/-- A numeral without a dot is a whole number. -/
theorem Numeral.eq_of_read? {text : List Char} {n : Numeral} (h : Numeral.read? text = some n)
    (hdot : '.' ∉ text) : Numeral.Digits text ∧ n = ⟨text, []⟩ := by
  cases Numeral.wellFormed_of_read? h with
  | whole hdigits =>
      rw [Numeral.read?_digits hdigits] at h
      exact ⟨hdigits, (Option.some.inj h).symm⟩
  | pointed hwhole hfraction => simp at hdot

theorem Numeral.value_whole (digits : List Char) :
    Numeral.value ⟨digits, []⟩ = Binary64.ofWhole (Numeral.ofDigits digits) := by
  rw [Numeral.value, Numeral.numerator, List.append_nil]
  rfl

theorem Token.isDigit_of_isNumeral {c : Char} (hc : Alphabet.isNumeral c = false) :
    c.isDigit = false := by
  rw [← Bool.not_eq_true]
  intro hdigit
  cases hc.symm.trans (isNumeral_of_isDigit hdigit)

/-- Without a dot, the numbers of the tokens are the whole numbers of the text. -/
theorem Token.numbers_of_tiles {start : Nat} {text : List Char} {tokens : List Token}
    (h : Token.Tiles start text tokens) (hdot : '.' ∉ text) :
    (tokens.map Token.kind).filterMap Token.Kind.number? =
      (Text.wholeNumbers text).map Binary64.ofWhole := by
  induction h with
  | nil => rfl
  | blank hblank hrest ih =>
      rw [Text.wholeNumbers_of_blank hblank]
      exact ih (List.not_mem_of_not_mem_cons hdot)
  | @token token rest tokens htoken hrest ih =>
      have hlater := ih fun hmem => hdot (List.mem_append_right _ hmem)
      rw [List.map_cons]
      cases htoken with
      | @symbol c kind start hkind =>
          have hsymbol := isSymbol_of_ofSymbol? hkind
          have hdigit := isDigit_of_isNumeral (isNumeral_of_isSymbol hsymbol)
          rw [List.filterMap_cons_none (Token.Kind.number?_of_symbol hkind), hlater,
            List.singleton_append, Text.wholeNumbers_of_symbol (isBlank_of_isSymbol hsymbol) hdigit]
      | @number run numeral start hrun hapart hread =>
          have hrunDot : '.' ∉ dropBlanks run := fun hmem =>
            hdot (List.mem_append_left _ (List.mem_of_mem_filter hmem))
          have hnext : ∀ c ∈ (dropBlanks rest).head?, c.isDigit = false :=
            fun c hc => isDigit_of_isNumeral ((apart_iff_of_isRun hrun rest).1 hapart c hc)
          obtain ⟨hdigits, rfl⟩ := Numeral.eq_of_read? hread hrunDot
          have hvalue : (Kind.number (Numeral.value ⟨dropBlanks run, []⟩)).number? =
              some (Binary64.ofWhole (Numeral.ofDigits (dropBlanks run))) :=
            congrArg some (Numeral.value_whole _)
          rw [List.filterMap_cons_some hvalue, hlater, Text.wholeNumbers_append hdigits hnext,
            List.map_cons]

end Calculator
