import Calculator.CommandLine.Parser
import Calculator.Proofs.Numeral

/-!
# Numbers as values of arguments

A number is written in decimal, with any number of zeros in front and with a plus sign or
without.  A type of values has the texts that write a number within its bounds
(`ValueType.Stands`); where a signed number is read, a zero may have a minus sign.
-/

namespace Calculator.CommandLine

open Numeral (Digits isDigits_iff ofDigits)

/-! ## Numbers in decimal -/

/-- The text has the digits of the number, with any number of zeros in front. -/
def WritesDigits (n : Nat) (text : List Char) : Prop :=
  ∃ zeros, text = List.replicate zeros '0' ++ Nat.toDigits 10 n

/-- The text writes the number, with a plus sign or without. -/
def WritesNumber (n : Nat) (text : List Char) : Prop :=
  WritesDigits n text ∨ ∃ digits, WritesDigits n digits ∧ text = '+' :: digits

/-- The text writes zero with a minus sign. -/
def WritesMinusZero (text : List Char) : Prop :=
  ∃ digits, WritesDigits 0 digits ∧ text = '-' :: digits

theorem digitChar_sub {c : Char} (hc : c.isDigit = true) :
    Nat.digitChar (c.toNat - '0'.toNat) = c ∧ c.toNat - '0'.toNat < 10 := by
  obtain ⟨hlow, hhigh⟩ := Char.isDigit_iff_toNat.1 hc
  have hzero : '0'.toNat = 48 := rfl
  have hnine : '9'.toNat = 57 := rfl
  have hlt : c.toNat - '0'.toNat < 10 := by omega
  refine ⟨?_, hlt⟩
  rw [← Char.toNat_inj, Nat.toNat_digitChar_of_lt_ten hlt]
  omega

/-- Digits behind the digits of a positive number are the further digits of the number that they
make up together. -/
theorem toDigits_append {digits : List Char} (hdigits : ∀ c ∈ digits, c.isDigit = true) {n : Nat}
    (hn : 0 < n) :
    Nat.toDigits 10 n ++ digits = Nat.toDigits 10 (Nat.ofDigitChars 10 digits n) := by
  induction digits generalizing n with
  | nil => rw [List.append_nil, Nat.ofDigitChars_nil]
  | cons c digits ih =>
      obtain ⟨hchar, hlt⟩ := digitChar_sub (hdigits c List.mem_cons_self)
      have hmore := ih (fun d hd => hdigits d (List.mem_cons_of_mem _ hd))
        (show 0 < 10 * n + (c.toNat - '0'.toNat) by omega)
      calc Nat.toDigits 10 n ++ c :: digits
          = (Nat.toDigits 10 n ++ Nat.toDigits 10 (c.toNat - '0'.toNat)) ++ digits := by
            rw [Nat.toDigits_of_lt_base hlt, hchar, List.append_assoc, List.singleton_append]
        _ = Nat.toDigits 10 (10 * n + (c.toNat - '0'.toNat)) ++ digits := by
            rw [Nat.toDigits_append_toDigits (by decide) hn hlt]
        _ = Nat.toDigits 10 (Nat.ofDigitChars 10 (c :: digits) n) := by
            rw [hmore, Nat.ofDigitChars_cons]

theorem writesDigits_ofDigits {text : List Char} (htext : Digits text) :
    WritesDigits (ofDigits text) text := by
  induction text with
  | nil => exact absurd rfl htext.1
  | cons c digits ih =>
      obtain ⟨hchar, hlt⟩ := digitChar_sub (htext.2 c List.mem_cons_self)
      have hdigits : ∀ d ∈ digits, d.isDigit = true := fun d hd =>
        htext.2 d (List.mem_cons_of_mem _ hd)
      have hvalue : ofDigits (c :: digits) = Nat.ofDigitChars 10 digits (c.toNat - '0'.toNat) := by
        rw [ofDigits, Nat.ofDigitChars_cons, Nat.mul_zero, Nat.zero_add]
      rcases Nat.eq_zero_or_pos (c.toNat - '0'.toNat) with hzero | hpos
      · -- a zero in front; it is the only digit or stands before the digits of the same number
        obtain rfl : '0' = c := by rw [← hchar, hzero]; rfl
        cases digits with
        | nil => exact ⟨0, rfl⟩
        | cons d digits =>
            obtain ⟨zeros, hzeros⟩ := ih ⟨List.cons_ne_nil _ _, hdigits⟩
            exact ⟨zeros + 1, congrArg ('0' :: ·) hzeros⟩
      · refine ⟨0, ?_⟩
        rw [hvalue, ← toDigits_append hdigits hpos, Nat.toDigits_of_lt_base hlt, hchar]
        rfl

theorem writesDigits_iff {n : Nat} {text : List Char} :
    WritesDigits n text ↔ Digits text ∧ ofDigits text = n := by
  constructor
  · rintro ⟨zeros, rfl⟩
    refine ⟨⟨?_, ?_⟩, ?_⟩
    · exact List.append_ne_nil_of_right_ne_nil _ Nat.toDigits_ne_nil
    · intro c hc
      rcases List.mem_append.1 hc with hzero | hdigit
      · rw [List.eq_of_mem_replicate hzero]
        rfl
      · exact Nat.isDigit_of_mem_toDigits (by decide) (by decide) hdigit
    · rw [ofDigits, Nat.ofDigitChars_append, Nat.ofDigitChars_replicate_zero, Nat.mul_zero,
        Nat.ofDigitChars_ten_toDigits]
  · rintro ⟨htext, rfl⟩
    exact writesDigits_ofDigits htext

theorem WritesDigits.not_sign {n : Nat} {sign : Char} {digits : List Char}
    (hsign : sign.isDigit = false) : ¬ WritesDigits n (sign :: digits) := by
  intro h
  have hdigit := (writesDigits_iff.1 h).1.2 sign List.mem_cons_self
  rw [hsign] at hdigit
  cases hdigit

theorem not_writesNumber_minus {n : Nat} {digits : List Char} :
    ¬ WritesNumber n ('-' :: digits) := by
  rintro (h | ⟨digits', -, heq⟩)
  · exact WritesDigits.not_sign rfl h
  · cases heq

theorem readUnsigned?_eq_some_iff {n : Nat} {text : List Char} :
    readUnsigned? text = some n ↔ WritesNumber n text := by
  have hread (digits : List Char) :
      (if Numeral.isDigits digits then some (ofDigits digits) else none) = some n ↔
        WritesDigits n digits := by
    rw [writesDigits_iff, ← isDigits_iff]
    simp
  unfold readUnsigned? WritesNumber
  dsimp only
  split
  · next rest =>
      rw [hread]
      constructor
      · exact fun h => .inr ⟨rest, h, rfl⟩
      · rintro (h | ⟨digits, h, heq⟩)
        · exact absurd h (WritesDigits.not_sign rfl)
        · cases heq
          exact h
  · next hplus =>
      rw [hread]
      constructor
      · exact .inl
      · rintro (h | ⟨digits, h, rfl⟩)
        · exact h
        · exact absurd rfl (hplus digits)

/-! ## Values -/

namespace ValueType

/-- The text is a value of the type and stands for the number. -/
def Stands (n : Nat) (text : List Char) : ValueType → Prop
  | size => n < UInt64.size ∧ WritesNumber n text
  | upTo last => n ≤ last ∧ WritesNumber n text ∨ n = 0 ∧ WritesMinusZero text

/-- The texts of a type are those that are read as its numbers. -/
theorem read?_eq_some_iff {type : ValueType} {n : Nat} {text : List Char} :
    type.read? text = some n ↔ type.Stands n text := by
  cases type with
  | size =>
      rw [read?, Option.filter_eq_some_iff, readUnsigned?_eq_some_iff, decide_eq_true_iff,
        and_comm]
      rfl
  | upTo last =>
      unfold read? Stands
      dsimp only
      split
      · next digits =>
          constructor
          · intro h
            obtain ⟨hzero, hn⟩ := Option.ite_none_right_eq_some.1 h
            cases hn
            rw [Bool.and_eq_true, isDigits_iff, beq_iff_eq] at hzero
            exact .inr ⟨rfl, digits, writesDigits_iff.2 hzero, rfl⟩
          · rintro (⟨-, h⟩ | ⟨rfl, digits', h, heq⟩)
            · exact absurd h not_writesNumber_minus
            · cases heq
              rw [writesDigits_iff, ← isDigits_iff] at h
              rw [h.1, h.2]
              rfl
      · next hminus =>
          rw [Option.filter_eq_some_iff, readUnsigned?_eq_some_iff, decide_eq_true_iff]
          constructor
          · exact fun ⟨h, hle⟩ => .inl ⟨hle, h⟩
          · rintro (⟨hle, h⟩ | ⟨-, digits, -, rfl⟩)
            · exact ⟨h, hle⟩
            · exact absurd rfl (hminus digits)

end ValueType

end Calculator.CommandLine
