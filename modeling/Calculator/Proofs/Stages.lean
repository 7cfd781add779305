import Calculator.Proofs.Parse.Blame
import Calculator.Proofs.Value

/-!
# The stage that refuses a text

A text goes through four stages: its length, its tokens, its tree, its value.
`Refused limits source failure` says that one of them fails and that the stages
before it do not; `evaluate_eq_error_iff` that this failure is reported.
-/

namespace Calculator

/-- `Refused limits source failure`: the first stage that fails for a text. -/
inductive Refused (limits : Limits) (source : String) : Failure → Prop
  | length (hlength : limits.length < source.length) :
      Refused limits source (.tooLong source.length limits.length)
  | tokens {failure : Failure} (hlength : source.length ≤ limits.length)
      (hscan : Token.screenAndScan source.toList = .error failure) :
      Refused limits source failure
  | tree {tokens : List Token} {failure : Failure} (hlength : source.length ≤ limits.length)
      (hscan : Token.screenAndScan source.toList = .ok tokens)
      (hblamed : Parse.Blamed limits.depth source.length tokens failure) :
      Refused limits source failure
  | value {tokens : List Token} {tree : Expr} {failure : Failure}
      (hlength : source.length ≤ limits.length)
      (hscan : Token.screenAndScan source.toList = .ok tokens)
      (htree : Expr.ofTokens limits.depth source.length tokens = .ok tree)
      (hvalue : tree.value = .error failure) :
      Refused limits source failure

theorem Expr.failure_of_value {tree : Expr} {failure : Failure}
    (h : tree.value = .error failure) : failure = .divisionByZero ∨ failure = .notFinite := by
  obtain ⟨before, node, after, -, -, -, rfl⟩ := (tree.value_eq_error_iff failure).1 h
  unfold fault
  split
  · exact .inl rfl
  · exact .inr rfl

theorem Expr.read_of_error {source : String} {failure : Failure}
    (hscan : Token.screenAndScan source.toList = .error failure) (maxDepth : Nat) :
    Expr.read maxDepth source = .error failure := by
  rw [Expr.read, hscan]

theorem Expr.read_of_ok {source : String} {tokens : List Token}
    (hscan : Token.screenAndScan source.toList = .ok tokens) (maxDepth : Nat) :
    Expr.read maxDepth source = Expr.ofTokens maxDepth source.length tokens := by
  rw [Expr.read, hscan, String.length_toList]

theorem evaluate_eq_error_iff (limits : Limits) (source : String) (failure : Failure) :
    evaluate limits source = .error failure ↔ Refused limits source failure := by
  constructor
  · intro h
    unfold evaluate at h
    split at h
    · next hlength =>
        cases h
        exact .length hlength
    · next hlength =>
        have hlength := Nat.le_of_not_lt hlength
        cases hscan : Token.screenAndScan source.toList with
        | error failure' =>
            rw [Expr.read_of_error hscan] at h
            cases h
            exact .tokens hlength hscan
        | ok tokens =>
            rw [Expr.read_of_ok hscan] at h
            cases htree : Expr.ofTokens limits.depth source.length tokens with
            | error failure' =>
                rw [htree] at h
                cases h
                exact .tree hlength hscan ((Parse.fails_iff_blamed ..).1 htree)
            | ok tree =>
                rw [htree] at h
                exact .value hlength hscan htree h
  · unfold evaluate
    rintro (hlength | ⟨hlength, hscan⟩ | ⟨hlength, hscan, hblamed⟩ | ⟨hlength, hscan, htree, hvalue⟩)
    · exact if_pos hlength
    · rw [if_neg (Nat.not_lt.2 hlength), Expr.read_of_error hscan]
    · rw [if_neg (Nat.not_lt.2 hlength), Expr.read_of_ok hscan,
        (Parse.fails_iff_blamed ..).2 hblamed]
    · rw [if_neg (Nat.not_lt.2 hlength), Expr.read_of_ok hscan, htree]
      exact hvalue

end Calculator
