import Calculator.Proofs.Blank.Scan
import Calculator.Proofs.Parse.Blame
import Calculator.Proofs.Value

/-!
# Evaluating without the blanks

A text has the value that it has without its blanks; and if it has none without
them, it fails for the same reason at the place that belongs to the place
(`evaluate_dropBlanks`).  Each stage is taken from what is known about it: the
parser's trees and failures depend on the kinds of the tokens, which are the
same, and where a token is blamed, its position and its lexeme are carried over.
-/

namespace Calculator

open Text (Agree Relocated dropBlanks rawIndex rawIndex_length)
open Token (Aligned)

/-! ## The tree -/

section Tokens

variable {text : List Char} {bares raws : List Token}

theorem map_kind_of_aligned (h : List.Forall₂ (Aligned text) bares raws) :
    bares.map Token.kind = raws.map Token.kind := by
  induction h with
  | nil => rfl
  | cons htoken _ ih => rw [List.map_cons, List.map_cons, htoken.kind, ih]

theorem getElem?_of_aligned (h : List.Forall₂ (Aligned text) bares raws) {index : Nat}
    {bare : Token} (hbare : bares[index]? = some bare) :
    ∃ raw, raws[index]? = some raw ∧ Aligned text bare raw := by
  induction h generalizing index with
  | nil => cases hbare
  | cons htoken _ ih =>
      cases index with
      | zero =>
          cases hbare
          exact ⟨_, rfl, htoken⟩
      | succ index => exact ih hbare

/-- The failure of the bare tokens is the failure of the others, found at the same token. -/
theorem Parse.Blamed.relocated {maxDepth stop : Nat} {failure : Failure}
    (htokens : List.Forall₂ (Aligned text) bares raws)
    (h : Parse.Blamed maxDepth stop bares failure) :
    ∃ failure', Parse.Blamed maxDepth (rawIndex text stop) raws failure' ∧
      Relocated text failure failure' := by
  -- what is said of the kinds is true of both lists; only the blamed token has to be found again
  have hkinds := map_kind_of_aligned htokens
  have htakes : ∀ index, (bares.take index).map Token.kind = (raws.take index).map Token.kind := by
    intro index
    rw [List.map_take, List.map_take, hkinds]
  cases h with
  | empty hbares =>
      subst hbares
      cases htokens
      exact ⟨_, .empty rfl, .emptyExpression⟩
  | tooDeep hfirst htoken hdeep =>
      obtain ⟨raw, hraw, haligned⟩ := getElem?_of_aligned htokens htoken
      rw [hkinds] at hfirst hdeep
      refine ⟨_, .tooDeep hfirst hraw hdeep, ?_⟩
      rw [haligned.start]
      exact .tooDeep _ _
  | stray hfirst htoken hstuck hclosing hgroup =>
      obtain ⟨raw, hraw, haligned⟩ := getElem?_of_aligned htokens htoken
      rw [hkinds] at hfirst hstuck
      rw [htakes] at hgroup
      rw [haligned.kind] at hclosing
      refine ⟨_, .stray hfirst hraw hstuck hclosing hgroup, ?_⟩
      rw [haligned.start]
      exact .unbalanced _
  | misfit hfirst htoken hstuck hother =>
      obtain ⟨raw, hraw, haligned⟩ := getElem?_of_aligned htokens htoken
      rw [hkinds] at hfirst hstuck
      rw [haligned.kind, htakes] at hother
      refine ⟨_, .misfit hfirst hraw hstuck hother, ?_⟩
      have hslice := haligned.slice
      rw [haligned.start] at hslice
      rw [haligned.lexeme, haligned.start]
      exact .unexpected hslice
  | unclosed hfirst htoken hgroup =>
      obtain ⟨raw, hraw, haligned⟩ := getElem?_of_aligned htokens htoken
      rw [hkinds] at hfirst hgroup
      refine ⟨_, .unclosed hfirst hraw hgroup, ?_⟩
      rw [haligned.start]
      exact .unbalanced _
  | ended hfirst hbares hgroup hexpression =>
      rw [hkinds] at hfirst hgroup hexpression
      refine ⟨_, .ended hfirst ?_ hgroup hexpression, .endOfInput _⟩
      rintro rfl
      cases htokens
      exact hbares rfl

theorem agree_ofTokens (maxDepth stop : Nat) (htokens : List.Forall₂ (Aligned text) bares raws) :
    Agree text Eq (Expr.ofTokens maxDepth stop bares)
      (Expr.ofTokens maxDepth (rawIndex text stop) raws) := by
  cases hresult : Expr.ofTokens maxDepth stop bares with
  | ok tree =>
      obtain ⟨levels, hlevels, hderives⟩ := Parse.derives_of_ofTokens hresult
      rw [map_kind_of_aligned htokens] at hderives
      rw [Parse.ofTokens_of_derives hderives hlevels]
      exact .ok rfl
  | error failure =>
      obtain ⟨failure', hblamed, hfailure⟩ :=
        ((Parse.fails_iff_blamed _ _ _ _).1 hresult).relocated htokens
      rw [(Parse.fails_iff_blamed _ _ _ _).2 hblamed]
      exact .error hfailure

end Tokens

theorem agree_read (maxDepth : Nat) (source : String) :
    Agree source.toList Eq (Expr.read maxDepth (String.ofList (dropBlanks source.toList)))
      (Expr.read maxDepth source) := by
  have hscan := Token.agree_screenAndScan source.toList
  rw [Expr.read, Expr.read, String.toList_ofList]
  generalize Token.screenAndScan (dropBlanks source.toList) = bares at hscan ⊢
  generalize Token.screenAndScan source.toList = raws at hscan ⊢
  cases hscan with
  | error hfailure => exact .error hfailure
  | ok htokens =>
      have hstop := rawIndex_length source.toList
      have htree := agree_ofTokens maxDepth (dropBlanks source.toList).length htokens
      rwa [hstop] at htree

/-! ## The value -/

theorem agree_value (text : List Char) (tree : Expr) : Agree text Eq tree.value tree.value := by
  rw [Expr.value_eq_find?]
  cases tree.nodes.find? fun node => !node.isSound with
  | none => exact .ok rfl
  | some node =>
      refine .error ?_
      rw [Expr.fault]
      split
      · exact .divisionByZero
      · exact .notFinite

theorem agree_evaluate {limits : Limits} {source : String}
    (hlength : source.length ≤ limits.length) :
    Agree source.toList Eq (evaluate limits (String.ofList (dropBlanks source.toList)))
      (evaluate limits source) := by
  have hshorter : (String.ofList (dropBlanks source.toList)).length ≤ limits.length := by
    rw [String.length_ofList]
    exact (Text.length_dropBlanks_le _).trans (by rwa [String.length_toList])
  have hread := agree_read limits.depth source
  rw [evaluate, evaluate, if_neg (Nat.not_lt.2 hlength), if_neg (Nat.not_lt.2 hshorter)]
  generalize Expr.read limits.depth (String.ofList (dropBlanks source.toList)) = bare at hread ⊢
  generalize Expr.read limits.depth source = raw at hread ⊢
  cases hread with
  | error hfailure => exact .error hfailure
  | ok htree =>
      subst htree
      exact agree_value _ _

/-- A text that is not too long has the value that it has without its blanks; if there is none, the
same failure is found at the place that belongs to the place. -/
theorem evaluate_dropBlanks {limits : Limits} {source : String}
    (hlength : source.length ≤ limits.length) :
    (∀ result, evaluate limits source = .ok result ↔
      evaluate limits (String.ofList (dropBlanks source.toList)) = .ok result) ∧
    (∀ failure, evaluate limits (String.ofList (dropBlanks source.toList)) = .error failure →
      ∃ failure', evaluate limits source = .error failure' ∧
        Relocated source.toList failure failure') := by
  have hagree := agree_evaluate hlength
  generalize evaluate limits (String.ofList (dropBlanks source.toList)) = bare at hagree ⊢
  generalize evaluate limits source = raw at hagree ⊢
  cases hagree with
  | ok hresult =>
      subst hresult
      exact ⟨fun result => Iff.rfl, nofun⟩
  | error hfailure =>
      refine ⟨fun result => ⟨nofun, nofun⟩, ?_⟩
      rintro failure ⟨⟩
      exact ⟨_, rfl, hfailure⟩

theorem evaluate_dropBlanks_quoted :
    "( 1 ) 2 . 5".length ≤ Limits.length {} ∧
      ∃ failure, evaluate {} "( 1 ) 2 . 5" = .error failure ∧
        Relocated "( 1 ) 2 . 5".toList (.unexpected "'2.5'" 3) failure := by
  have hlength : "( 1 ) 2 . 5".length ≤ Limits.length {} := by decide
  have hbare : evaluate {} (String.ofList (dropBlanks "( 1 ) 2 . 5".toList)) =
      .error (.unexpected "'2.5'" 3) := by decide +kernel
  exact ⟨hlength, (evaluate_dropBlanks hlength).2 _ hbare⟩

end Calculator
