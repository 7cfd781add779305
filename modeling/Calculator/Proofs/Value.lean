import Mathlib.Algebra.Group.Nat.Defs
import Mathlib.Tactic.Common
import Calculator.Evaluate

/-!
# The first node without a value

In IEEE arithmetic every tree has a value, if infinities and NaNs are let
through and go on into the nodes above them: `Expr.ideal`.  The evaluator lets
none of them through.  Which failure it comes to is decided by the nodes alone,
taken in post-order (`Expr.nodes`): the first node that divides by zero or whose
ideal value is not finite.  `value_eq_find?` is the induction over the tree; in
each node the operands are asked one after the other, so that the nodes of the
left one come first.
-/

namespace Calculator

open Float.Model (Format UnpackedFloat)

/-! ## The two zeros -/

theorem toNat_unpackExponent (b : BitVec Format.binary64.numBits) :
    (UnpackedFloat.unpackExponent b).toNat = b.toNat / 2 ^ 52 % 2 ^ 11 := by
  simp [UnpackedFloat.unpackExponent, BitVec.extractLsb_toNat, Nat.shiftRight_eq_div_pow]

theorem toNat_unpackMantissa (b : BitVec Format.binary64.numBits) :
    (UnpackedFloat.unpackMantissa b).toNat = b.toNat % 2 ^ 52 := by
  simp [UnpackedFloat.unpackMantissa, BitVec.extractLsb_toNat]

/-- A zero has no bits but for its sign. -/
theorem toNat_of_unpack_eq_zero {b : BitVec Format.binary64.numBits}
    {sign : UnpackedFloat.Sign} (h : UnpackedFloat.unpack Format.binary64 b = .zero sign) :
    b.toNat = 0 ∨ b.toNat = 2 ^ 63 := by
  have hexponent := toNat_unpackExponent b
  have hmantissa := toNat_unpackMantissa b
  have hlt : b.toNat < 2 ^ 64 := b.isLt
  unfold UnpackedFloat.unpack at h
  dsimp only at h
  by_cases hones : UnpackedFloat.unpackExponent b = -1#_
  · rw [if_pos hones] at h
    split at h <;> cases h
  rw [if_neg hones] at h
  by_cases hexponentZero : UnpackedFloat.unpackExponent b = 0#_
  · rw [if_pos hexponentZero] at h
    by_cases hmantissaZero : UnpackedFloat.unpackMantissa b = 0#_
    · rw [hexponentZero, BitVec.toNat_ofNat, Nat.zero_mod] at hexponent
      rw [hmantissaZero, BitVec.toNat_ofNat, Nat.zero_mod] at hmantissa
      omega
    · rw [dif_neg hmantissaZero] at h
      cases h
  · rw [if_neg hexponentZero] at h
    cases h

theorem compare_zero_eq_iff (x : UnpackedFloat) :
    x.compare (.zero .positive) = some .eq ↔ ∃ sign, x = .zero sign := by
  cases x with
  | zero sign => exact ⟨fun _ => ⟨sign, rfl⟩, fun _ => rfl⟩
  | notANumber => exact ⟨nofun, nofun⟩
  | infinity sign | finite sign => cases sign <;> exact ⟨nofun, nofun⟩

theorem eq_of_toNat_toBits {x y : Float}
    (h : x.toModel.toBits.toBitVec.toNat = y.toModel.toBits.toBitVec.toNat) : x = y := by
  obtain ⟨⟨bits, hbits⟩⟩ := x
  obtain ⟨⟨bits', hbits'⟩⟩ := y
  obtain rfl : bits = bits' := UInt64.toBitVec_inj.1 (BitVec.eq_of_toNat_eq h)
  rfl

/-- Whether a double is one of the two zeros. -/
def isZero (x : Float) : Bool :=
  x = 0 ∨ x = -0

theorem isZero_iff (x : Float) : isZero x = true ↔ x = 0 ∨ x = -0 := by
  rw [isZero, decide_eq_true_eq]

/-- Both zeros, and nothing else, are equal to zero as numbers. -/
theorem beq_zero_iff (x : Float) : (x == 0) = true ↔ x = 0 ∨ x = -0 := by
  constructor
  · intro h
    have hcompare : (x.toModel.unpack.compare (.zero .positive) == some .eq) = true := h
    obtain ⟨sign, hzero⟩ := (compare_zero_eq_iff _).1 (eq_of_beq hcompare)
    rcases toNat_of_unpack_eq_zero hzero with hbits | hbits
    · exact .inl (eq_of_toNat_toBits (hbits.trans (by decide +kernel)))
    · exact .inr (eq_of_toNat_toBits (hbits.trans (by decide +kernel)))
  · rintro (rfl | rfl) <;> decide +kernel

/-! ## Nodes -/

/-- The result of an operator in IEEE arithmetic. -/
def Operator.ideal (op : Operator) (x y : Float) : Float :=
  match op with
  | add => x + y
  | sub => x - y
  | mul => x * y
  | div => x / y

namespace Expr

/-- The value of a tree in IEEE arithmetic, where nothing is refused. -/
def ideal : Expr → Float
  | number value => value
  | neg operand => -operand.ideal
  | binary op left right => op.ideal left.ideal right.ideal

/-- The nodes of a tree in post-order, each given by the tree below it. -/
def nodes : Expr → List Expr
  | number value => [number value]
  | neg operand => operand.nodes ++ [neg operand]
  | binary op left right => left.nodes ++ right.nodes ++ [binary op left right]

/-- Whether the node is a quotient with one of the two zeros for a divisor. -/
def dividesByZero : Expr → Bool
  | binary .div _ right => isZero right.ideal
  | _ => false

/-- Whether the node itself breaks no rule. -/
def isSound (node : Expr) : Bool :=
  !node.dividesByZero && node.ideal.isFinite

/-- The failure of a node that breaks a rule. -/
def fault (node : Expr) : Failure :=
  if node.dividesByZero then .divisionByZero else .notFinite

/-- What becomes of a node whose operands have their ideal values. -/
def verdict (node : Expr) : Except Failure Float :=
  if node.isSound then .ok node.ideal else .error node.fault

theorem dividesByZero_div (left right : Expr) :
    (binary .div left right).dividesByZero = (right.ideal == 0) := by
  rw [Bool.eq_iff_iff, beq_zero_iff, ← isZero_iff]
  rfl

theorem requireFinite_ideal (node : Expr) (hdivides : node.dividesByZero = false) :
    requireFinite node.ideal = node.verdict := by
  cases hfinite : node.ideal.isFinite <;>
    simp [requireFinite, verdict, isSound, fault, hdivides, hfinite]

theorem apply_ideal (op : Operator) (left right : Expr) :
    op.apply left.ideal right.ideal = (binary op left right).verdict := by
  cases op with
  | add => exact requireFinite_ideal (binary .add left right) rfl
  | sub => exact requireFinite_ideal (binary .sub left right) rfl
  | mul => exact requireFinite_ideal (binary .mul left right) rfl
  | div =>
      have hdivides := dividesByZero_div left right
      rw [Operator.apply]
      cases hzero : right.ideal == 0 with
      | true =>
          rw [hzero] at hdivides
          simp [verdict, isSound, fault, hdivides]
      | false =>
          rw [hzero] at hdivides
          exact requireFinite_ideal (binary .div left right) hdivides

theorem verdict_eq_find? (node : Expr) :
    node.verdict = match [node].find? fun node => !node.isSound with
      | none => .ok node.ideal
      | some node => .error node.fault := by
  cases hsound : node.isSound <;> simp [verdict, hsound]

/-- The first node in post-order that breaks a rule decides. -/
theorem value_eq_find? (tree : Expr) :
    tree.value = match tree.nodes.find? fun node => !node.isSound with
      | none => .ok tree.ideal
      | some node => .error node.fault := by
  -- the operands' nodes come first in the list, and their values are asked for first
  induction tree with
  | number x =>
      have hverdict : requireFinite x = (number x).verdict := requireFinite_ideal (number x) rfl
      rw [Expr.value, hverdict, verdict_eq_find?, nodes]
  | neg operand ih =>
      have hverdict : requireFinite (-operand.ideal) = (neg operand).verdict :=
        requireFinite_ideal (neg operand) rfl
      rw [Expr.value, nodes, List.find?_append, ih]
      cases operand.nodes.find? fun node => !node.isSound with
      | some node => rfl
      | none => exact hverdict.trans (verdict_eq_find? _)
  | binary op left right ihleft ihright =>
      rw [Expr.value, nodes, List.find?_append, List.find?_append, ihleft, ihright]
      cases left.nodes.find? fun node => !node.isSound with
      | some node => rfl
      | none =>
          cases right.nodes.find? fun node => !node.isSound with
          | some node => rfl
          | none => exact (apply_ideal op left right).trans (verdict_eq_find? _)

theorem value_eq_ok_iff (tree : Expr) (result : Float) :
    tree.value = .ok result ↔ (∀ node ∈ tree.nodes, node.isSound = true) ∧ result = tree.ideal := by
  rw [value_eq_find?]
  cases hfind : tree.nodes.find? fun node => !node.isSound with
  | none =>
      have hsound : ∀ node ∈ tree.nodes, node.isSound = true := by
        simpa using List.find?_eq_none.1 hfind
      constructor
      · intro h
        exact ⟨hsound, (Except.ok.inj h).symm⟩
      · rintro ⟨-, rfl⟩
        rfl
  | some node =>
      have hmem := List.mem_of_find?_eq_some hfind
      have hbroken := List.find?_eq_some_iff_append.1 hfind |>.1
      constructor
      · intro h
        cases h
      · rintro ⟨hsound, -⟩
        rw [hsound node hmem] at hbroken
        cases hbroken

theorem value_eq_error_iff (tree : Expr) (failure : Failure) :
    tree.value = .error failure ↔
      ∃ before node after, tree.nodes = before ++ node :: after ∧
        (∀ earlier ∈ before, earlier.isSound = true) ∧ node.isSound = false ∧
        failure = node.fault := by
  rw [value_eq_find?]
  constructor
  · intro h
    cases hfind : tree.nodes.find? fun node => !node.isSound with
    | none => simp [hfind] at h
    | some node =>
        obtain ⟨hbroken, before, after, hnodes, hbefore⟩ :=
          List.find?_eq_some_iff_append.1 hfind
        refine ⟨before, node, after, hnodes, ?_, ?_, ?_⟩
        · simpa using hbefore
        · simpa using hbroken
        · rw [hfind] at h
          exact (Except.error.inj h).symm
  · rintro ⟨before, node, after, hnodes, hbefore, hbroken, rfl⟩
    have hfind : (tree.nodes.find? fun node => !node.isSound) = some node :=
      List.find?_eq_some_iff_append.2
        ⟨by simpa using hbroken, before, after, hnodes, by simpa using hbefore⟩
    rw [hfind]

end Expr

theorem isFinite_of_evaluate {limits : Limits} {source : String} {result : Float}
    (h : evaluate limits source = .ok result) : result.isFinite = true := by
  rw [evaluate] at h
  split at h
  · cases h
  · split at h
    · cases h
    · exact Expr.isFinite_of_value h

/-- A tree has its ideal value if every node is sound; else the first node in post-order that is not
decides the failure.  No text is evaluated to an infinity or a NaN. -/
theorem value_iff_nodes (tree : Expr) (limits : Limits) (source : String) :
    (∀ result, tree.value = .ok result ↔
      (∀ node ∈ tree.nodes, node.isSound = true) ∧ result = tree.ideal) ∧
    (∀ failure, tree.value = .error failure ↔
      ∃ before node after, tree.nodes = before ++ node :: after ∧
        (∀ earlier ∈ before, earlier.isSound = true) ∧ node.isSound = false ∧
        failure = node.fault) ∧
    (evaluate limits source).toOption.all Float.isFinite = true := by
  refine ⟨tree.value_eq_ok_iff, tree.value_eq_error_iff, ?_⟩
  cases hresult : evaluate limits source with
  | error failure => rfl
  | ok result => exact isFinite_of_evaluate hresult

end Calculator
