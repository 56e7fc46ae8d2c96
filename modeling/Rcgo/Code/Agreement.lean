import Rcgo.Code.OperandTypes

/-!
# Constant folding and the generated operations

What the checker computes for constant operands against what the operation of
the same operator computes at run time.
-/

namespace Rcgo.Code

variable {floating : Floating} {operator : BinaryArithmetic}

/-- The operand has the value at run time: a constant has its own value. -/
def ExpressionValue.Denotes (expression : ExpressionValue) (value : Value) : Prop :=
  ∀ constant, expression.value = some constant → value = constant

/-- Folding and code generation agree on an operator that was checked.  A value
that the checker gave the result is what the operation computes, where the
operands have a type of run-time values, and there is an operation when the
result has no value. -/
structure CheckedOperator.Agrees (floating : Floating) (operator : BinaryArithmetic)
    (checked : CheckedOperator) : Prop where
  folded :
    ∀ value, checked.result.value = some value →
      checked.left.type.underlyingKind.isUntyped = false →
        ∃ operation, checked.generateCode operator = some operation ∧
          ∀ x y, checked.left.Denotes x → checked.right.Denotes y →
            operation.compute floating x y = some value
  generated : checked.result.value = none → (checked.generateCode operator).isSome

namespace BinaryArithmetic

/-- The kinds an operator that is not a shift is accepted for without having an
operation: `+` picks its operation among the integral ones, and no comparison
has one for strings. -/
def lacks : BinaryArithmetic → Kind → Bool
  | add => fun kind => kind.isUntyped || kind.isTypedFloat || kind.isTypedComplex
  | equal | notEqual | lessThan | lessEqual | moreThan | moreEqual => fun kind =>
      kind.isUntyped || kind == .string
  | logicOr | logicAnd => fun _ => false
  | _ => Kind.isUntyped

/-- The operation for the operands is missing. -/
def Missing (operator : BinaryArithmetic) (left right : ExpressionValue) : Prop :=
  match operator with
  | leftShift | rightShift =>
      (left.type.underlyingKind.isUntyped ∧ (left.value = none ∨ right.value = none)) ∨
        (right.type.underlyingKind.isUntyped ∧ right.value = none)
  | _ =>
      let kind := (choose left.type right.type).underlyingKind
      operator.lacks kind ∧ (kind.isUntyped → left.value = none ∨ right.value = none)

end BinaryArithmetic

section Generation

variable {functor : Functor} {type result left right : DataType} {operation : BinaryOperation}

/-- The kinds of `make_binary_arithmetic`. -/
private theorem makeBinaryArithmetic_isSome (functor : Functor) (type : DataType) :
    (makeBinaryArithmetic functor type).isSome =
      (type.underlyingKind.isTypedInteger || type.underlyingKind.isTypedFloat ||
        type.underlyingKind.isTypedComplex || type.underlyingKind == .bool ||
          type.underlyingKind == .pointer) := by
  unfold makeBinaryArithmetic
  cases type.underlyingKind <;> rfl

/-- The kinds of `make_binary_integral`. -/
private theorem makeBinaryIntegral_isSome (functor : Functor) (type : DataType) :
    (makeBinaryIntegral functor type).isSome = type.underlyingKind.isTypedInteger := by
  unfold makeBinaryIntegral
  cases type.underlyingKind <;> rfl

/-- The kinds of `make_shift`. -/
private theorem makeShift_isSome (shiftOperator : ShiftOperator) (type : DataType)
    (count : Kind) :
    (makeShift shiftOperator type count).isSome = type.underlyingKind.isTypedInteger := by
  unfold makeShift
  cases type.underlyingKind <;> rfl

private theorem generateCode_isSome {kind : Kind} (accepted : operator.accepts kind = true)
    (resultKind : operator.isBoolean = false → result.underlyingKind = kind)
    (leftKind : left.underlyingKind = kind) :
    (operator.generateCode result left right).isSome = !operator.lacks kind := by
  cases operator with
  | multiply | divide | subtract =>
      rw [BinaryArithmetic.generateCode, makeBinaryArithmetic_isSome, resultKind rfl]
      revert accepted
      cases kind <;> decide
  | modulus | bitAnd | bitAndNot | bitOr | bitXor | add =>
      rw [BinaryArithmetic.generateCode, makeBinaryIntegral_isSome, resultKind rfl]
      revert accepted
      cases kind <;> decide
  | equal | notEqual | lessThan | lessEqual | moreThan | moreEqual =>
      rw [BinaryArithmetic.generateCode, makeBinaryArithmetic_isSome, leftKind]
      revert accepted
      cases kind <;> decide
  | logicOr | logicAnd => rfl
  | leftShift | rightShift => cases accepted

private theorem computeArithmetic_eq {cxxOperator : CxxOperator} {kind : Kind} {x y value : Value}
    (computed : computeArithmetic floating cxxOperator kind x y = some value) :
    (kind.cType.bind fun type => Cxx.apply floating type cxxOperator x y) = some value := by
  unfold computeArithmetic at computed
  split at computed
  all_goals first
    | exact computed
    | cases computed

private theorem computeIntegral_eq {cxxOperator : CxxOperator} {kind : Kind} {x y value : Value}
    (computed : computeIntegral floating cxxOperator kind x y = some value) :
    (kind.cType.bind fun type => Cxx.apply floating type cxxOperator x y) = some value := by
  unfold computeIntegral at computed
  split at computed
  all_goals first
    | exact computed
    | cases computed

private theorem computeEquality_eq {cxxOperator : CxxOperator} {ofNil : Bool} {kind : Kind}
    {x y value : Value} (typed : kind.isUntyped = false)
    (computed : computeEquality floating cxxOperator ofNil kind x y = some value) :
    (kind.cType.bind fun type => Cxx.apply floating type cxxOperator x y) = some value := by
  unfold computeEquality at computed
  split at computed
  all_goals first
    | exact computed
    | exact absurd typed (by decide)
    | cases computed

private theorem computeOrder_eq {cxxOperator : CxxOperator} {kind : Kind} {x y value : Value}
    (computed : computeOrder floating cxxOperator kind x y = some value) :
    (kind.cType.bind fun type => Cxx.apply floating type cxxOperator x y) = some value := by
  unfold computeOrder at computed
  split at computed
  all_goals first
    | exact computed
    | cases computed

private theorem compute_generated {kind : Kind} {x y value : Value}
    (folded : operator.fold floating kind x y = some value) (typed : kind.isUntyped = false)
    (resultKind : operator.isBoolean = false → result.underlyingKind = kind)
    (leftKind : left.underlyingKind = kind)
    (isMade : operator.generateCode result left right = some operation) :
    operation.compute floating x y = some value := by
  cases operator with
  | multiply | divide | subtract =>
      rw [makeBinaryArithmetic_eq isMade, resultKind rfl]
      exact computeArithmetic_eq folded
  | add =>
      rw [makeBinaryIntegral_eq isMade, resultKind rfl]
      exact computeArithmetic_eq folded
  | modulus | bitAnd | bitAndNot | bitOr | bitXor =>
      rw [makeBinaryIntegral_eq isMade, resultKind rfl]
      exact computeIntegral_eq folded
  | equal | notEqual =>
      rw [makeBinaryArithmetic_eq isMade, leftKind]
      exact computeEquality_eq typed folded
  | lessThan | lessEqual | moreThan | moreEqual =>
      rw [makeBinaryArithmetic_eq isMade, leftKind]
      exact computeOrder_eq folded
  | logicOr | logicAnd | leftShift | rightShift => cases folded

end Generation

section Logic

variable {left right : Option Value} {x y value : Value}

private theorem computeLogicOr_eq (folded : computeLogicOr left right = some value)
    (isLeft : ∀ constant, left = some constant → x = constant)
    (isRight : ∀ constant, right = some constant → y = constant) :
    Cxx.ofBool (x.toBool || y.toBool) = value := by
  obtain ⟨constant, leftValue, folded⟩ := Option.bind_eq_some_iff.mp folded
  rw [isLeft constant leftValue]
  cases leftTrue : constant.toBool with
  | true =>
      rw [leftTrue, if_pos rfl, Option.some.injEq] at folded
      exact folded
  | false =>
      rw [leftTrue, if_neg Bool.false_ne_true] at folded
      obtain ⟨second, rightValue, isValue⟩ := Option.map_eq_some_iff.mp folded
      rw [isRight second rightValue]
      exact isValue

private theorem computeLogicAnd_eq (folded : computeLogicAnd left right = some value)
    (isLeft : ∀ constant, left = some constant → x = constant)
    (isRight : ∀ constant, right = some constant → y = constant) :
    Cxx.ofBool (x.toBool && y.toBool) = value := by
  obtain ⟨constant, leftValue, folded⟩ := Option.bind_eq_some_iff.mp folded
  rw [isLeft constant leftValue]
  cases leftTrue : constant.toBool with
  | true =>
      rw [leftTrue, Bool.not_true, if_neg Bool.false_ne_true] at folded
      obtain ⟨second, rightValue, isValue⟩ := Option.map_eq_some_iff.mp folded
      rw [isRight second rightValue]
      exact isValue
  | false =>
      rw [leftTrue, Bool.not_false, if_pos rfl, Option.some.injEq] at folded
      exact folded

end Logic

section Operators

variable {left right : ExpressionValue} {checked : CheckedOperator}

namespace Concluded

private theorem generated_isSome (concluded : Concluded floating operator left right checked) :
    (checked.generateCode operator).isSome =
      !operator.lacks (choose left.type right.type).underlyingKind :=
  generateCode_isSome concluded.accepted concluded.resultKind (by rw [concluded.leftType])

private theorem agrees_of_logical (concluded : Concluded floating operator left right checked)
    (logical : operator.isLogical = true) : checked.Agrees floating operator := by
  have computed := concluded.computed
  cases operator with
  | logicOr =>
      refine ⟨fun value isValue _ => ⟨.logicOr, rfl, fun x y isLeft isRight => ?_⟩, fun _ => rfl⟩
      rw [BinaryArithmetic.compute, isValue, Option.some.injEq] at computed
      exact congrArg some (computeLogicOr_eq computed isLeft isRight)
  | logicAnd =>
      refine ⟨fun value isValue _ => ⟨.logicAnd, rfl, fun x y isLeft isRight => ?_⟩, fun _ => rfl⟩
      rw [BinaryArithmetic.compute, isValue, Option.some.injEq] at computed
      exact congrArg some (computeLogicAnd_eq computed isLeft isRight)
  | _ => cases logical

/-- The other operators agree with their operation where they have one. -/
private theorem agreement (concluded : Concluded floating operator left right checked)
    (notLogical : operator.isLogical = false) :
    checked.Agrees floating operator ↔
      ¬(operator.lacks (choose left.type right.type).underlyingKind = true ∧
        ((choose left.type right.type).underlyingKind.isUntyped = true →
          left.value = none ∨ right.value = none)) := by
  have isSome := concluded.generated_isSome
  have leftKind : checked.left.type.underlyingKind =
      (choose left.type right.type).underlyingKind := by rw [concluded.leftType]
  constructor
  · intro agrees missing
    obtain ⟨lacks, untyped⟩ := missing
    rw [lacks, Bool.not_true] at isSome
    cases isValue : checked.result.value with
    | none =>
        rw [agrees.generated isValue] at isSome
        cases isSome
    | some value =>
        have constants : ¬(left.value = none ∨ right.value = none) := by
          rw [← concluded.result_eq_none_iff notLogical, isValue]
          exact Option.some_ne_none value
        have typed : checked.left.type.underlyingKind.isUntyped = false := by
          rw [leftKind, Bool.eq_false_iff]
          exact fun isUntyped => constants (untyped isUntyped)
        obtain ⟨operation, isMade, _⟩ := agrees.folded value isValue typed
        rw [isMade] at isSome
        cases isSome
  · intro present
    refine ⟨?_, ?_⟩
    · intro value isValue typed
      have notMissing : operator.lacks (choose left.type right.type).underlyingKind = false := by
        rw [Bool.eq_false_iff]
        intro lacks
        refine present ⟨lacks, fun isUntyped => ?_⟩
        rw [leftKind, isUntyped] at typed
        cases typed
      rw [notMissing] at isSome
      obtain ⟨operation, isMade⟩ := Option.isSome_iff_exists.mp isSome
      refine ⟨operation, isMade, fun x y isLeft isRight => ?_⟩
      have computed := concluded.computed
      cases leftValue : checked.left.value with
      | none =>
          rw [leftValue, compute_left_none, isValue] at computed
          cases computed
      | some leftConstant =>
          cases rightValue : checked.right.value with
          | none =>
              rw [rightValue, compute_right_none notLogical, isValue] at computed
              cases computed
          | some rightConstant =>
              rw [leftValue, rightValue, compute_some notLogical, isValue,
                Option.map_eq_some_iff] at computed
              obtain ⟨folded, isFolded, same⟩ := computed
              rw [Option.some.injEq] at same
              subst same
              rw [isLeft leftConstant leftValue, isRight rightConstant rightValue]
              rw [leftKind] at typed
              exact compute_generated isFolded typed concluded.resultKind leftKind isMade
    · intro isNone
      rw [isSome, Bool.not_eq_true', Bool.eq_false_iff]
      intro lacks
      exact present ⟨lacks, fun _ => (concluded.result_eq_none_iff notLogical).mp isNone⟩

end Concluded

private theorem convertToUint_uint (word : Nat) :
    convertToUint .uint (.bits word) = some (.bits (word % 2 ^ 64)) := by
  simp only [convertToUint, Kind.cType, Cxx.readInteger, Cxx.writeInteger, Bool.false_eq_true,
    if_false, Option.some.injEq, Value.bits.injEq, BitVec.toNat_ofInt, BitVec.toNat_ofNat]
  omega

private theorem compute_shift {shiftOperator : ShiftOperator} {kind : Kind} {x y value : Value}
    (computed : computeShift shiftOperator kind x y = some value) :
    (BinaryOperation.shift shiftOperator kind .uint).compute floating x y = some value := by
  have applied :
      (kind.cType.bind fun type => Cxx.shift type shiftOperator x y) = some value := by
    unfold computeShift at computed
    split at computed
    all_goals first
      | exact computed
      | cases computed
  obtain ⟨type, isType, isShift⟩ := Option.bind_eq_some_iff.mp applied
  cases y with
  | text bytes =>
      cases x <;> cases isShift
  | bits word =>
      rw [BinaryOperation.compute, convertToUint_uint, Option.bind_some, isType, Option.bind_some,
        ← isShift]
      cases x with
      | text bytes => rfl
      | bits left => simp only [Cxx.shift, Nat.mod_mod]

namespace Shifted

variable {shiftOperator : ShiftOperator}

private theorem isTypedInteger_eq
    (shifted : Shifted floating shiftOperator left right checked) :
    left.type.underlyingKind.isTypedInteger = !left.type.underlyingKind.isUntyped := by
  have integral := shifted.integral
  revert integral
  cases left.type.underlyingKind <;> decide

private theorem count_isTypedInteger_iff
    (shifted : Shifted floating shiftOperator left right checked) :
    checked.right.type.underlyingKind.isTypedInteger = true ↔
      ¬(right.type.underlyingKind.isUntyped = true ∧ right.value = none) := by
  have countKind := shifted.countKind
  rcases convertCount_spec shifted.count with ⟨isNone, same⟩ | ⟨isUint, notNone, _⟩
  · rw [same]
    simp only [isNone, and_true]
    revert countKind
    cases right.type.underlyingKind <;> decide
  · rw [isUint]
    exact iff_of_true rfl fun missing => notNone missing.2

private theorem generated_isSome
    (shifted : Shifted floating shiftOperator left right checked)
    (isShift :
      checked.generateCode operator =
        (makeConvertTo checked.right.type).bind (makeShift shiftOperator checked.result.type)) :
    (checked.generateCode operator).isSome = true ↔
      left.type.underlyingKind.isUntyped = false ∧
        ¬(right.type.underlyingKind.isUntyped = true ∧ right.value = none) := by
  rw [← shifted.count_isTypedInteger_iff, isShift, makeConvertTo_eq, shifted.resultType]
  cases checked.right.type.underlyingKind.isTypedInteger with
  | false => simp
  | true =>
      rw [if_pos rfl, Option.bind_some, makeShift_isSome, shifted.isTypedInteger_eq]
      simp

private theorem folded (shifted : Shifted floating shiftOperator left right checked)
    (isShift :
      checked.generateCode operator =
        (makeConvertTo checked.right.type).bind (makeShift shiftOperator checked.result.type))
    {value : Value} (isValue : checked.result.value = some value)
    {operation : BinaryOperation} (isMade : checked.generateCode operator = some operation)
    {x y : Value} (isLeft : checked.left.Denotes x) (isRight : checked.right.Denotes y) :
    operation.compute floating x y = some value := by
  have computed := shifted.computed
  have notNone : ¬(left.value = none ∨ right.value = none) := by
    rw [← shifted.result_eq_none_iff, isValue]
    exact Option.some_ne_none value
  rw [not_or] at notNone
  obtain ⟨leftConstant, leftValue⟩ := Option.ne_none_iff_exists'.mp notNone.1
  rcases convertCount_spec shifted.count with ⟨isNone, _⟩ | ⟨isUint, _, countNotNone⟩
  · exact absurd isNone notNone.2
  · obtain ⟨count, countValue⟩ := Option.ne_none_iff_exists'.mp countNotNone
    rw [leftValue, countValue, isValue, computeShiftValue, Option.map_eq_some_iff] at computed
    obtain ⟨result, isFolded, same⟩ := computed
    rw [Option.some.injEq] at same
    subst same
    have isOperation : makeShift shiftOperator left.type .uint = some operation := by
      rw [isShift, isUint, shifted.resultType] at isMade
      exact isMade
    rw [shifted.leftSame] at isLeft
    rw [makeShift_eq isOperation, isLeft leftConstant leftValue, isRight count countValue]
    exact compute_shift isFolded

private theorem agreement (shifted : Shifted floating shiftOperator left right checked)
    (isShift :
      checked.generateCode operator =
        (makeConvertTo checked.right.type).bind (makeShift shiftOperator checked.result.type)) :
    checked.Agrees floating operator ↔
      ¬((left.type.underlyingKind.isUntyped = true ∧ (left.value = none ∨ right.value = none)) ∨
        (right.type.underlyingKind.isUntyped = true ∧ right.value = none)) := by
  have isSome := shifted.generated_isSome isShift
  constructor
  · intro agrees missing
    have noValue : checked.result.value = none := by
      rw [shifted.result_eq_none_iff]
      rcases missing with ⟨_, absent⟩ | ⟨_, isNone⟩
      · exact absent
      · exact Or.inr isNone
    obtain ⟨typed, present⟩ := isSome.mp (agrees.generated noValue)
    rcases missing with ⟨untyped, _⟩ | rightMissing
    · exact Bool.false_ne_true (typed.symm.trans untyped)
    · exact present rightMissing
  · intro present
    rw [not_or] at present
    refine ⟨?_, ?_⟩
    · intro value isValue typed
      rw [shifted.leftSame] at typed
      obtain ⟨operation, isMade⟩ :=
        Option.isSome_iff_exists.mp (isSome.mpr ⟨typed, present.2⟩)
      exact ⟨operation, isMade, fun x y isLeft isRight =>
        shifted.folded isShift isValue isMade isLeft isRight⟩
    · intro isNone
      refine isSome.mpr ⟨?_, present.2⟩
      rw [Bool.eq_false_iff]
      exact fun untyped => present.1 ⟨untyped, shifted.result_eq_none_iff.mp isNone⟩

end Shifted

end Operators

/-- Constant folding agrees with the run time, and there is an operation for
what is not constant, for exactly those operands of an accepted operator whose
operation is not missing. -/
theorem BinaryArithmetic.agrees_iff (floating : Floating) (operator : BinaryArithmetic)
    (left right : ExpressionValue) (checked : CheckedOperator)
    (accepted : operator.check floating left right = some checked) :
    checked.Agrees floating operator ↔ ¬operator.Missing left right := by
  cases operator with
  | leftShift => exact (checkShift_spec accepted).agreement rfl
  | rightShift => exact (checkShift_spec accepted).agreement rfl
  | logicOr =>
      have agrees := (checkArithmetic_spec accepted).agrees_of_logical rfl
      exact iff_of_true agrees fun missing => Bool.false_ne_true missing.1
  | logicAnd =>
      have agrees := (checkArithmetic_spec accepted).agrees_of_logical rfl
      exact iff_of_true agrees fun missing => Bool.false_ne_true missing.1
  | _ => exact (checkArithmetic_spec accepted).agreement rfl

section Examples

/-- Integer programs do not look at floating point. -/
def noFloating : Floating where
  arithmetic := fun _ _ _ _ => 0
  comparison := fun _ _ _ _ => false
  convertNumeric := fun _ _ word => word
  toAndBack := fun _ _ _ => true

/-- An `int8` constant. -/
def int8Constant (word : Nat) : ExpressionValue :=
  ⟨.value, .named 0 (.basic .int8), some (.bits word)⟩

/-- `127 + 1` for `int8` constants is folded to `-128`, as `Binary` has it. -/
theorem BinaryArithmetic.agrees_iff_int8Sum :
    (CheckedOperator.mk (int8Constant 127) (int8Constant 1) (int8Constant 128)).Agrees
        noFloating .add ↔
      ¬BinaryArithmetic.Missing .add (int8Constant 127) (int8Constant 1) :=
  BinaryArithmetic.agrees_iff noFloating .add (int8Constant 127) (int8Constant 1) _ rfl

/-- A variable of type `string`. -/
def stringVariable : ExpressionValue :=
  ⟨.variable, .named 1 (.basic .string), none⟩

/-- `s == t` for two variables of type `string` is accepted, and the code
generator reaches a kind that is marked unreachable. -/
theorem BinaryArithmetic.stringEqual_not_agrees :
    ¬∀ (floating : Floating) (operator : BinaryArithmetic) (left right : ExpressionValue)
      (checked : CheckedOperator), operator.check floating left right = some checked →
        checked.Agrees floating operator := by
  intro agrees
  have accepted :
      BinaryArithmetic.check noFloating .equal stringVariable stringVariable =
        some ⟨stringVariable, stringVariable, ⟨.value, .basic .bool, none⟩⟩ := rfl
  have generated := (agrees noFloating .equal _ _ _ accepted).generated rfl
  exact Bool.false_ne_true generated

end Examples

end Rcgo.Code
