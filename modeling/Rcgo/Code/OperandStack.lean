import Rcgo.Code.OperandTypes
import Rcgo.Code.StackEffects

/-!
# Operands on the stack

By how much an expression raises the stack, and what the functions that make
operations need of their operands.
-/

namespace Rcgo.Code

open Rcgo.Foundation Machine

/-- By how much an expression raises the stack, none for a value whose type has
no size. -/
def Expression.raises (expression : Expression) : Option Nat :=
  match expression.kind with
  | .variable => some wordBytes
  | .value => expression.type.bind DataType.sizeOnStack
  | _ => some 0

/-- The operations run among the declarations, and callables stay in their frames. -/
structure Context.Serves {World : Type} (context : Context World) (declarations : Declarations) :
    Prop where
  signature : context.signature = declarations.signature
  getters : declarations.GettersFit context.getter
  calls : CallsStay context

variable {World : Type} {context : Context World} {declarations : Declarations}

section Operands

variable {expression : Expression} {operation loaded : Operation} {type : DataType} {n : Nat}

theorem PushesSize.of_eq {size other : Option Nat} (pushes : PushesSize context operation size)
    (same : size = other) : PushesSize context operation other := by
  rw [← same]
  exact pushes

theorem PushesSize.getD {size : Option Nat} (pushes : PushesSize context operation size) :
    Pushes context operation (size.getD 0) := by
  apply pushes
  intro m isSize
  rw [isSize, Option.getD_some]

theorem PushesSize.pushes_of_kind {kind : Kind} (pushes : PushesSize context operation type.sizeOnStack)
    (isKind : type.underlyingKind = kind) (isSize : kind.size = some n) :
    Pushes context operation (aligned n) :=
  (pushes.of_eq (DataType.sizeOnStack_of_kind isKind isSize)).pushes

theorem Pushes.size_of_kind {kind : Kind} (pushes : Pushes context operation (aligned n))
    (isKind : type.underlyingKind = kind) (isSize : kind.size = some n) :
    PushesSize context operation type.sizeOnStack :=
  pushes.size.of_eq (DataType.sizeOnStack_of_kind isKind isSize).symm

namespace Expression

theorem raises_of_variable (isVariable : expression.kind = .variable) :
    expression.raises = some wordBytes := by
  rw [raises, isVariable]

theorem raises_of_value (isValue : expression.kind = .value) (isType : expression.type = some type) :
    expression.raises = type.sizeOnStack := by
  rw [raises, isValue, isType]
  rfl

theorem kind_eq_value (isValue : expression.isValueOrVariable = true)
    (notVariable : expression.kind ≠ .variable) : expression.kind = .value := by
  rw [isValueOrVariable, Bool.or_eq_true, beq_iff_eq, beq_iff_eq] at isValue
  exact isValue.resolve_right notVariable

theorem load_pushes (pushes : PushesSize context operation expression.raises)
    (isValue : expression.isValueOrVariable = true) (isType : expression.type = some type)
    (isLoaded : expression.load operation = some loaded) :
    PushesSize context loaded type.sizeOnStack := by
  rw [load, isType] at isLoaded
  by_cases isVariable : expression.kind = .variable
  case pos =>
    rw [if_pos isVariable, Option.map_some, Option.some.injEq] at isLoaded
    rw [raises_of_variable isVariable] at pushes
    rw [← isLoaded]
    exact pushes_load pushes.pushes type
  case neg =>
    rw [if_neg isVariable, Option.some.injEq] at isLoaded
    rw [raises_of_value (kind_eq_value isValue isVariable) isType] at pushes
    rw [← isLoaded]
    exact pushes

theorem type_of_any {test : DataType → Bool} (isAny : expression.type.any test = true) :
    ∃ type, expression.type = some type ∧ test type = true := by
  cases isType : expression.type with
  | none => rw [isType] at isAny; cases isAny
  | some type => rw [isType] at isAny; exact ⟨type, rfl, isAny⟩

theorem load_pushes_of_kind {kind : Kind} (pushes : PushesSize context operation expression.raises)
    (isValue : expression.isValueOrVariable = true)
    (isKind : (expression.type.any fun type => type.underlyingKind == kind) = true)
    (isSize : kind.size = some n) (isLoaded : expression.load operation = some loaded) :
    Pushes context loaded (aligned n) := by
  obtain ⟨type, isType, isKind⟩ := type_of_any isKind
  rw [beq_iff_eq] at isKind
  exact (load_pushes pushes isValue isType isLoaded).pushes_of_kind isKind isSize

end Expression

end Operands

section Binary

variable {left right : Operation} {type operand : DataType} {functor : Functor}
  {operation : BinaryOperation}

private theorem makeBinaryArithmetic_sized
    (isMade : makeBinaryArithmetic functor type = some operation) :
    ∃ n, type.underlyingKind.size = some n := by
  unfold makeBinaryArithmetic at isMade
  split at isMade <;> simp_all [Kind.size]

private theorem makeBinaryIntegral_sized
    (isMade : makeBinaryIntegral functor type = some operation) :
    ∃ n, type.underlyingKind.size = some n := by
  unfold makeBinaryIntegral at isMade
  split at isMade <;> simp_all [Kind.size]

private theorem makeShift_sized {shiftOperator : ShiftOperator} {count : Kind}
    (isMade : makeShift shiftOperator type count = some operation) :
    ∃ n, type.underlyingKind.size = some n := by
  unfold makeShift at isMade
  split at isMade <;> simp_all [Kind.size]

theorem Kind.size_of_isTypedInteger {kind : Kind} (isInteger : kind.isTypedInteger = true) :
    ∃ n, kind.size = some n := by
  cases kind <;> first | exact ⟨_, rfl⟩ | cases isInteger

theorem makeConvertTo_spec {kind : Kind} (isMade : makeConvertTo type = some kind) :
    type.underlyingKind = kind ∧ ∃ n, kind.size = some n := by
  rw [makeConvertTo_eq] at isMade
  split at isMade
  case isTrue isInteger =>
    rw [← Option.some.inj isMade]
    exact ⟨rfl, Kind.size_of_isTypedInteger isInteger⟩
  case isFalse => cases isMade

private theorem over_value (notPredicate : functor.isPredicate = false)
    (sized : ∃ n, type.underlyingKind.size = some n)
    (operandKind : operand.underlyingKind = type.underlyingKind)
    (pushesLeft : PushesSize context left operand.sizeOnStack)
    (pushesRight : PushesSize context right operand.sizeOnStack) :
    PushesSize context ((BinaryOperation.binary functor type.underlyingKind).over left right)
      type.sizeOnStack := by
  obtain ⟨n, isSize⟩ := sized
  have pushes :=
    pushes_binary functor isSize (pushesLeft.pushes_of_kind operandKind isSize)
      (pushesRight.pushes_of_kind operandKind isSize)
  rw [notPredicate, if_neg Bool.false_ne_true] at pushes
  exact pushes.size_of_kind rfl isSize

/-- A function object whose result is a `bool`. -/
private theorem over_predicate (isPredicate : functor.isPredicate = true)
    (sized : ∃ n, operand.underlyingKind.size = some n) (isBool : type.underlyingKind = .bool)
    (pushesLeft : PushesSize context left operand.sizeOnStack)
    (pushesRight : PushesSize context right operand.sizeOnStack) :
    PushesSize context ((BinaryOperation.binary functor operand.underlyingKind).over left right)
      type.sizeOnStack := by
  obtain ⟨n, isSize⟩ := sized
  have pushes :=
    pushes_binary functor isSize (pushesLeft.pushes_of_kind rfl isSize)
      (pushesRight.pushes_of_kind rfl isSize)
  rw [isPredicate, if_pos rfl] at pushes
  exact pushes.size_of_kind isBool rfl

/-- An operand of a logical operator is a `bool`, or it has no size. -/
private theorem pushes_boolean (isBoolean : operand.underlyingKind.isAnyBoolean = true)
    (pushes : PushesSize context left operand.sizeOnStack) : Pushes context left (aligned 1) := by
  rw [Kind.isAnyBoolean, Bool.or_eq_true, beq_iff_eq, beq_iff_eq] at isBoolean
  rcases isBoolean with isBool | isUntyped
  · exact pushes.pushes_of_kind isBool rfl
  · have noSize : operand.sizeOnStack = none := by
      rw [DataType.sizeOnStack, DataType.size_eq (by simp [isUntyped]), isUntyped]
      rfl
    rw [noSize] at pushes
    exact pushes (aligned 1) fun _ isNone => by cases isNone

private theorem over_concluded {floating : Floating} {operator : BinaryArithmetic}
    {first second : ExpressionValue} {checked : CheckedOperator}
    (concluded : Concluded floating operator first second checked)
    (isResult : type.underlyingType = checked.result.type.underlyingType)
    (isNone : checked.result.value = none)
    (isMade : operator.generateCode type checked.left.type checked.right.type = some operation)
    (pushesLeft : PushesSize context left checked.left.type.sizeOnStack)
    (pushesRight : PushesSize context right checked.right.type.sizeOnStack) :
    PushesSize context (operation.over left right) type.sizeOnStack := by
  have accepted := concluded.accepted
  have valueKind := concluded.resultKind
  have booleanType := fun isBoolean => concluded.resultType_of_isBoolean isBoolean isNone
  have sameKind : type.underlyingKind = checked.result.type.underlyingKind :=
    congrArg DataType.kind isResult
  rw [concluded.leftType] at pushesLeft isMade
  rw [concluded.rightType] at pushesRight
  cases operator with
  | multiply | divide | subtract =>
      rw [makeBinaryArithmetic_eq isMade]
      exact over_value rfl (makeBinaryArithmetic_sized isMade)
        ((valueKind rfl).symm.trans sameKind.symm) pushesLeft pushesRight
  | modulus | bitAnd | bitAndNot | bitOr | bitXor | add =>
      rw [makeBinaryIntegral_eq isMade]
      exact over_value rfl (makeBinaryIntegral_sized isMade)
        ((valueKind rfl).symm.trans sameKind.symm) pushesLeft pushesRight
  | equal | notEqual | lessThan | lessEqual | moreThan | moreEqual =>
      rw [booleanType rfl] at sameKind
      rw [makeBinaryArithmetic_eq isMade]
      exact over_predicate rfl (makeBinaryArithmetic_sized isMade) sameKind pushesLeft pushesRight
  | logicOr =>
      rw [booleanType rfl] at sameKind
      rw [← Option.some.inj isMade]
      exact (pushes_logicOr (pushes_boolean accepted pushesLeft)
        (pushes_boolean accepted pushesRight)).size_of_kind sameKind rfl
  | logicAnd =>
      rw [booleanType rfl] at sameKind
      rw [← Option.some.inj isMade]
      exact (pushes_logicAnd (pushes_boolean accepted pushesLeft)
        (pushes_boolean accepted pushesRight)).size_of_kind sameKind rfl
  | leftShift | rightShift => cases accepted

private theorem over_shift {shiftOperator : ShiftOperator} {operand count : DataType}
    (sameKind : type.underlyingKind = operand.underlyingKind)
    (isMade : (makeConvertTo count).bind (makeShift shiftOperator type) = some operation)
    (pushesLeft : PushesSize context left operand.sizeOnStack)
    (pushesRight : PushesSize context right count.sizeOnStack) :
    PushesSize context (operation.over left right) type.sizeOnStack := by
  obtain ⟨kind, isConverted, isShift⟩ := Option.bind_eq_some_iff.mp isMade
  obtain ⟨countKind, m, countSize⟩ := makeConvertTo_spec isConverted
  obtain ⟨n, isSize⟩ := makeShift_sized isShift
  rw [makeShift_eq isShift]
  have pushesCount := pushes_convertToUint countSize (pushesRight.pushes_of_kind countKind countSize)
  exact (pushes_shift shiftOperator isSize (pushesLeft.pushes_of_kind sameKind.symm isSize)
    pushesCount).size_of_kind rfl isSize

theorem over_pushes {operator : BinaryArithmetic} {leftType rightType : DataType}
    (typed : operator.Typed (some leftType) (some rightType) type)
    (isMade : operator.generateCode type leftType rightType = some operation)
    (pushesLeft : PushesSize context left leftType.sizeOnStack)
    (pushesRight : PushesSize context right rightType.sizeOnStack) :
    PushesSize context (operation.over left right) type.sizeOnStack := by
  obtain ⟨floating, first, second, checked, accepted, isLeft, isRight, isResult, isNone⟩ := typed
  rw [Option.some.injEq] at isLeft isRight
  rw [isLeft] at isMade pushesLeft
  rw [isRight] at isMade pushesRight
  have sameKind : type.underlyingKind = checked.result.type.underlyingKind :=
    congrArg DataType.kind isResult
  cases operator with
  | leftShift | rightShift =>
      have shifted := checkShift_spec accepted
      rw [shifted.resultType, ← shifted.leftSame] at sameKind
      exact over_shift sameKind isMade pushesLeft pushesRight
  | _ =>
      exact over_concluded (checkArithmetic_spec accepted) isResult isNone isMade pushesLeft
        pushesRight

end Binary

section Operators

variable {operation made base index : Operation} {source target type receiver : DataType}
  {expression : Expression}

theorem makeLiteral_pushes {characters : List UInt8 → Nat} {value : Value}
    (isMade : makeLiteral characters type value = some made) :
    PushesSize context made type.sizeOnStack := by
  unfold makeLiteral at isMade
  split at isMade
  case h_16 => cases isMade
  all_goals
    obtain ⟨size, isSize, isLiteral⟩ := Option.map_eq_some_iff.mp isMade
    rw [← isLiteral]
    exact (pushes_literal size _).size_of_kind rfl isSize

theorem Kind.size_of_isPrintable {kind : Kind} (isPrintable : kind.isPrintable = true) :
    ∃ n, kind.size = some n := by
  cases kind <;> first | exact ⟨_, rfl⟩ | cases isPrintable

theorem Kind.size_of_isConvertible {kind : Kind} (isConvertible : kind.isConvertible = true) :
    ∃ n, kind.size = some n := by
  cases kind <;> first | exact ⟨_, rfl⟩ | cases isConvertible

theorem DataType.underlyingKind_of_elementKind {kind : Kind} (isElement : type.elementKind = some kind) :
    type.underlyingKind = .slice := by
  unfold elementKind at isElement
  split at isElement
  case h_1 isSlice =>
    rw [underlyingKind, isSlice]
    rfl
  case h_2 => cases isElement

theorem makeConversion_pushes (pushes : PushesSize context operation source.sizeOnStack)
    (isMade : makeConversion operation source target = some made) :
    PushesSize context made target.sizeOnStack := by
  unfold makeConversion at isMade
  split at isMade
  case isTrue same =>
    rw [← Option.some.inj isMade]
    exact pushes.of_eq (DataType.sizeOnStack_congr same)
  case isFalse =>
    split at isMade
    case isTrue convertible =>
      rw [Bool.and_eq_true] at convertible
      obtain ⟨n, sourceSize⟩ := Kind.size_of_isConvertible convertible.1
      obtain ⟨m, targetSize⟩ := Kind.size_of_isConvertible convertible.2
      rw [← Option.some.inj isMade]
      exact (pushes_conversion sourceSize targetSize
        (pushes.pushes_of_kind rfl sourceSize)).size_of_kind rfl targetSize
    case isFalse =>
      split at isMade
      case isTrue bytes =>
        rw [← Option.some.inj isMade]
        have isSlice := DataType.underlyingKind_of_elementKind bytes.1
        exact (pushes_convertSliceOfBytesToString
          (pushes.pushes_of_kind isSlice rfl)).size_of_kind bytes.2 rfl
      case isFalse =>
        split at isMade
        case isTrue bytes =>
          rw [← Option.some.inj isMade]
          have isSlice := DataType.underlyingKind_of_elementKind bytes.2
          exact (pushes_convertStringToSliceOfBytes
            (pushes.pushes_of_kind bytes.1 rfl)).size_of_kind isSlice rfl
        case isFalse => cases isMade

/-- An index is converted to an `int`. -/
theorem toIndex_pushes (pushes : PushesSize context operation expression.raises)
    (isValue : expression.isValueOrVariable = true)
    (isMade : expression.toIndex operation = some made) : Pushes context made wordBytes := by
  simp only [Expression.toIndex, Option.bind_eq_bind, Option.bind_eq_some_iff] at isMade
  obtain ⟨loaded, isLoaded, type, isType, kind, isConverted, isMade⟩ := isMade
  obtain ⟨isKind, n, isSize⟩ := makeConvertTo_spec isConverted
  rw [← Option.some.inj isMade]
  exact pushes_convertToInt isSize
    ((Expression.load_pushes pushes isValue isType isLoaded).pushes_of_kind isKind isSize)

theorem makeIndex_pushes (pushesBase : Pushes context base wordBytes)
    (pushesIndex : Pushes context index wordBytes) (isMade : makeIndex base index type = some made) :
    Pushes context made wordBytes := by
  unfold makeIndex at isMade
  split at isMade
  case h_1 dimension element _ =>
    obtain ⟨unitSize, _, isMade⟩ := Option.map_eq_some_iff.mp isMade
    rw [← isMade]
    exact pushes_indexArray pushesBase pushesIndex dimension unitSize
  case h_2 element isSlice =>
    obtain ⟨unitSize, _, isMade⟩ := Option.map_eq_some_iff.mp isMade
    rw [← isMade, isSlice]
    exact pushes_indexSlice (pushes_load pushesBase (.slice element)).pushes pushesIndex unitSize
  case h_3 => cases isMade

theorem makeSliceArray_pushes {low high max : Operations} (pushes : Pushes context base wordBytes)
    (takesLow : TakesBound context low) (takesHigh : TakesBound context high)
    (takesMax : TakesBound context max)
    (isMade : makeSliceArray base low high max type = some made) :
    Pushes context made (3 * wordBytes) := by
  unfold makeSliceArray at isMade
  split at isMade
  case h_1 dimension element _ =>
    obtain ⟨unitSize, _, isMade⟩ := Option.map_eq_some_iff.mp isMade
    rw [← isMade]
    exact pushes_sliceArray pushes takesLow takesHigh takesMax dimension unitSize
  case h_2 => cases isMade

theorem makeSliceSlice_pushes {low high max : Operations}
    (pushes : PushesSize context base type.sizeOnStack) (takesLow : TakesBound context low)
    (takesHigh : TakesBound context high) (takesMax : TakesBound context max)
    (isMade : makeSliceSlice base low high max type = some made) :
    Pushes context made (3 * wordBytes) := by
  unfold makeSliceSlice at isMade
  split at isMade
  case h_1 element isSlice =>
    obtain ⟨unitSize, _, isMade⟩ := Option.map_eq_some_iff.mp isMade
    rw [← isMade]
    have isKind : type.underlyingKind = .slice := by rw [DataType.underlyingKind, isSlice]; rfl
    exact pushes_sliceSlice (pushes.pushes_of_kind isKind rfl) takesLow takesHigh takesMax unitSize
  case h_2 => cases isMade

theorem toReceiver_pushes {signature : Signature}
    (pushes : PushesSize context operation expression.raises)
    (isValue : expression.isValueOrVariable = true) (isReceiver : expression.IsReceiver signature)
    (hasReceiver : signature.receiver = some receiver)
    (isMade : expression.toReceiver operation receiver = some made) :
    PushesSize context made receiver.sizeOnStack := by
  obtain ⟨declared, type, isDeclared, isType, fits⟩ := isReceiver
  rw [hasReceiver, Option.some.injEq] at isDeclared
  subst isDeclared
  have pointerSize :
      ∀ type : DataType, type.underlyingKind = .pointer → type.sizeOnStack = some wordBytes :=
    fun type isPointer => DataType.sizeOnStack_of_kind isPointer rfl
  simp only [Expression.toReceiver, isType, Option.bind_eq_bind, Option.bind_some] at isMade
  split at isMade
  case isTrue isPointer =>
    split at isMade
    case isTrue receiverPointer =>
      rw [pointerSize receiver receiverPointer, ← pointerSize type isPointer]
      exact Expression.load_pushes pushes isValue isType isMade
    case isFalse =>
      split at isMade
      case isTrue isVariable =>
        rw [Expression.raises_of_variable isVariable] at pushes
        rw [← Option.some.inj isMade]
        exact pushes_load ((pushes_load pushes.pushes type).pushes_of_kind isPointer rfl) receiver
      case isFalse => cases isMade
  case isFalse notPointer =>
    split at isMade
    case isTrue isVariable =>
      rw [Expression.raises_of_variable isVariable] at pushes
      split at isMade
      case isTrue receiverPointer =>
        rw [← Option.some.inj isMade, pointerSize receiver receiverPointer]
        exact pushes
      case isFalse notReceiverPointer =>
        have same := (fits.resolve_left notPointer).resolve_left notReceiverPointer
        rw [← Option.some.inj isMade, ← DataType.sizeOnStack_congr same]
        exact pushes_load pushes.pushes type
    case isFalse => cases isMade

theorem makeAppend_pushes {element : Operation} {elementType : DataType}
    (pushes : PushesSize context base source.sizeOnStack)
    (pushesElement : PushesSize context element elementType.sizeOnStack)
    (isElement : DataType.slice elementType = source.underlyingType)
    (isMade : makeAppend source (base.pair element) = some made) :
    Pushes context made (3 * wordBytes) := by
  have isSlice : source.underlyingKind = .slice := by
    rw [DataType.underlyingKind, ← isElement]
    rfl
  rw [makeAppend, ← isElement] at isMade
  dsimp only at isMade
  split at isMade
  case isTrue isByte =>
    obtain ⟨unitSize, _, isMade⟩ := Option.map_eq_some_iff.mp isMade
    rw [← isMade]
    have pushesPair := pushes_pair (pushes.pushes_of_kind isSlice rfl)
      (pushesElement.pushes_of_kind isByte rfl)
    rw [Nat.add_comm] at pushesPair
    exact pushes_appendOp pushesPair unitSize
  case isFalse => cases isMade

theorem makeCopy_pushes (pushes : PushesSize context base source.sizeOnStack)
    (isMade : makeCopy source base.single = some made) :
    PushesSize context made source.sizeOnStack := by
  unfold makeCopy at isMade
  split at isMade
  case h_1 element isSlice =>
    obtain ⟨unitSize, _, isMade⟩ := Option.map_eq_some_iff.mp isMade
    rw [← isMade]
    have isKind : source.underlyingKind = .slice := by rw [DataType.underlyingKind, isSlice]; rfl
    exact (pushes_copySliceOp (pushes_single (pushes.pushes_of_kind isKind rfl))
      unitSize).size_of_kind isKind rfl
  case h_2 =>
    split at isMade
    case isTrue isString =>
      rw [← Option.some.inj isMade]
      exact (pushes_copyStringOp (pushes_single
        (pushes.pushes_of_kind isString rfl))).size_of_kind isString rfl
    case isFalse => cases isMade

theorem makeNew_pushes (isMade : makeNew type = some made) : Pushes context made wordBytes := by
  unfold makeNew at isMade
  split at isMade
  · obtain ⟨size, _, isMade⟩ := Option.map_eq_some_iff.mp isMade
    rw [← isMade]
    exact pushes_newHeapOp size
  · obtain ⟨size, _, isMade⟩ := Option.map_eq_some_iff.mp isMade
    rw [← isMade]
    exact pushes_newOp size

end Operators

end Rcgo.Code
