import Rcgo.Code.BinaryOperation
import Mathlib.Data.Option.Basic

/-!
# The checks of binary operators

What is known of the operands and the result after `BinaryArithmetic::check` and
`BinaryShift::check`, and which operation is made for them.
-/

namespace Rcgo.Code

variable {floating : Floating} {operator : BinaryArithmetic}

namespace BinaryArithmetic

/-- The kinds an operator that is not a shift is accepted for. -/
def accepts : BinaryArithmetic → Kind → Bool
  | multiply | divide | add | subtract => Kind.isArithmetic
  | modulus | bitAnd | bitAndNot | bitOr | bitXor => Kind.isIntegral
  | equal | notEqual => Kind.isComparable
  | lessThan | lessEqual | moreThan | moreEqual => Kind.isOrderable
  | logicOr | logicAnd => Kind.isAnyBoolean
  | leftShift | rightShift => fun _ => false

def isLogical : BinaryArithmetic → Bool
  | logicOr | logicAnd => true
  | _ => false

end BinaryArithmetic

section Check

variable {left right converted : ExpressionValue} {type other picked : DataType}

theorem convert_spec (runs : left.convert floating type = some converted) :
    converted.type = type ∧ converted.value.isSome = left.value.isSome := by
  unfold ExpressionValue.convert at runs
  by_cases same : left.type = type
  · rw [if_pos same, Option.some.injEq] at runs
    subst runs
    exact ⟨same, rfl⟩
  · rw [if_neg same] at runs
    cases isValue : left.value with
    | none =>
        simp only [isValue, Option.some.injEq] at runs
        subst runs
        exact ⟨rfl, by simp⟩
    | some value =>
        simp only [isValue, Option.map_eq_some_iff] at runs
        obtain ⟨result, _, isConverted⟩ := runs
        subst isConverted
        exact ⟨rfl, rfl⟩

theorem choose_eq (left right : DataType) :
    choose left right = left ∨ choose left right = right := by
  unfold choose
  split
  · exact Or.inl rfl
  · exact Or.inr rfl

@[simp]
theorem choose_self (type : DataType) : choose type type = type :=
  (choose_eq type type).elim id id

/-- A picker picks the type that `choose` does, and a kind in its switch. -/
theorem pickType_spec (accepted : Kind → Bool) {partner : Kind → Bool}
    (isPicked : pickType accepted partner type other = some picked)
    (within : ∀ kind, partner kind = true → accepted kind = true) :
    picked = choose type other ∧ accepted picked.underlyingKind = true := by
  unfold pickType at isPicked
  split at isPicked
  case isFalse => cases isPicked
  case isTrue inSwitch =>
    split at isPicked
    · split at isPicked
      case isFalse => cases isPicked
      case isTrue isPartner =>
        cases isPicked
        refine ⟨rfl, ?_⟩
        rcases choose_eq type other with isLeft | isRight
        · rw [isLeft]
          exact inSwitch
        · rw [isRight]
          exact within _ isPartner
    · split at isPicked
      case isFalse => cases isPicked
      case isTrue same =>
        cases isPicked
        subst same
        exact ⟨(choose_self _).symm, inSwitch⟩

theorem pickLogical_spec (isPicked : pickLogical type other = some picked) :
    picked = choose type other ∧ picked.underlyingKind.isAnyBoolean = true := by
  unfold pickLogical at isPicked
  split at isPicked
  case isFalse => cases isPicked
  case isTrue boolean =>
    cases isPicked
    rw [Bool.and_eq_true] at boolean
    rcases choose_eq type other with isLeft | isRight
    · exact ⟨rfl, by rw [isLeft]; exact boolean.1⟩
    · exact ⟨rfl, by rw [isRight]; exact boolean.2⟩

theorem pick_spec (isPicked : operator.pick type other = some picked) :
    picked = choose type other ∧ operator.accepts picked.underlyingKind = true := by
  have arithmetic : ∀ kind : Kind, kind.isUntypedNumeric = true → kind.isArithmetic = true := by
    intro kind
    cases kind <;> decide
  have integral :
      ∀ kind : Kind, kind.isUntypedIntegral = true → kind.isIntegral = true := by
    intro kind
    cases kind <;> decide
  have comparable : ∀ kind : Kind, kind.isUntypedNumeric = true → kind.isComparable = true := by
    intro kind
    cases kind <;> decide
  have orderable : ∀ kind : Kind, kind.isUntypedReal = true → kind.isOrderable = true := by
    intro kind
    cases kind <;> decide
  cases operator with
  | multiply | divide | add | subtract => exact pickType_spec Kind.isArithmetic isPicked arithmetic
  | modulus | bitAnd | bitAndNot | bitOr | bitXor => exact pickType_spec Kind.isIntegral isPicked integral
  | equal | notEqual => exact pickType_spec Kind.isComparable isPicked comparable
  | lessThan | lessEqual | moreThan | moreEqual => exact pickType_spec Kind.isOrderable isPicked orderable
  | logicOr | logicAnd => exact pickLogical_spec isPicked
  | leftShift | rightShift => cases isPicked

/-- What is known after the check of an operator that is not a shift. -/
structure Concluded (floating : Floating) (operator : BinaryArithmetic)
    (left right : ExpressionValue) (checked : CheckedOperator) : Prop where
  leftType : checked.left.type = choose left.type right.type
  rightType : checked.right.type = choose left.type right.type
  leftValue : checked.left.value.isSome = left.value.isSome
  rightValue : checked.right.value.isSome = right.value.isSome
  accepted : operator.accepts (choose left.type right.type).underlyingKind = true
  computed :
    operator.compute floating (choose left.type right.type) checked.left.value
      checked.right.value = some checked.result.value
  resultType :
    checked.result.type =
      operator.pickResult (choose left.type right.type) checked.left checked.right

theorem conclude_spec {newLeft newRight : ExpressionValue} {checked : CheckedOperator}
    (isType : type = choose left.type right.type)
    (accepted : operator.accepts type.underlyingKind = true)
    (leftRuns : left.convert floating type = some newLeft)
    (rightRuns : right.convert floating type = some newRight)
    (runs : operator.conclude floating type newLeft newRight = some checked) :
    Concluded floating operator left right checked := by
  obtain ⟨value, computed, isChecked⟩ := Option.map_eq_some_iff.mp runs
  subst isChecked
  subst isType
  obtain ⟨leftType, leftValue⟩ := convert_spec leftRuns
  obtain ⟨rightType, rightValue⟩ := convert_spec rightRuns
  exact ⟨leftType, rightType, leftValue, rightValue, accepted, computed, rfl⟩

theorem checkArithmetic_spec {checked : CheckedOperator}
    (runs : operator.checkArithmetic floating left right = some checked) :
    Concluded floating operator left right checked := by
  simp only [BinaryArithmetic.checkArithmetic, Option.bind_eq_bind, Option.bind_eq_some_iff] at runs
  obtain ⟨_, _, runs⟩ := runs
  split at runs
  · simp only [Option.bind_eq_some_iff] at runs
    obtain ⟨type, isPicked, newLeft, leftRuns, newRight, rightRuns, concluded⟩ := runs
    obtain ⟨isType, accepted⟩ := pick_spec isPicked
    exact conclude_spec isType accepted leftRuns rightRuns concluded
  · simp only [Option.bind_eq_some_iff] at runs
    obtain ⟨_, _, _, _, newLeft, leftRuns, newRight, rightRuns, picked, isPicked,
      concluded⟩ := runs
    obtain ⟨isType, accepted⟩ := pick_spec isPicked
    rw [choose_self] at isType
    subst isType
    exact conclude_spec rfl accepted leftRuns rightRuns concluded

end Check

section Generation

variable {functor : Functor} {type : DataType} {operation : BinaryOperation}

theorem makeBinaryArithmetic_eq
    (isMade : makeBinaryArithmetic functor type = some operation) :
    operation = .binary functor type.underlyingKind := by
  unfold makeBinaryArithmetic at isMade
  split at isMade <;> simp_all

theorem makeBinaryIntegral_eq
    (isMade : makeBinaryIntegral functor type = some operation) :
    operation = .binary functor type.underlyingKind := by
  unfold makeBinaryIntegral at isMade
  split at isMade <;> simp_all

theorem makeShift_eq {shiftOperator : ShiftOperator} {count : Kind}
    (isMade : makeShift shiftOperator type count = some operation) :
    operation = .shift shiftOperator type.underlyingKind count := by
  unfold makeShift at isMade
  split at isMade <;> simp_all

/-- The kinds of `MakeConvertToUint`. -/
theorem makeConvertTo_eq (type : DataType) :
    makeConvertTo type =
      if type.underlyingKind.isTypedInteger then some type.underlyingKind else none := by
  unfold makeConvertTo
  cases type.underlyingKind <;> rfl

end Generation

section Compute

variable {type : DataType} {left right : Option Value} {x y : Value}

theorem compute_left_none (right : Option Value) :
    operator.compute floating type none right = some none := by
  cases operator <;> rfl

theorem compute_right_none (notLogical : operator.isLogical = false)
    (left : Option Value) : operator.compute floating type left none = some none := by
  cases left with
  | none => exact compute_left_none none
  | some x => cases operator <;> first | rfl | cases notLogical

theorem compute_some (notLogical : operator.isLogical = false) :
    operator.compute floating type (some x) (some y) =
      (operator.fold floating type.underlyingKind x y).map some := by
  cases operator <;> first | rfl | cases notLogical

theorem compute_eq_none_iff {value : Option Value} (notLogical : operator.isLogical = false)
    (computed : operator.compute floating type left right = some value) :
    value = none ↔ left = none ∨ right = none := by
  cases left with
  | none =>
      rw [compute_left_none, Option.some.injEq] at computed
      simp [← computed]
  | some x =>
      cases right with
      | none =>
          rw [compute_right_none notLogical, Option.some.injEq] at computed
          simp [← computed]
      | some y =>
          rw [compute_some notLogical, Option.map_eq_some_iff] at computed
          obtain ⟨folded, _, isValue⟩ := computed
          simp [← isValue]

theorem compute_ne_none (x y : Value) :
    operator.compute floating type (some x) (some y) ≠ some none := by
  intro computed
  cases notLogical : operator.isLogical with
  | false =>
      rcases (compute_eq_none_iff notLogical computed).mp rfl with isNone | isNone
      · cases isNone
      · cases isNone
  | true =>
      cases operator with
      | logicOr => cases hx : x.toBool <;> simp [BinaryArithmetic.compute, computeLogicOr, hx] at computed
      | logicAnd => cases hx : x.toBool <;> simp [BinaryArithmetic.compute, computeLogicAnd, hx] at computed
      | _ => cases notLogical

end Compute

section Operators

variable {left right : ExpressionValue} {checked : CheckedOperator}

theorem value_eq_none_iff {first second : ExpressionValue}
    (same : first.value.isSome = second.value.isSome) :
    first.value = none ↔ second.value = none := by
  rw [← Option.not_isSome_iff_eq_none, same, Option.not_isSome_iff_eq_none]

namespace Concluded

theorem result_eq_none_iff (concluded : Concluded floating operator left right checked)
    (notLogical : operator.isLogical = false) :
    checked.result.value = none ↔ left.value = none ∨ right.value = none := by
  rw [compute_eq_none_iff notLogical concluded.computed, value_eq_none_iff concluded.leftValue,
    value_eq_none_iff concluded.rightValue]

theorem resultKind (concluded : Concluded floating operator left right checked)
    (notBoolean : operator.isBoolean = false) :
    checked.result.type.underlyingKind = (choose left.type right.type).underlyingKind := by
  rw [concluded.resultType, BinaryArithmetic.pickResult, notBoolean, if_neg Bool.false_ne_true]

/-- A result without value of an operator with `BooleanPicker` is a `bool`. -/
theorem resultType_of_isBoolean (concluded : Concluded floating operator left right checked)
    (isBoolean : operator.isBoolean = true) (isNone : checked.result.value = none) :
    checked.result.type = .basic .bool := by
  have notBoth : (checked.left.value.isSome && checked.right.value.isSome) = false := by
    have computed := concluded.computed
    rw [isNone] at computed
    cases leftValue : checked.left.value with
    | none => rfl
    | some x =>
        cases rightValue : checked.right.value with
        | none => rfl
        | some y =>
            rw [leftValue, rightValue] at computed
            exact absurd computed (compute_ne_none x y)
  rw [concluded.resultType, BinaryArithmetic.pickResult, isBoolean, if_pos rfl, pickBoolean,
    notBoth, if_neg Bool.false_ne_true]

end Concluded

/-- What is known after the check of a shift. -/
structure Shifted (floating : Floating) (shiftOperator : ShiftOperator)
    (left right : ExpressionValue) (checked : CheckedOperator) : Prop where
  countKind :
    (right.type.underlyingKind.isTypedUnsignedInteger ||
      right.type.underlyingKind.isUntypedNumeric) = true
  count : convertCount floating right = some checked.right
  leftSame : checked.left = left
  integral : left.type.underlyingKind.isIntegral = true
  computed :
    computeShiftValue shiftOperator left.type.underlyingKind left.value checked.right.value =
      some checked.result.value
  resultType : checked.result.type = left.type

theorem checkShift_spec {shiftOperator : ShiftOperator}
    (runs : checkShift floating shiftOperator left right = some checked) :
    Shifted floating shiftOperator left right checked := by
  simp only [checkShift, Option.bind_eq_bind, Option.bind_eq_some_iff, Option.guard_eq_some'] at runs
  obtain ⟨_, _, _, countKind, count, isCount, _, integral, value, computed, isChecked⟩ := runs
  rw [Option.some.injEq] at isChecked
  subst isChecked
  exact ⟨countKind, isCount, rfl, integral, computed, rfl⟩

theorem convertCount_spec {count : ExpressionValue}
    (isCount : convertCount floating right = some count) :
    (right.value = none ∧ count = right) ∨
      (count.type = .basic .uint ∧ right.value ≠ none ∧ count.value ≠ none) := by
  unfold convertCount at isCount
  cases isValue : right.value with
  | none =>
      rw [isValue, Option.some.injEq] at isCount
      exact Or.inl ⟨rfl, isCount.symm⟩
  | some value =>
      simp only [isValue, Option.bind_eq_bind, Option.bind_eq_some_iff] at isCount
      obtain ⟨_, _, _, _, _, _, isCount⟩ := isCount
      rw [Option.some.injEq] at isCount
      subst isCount
      exact Or.inr ⟨rfl, Option.some_ne_none _, Option.some_ne_none _⟩

namespace Shifted

variable {shiftOperator : ShiftOperator}

theorem result_eq_none_iff
    (shifted : Shifted floating shiftOperator left right checked) :
    checked.result.value = none ↔ left.value = none ∨ right.value = none := by
  have computed := shifted.computed
  have countValue : checked.right.value = none ↔ right.value = none := by
    rcases convertCount_spec shifted.count with ⟨_, same⟩ | ⟨_, notNone, countNotNone⟩
    · rw [same]
    · exact iff_of_false countNotNone notNone
  rw [← countValue]
  cases isLeft : left.value with
  | none =>
      rw [isLeft] at computed
      simp [← Option.some.inj computed]
  | some x =>
      cases isRight : checked.right.value with
      | none =>
          rw [isLeft, isRight] at computed
          simp [← Option.some.inj computed]
      | some y =>
          rw [isLeft, isRight, computeShiftValue, Option.map_eq_some_iff] at computed
          obtain ⟨folded, _, isFolded⟩ := computed
          simp [← isFolded]

end Shifted

end Operators

end Rcgo.Code
