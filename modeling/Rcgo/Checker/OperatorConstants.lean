import Rcgo.Checker.ExpressionTypes
import Rcgo.Code.OperandTypes

/-!
# Constants under operators

The operators pass on that what is untyped is constant, except for a shift by a
count that is not constant.
-/

namespace Rcgo.Checker

open Rcgo.Code

variable {environment : Environment}

/-- `<<` and `>>`. -/
def BinaryArithmetic.isShift : BinaryArithmetic → Bool
  | .leftShift | .rightShift => true
  | _ => false

/-- If the type is untyped and not that of `nil`, there is a constant of that type. -/
def Carries (eval : ExpressionValue) : Prop :=
  eval.type.isUntyped = true → eval.type.kind ≠ .untypedNil →
    ∃ value, eval.value = some value ∧ IsValueOf eval.type.kind value

section Operators

variable {left right argument result : ExpressionValue} {checked : CheckedOperator}
  {operator : BinaryArithmetic} {floating : Floating}

/-- What is known after the check of a unary operator. -/
structure Applied (environment : Environment) (operator : UnaryOperator) (leftover : Nat)
    (argument result : ExpressionValue) : Prop where
  isValue : result.expressionKind = .value
  type : result.type = argument.type
  applies : operator.applies argument.type.underlyingKind = true
  isSome : result.value.isSome = argument.value.isSome
  value : ∀ value, argument.value = some value →
    environment.foldUnary operator argument.type.underlyingKind leftover value = result.value

theorem UnaryOperator.check_spec {operator : UnaryOperator} {leftover : Nat}
    (runs : operator.check environment leftover argument = some result) :
    Applied environment operator leftover argument result := by
  unfold UnaryOperator.check at runs
  split at runs
  case isFalse => cases runs
  case isTrue isApplied =>
    rw [Bool.and_eq_true] at isApplied
    cases isValue : argument.value with
    | none =>
        simp only [isValue, Option.some.injEq] at runs
        subst runs
        refine ⟨rfl, rfl, isApplied.2, by rw [isValue], ?_⟩
        intro value isSome
        rw [isValue] at isSome
        cases isSome
    | some value =>
        simp only [isValue, Option.map_eq_some_iff] at runs
        rcases runs with ⟨folded, isFolded, rfl⟩
        refine ⟨rfl, rfl, isApplied.2, by rw [isValue]; rfl, ?_⟩
        intro other isOther
        rw [isValue] at isOther
        rw [← Option.some.inj isOther]
        exact isFolded

/-- Both are kinds of numbers or none is, and both are kinds of strings or none is. -/
abbrev AreAlike (kind other : Kind) : Prop :=
  kind.isNumeric = other.isNumeric ∧ kind.isText = other.isText

/-- Values are assignable to numbers and strings only where they are such. -/
theorem areAlike_of_areAssignable {source target : DataType} {value : Option Value}
    (assignable : areAssignable floating source value target = some true) :
    AreAlike source.underlyingKind target.underlyingKind := by
  unfold areAssignable at assignable
  split at assignable
  case isTrue => cases assignable
  split at assignable
  case isTrue same =>
    rw [same]
    exact ⟨rfl, rfl⟩
  split at assignable
  case isTrue same =>
    rw [DataType.underlyingKind, DataType.underlyingKind, same.1]
    exact ⟨rfl, rfl⟩
  split at assignable
  case isTrue isNil =>
    have isUntyped : source.isUntyped = true := by
      rw [DataType.isUntyped, isNil.1]
      rfl
    rw [DataType.underlyingKind, underlyingType_of_isUntyped isUntyped, isNil.1]
    have isKind := isNil.2
    generalize target.underlyingKind = kind at isKind
    revert isKind
    cases kind <;> decide
  split at assignable
  case isFalse => cases assignable
  case isTrue isUntyped =>
    unfold Value.representable at assignable
    split at assignable
    case isFalse => cases assignable
    split at assignable
    · rename_i isKind
      rw [isKind]
      generalize target.underlyingKind = kind at assignable
      revert assignable
      cases kind <;> decide
    · rename_i isKind
      rw [isKind]
      generalize target.underlyingKind = kind at assignable
      revert assignable
      cases kind <;> decide
    · rename_i isKind
      rw [isKind]
      generalize target.underlyingKind = kind at assignable
      revert assignable
      cases kind <;> decide
    · rename_i notNil notBoolean notString
      rw [Option.some.injEq, Bool.and_eq_true] at assignable
      have isNumeric := assignable.1
      rw [DataType.underlyingKind, underlyingType_of_isUntyped isUntyped] at notNil notBoolean notString ⊢
      rw [DataType.isUntyped] at isUntyped
      generalize target.underlyingKind = targetKind at isNumeric
      have notText : targetKind.isText = false := by
        revert isNumeric
        cases targetKind <;> decide
      rw [AreAlike, isNumeric, notText]
      generalize source.kind = kind at isUntyped notNil notBoolean notString
      cases kind <;> first | exact ⟨rfl, rfl⟩ | exact (notNil rfl).elim |
        exact (notBoolean rfl).elim | exact (notString rfl).elim | cases isUntyped
    · cases assignable

theorem areAlike_of_isUntypedNumeric {kind other : Kind} (isUntyped : kind.isUntypedNumeric = true)
    (otherUntyped : other.isUntypedNumeric = true) : AreAlike kind other := by
  revert isUntyped otherUntyped
  cases kind <;> cases other <;> decide

theorem areAlike_of_pickType {accepted partner : Kind → Bool} {type other picked : DataType}
    (isPicked : pickType accepted partner type other = some picked)
    (within : ∀ kind, partner kind = true → kind.isUntypedNumeric = true) :
    AreAlike type.underlyingKind other.underlyingKind := by
  unfold pickType at isPicked
  split at isPicked
  case isFalse => cases isPicked
  split at isPicked
  case isTrue isUntyped =>
    split at isPicked
    case isFalse => cases isPicked
    case isTrue isPartner => exact areAlike_of_isUntypedNumeric isUntyped (within _ isPartner)
  case isFalse =>
    split at isPicked
    case isFalse => cases isPicked
    case isTrue same =>
      rw [same]
      exact ⟨rfl, rfl⟩

theorem areAlike_of_pick {type other picked : DataType}
    (isPicked : operator.pick type other = some picked) :
    AreAlike type.underlyingKind other.underlyingKind := by
  have integral : ∀ kind : Kind, kind.isUntypedIntegral = true → kind.isUntypedNumeric = true := by
    intro kind
    cases kind <;> decide
  have orderable : ∀ kind : Kind, kind.isUntypedReal = true → kind.isUntypedNumeric = true := by
    intro kind
    cases kind <;> decide
  have ofBoolean : ∀ kind : Kind, kind.isAnyBoolean = true →
      kind.isNumeric = false ∧ kind.isText = false := by
    intro kind
    cases kind <;> decide
  cases operator with
  | multiply | divide | add | subtract => exact areAlike_of_pickType isPicked fun _ => id
  | modulus | bitAnd | bitAndNot | bitOr | bitXor => exact areAlike_of_pickType isPicked integral
  | equal | notEqual => exact areAlike_of_pickType isPicked fun _ => id
  | lessThan | lessEqual | moreThan | moreEqual => exact areAlike_of_pickType isPicked orderable
  | logicOr | logicAnd =>
      simp only [BinaryArithmetic.pick, pickLogical] at isPicked
      split at isPicked
      case isFalse => cases isPicked
      case isTrue areBoolean =>
        rw [Bool.and_eq_true] at areBoolean
        rw [AreAlike, (ofBoolean _ areBoolean.1).1, (ofBoolean _ areBoolean.1).2,
          (ofBoolean _ areBoolean.2).1, (ofBoolean _ areBoolean.2).2]
        exact ⟨rfl, rfl⟩
  | leftShift | rightShift => cases isPicked

theorem areAlike_of_eitherAssignable
    (assignable : eitherAssignable floating left right = some true) :
    AreAlike left.type.underlyingKind right.type.underlyingKind := by
  rw [eitherAssignable, Option.bind_eq_some_iff] at assignable
  rcases assignable with ⟨first, isFirst, isSecond⟩
  cases first with
  | true => exact areAlike_of_areAssignable isFirst
  | false =>
      have alike := areAlike_of_areAssignable isSecond
      exact ⟨alike.1.symm, alike.2.symm⟩

theorem isNumeric_operands (runs : operator.checkArithmetic floating left right = some checked)
    (isNumeric : (choose left.type right.type).underlyingKind.isNumeric = true) :
    left.type.underlyingKind.isNumeric = true ∧ right.type.underlyingKind.isNumeric = true := by
  have both : left.type.underlyingKind.isNumeric = right.type.underlyingKind.isNumeric := by
    simp only [BinaryArithmetic.checkArithmetic, Option.bind_eq_bind, Option.bind_eq_some_iff] at runs
    rcases runs with ⟨_, _, runs⟩
    split at runs
    · simp only [Option.bind_eq_some_iff] at runs
      rcases runs with ⟨_, isPicked, _⟩
      exact (areAlike_of_pick isPicked).1
    · simp only [Option.bind_eq_some_iff] at runs
      rcases runs with ⟨assignable, isAssignable, _, isTrue, _⟩
      rw [Option.guard_eq_some'] at isTrue
      subst isTrue
      exact (areAlike_of_eitherAssignable isAssignable).1
  rcases choose_eq left.type right.type with isLeft | isRight
  · rw [isLeft] at isNumeric
    exact ⟨isNumeric, both ▸ isNumeric⟩
  · rw [isRight] at isNumeric
    exact ⟨both.symm ▸ isNumeric, isNumeric⟩

theorem check_cases (runs : operator.check floating left right = some checked) :
    (BinaryArithmetic.isShift operator = true ∧
      ∃ shiftOperator, checkShift floating shiftOperator left right = some checked) ∨
    (BinaryArithmetic.isShift operator = false ∧
      operator.checkArithmetic floating left right = some checked) := by
  cases operator with
  | leftShift => exact Or.inl ⟨rfl, .left, runs⟩
  | rightShift => exact Or.inl ⟨rfl, .right, runs⟩
  | _ => exact Or.inr ⟨rfl, runs⟩

theorem isValue_of_checkArithmetic (runs : operator.checkArithmetic floating left right = some checked) :
    checked.result.expressionKind = .value := by
  have concludes : ∀ {type : DataType} {left right : ExpressionValue},
      operator.conclude floating type left right = some checked →
        checked.result.expressionKind = .value := by
    intro type left right isConcluded
    rcases Option.map_eq_some_iff.mp isConcluded with ⟨_, _, rfl⟩
    rfl
  simp only [BinaryArithmetic.checkArithmetic, Option.bind_eq_bind, Option.bind_eq_some_iff] at runs
  rcases runs with ⟨_, _, runs⟩
  split at runs
  · simp only [Option.bind_eq_some_iff] at runs
    rcases runs with ⟨_, _, _, _, _, _, isConcluded⟩
    exact concludes isConcluded
  · simp only [Option.bind_eq_some_iff] at runs
    rcases runs with ⟨_, _, _, _, _, _, _, _, _, _, isConcluded⟩
    exact concludes isConcluded

theorem isValue_of_checkShift {shiftOperator : ShiftOperator}
    (runs : checkShift floating shiftOperator left right = some checked) :
    checked.result.expressionKind = .value := by
  simp only [checkShift, Option.bind_eq_bind, Option.bind_eq_some_iff] at runs
  rcases runs with ⟨_, _, _, _, _, _, _, _, _, _, isChecked⟩
  rw [← Option.some.inj isChecked]

theorem bits_of_apply {type : CType} {cxxOperator : CxxOperator} {x y result : Value}
    (isResult : Cxx.apply floating type cxxOperator x y = some result) :
    ∃ word, result = .bits word := by
  have ofMap : ∀ {α : Type} {f : α → Value} {o : Option α}, (∀ a, ∃ word, f a = .bits word) →
      o.map f = some result → ∃ word, result = .bits word := by
    intro α f o areBits isMapped
    rcases Option.map_eq_some_iff.mp isMapped with ⟨a, _, rfl⟩
    exact areBits a
  have ofBool : ∀ b : Bool, ∃ word, Cxx.ofBool b = .bits word := fun b => ⟨_, rfl⟩
  unfold Cxx.apply at isResult
  split at isResult
  · split at isResult
    · exact ofMap ofBool isResult
    · unfold Cxx.applyInteger at isResult
      simp only at isResult
      split at isResult
      · exact ⟨_, (Option.some.inj isResult).symm⟩
      · exact ofMap (fun _ => ⟨_, rfl⟩) isResult
    · unfold Cxx.applyFloating at isResult
      split at isResult
      all_goals first | exact ⟨_, (Option.some.inj isResult).symm⟩ | cases isResult
    · exact ofMap ofBool isResult
    · cases isResult
  · split at isResult
    · exact ofMap ofBool isResult
    · cases isResult
  · cases isResult

theorem bits_of_bind {type : Option CType} {cxxOperator : CxxOperator} {x y result : Value}
    (isResult : (type.bind fun type => Cxx.apply floating type cxxOperator x y) = some result) :
    ∃ word, result = .bits word := by
  rcases Option.bind_eq_some_iff.mp isResult with ⟨_, _, isApplied⟩
  exact bits_of_apply isApplied

theorem bits_of_fold {kind : Kind} {x y result : Value}
    (isResult : operator.fold floating kind x y = some result) : ∃ word, result = .bits word := by
  cases operator with
  | multiply | divide | add | subtract =>
      simp only [BinaryArithmetic.fold, computeArithmetic] at isResult
      split at isResult
      all_goals first | exact bits_of_bind isResult | cases isResult
  | modulus | bitAnd | bitAndNot | bitOr | bitXor =>
      simp only [BinaryArithmetic.fold, computeIntegral] at isResult
      split at isResult
      all_goals first | exact bits_of_bind isResult | cases isResult
  | equal | notEqual =>
      simp only [BinaryArithmetic.fold, computeEquality] at isResult
      split at isResult
      all_goals first | exact bits_of_bind isResult | cases isResult
      all_goals exact ⟨_, rfl⟩
  | lessThan | lessEqual | moreThan | moreEqual =>
      simp only [BinaryArithmetic.fold, computeOrder] at isResult
      split at isResult
      all_goals first | exact bits_of_bind isResult | cases isResult
  | leftShift | rightShift | logicOr | logicAnd => cases isResult

theorem bits_of_compute {type : DataType} {x y : Option Value} {result : Value}
    (computed : operator.compute floating type x y = some (some result)) :
    ∃ word, result = .bits word := by
  cases isLogical : operator.isLogical with
  | false =>
      cases x with
      | none =>
          rw [compute_left_none] at computed
          cases computed
      | some x =>
          cases y with
          | none =>
              rw [compute_right_none isLogical] at computed
              cases computed
          | some y =>
              rw [compute_some isLogical, Option.map_eq_some_iff] at computed
              rcases computed with ⟨folded, isFolded, isResult⟩
              rw [← Option.some.inj isResult]
              exact bits_of_fold isFolded
  | true =>
      cases operator with
      | logicOr | logicAnd =>
          simp only [BinaryArithmetic.compute, computeLogicOr, computeLogicAnd, Option.some.injEq,
            Option.bind_eq_some_iff] at computed
          rcases computed with ⟨x, _, isResult⟩
          split at isResult
          · exact ⟨_, (Option.some.inj isResult).symm⟩
          · rcases Option.map_eq_some_iff.mp isResult with ⟨y, _, rfl⟩
            exact ⟨_, rfl⟩
      | _ => cases isLogical

theorem bits_of_computeShiftValue {shiftOperator : ShiftOperator} {kind : Kind}
    {x y : Option Value} {result : Value}
    (computed : computeShiftValue shiftOperator kind x y = some (some result)) :
    ∃ word, result = .bits word := by
  unfold computeShiftValue at computed
  split at computed
  case h_2 => cases computed
  case h_1 x y =>
    rcases Option.map_eq_some_iff.mp computed with ⟨folded, isFolded, isResult⟩
    rw [← Option.some.inj isResult]
    unfold computeShift at isFolded
    split at isFolded
    case h_14 => cases isFolded
    all_goals
      rcases Option.bind_eq_some_iff.mp isFolded with ⟨type, _, isShifted⟩
      unfold Cxx.shift at isShifted
      split at isShifted
      case h_2 => cases isShifted
      split at isShifted
      case h_2 => cases isShifted
      simp only at isShifted
      split at isShifted
      case isTrue => cases isShifted
      split at isShifted
      case h_2 => exact ⟨_, (Option.some.inj isShifted).symm⟩
      split at isShifted
      case isTrue => cases isShifted
      rcases Option.map_eq_some_iff.mp isShifted with ⟨_, _, rfl⟩
      exact ⟨_, rfl⟩

theorem isNumeric_of_accepts {kind : Kind} (notBoolean : operator.isBoolean = false)
    (accepted : operator.accepts kind = true) : kind.isNumeric = true := by
  cases operator with
  | multiply | divide | add | subtract => exact accepted
  | modulus | bitAnd | bitAndNot | bitOr | bitXor =>
      revert accepted
      cases kind <;> decide
  | leftShift | rightShift => cases accepted
  | _ => cases notBoolean

theorem ne_of_isNumeric {kind : Kind} (isNumeric : kind.isNumeric = true) :
    kind ≠ .untypedNil ∧ kind.isText = false := by
  revert isNumeric
  cases kind <;> decide

theorem isValueOf_of_bits {kind : Kind} {result : Value} (areBits : ∃ word, result = .bits word)
    (notText : kind.isText = false) : IsValueOf kind result := by
  rcases areBits with ⟨word, rfl⟩
  exact notText.symm

theorem kind_of_isUntyped {type : DataType} (isUntyped : type.isUntyped = true) :
    type.underlyingKind = type.kind := by
  rw [DataType.underlyingKind, underlyingType_of_isUntyped isUntyped]

theorem carries_of_checkArithmetic
    (runs : operator.checkArithmetic floating left right = some checked) (leftCarries : Carries left)
    (rightCarries : Carries right) : Carries checked.result := by
  have concluded := checkArithmetic_spec runs
  intro isUntyped notNil
  have isSome : checked.left.value.isSome = true ∧ checked.right.value.isSome = true ∧
      checked.result.type.kind.isText = false := by
    cases isBoolean : operator.isBoolean with
    | true =>
        have isType := concluded.resultType
        rw [BinaryArithmetic.pickResult, isBoolean, if_pos rfl, pickBoolean] at isType
        split at isType
        case isTrue areSome =>
          rw [Bool.and_eq_true] at areSome
          rw [isType]
          exact ⟨areSome.1, areSome.2, by decide⟩
        case isFalse =>
          rw [isType] at isUntyped
          cases isUntyped
    | false =>
        have isType := concluded.resultType
        rw [BinaryArithmetic.pickResult, isBoolean, if_neg Bool.false_ne_true] at isType
        have isNumeric := isNumeric_of_accepts isBoolean concluded.accepted
        rcases isNumeric_operands runs isNumeric with ⟨leftNumeric, rightNumeric⟩
        rw [isType] at isUntyped ⊢
        rcases (isUntyped_choose _ _).mp isUntyped with ⟨leftUntyped, rightUntyped⟩
        rw [kind_of_isUntyped isUntyped] at isNumeric
        rw [kind_of_isUntyped leftUntyped] at leftNumeric
        rw [kind_of_isUntyped rightUntyped] at rightNumeric
        rcases leftCarries leftUntyped (ne_of_isNumeric leftNumeric).1 with ⟨x, isLeft, _⟩
        rcases rightCarries rightUntyped (ne_of_isNumeric rightNumeric).1 with ⟨y, isRight, _⟩
        rw [concluded.leftValue, concluded.rightValue, isLeft, isRight]
        exact ⟨rfl, rfl, (ne_of_isNumeric isNumeric).2⟩
  rcases Option.isSome_iff_exists.mp isSome.1 with ⟨x, isLeft⟩
  rcases Option.isSome_iff_exists.mp isSome.2.1 with ⟨y, isRight⟩
  have computed := concluded.computed
  rw [isLeft, isRight] at computed
  cases isValue : checked.result.value with
  | none =>
      rw [isValue] at computed
      exact absurd computed (compute_ne_none x y)
  | some value =>
      rw [isValue] at computed
      exact ⟨value, rfl, isValueOf_of_bits (bits_of_compute computed) isSome.2.2⟩

theorem carries_checkShift_iff {shiftOperator : ShiftOperator}
    (runs : checkShift floating shiftOperator left right = some checked) (leftCarries : Carries left) :
    Carries checked.result ↔ (left.type.isUntyped = true → right.value.isSome = true) := by
  have shifted := checkShift_spec runs
  have isNumeric : left.type.underlyingKind.isNumeric = true := by
    have integral := shifted.integral
    generalize left.type.underlyingKind = kind at integral
    revert integral
    cases kind <;> decide
  constructor
  · intro carries isUntyped
    rw [kind_of_isUntyped isUntyped] at isNumeric
    rcases carries (shifted.resultType ▸ isUntyped)
      (shifted.resultType ▸ (ne_of_isNumeric isNumeric).1) with ⟨value, isValue, _⟩
    by_contra notSome
    rw [Option.not_isSome_iff_eq_none] at notSome
    rw [shifted.result_eq_none_iff.mpr (Or.inr notSome)] at isValue
    cases isValue
  · intro isConstant isUntyped notNil
    rw [shifted.resultType] at isUntyped notNil ⊢
    rw [kind_of_isUntyped isUntyped] at isNumeric
    rcases leftCarries isUntyped notNil with ⟨x, isLeft, _⟩
    cases isValue : checked.result.value with
    | none =>
        rcases shifted.result_eq_none_iff.mp isValue with noLeft | noRight
        · rw [noLeft] at isLeft
          cases isLeft
        · rw [← Option.not_isSome_iff_eq_none] at noRight
          exact absurd (isConstant isUntyped) noRight
    | some value =>
        have computed := shifted.computed
        rw [isValue] at computed
        exact ⟨value, rfl, isValueOf_of_bits (bits_of_computeShiftValue computed)
          (ne_of_isNumeric isNumeric).2⟩

theorem isText_of_applies {operator : UnaryOperator} {kind : Kind}
    (applies : operator.applies kind = true) : kind.isText = false := by
  revert applies
  cases operator with
  | logicNot => cases kind <;> decide
  | arithmetic operator => cases operator <;> cases kind <;> decide

theorem carries_of_applied {operator : UnaryOperator} {leftover : Nat}
    (applied : Applied environment operator leftover argument result)
    (argumentCarries : Carries argument) : Carries result := by
  intro isUntyped notNil
  rw [applied.type] at isUntyped notNil ⊢
  rcases argumentCarries isUntyped notNil with ⟨value, isValue, isValueOf⟩
  rcases Option.isSome_iff_exists.mp (applied.isSome.trans (by rw [isValue]; rfl)) with
    ⟨folded, isFolded⟩
  refine ⟨folded, isFolded, ?_⟩
  have folds := applied.value value isValue
  rw [isFolded] at folds
  have applies := applied.applies
  rw [kind_of_isUntyped isUntyped] at folds applies
  generalize argument.type.kind = kind at folds applies isValueOf notNil
  have notText : kind.isText = false := isText_of_applies applies
  cases operator with
  | logicNot => exact isValueOf_of_bits ⟨_, (Option.some.inj folds).symm⟩ notText
  | arithmetic operator =>
      cases value with
      | text bytes =>
          cases operator with
          | posate =>
              rw [← Option.some.inj folds]
              exact isValueOf
          | _ => cases folds
      | bits word =>
          apply isValueOf_of_bits ?_ notText
          cases operator with
          | posate => exact ⟨_, (Option.some.inj folds).symm⟩
          | negate | complement =>
              simp only [Environment.foldUnary] at folds
              split at folds
              · rcases Option.map_eq_some_iff.mp folds with ⟨_, _, rfl⟩
                exact ⟨_, rfl⟩
              · split at folds
                · exact ⟨_, (Option.some.inj folds).symm⟩
                · cases folds

end Operators

end Rcgo.Checker
