import Rcgo.Checker.Expressions

/-!
# Types of checked expressions

The checker gives an expression a type that can be declared, or one of the
untyped types; everything but literals, constants and operators has a declared
type and no value.
-/

namespace Rcgo.Checker

open Rcgo.Code

variable {environment : Environment}

/-! ## Types -/

section Types

variable {type base : DataType}

theorem underlyingType_of_isUntyped (isUntyped : type.isUntyped = true) :
    type.underlyingType = type := by
  cases type with
  | named name definition => cases isUntyped
  | _ => rfl

theorem isDeclared_underlyingType : type.isDeclared = true → type.underlyingType.isDeclared = true := by
  intro isDeclared
  induction type using DataType.underlyingType.induct with
  | case1 name definition inductionHypothesis => exact inductionHypothesis isDeclared
  | case2 type notNamed =>
      rw [DataType.underlyingType]
      · exact isDeclared
      · exact notNamed

/-- Of the declared types only that of `nil` is untyped. -/
theorem kind_of_isDeclared (isDeclared : type.isDeclared = true) (isUntyped : type.kind.isUntyped = true) :
    type.kind = .untypedNil := by
  cases type with
  | basic kind =>
      rw [DataType.isDeclared, Bool.or_eq_true, Bool.not_eq_true', beq_iff_eq] at isDeclared
      rcases isDeclared with notUntyped | isNil
      · exact absurd isUntyped (Bool.eq_false_iff.mp notUntyped)
      · exact isNil
  | callable kind signature =>
      rw [DataType.isDeclared, Bool.not_eq_true'] at isDeclared
      exact absurd isUntyped (Bool.eq_false_iff.mp isDeclared)
  | _ => cases isUntyped

theorem isUntyped_of_isUntypedNumeric {kind : Kind} (isNumeric : kind.isUntypedNumeric = true) :
    kind.isUntyped = true ∧ kind ≠ .untypedNil := by
  cases kind <;> first | exact ⟨rfl, by decide⟩ | cases isNumeric

theorem isUntypedNumeric_of_isDeclared (isDeclared : type.isDeclared = true) :
    type.underlyingKind.isUntypedNumeric = false := by
  by_contra isNumeric
  rw [Bool.not_eq_false] at isNumeric
  rcases isUntyped_of_isUntypedNumeric isNumeric with ⟨isUntyped, notNil⟩
  exact notNil (kind_of_isDeclared (isDeclared_underlyingType isDeclared) isUntyped)

theorem isUntyped_iff {type : DataType} :
    type.isUntyped = true ↔ type.kind.ctorIdx ≤ Kind.untypedString.ctorIdx :=
  decide_eq_true_iff

theorem isUntyped_choose (type other : DataType) :
    (choose type other).isUntyped = true ↔ type.isUntyped = true ∧ other.isUntyped = true := by
  rw [choose]
  split
  · rw [isUntyped_iff, isUntyped_iff]
    omega
  · rw [isUntyped_iff, isUntyped_iff]
    omega

end Types

/-! ## The checks -/

namespace Eval

/-- The type is declared, or the untyped one of a value. -/
def WellTyped (eval : Eval) : Prop :=
  eval.type.isDeclared = true ∨ (eval.type.isUntyped = true ∧ eval.expressionKind = .value)

/-- The type is declared, and there is no constant. -/
def Plain (eval : Eval) : Prop :=
  eval.type.isDeclared = true ∧ eval.value = none

variable {eval : Eval}

@[simp]
theorem type_fixString : eval.fixStringIndirectionMutability.type = eval.type := by
  rw [fixStringIndirectionMutability]
  split <;> rfl

@[simp]
theorem value_fixString : eval.fixStringIndirectionMutability.value = eval.value := by
  rw [fixStringIndirectionMutability]
  split <;> rfl

@[simp]
theorem expressionKind_fixString :
    eval.fixStringIndirectionMutability.expressionKind = eval.expressionKind := by
  rw [fixStringIndirectionMutability]
  split <;> rfl

theorem plain_fixString : eval.fixStringIndirectionMutability.Plain ↔ eval.Plain := by
  rw [Plain, Plain, type_fixString, value_fixString]

theorem Plain.wellTyped (plain : eval.Plain) : eval.WellTyped :=
  Or.inl plain.1

theorem WellTyped.isDeclared (wellTyped : eval.WellTyped) (notValue : eval.expressionKind ≠ .value) :
    eval.type.isDeclared = true :=
  wellTyped.resolve_right fun isValue => notValue isValue.2

theorem WellTyped.isDeclared_underlyingType (wellTyped : eval.WellTyped)
    (typed : eval.type.underlyingKind.isUntyped = false) :
    eval.type.underlyingType.isDeclared = true := by
  rcases wellTyped with isDeclared | ⟨isUntyped, _⟩
  · exact Checker.isDeclared_underlyingType isDeclared
  · rw [DataType.underlyingKind, underlyingType_of_isUntyped isUntyped] at typed
    exact absurd isUntyped (Bool.eq_false_iff.mp typed)

theorem WellTyped.isUntypedNumeric (wellTyped : eval.WellTyped)
    (isNumeric : eval.type.underlyingKind.isNumeric = true) :
    eval.type.underlyingKind.isUntypedNumeric = eval.type.isUntyped := by
  rcases wellTyped with isDeclared | ⟨isUntyped, _⟩
  · rw [isUntypedNumeric_of_isDeclared isDeclared]
    symm
    by_contra notTyped
    rw [Bool.not_eq_false] at notTyped
    have isNil := kind_of_isDeclared isDeclared notTyped
    rw [DataType.underlyingKind, underlyingType_of_isUntyped notTyped, isNil] at isNumeric
    cases isNumeric
  · rw [DataType.underlyingKind, underlyingType_of_isUntyped isUntyped] at isNumeric ⊢
    rw [isUntyped]
    rw [DataType.isUntyped] at isUntyped
    generalize eval.type.kind = kind at isNumeric isUntyped
    revert isNumeric isUntyped
    cases kind <;> decide

end Eval

section Checks

variable {eval base child type argument : Eval} {arguments : List (Option Eval)}

theorem plain_computed {type : DataType} (mutability : Mutability) (isDeclared : type.isDeclared = true) :
    (Eval.computed type mutability).Plain :=
  ⟨isDeclared, rfl⟩

theorem isDeclared_resolve {type : DataType} (isDeclared : type.isDeclared = true) :
    (environment.resolve type).isDeclared = true := by
  cases type with
  | declared name => exact (environment.declarations name).property
  | _ => exact isDeclared

theorem checkConversion_plain (wellTyped : type.WellTyped)
    (runs : environment.checkConversion type argument = some eval) : eval.Plain := by
  have isType : type.isType = true ∧
      ∃ mutability, eval = (Eval.computed type.type mutability).fixStringIndirectionMutability := by
    simp only [Environment.checkConversion, Option.bind_eq_bind, Option.bind_eq_some_iff,
      Option.guard_eq_some'] at runs
    rcases runs with ⟨_, isType, _, _, runs⟩
    split at runs
    · simp only [Option.bind_eq_some_iff, Option.some.injEq] at runs
      rcases runs with ⟨_, _, _, _, _, _, isEval⟩
      exact ⟨isType, _, isEval.symm⟩
    · simp only [Option.bind_eq_some_iff, Option.some.injEq] at runs
      rcases runs with ⟨_, _, _, _, isEval⟩
      exact ⟨isType, _, isEval.symm⟩
  rcases isType with ⟨isType, mutability, rfl⟩
  rw [Eval.plain_fixString]
  apply plain_computed
  apply wellTyped.isDeclared
  rw [Eval.isType, beq_iff_eq] at isType
  rw [isType]
  decide

theorem checkCall_plain {callee : Eval}
    (runs : environment.checkCall callee arguments = some (some eval)) : eval.Plain := by
  rw [Environment.checkCall] at runs
  split at runs
  case h_2 => cases runs
  case h_1 kind signature _ =>
    simp only [Option.bind_eq_bind, Option.bind_eq_some_iff] at runs
    rcases runs with ⟨_, _, _, _, _, _, _, _, isResult⟩
    rw [CallSignature.result] at isResult
    split at isResult
    · cases isResult
    · rename_i result _
      rw [Option.some.injEq, Option.some.injEq] at isResult
      rw [← isResult, Eval.plain_fixString]
      exact plain_computed _ result.type.property
    · cases isResult

theorem isDeclared_of_pointer {pointed : DataType} (wellTyped : argument.WellTyped)
    (isPointer : argument.type = .pointer pointed) : pointed.isDeclared = true := by
  rcases wellTyped with isDeclared | ⟨isUntyped, _⟩
  · rw [isPointer] at isDeclared
    exact isDeclared
  · rw [isPointer] at isUntyped
    cases isUntyped

theorem isDeclared_move {out : DataType} (wellTyped : argument.WellTyped)
    (isMoved : argument.type.move = some out) : out.isDeclared = true := by
  unfold DataType.move at isMoved
  split at isMoved
  · rename_i base isPointer
    rw [← Option.some.inj isMoved]
    have isDeclared := isDeclared_of_pointer wellTyped isPointer
    exact isDeclared
  · cases isMoved

theorem isDeclared_mergeChange {out : DataType} (wellTyped : argument.WellTyped)
    (isMerged : argument.type.mergeChange = some out) : out.isDeclared = true := by
  unfold DataType.mergeChange at isMerged
  split at isMerged
  · rename_i base isPointer
    rw [← Option.some.inj isMerged]
    have isDeclared := isDeclared_of_pointer wellTyped isPointer
    exact isDeclared
  · cases isMerged

theorem builtInFunction_plain {function : BuiltInFunction}
    (wellTyped : ∀ argument, some argument ∈ arguments → argument.WellTyped)
    (runs : function.check environment arguments = some (some eval)) : eval.Plain := by
  unfold BuiltInFunction.check at runs
  split at runs
  · simp only [Option.bind_eq_bind, Option.bind_eq_some_iff, Option.some.injEq,
      Option.guard_eq_some'] at runs
    rcases runs with ⟨_, isType, rfl⟩
    rw [Eval.isType, beq_iff_eq] at isType
    exact plain_computed _ ((wellTyped _ List.mem_cons_self).isDeclared (by rw [isType]; decide))
  · simp only [Option.bind_eq_bind, Option.bind_eq_some_iff, Option.some.injEq] at runs
    rcases runs with ⟨out, isMoved, _, _, rfl⟩
    exact plain_computed _ (isDeclared_move (wellTyped _ List.mem_cons_self) isMoved)
  · simp only [Option.bind_eq_bind, Option.bind_eq_some_iff, Option.some.injEq] at runs
    rcases runs with ⟨out, isMerged, _, _, rfl⟩
    exact plain_computed _ (isDeclared_mergeChange (wellTyped _ List.mem_cons_self) isMerged)
  · simp only [Option.bind_eq_bind, Option.bind_eq_some_iff, Option.some.injEq] at runs
    rcases runs with ⟨_, _, _, _, rfl⟩
    exact plain_computed _ rfl
  · simp only [Option.bind_eq_bind, Option.bind_eq_some_iff] at runs
    rcases runs with ⟨_, _, runs⟩
    split at runs
    case h_2 => cases runs
    case h_1 base isSlice =>
      simp only [Option.bind_eq_some_iff, Option.some.injEq] at runs
      rcases runs with ⟨_, _, rfl⟩
      have isDeclared := (wellTyped _ List.mem_cons_self).isDeclared_underlyingType (by
        rw [DataType.underlyingKind, isSlice]
        rfl)
      rw [isSlice] at isDeclared
      exact plain_computed _ isDeclared
  · rename_i argument
    have typed : argument.type.isUntyped = false → (Eval.computed argument.type .mutable).Plain :=
      fun typed => plain_computed _ ((wellTyped _ List.mem_cons_self).resolve_right fun isUntyped =>
        absurd isUntyped.1 (Bool.eq_false_iff.mp typed))
    simp only [Option.bind_eq_bind, Option.bind_eq_some_iff] at runs
    rcases runs with ⟨_, _, runs⟩
    split at runs
    case h_1 base isSlice =>
      simp only [Option.bind_eq_some_iff, Option.some.injEq] at runs
      rcases runs with ⟨_, _, rfl⟩
      apply typed
      by_contra isUntyped
      rw [Bool.not_eq_false] at isUntyped
      rw [underlyingType_of_isUntyped isUntyped] at isSlice
      rw [isSlice] at isUntyped
      cases isUntyped
    case h_2 =>
      simp only [Option.bind_eq_some_iff, Option.guard_eq_some', beq_iff_eq,
        Option.some.injEq] at runs
      rcases runs with ⟨_, isString, rfl⟩
      apply typed
      by_contra isUntyped
      rw [Bool.not_eq_false] at isUntyped
      rw [underlyingType_of_isUntyped isUntyped] at isString
      rw [DataType.isUntyped, isString] at isUntyped
      cases isUntyped
  · simp only [Option.bind_eq_bind, Option.bind_eq_some_iff, Option.some.injEq] at runs
    rcases runs with ⟨_, _, impossible⟩
    cases impossible
  · cases runs

theorem checkDereference_plain (wellTyped : child.WellTyped)
    (runs : environment.checkDereference child = some eval) : eval.Plain := by
  rw [Environment.checkDereference] at runs
  split at runs
  case h_2 => cases runs
  case h_1 base isPointer =>
    simp only [Option.bind_eq_bind, Option.bind_eq_some_iff, Option.some.injEq] at runs
    rcases runs with ⟨_, _, rfl⟩
    have isDeclared := wellTyped.isDeclared_underlyingType (by
      rw [DataType.underlyingKind, isPointer]
      rfl)
    rw [isPointer] at isDeclared
    exact Eval.plain_fixString.mpr ⟨isDeclared_resolve isDeclared, rfl⟩

theorem checkAddressOf_plain (wellTyped : child.WellTyped)
    (runs : checkAddressOf child = some eval) : eval.Plain := by
  simp only [checkAddressOf, Option.bind_eq_bind, Option.bind_eq_some_iff, Option.guard_eq_some',
    beq_iff_eq, Option.some.injEq] at runs
  rcases runs with ⟨_, isVariable, rfl⟩
  refine ⟨wellTyped.isDeclared ?_, rfl⟩
  rw [isVariable]
  decide

theorem checkSelect_plain {identifier : String}
    (runs : environment.checkSelect base identifier = some eval) : eval.Plain := by
  simp only [Environment.checkSelect, Option.bind_eq_bind, Option.bind_eq_some_iff] at runs
  rcases runs with ⟨_, _, type, _, runs⟩
  split at runs
  · rw [← Option.some.inj runs]
    exact Eval.plain_fixString.mpr ⟨type.property, rfl⟩
  · rw [← Option.some.inj runs]
    exact Eval.plain_fixString.mpr ⟨type.property, rfl⟩

theorem checkIndex_plain {index : Eval} (wellTyped : base.WellTyped)
    (runs : environment.checkIndex base index = some eval) : eval.Plain := by
  rw [Environment.checkIndex] at runs
  split at runs
  case h_3 => cases runs
  case h_1 dimension type isArray =>
    simp only [Option.bind_eq_bind, Option.bind_eq_some_iff, Option.some.injEq] at runs
    rcases runs with ⟨_, _, _, _, rfl⟩
    have isDeclared := wellTyped.isDeclared_underlyingType (by
      rw [DataType.underlyingKind, isArray]
      rfl)
    rw [isArray] at isDeclared
    exact Eval.plain_fixString.mpr ⟨isDeclared_resolve isDeclared, rfl⟩
  case h_2 type isSlice =>
    simp only [Option.bind_eq_bind, Option.bind_eq_some_iff, Option.some.injEq] at runs
    rcases runs with ⟨_, _, _, _, rfl⟩
    have isDeclared := wellTyped.isDeclared_underlyingType (by
      rw [DataType.underlyingKind, isSlice]
      rfl)
    rw [isSlice] at isDeclared
    exact Eval.plain_fixString.mpr ⟨isDeclared_resolve isDeclared, rfl⟩

theorem checkIndexSlice_plain {low high max : Option Eval} (wellTyped : base.WellTyped)
    (runs : environment.checkIndexSlice base low high max = some eval) : eval.Plain := by
  simp only [Environment.checkIndexSlice, Option.bind_eq_bind, Option.bind_eq_some_iff] at runs
  rcases runs with ⟨_, _, _, _, runs⟩
  split at runs
  case h_3 => cases runs
  case h_1 dimension type isArray =>
    simp only [Option.bind_eq_some_iff, Option.some.injEq] at runs
    rcases runs with ⟨_, _, rfl⟩
    have isDeclared := wellTyped.isDeclared_underlyingType (by
      rw [DataType.underlyingKind, isArray]
      rfl)
    rw [isArray] at isDeclared
    exact Eval.plain_fixString.mpr (plain_computed _ isDeclared)
  case h_2 type isSlice =>
    simp only [Option.bind_eq_some_iff, Option.some.injEq] at runs
    rcases runs with ⟨_, _, rfl⟩
    have isDeclared := wellTyped.isDeclared_underlyingType (by
      rw [DataType.underlyingKind, isSlice]
      rfl)
    rw [isSlice] at isDeclared
    exact Eval.plain_fixString.mpr (plain_computed _ isDeclared)

end Checks

end Rcgo.Checker
