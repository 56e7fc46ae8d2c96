import Rcgo.Checker.OperatorConstants

/-!
# Untyped expressions

An expression with one of the untyped types, other than that of `nil`, is meant
to be constant.  This is so unless something untyped is shifted by a count that
is not constant.
-/

namespace Rcgo.Checker

open Rcgo.Code

variable {environment : Environment}

/-! ## Trees -/

mutual

/-- The expression and all inside it have the property. -/
def Expression.All (p : Expression → Prop) : Expression → Prop
  | .literal literal => p (.literal literal)
  | .identifier name => p (.identifier name)
  | .typeExpression type => p (.typeExpression type)
  | .unaryArithmetic operator child => p (.unaryArithmetic operator child) ∧ child.All p
  | .binaryArithmetic operator left right =>
      p (.binaryArithmetic operator left right) ∧ left.All p ∧ right.All p
  | .call expression arguments =>
      p (.call expression arguments) ∧ expression.All p ∧ arguments.All p
  | .conversion type argument => p (.conversion type argument) ∧ type.All p ∧ argument.All p
  | .dereference child => p (.dereference child) ∧ child.All p
  | .addressOf child => p (.addressOf child) ∧ child.All p
  | .select base identifier => p (.select base identifier) ∧ base.All p
  | .index base index => p (.index base index) ∧ base.All p ∧ index.All p
  | .indexSlice base low high max =>
      p (.indexSlice base low high max) ∧ base.All p ∧ low.All p ∧ high.All p ∧ max.All p
  | .pushPortCall identifier arguments => p (.pushPortCall identifier arguments) ∧ arguments.All p
  | .indexedPushPortCall identifier index arguments =>
      p (.indexedPushPortCall identifier index arguments) ∧ index.All p ∧ arguments.All p
  | .compositeLiteral type value => p (.compositeLiteral type value) ∧ type.All p ∧ value.All p

def Arguments.All (p : Expression → Prop) : Arguments → Prop
  | .nil => True
  | .cons expression rest => expression.All p ∧ rest.All p

def Bound.All (p : Expression → Prop) : Bound → Prop
  | .absent => True
  | .present expression => expression.All p

end

/-- `ExpressionList` as a list. -/
def Arguments.toList : Arguments → List Expression
  | .nil => []
  | .cons expression rest => expression :: rest.toList

theorem Arguments.All.of_mem {p : Expression → Prop} :
    ∀ {arguments : Arguments}, arguments.All p → ∀ expression ∈ arguments.toList, expression.All p
  | .nil, _, expression, member => by cases member
  | .cons first rest, all, expression, member => by
      rcases List.mem_cons.mp member with isFirst | inRest
      · rw [isFirst]
        exact all.1
      · exact all.2.of_mem expression inRest

namespace PolymorphicFunction

/-- Whether the number that the function gives is untyped, when it is known of the operands. -/
def keepsUntyped : PolymorphicFunction → List Bool → Bool
  | unary _, [child] => child
  | binary operator, [left, right] =>
      if BinaryArithmetic.isShift operator then left else !operator.isBoolean && left && right
  | _, _ => false

/-- Whether the number that the function gives is constant, when it is known of the operands. -/
def keepsConstant : PolymorphicFunction → List Bool → Bool
  | unary _, [child] => child
  | binary _, [left, right] => left && right
  | _, _ => false

def isOperator : PolymorphicFunction → Bool
  | builtIn _ => false
  | unary _ | binary _ => true

end PolymorphicFunction

/-- The function that the node applies, with its operands. -/
def Expression.applied (environment : Environment) :
    Expression → Option (PolymorphicFunction × List Expression)
  | .unaryArithmetic operator child => some (.unary operator, [child])
  | .binaryArithmetic operator left right => some (.binary operator, [left, right])
  | .call expression arguments =>
      (expression.polymorphicFunction environment).map fun function => (function, arguments.toList)
  | _ => none

mutual

/-- The expression is made of untyped literals and constants, as far as its type
depends on them. -/
def Expression.isUntyped (environment : Environment) : Expression → Bool
  | .literal _ => true
  | .identifier name =>
      match environment.symbols name with
      | some (.constant symbol) => symbol.type.isUntyped
      | _ => false
  | .unaryArithmetic operator child =>
      PolymorphicFunction.keepsUntyped (.unary operator) [child.isUntyped environment]
  | .binaryArithmetic operator left right =>
      PolymorphicFunction.keepsUntyped (.binary operator)
        [left.isUntyped environment, right.isUntyped environment]
  | .call expression arguments =>
      match expression.polymorphicFunction environment with
      | some function => function.keepsUntyped (arguments.areUntyped environment)
      | none => false
  | _ => false

def Arguments.areUntyped (environment : Environment) : Arguments → List Bool
  | .nil => []
  | .cons expression rest => expression.isUntyped environment :: rest.areUntyped environment

end

mutual

/-- The number is computed from literals and constants. -/
def Expression.isConstant (environment : Environment) : Expression → Bool
  | .literal _ => true
  | .identifier name =>
      match environment.symbols name with
      | some (.constant _) => true
      | _ => false
  | .unaryArithmetic operator child =>
      PolymorphicFunction.keepsConstant (.unary operator) [child.isConstant environment]
  | .binaryArithmetic operator left right =>
      PolymorphicFunction.keepsConstant (.binary operator)
        [left.isConstant environment, right.isConstant environment]
  | .call expression arguments =>
      match expression.polymorphicFunction environment with
      | some function => function.keepsConstant (arguments.areConstant environment)
      | none => false
  | _ => false

def Arguments.areConstant (environment : Environment) : Arguments → List Bool
  | .nil => []
  | .cons expression rest => expression.isConstant environment :: rest.areConstant environment

end

theorem Arguments.areUntyped_eq (environment : Environment) :
    ∀ arguments : Arguments,
      arguments.areUntyped environment = arguments.toList.map (Expression.isUntyped environment)
  | .nil => rfl
  | .cons _ rest => congrArg _ (rest.areUntyped_eq environment)

theorem Arguments.areConstant_eq (environment : Environment) :
    ∀ arguments : Arguments,
      arguments.areConstant environment = arguments.toList.map (Expression.isConstant environment)
  | .nil => rfl
  | .cons _ rest => congrArg _ (rest.areConstant_eq environment)

namespace Expression

/-- The expression applies an operator, as such or by a call. -/
def isOperator (environment : Environment) (expression : Expression) : Bool :=
  (expression.applied environment).any fun applied => applied.1.isOperator

/-- The node shifts nothing untyped by a count that is not constant. -/
def ShiftsByConstant (environment : Environment) (expression : Expression) : Prop :=
  ∀ operator left right,
    expression.applied environment = some (.binary operator, [left, right]) →
      BinaryArithmetic.isShift operator = true → left.isUntyped environment = true →
        right.isConstant environment = true

section Applied

variable {expression : Expression} {function : PolymorphicFunction} {children : List Expression}
  {eval : Eval}

theorem isUntyped_of_applied (applied : expression.applied environment = some (function, children)) :
    expression.isUntyped environment =
      function.keepsUntyped (children.map (isUntyped environment)) := by
  cases expression with
  | unaryArithmetic operator child =>
      cases applied
      rfl
  | binaryArithmetic operator left right =>
      cases applied
      rfl
  | call callee arguments =>
      rcases Option.map_eq_some_iff.mp applied with ⟨_, isFunction, same⟩
      cases same
      simp only [isUntyped, isFunction, Arguments.areUntyped_eq]
  | _ => cases applied

theorem isConstant_of_applied (applied : expression.applied environment = some (function, children)) :
    expression.isConstant environment =
      function.keepsConstant (children.map (isConstant environment)) := by
  cases expression with
  | unaryArithmetic operator child =>
      cases applied
      rfl
  | binaryArithmetic operator left right =>
      cases applied
      rfl
  | call callee arguments =>
      rcases Option.map_eq_some_iff.mp applied with ⟨_, isFunction, same⟩
      cases same
      simp only [isConstant, isFunction, Arguments.areConstant_eq]
  | _ => cases applied

theorem isOperator_of_applied (applied : expression.applied environment = some (function, children)) :
    expression.isOperator environment = function.isOperator := by
  rw [isOperator, applied]
  rfl

end Applied

end Expression

/-- What the checker gives the expression carries a constant if it has to. -/
def Expression.CarriesValue (environment : Environment) (expression : Expression) : Prop :=
  ∀ eval, expression.check environment = some (some eval) → Carries eval.toExpressionValue

/-! ## Expressions -/

section Expressions

variable {expression child left right : Expression} {eval : Eval}

/-- The syntax of an expression tells of its number whether it is untyped and
whether it is constant. -/
structure Describes (environment : Environment) (expression : Expression) (eval : Eval) : Prop where
  typed : eval.WellTyped
  untyped : eval.type.underlyingKind.isNumeric = true →
    eval.type.isUntyped = expression.isUntyped environment
  constant : eval.type.underlyingKind.isNumeric = true →
    eval.value.isSome = expression.isConstant environment
  carries : expression.isOperator environment = false → Carries eval.toExpressionValue

theorem Eval.Plain.describes (plain : eval.Plain)
    (notUntyped : expression.isUntyped environment = false)
    (notConstant : expression.isConstant environment = false) :
    Describes environment expression eval where
  typed := plain.wellTyped
  untyped := fun isNumeric => by
    rw [notUntyped, ← plain.wellTyped.isUntypedNumeric isNumeric]
    exact isUntypedNumeric_of_isDeclared plain.1
  constant := fun _ => by
    rw [notConstant, plain.2]
    rfl
  carries := fun _ isUntyped notNil => absurd (kind_of_isDeclared plain.1 isUntyped) notNil

theorem describes_literal (literal : Literal) :
    Describes environment (.literal literal)
      ⟨⟨.value, .basic literal.kind, some literal.value⟩, .immutable, .immutable⟩ where
  typed := by
    refine Or.inr ⟨?_, rfl⟩
    cases literal <;> rfl
  untyped := fun _ => by cases literal <;> rfl
  constant := fun _ => rfl
  carries := fun _ _ _ => by
    refine ⟨literal.value, rfl, ?_⟩
    cases literal <;> rfl

theorem describes_identifier {name : String} {symbol : Declaration}
    (found : environment.symbols name = some symbol) (runs : symbol.check = some eval) :
    Describes environment (.identifier name) eval := by
  cases symbol with
  | constant symbol =>
      rw [← Option.some.inj runs]
      refine ⟨?_, ?_, ?_, ?_⟩
      · rw [Eval.WellTyped, Eval.type_fixString, Eval.expressionKind_fixString]
        exact symbol.isType.imp id fun isUntyped => ⟨isUntyped, rfl⟩
      · intro _
        rw [Eval.type_fixString, Expression.isUntyped, found]
      · intro _
        rw [Eval.value_fixString, Expression.isConstant, found]
        rfl
      · intro _ isUntyped _
        rw [Eval.type_fixString] at isUntyped ⊢
        exact ⟨symbol.value, Eval.value_fixString, kind_of_isUntyped isUntyped ▸ symbol.isValue⟩
  | hidden => cases runs
  | polymorphicFunction function =>
      rw [← Option.some.inj runs]
      apply Eval.Plain.describes ⟨rfl, rfl⟩
      · rw [Expression.isUntyped, found]
      · rw [Expression.isConstant, found]
  | functionBase type =>
      rw [← Option.some.inj runs]
      apply Eval.Plain.describes ⟨type.property, rfl⟩
      · rw [Expression.isUntyped, found]
      · rw [Expression.isConstant, found]
  | namedType type =>
      rw [← Option.some.inj runs]
      apply Eval.Plain.describes ⟨type.property, rfl⟩
      · rw [Expression.isUntyped, found]
      · rw [Expression.isConstant, found]
  | parameter type intrinsicMutability indirectionMutability =>
      rw [← Option.some.inj runs]
      apply Eval.Plain.describes (Eval.plain_fixString.mpr ⟨type.property, rfl⟩)
      · rw [Expression.isUntyped, found]
      · rw [Expression.isConstant, found]
  | localVariable type intrinsicMutability indirectionMutability =>
      rw [← Option.some.inj runs]
      apply Eval.Plain.describes (Eval.plain_fixString.mpr ⟨type.property, rfl⟩)
      · rw [Expression.isUntyped, found]
      · rw [Expression.isConstant, found]

theorem describes_unaryArithmetic {operator : UnaryOperator} {argument : Eval}
    {result : ExpressionValue} {leftover : Nat}
    (applies : expression.applied environment = some (.unary operator, [child]))
    (describes : Describes environment child argument)
    (applied : Applied environment operator leftover argument.toExpressionValue result) :
    Describes environment expression ⟨result, .immutable, .immutable⟩ where
  typed := by
    rw [Eval.WellTyped, applied.type]
    exact describes.typed.imp id fun isUntyped => ⟨isUntyped.1, applied.isValue⟩
  untyped := fun isNumeric => by
    rw [applied.type] at isNumeric ⊢
    exact (describes.untyped isNumeric).trans (Expression.isUntyped_of_applied applies).symm
  constant := fun isNumeric => by
    rw [applied.type] at isNumeric
    exact (applied.isSome.trans (describes.constant isNumeric)).trans
      (Expression.isConstant_of_applied applies).symm
  carries := fun notOperator => by
    rw [Expression.isOperator_of_applied applies] at notOperator
    cases notOperator

theorem wellTyped_choose {leftEval rightEval : Eval} (leftTyped : leftEval.WellTyped)
    (rightTyped : rightEval.WellTyped) :
    (choose leftEval.type rightEval.type).isDeclared = true ∨
      (choose leftEval.type rightEval.type).isUntyped = true := by
  rcases choose_eq leftEval.type rightEval.type with isLeft | isRight
  · rw [isLeft]
    exact leftTyped.imp id And.left
  · rw [isRight]
    exact rightTyped.imp id And.left

theorem describes_arithmetic {operator : BinaryArithmetic} {leftEval rightEval : Eval}
    {checked : CheckedOperator}
    (applied : expression.applied environment = some (.binary operator, [left, right]))
    (leftDescribes : Describes environment left leftEval)
    (rightDescribes : Describes environment right rightEval)
    (notShift : BinaryArithmetic.isShift operator = false)
    (runs : operator.checkArithmetic environment.floating leftEval.toExpressionValue
      rightEval.toExpressionValue = some checked) :
    Describes environment expression ⟨checked.result, .immutable, .immutable⟩ := by
  have concluded := checkArithmetic_spec runs
  have isType := concluded.resultType
  have isOperator : expression.isOperator environment = true :=
    Expression.isOperator_of_applied applied
  have isUntyped := Expression.isUntyped_of_applied applied
  have isConstant := Expression.isConstant_of_applied applied
  simp only [List.map_cons, List.map_nil, PolymorphicFunction.keepsUntyped, notShift,
    Bool.false_eq_true, if_false] at isUntyped
  simp only [List.map_cons, List.map_nil, PolymorphicFunction.keepsConstant] at isConstant
  have carries : expression.isOperator environment = false → Carries checked.result := by
    rw [isOperator]
    exact fun notOperator => by cases notOperator
  cases isBoolean : operator.isBoolean with
  | true =>
      rw [BinaryArithmetic.pickResult, isBoolean, if_pos rfl] at isType
      have notNumeric : checked.result.type.underlyingKind.isNumeric = false := by
        rw [isType, pickBoolean]
        split <;> rfl
      have absurdly : ∀ {p : Prop}, checked.result.type.underlyingKind.isNumeric = true → p :=
        fun isNumeric => absurd isNumeric (Bool.eq_false_iff.mp notNumeric)
      refine ⟨?_, absurdly, absurdly, carries⟩
      rw [Eval.WellTyped, isType, pickBoolean]
      split
      · exact Or.inr ⟨rfl, isValue_of_checkArithmetic runs⟩
      · exact Or.inl rfl
  | false =>
      rw [BinaryArithmetic.pickResult, isBoolean, if_neg Bool.false_ne_true] at isType
      have isNumeric := isNumeric_of_accepts isBoolean concluded.accepted
      rcases isNumeric_operands runs isNumeric with ⟨leftNumeric, rightNumeric⟩
      have notLogical : operator.isLogical = false := by
        cases operator with
        | logicOr | logicAnd => cases isBoolean
        | _ => rfl
      refine ⟨?_, ?_, ?_, carries⟩
      · rw [Eval.WellTyped, isType]
        exact (wellTyped_choose leftDescribes.typed rightDescribes.typed).imp id fun isUntyped =>
          ⟨isUntyped, isValue_of_checkArithmetic runs⟩
      · intro _
        rw [isType, isUntyped, isBoolean, ← leftDescribes.untyped leftNumeric,
          ← rightDescribes.untyped rightNumeric, Bool.eq_iff_iff, isUntyped_choose]
        simp
      · intro _
        have isNone := concluded.result_eq_none_iff notLogical
        rw [isConstant, ← leftDescribes.constant leftNumeric,
          ← rightDescribes.constant rightNumeric, Bool.eq_iff_iff, Bool.and_eq_true,
          ← not_iff_not, Option.not_isSome_iff_eq_none, isNone, not_and_or,
          Option.not_isSome_iff_eq_none, Option.not_isSome_iff_eq_none]

theorem isNumeric_of_isIntegral {kind : Kind} (integral : kind.isIntegral = true) :
    kind.isNumeric = true := by
  revert integral
  cases kind <;> decide

theorem isNumeric_of_isCount {kind : Kind}
    (isCount : (kind.isTypedUnsignedInteger || kind.isUntypedNumeric) = true) :
    kind.isNumeric = true := by
  revert isCount
  cases kind <;> decide

theorem describes_shift {operator : BinaryArithmetic} {shiftOperator : ShiftOperator}
    {leftEval rightEval : Eval} {checked : CheckedOperator}
    (applied : expression.applied environment = some (.binary operator, [left, right]))
    (leftDescribes : Describes environment left leftEval)
    (rightDescribes : Describes environment right rightEval)
    (isShift : BinaryArithmetic.isShift operator = true)
    (runs : checkShift environment.floating shiftOperator leftEval.toExpressionValue
      rightEval.toExpressionValue = some checked) :
    Describes environment expression ⟨checked.result, .immutable, .immutable⟩ := by
  have shifted := checkShift_spec runs
  have leftNumeric := isNumeric_of_isIntegral shifted.integral
  have rightNumeric := isNumeric_of_isCount shifted.countKind
  have isUntyped := Expression.isUntyped_of_applied applied
  have isConstant := Expression.isConstant_of_applied applied
  simp only [List.map_cons, List.map_nil, PolymorphicFunction.keepsUntyped, isShift,
    if_true] at isUntyped
  simp only [List.map_cons, List.map_nil, PolymorphicFunction.keepsConstant] at isConstant
  refine ⟨?_, ?_, ?_, fun notOperator => ?_⟩
  · rw [Eval.WellTyped, shifted.resultType]
    exact leftDescribes.typed.imp id fun isUntyped => ⟨isUntyped.1, isValue_of_checkShift runs⟩
  · intro _
    rw [shifted.resultType, isUntyped]
    exact leftDescribes.untyped leftNumeric
  · intro _
    rw [isConstant, ← leftDescribes.constant leftNumeric,
      ← rightDescribes.constant rightNumeric, Bool.eq_iff_iff, Bool.and_eq_true,
      ← not_iff_not, Option.not_isSome_iff_eq_none, shifted.result_eq_none_iff, not_and_or,
      Option.not_isSome_iff_eq_none, Option.not_isSome_iff_eq_none]
  · rw [Expression.isOperator_of_applied applied] at notOperator
    cases notOperator

theorem isValue_of_builtIn {function : BuiltInFunction} {evals : List (Option Eval)}
    (runs : function.check environment evals = some (some eval)) : eval.expressionKind = .value := by
  unfold BuiltInFunction.check at runs
  split at runs
  all_goals try simp only [Option.bind_eq_bind, Option.bind_eq_some_iff, Option.some.injEq] at runs
  · rcases runs with ⟨_, _, rfl⟩
    rfl
  · rcases runs with ⟨_, _, _, _, rfl⟩
    rfl
  · rcases runs with ⟨_, _, _, _, rfl⟩
    rfl
  · rcases runs with ⟨_, _, _, _, rfl⟩
    rfl
  · rcases runs with ⟨_, _, runs⟩
    split at runs
    · simp only [Option.bind_eq_some_iff, Option.some.injEq] at runs
      rcases runs with ⟨_, _, rfl⟩
      rfl
    · cases runs
  · rcases runs with ⟨_, _, runs⟩
    split at runs
    · simp only [Option.bind_eq_some_iff, Option.some.injEq] at runs
      rcases runs with ⟨_, _, rfl⟩
      rfl
    · simp only [Option.bind_eq_some_iff, Option.some.injEq] at runs
      rcases runs with ⟨_, _, rfl⟩
      rfl
  · rcases runs with ⟨_, _, impossible⟩
    cases impossible
  · cases runs

theorem oneArgument_eq_some {evals : List (Option Eval)} {argument : Eval}
    (isOne : oneArgument evals = some argument) : evals = [some argument] := by
  unfold oneArgument at isOne
  split at isOne
  · rw [isOne]
  · cases isOne

theorem twoArguments_eq_some {evals : List (Option Eval)} {leftEval rightEval : Eval}
    (areTwo : twoArguments evals = some (leftEval, rightEval)) :
    evals = [some leftEval, some rightEval] := by
  unfold twoArguments at areTwo
  split at areTwo
  · simp only [Option.bind_eq_bind, Option.bind_eq_some_iff, Option.some.injEq,
      Prod.mk.injEq] at areTwo
    rcases areTwo with ⟨_, rfl, _, rfl, rfl, rfl⟩
    rfl
  · cases areTwo

theorem check_unary {operator : UnaryOperator} {leftover : Nat} {evals : List (Option Eval)}
    {result : Option Eval}
    (runs : PolymorphicFunction.check environment leftover evals (.unary operator) = some result) :
    ∃ argument applied, evals = [some argument] ∧
      operator.check environment leftover argument.toExpressionValue = some applied ∧
      result = some ⟨applied, .immutable, .immutable⟩ := by
  simp only [PolymorphicFunction.check, Option.bind_eq_bind, Option.bind_eq_some_iff,
    Option.some.injEq] at runs
  rcases runs with ⟨argument, isOne, applied, isChecked, isResult⟩
  exact ⟨argument, applied, oneArgument_eq_some isOne, isChecked, isResult.symm⟩

theorem check_binary {operator : BinaryArithmetic} {leftover : Nat} {evals : List (Option Eval)}
    {result : Option Eval}
    (runs : PolymorphicFunction.check environment leftover evals (.binary operator) = some result) :
    ∃ leftEval rightEval checked, evals = [some leftEval, some rightEval] ∧
      operator.check environment.floating leftEval.toExpressionValue
        rightEval.toExpressionValue = some checked ∧
      result = some ⟨checked.result, .immutable, .immutable⟩ := by
  simp only [PolymorphicFunction.check, Option.bind_eq_bind, Option.bind_eq_some_iff,
    Option.some.injEq] at runs
  rcases runs with ⟨⟨left, right⟩, areTwo, checked, isChecked, isResult⟩
  exact ⟨left, right, checked, twoArguments_eq_some areTwo, isChecked, isResult.symm⟩

theorem isValue_of_function {function : PolymorphicFunction} {leftover : Nat}
    {evals : List (Option Eval)}
    (runs : PolymorphicFunction.check environment leftover evals function = some (some eval)) :
    eval.expressionKind = .value := by
  cases function with
  | builtIn function => exact isValue_of_builtIn runs
  | unary operator =>
      rcases check_unary runs with ⟨_, _, _, isChecked, isResult⟩
      rw [Option.some.inj isResult]
      exact (UnaryOperator.check_spec isChecked).isValue
  | binary operator =>
      rcases check_binary runs with ⟨_, _, checked, _, isChecked, isResult⟩
      rw [Option.some.inj isResult]
      rcases check_cases isChecked with ⟨_, _, isShifted⟩ | ⟨_, isConcluded⟩
      · exact isValue_of_checkShift isShifted
      · exact isValue_of_checkArithmetic isConcluded

theorem check_call_eq {arguments : Arguments} {function : PolymorphicFunction} {result : Option Eval}
    (isFunction : expression.polymorphicFunction environment = some function)
    (notType : ∀ callee, expression.check environment = some (some callee) → callee.isType = false)
    (runs : (Expression.call expression arguments).check environment = some result) :
    ∃ evals, arguments.check environment = some evals ∧
      PolymorphicFunction.check environment (environment.leftover (.call expression arguments)) evals
        function = some result := by
  simp only [Expression.check, Option.bind_eq_bind, Option.bind_eq_some_iff] at runs
  rcases runs with ⟨callee, calleeRuns, evals, argumentsRun, runs⟩
  have isNone : callee.filter Eval.isType = none := by
    cases callee with
    | none => rfl
    | some callee =>
        rw [Option.filter_eq_none_iff]
        intro other isOther
        rw [← Option.some.inj isOther, notType callee calleeRuns]
        exact Bool.false_ne_true
  rw [isNone] at runs
  simp only [isFunction] at runs
  exact ⟨evals, argumentsRun, runs⟩

theorem Expression.notType_of_polymorphicFunction {function : PolymorphicFunction} :
    ∀ {expression : Expression} {eval : Eval},
      expression.polymorphicFunction environment = some function →
        expression.check environment = some (some eval) → eval.isType = false
  | .identifier name, eval, isFunction, runs => by
      simp only [Expression.check, Option.bind_eq_bind, Option.bind_eq_some_iff,
        Option.some.injEq] at runs
      rcases runs with ⟨symbol, found, other, isChecked, rfl⟩
      simp only [polymorphicFunction, found] at isFunction
      split at isFunction
      · rename_i isSymbol
        rw [Option.some.inj isSymbol] at isChecked
        rw [← Option.some.inj isChecked]
        rfl
      · cases isFunction
  | .unaryArithmetic operator child, eval, _, runs => by
      simp only [Expression.check, Option.bind_eq_bind, Option.bind_eq_some_iff] at runs
      rcases runs with ⟨_, _, runs⟩
      rw [Eval.isType, isValue_of_function runs]
      rfl
  | .binaryArithmetic operator left right, eval, _, runs => by
      simp only [Expression.check, Option.bind_eq_bind, Option.bind_eq_some_iff] at runs
      rcases runs with ⟨_, _, _, _, runs⟩
      rw [Eval.isType, isValue_of_function runs]
      rfl
  | .call callee arguments, eval, isFunction, runs => by
      have ofCallee : callee.polymorphicFunction environment = some function := isFunction
      rcases check_call_eq ofCallee
        (fun _ calleeRuns => notType_of_polymorphicFunction ofCallee calleeRuns) runs with
        ⟨_, _, runs⟩
      rw [Eval.isType, isValue_of_function runs]
      rfl

theorem Arguments.check_toList :
    ∀ {arguments : Arguments} {evals : List (Option Eval)},
      arguments.check environment = some evals →
        List.Forall₂ (fun child eval => child.check environment = some eval) arguments.toList evals
  | .nil, evals, runs => by
      rw [Arguments.check, Option.some.injEq] at runs
      rw [← runs]
      exact .nil
  | .cons expression rest, evals, runs => by
      simp only [Arguments.check, Option.bind_eq_bind, Option.bind_eq_some_iff,
        Option.some.injEq] at runs
      rcases runs with ⟨first, firstRuns, others, restRuns, rfl⟩
      exact .cons firstRuns (rest.check_toList restRuns)

theorem exists_of_forall₂ {α β : Type} {related : α → β → Prop} {b : β} :
    ∀ {first : List α} {second : List β}, List.Forall₂ related first second → b ∈ second →
      ∃ a, related a b
  | _, _, .cons here rest, member => by
      rcases List.mem_cons.mp member with isFirst | inRest
      · rw [isFirst]
        exact ⟨_, here⟩
      · exact exists_of_forall₂ rest inRest

theorem Expression.check_of_applied {function : PolymorphicFunction} {children : List Expression}
    {result : Option Eval}
    (applied : expression.applied environment = some (function, children))
    (runs : expression.check environment = some result) :
    ∃ evals,
      List.Forall₂ (fun child eval => child.check environment = some eval) children evals ∧
      PolymorphicFunction.check environment (environment.leftover expression) evals function =
        some result := by
  cases expression with
  | unaryArithmetic operator child =>
      cases applied
      simp only [Expression.check, Option.bind_eq_bind, Option.bind_eq_some_iff] at runs
      rcases runs with ⟨argument, childRuns, runs⟩
      exact ⟨_, .cons childRuns .nil, runs⟩
  | binaryArithmetic operator left right =>
      cases applied
      simp only [Expression.check, Option.bind_eq_bind, Option.bind_eq_some_iff] at runs
      rcases runs with ⟨leftEval, leftRuns, rightEval, rightRuns, runs⟩
      exact ⟨_, .cons leftRuns (.cons rightRuns .nil), runs⟩
  | call callee arguments =>
      rcases Option.map_eq_some_iff.mp applied with ⟨_, isFunction, same⟩
      cases same
      rcases check_call_eq isFunction
        (fun _ calleeRuns => notType_of_polymorphicFunction isFunction calleeRuns) runs with
        ⟨evals, argumentsRun, runs⟩
      exact ⟨evals, arguments.check_toList argumentsRun, runs⟩
  | _ => cases applied

theorem describes_function {function : PolymorphicFunction} {children : List Expression}
    {leftover : Nat} {evals : List (Option Eval)}
    (applied : expression.applied environment = some (function, children))
    (describe : List.Forall₂
      (fun child eval => ∀ described, eval = some described → Describes environment child described)
      children evals)
    (runs : PolymorphicFunction.check environment leftover evals function = some (some eval)) :
    Describes environment expression eval := by
  cases function with
  | builtIn function =>
      apply (builtInFunction_plain ?_ runs).describes
      · exact (Expression.isUntyped_of_applied applied).trans rfl
      · exact (Expression.isConstant_of_applied applied).trans rfl
      · intro argument member
        rcases exists_of_forall₂ describe member with ⟨child, describes⟩
        exact (describes argument rfl).typed
  | unary operator =>
      rcases check_unary runs with ⟨_, _, rfl, isChecked, isResult⟩
      rw [Option.some.inj isResult]
      cases describe with
      | cons describes rest =>
          cases rest
          exact describes_unaryArithmetic applied (describes _ rfl)
            (UnaryOperator.check_spec isChecked)
  | binary operator =>
      rcases check_binary runs with ⟨_, _, checked, rfl, isChecked, isResult⟩
      rw [Option.some.inj isResult]
      cases describe with
      | cons leftDescribes rest =>
          cases rest with
          | cons rightDescribes rest =>
              cases rest
              rcases check_cases isChecked with
                ⟨isShift, _, isShifted⟩ | ⟨notShift, isConcluded⟩
              · exact describes_shift applied (leftDescribes _ rfl) (rightDescribes _ rfl) isShift
                  isShifted
              · exact describes_arithmetic applied (leftDescribes _ rfl) (rightDescribes _ rfl)
                  notShift isConcluded

mutual

theorem Expression.check_describes :
    ∀ (expression : Expression) {eval : Eval},
      expression.check environment = some (some eval) → Describes environment expression eval
  | .literal literal, eval, runs => by
      rw [Expression.check, Option.some.injEq, Option.some.injEq] at runs
      rw [← runs]
      exact describes_literal literal
  | .identifier name, eval, runs => by
      simp only [Expression.check, Option.bind_eq_bind, Option.bind_eq_some_iff,
        Option.some.injEq] at runs
      rcases runs with ⟨symbol, found, other, isChecked, rfl⟩
      exact describes_identifier found isChecked
  | .typeExpression type, eval, runs => by
      rw [Expression.check, Option.some.injEq, Option.some.injEq] at runs
      rw [← runs]
      exact Eval.Plain.describes ⟨type.property, rfl⟩ rfl rfl
  | .unaryArithmetic operator child, eval, runs => by
      simp only [Expression.check, Option.bind_eq_bind, Option.bind_eq_some_iff] at runs
      rcases runs with ⟨argument, childRuns, runs⟩
      refine describes_function rfl (.cons ?_ .nil) runs
      intro described isDescribed
      exact child.check_describes (isDescribed ▸ childRuns)
  | .binaryArithmetic operator left right, eval, runs => by
      simp only [Expression.check, Option.bind_eq_bind, Option.bind_eq_some_iff] at runs
      rcases runs with ⟨leftEval, leftRuns, rightEval, rightRuns, runs⟩
      refine describes_function rfl (.cons ?_ (.cons ?_ .nil)) runs
      · intro described isDescribed
        exact left.check_describes (isDescribed ▸ leftRuns)
      · intro described isDescribed
        exact right.check_describes (isDescribed ▸ rightRuns)
  | .call expression arguments, eval, runs => by
      cases isFunction : expression.polymorphicFunction environment with
      | some function =>
          rcases check_call_eq isFunction
            (fun _ calleeRuns =>
              Expression.notType_of_polymorphicFunction isFunction calleeRuns) runs with
            ⟨evals, argumentsRun, runs⟩
          refine describes_function ?_ (arguments.check_describes argumentsRun) runs
          rw [Expression.applied, isFunction]
          rfl
      | none =>
          simp only [Expression.check, Option.bind_eq_bind, Option.bind_eq_some_iff] at runs
          rcases runs with ⟨callee, calleeRuns, evals, _, runs⟩
          apply Eval.Plain.describes
          · cases isType : callee.filter Eval.isType with
            | none =>
                simp only [isType, isFunction, Option.bind_eq_some_iff] at runs
                rcases runs with ⟨_, _, runs⟩
                exact checkCall_plain runs
            | some type =>
                rw [(Option.filter_eq_some_iff.mp isType).1] at calleeRuns
                have typed := (expression.check_describes calleeRuns).typed
                rw [isType] at runs
                split at runs
                · rename_i isSome _
                  rw [Option.some.inj isSome] at typed
                  simp only [Option.bind_eq_some_iff, Option.some.injEq] at runs
                  rcases runs with ⟨_, isConverted, rfl⟩
                  exact checkConversion_plain typed isConverted
                · cases runs
                · rename_i isSome _
                  cases isSome
          · rw [Expression.isUntyped, isFunction]
          · rw [Expression.isConstant, isFunction]
  | .conversion type argument, eval, runs => by
      simp only [Expression.check, Option.bind_eq_bind, Option.bind_eq_some_iff,
        Option.some.injEq] at runs
      rcases runs with ⟨_, typeRuns, _, _, typeEval, rfl, _, _, _, isConverted, rfl⟩
      exact (checkConversion_plain (type.check_describes typeRuns).typed isConverted).describes rfl rfl
  | .dereference child, eval, runs => by
      simp only [Expression.check, Option.bind_eq_bind, Option.bind_eq_some_iff,
        Option.some.injEq] at runs
      rcases runs with ⟨_, childRuns, childEval, rfl, _, isChecked, rfl⟩
      exact (checkDereference_plain (child.check_describes childRuns).typed isChecked).describes
        rfl rfl
  | .addressOf child, eval, runs => by
      simp only [Expression.check, Option.bind_eq_bind, Option.bind_eq_some_iff,
        Option.some.injEq] at runs
      rcases runs with ⟨_, childRuns, childEval, rfl, _, isChecked, rfl⟩
      exact (checkAddressOf_plain (child.check_describes childRuns).typed isChecked).describes rfl rfl
  | .select base identifier, eval, runs => by
      simp only [Expression.check, Option.bind_eq_bind, Option.bind_eq_some_iff,
        Option.some.injEq] at runs
      rcases runs with ⟨_, _, _, _, _, isChecked, rfl⟩
      exact (checkSelect_plain isChecked).describes rfl rfl
  | .index base index, eval, runs => by
      simp only [Expression.check, Option.bind_eq_bind, Option.bind_eq_some_iff,
        Option.some.injEq] at runs
      rcases runs with ⟨_, baseRuns, _, _, baseEval, rfl, _, _, _, isChecked, rfl⟩
      exact (checkIndex_plain (base.check_describes baseRuns).typed isChecked).describes rfl rfl
  | .indexSlice base low high max, eval, runs => by
      simp only [Expression.check, Option.bind_eq_bind, Option.bind_eq_some_iff,
        Option.some.injEq] at runs
      rcases runs with ⟨_, baseRuns, baseEval, rfl, _, _, _, _, _, _, _, isChecked, rfl⟩
      exact (checkIndexSlice_plain (base.check_describes baseRuns).typed isChecked).describes rfl rfl
  | .pushPortCall identifier arguments, eval, runs => by
      simp only [Expression.check, Option.bind_eq_bind, Option.bind_eq_some_iff] at runs
      rcases runs with ⟨_, _, _, _, impossible⟩
      cases impossible
  | .indexedPushPortCall identifier index arguments, eval, runs => by
      simp only [Expression.check, Option.bind_eq_bind, Option.bind_eq_some_iff] at runs
      rcases runs with ⟨_, _, _, _, _, _, _, _, impossible⟩
      cases impossible
  | .compositeLiteral type value, eval, runs => by
      cases runs

theorem Arguments.check_describes :
    ∀ (arguments : Arguments) {evals : List (Option Eval)},
      arguments.check environment = some evals →
        List.Forall₂
          (fun child eval =>
            ∀ described, eval = some described → Describes environment child described)
          arguments.toList evals
  | .nil, evals, runs => by
      rw [Arguments.check, Option.some.injEq] at runs
      rw [← runs]
      exact .nil
  | .cons expression rest, evals, runs => by
      simp only [Arguments.check, Option.bind_eq_bind, Option.bind_eq_some_iff,
        Option.some.injEq] at runs
      rcases runs with ⟨first, firstRuns, others, restRuns, rfl⟩
      refine .cons ?_ (rest.check_describes restRuns)
      intro described isDescribed
      exact expression.check_describes (isDescribed ▸ firstRuns)

end

theorem carriesValue_of_notOperator (notOperator : expression.isOperator environment = false) :
    expression.CarriesValue environment :=
  fun _ runs => (expression.check_describes runs).carries notOperator

theorem carriesValue_binary_iff {operator : BinaryArithmetic} {result : Option Eval}
    {children : List Expression}
    (applied : expression.applied environment = some (.binary operator, children))
    (runs : expression.check environment = some result)
    (carry : ∀ operand ∈ children, operand.CarriesValue environment) :
    expression.CarriesValue environment ↔ expression.ShiftsByConstant environment := by
  rcases Expression.check_of_applied applied runs with ⟨evals, operands, isChecked⟩
  rcases check_binary isChecked with ⟨leftEval, rightEval, checked, rfl, isChecked, isResult⟩
  rcases operands with _ | ⟨leftRuns, _ | ⟨rightRuns, ⟨⟩⟩⟩
  rename_i left right
  have leftCarries := carry left List.mem_cons_self leftEval leftRuns
  have rightCarries :=
    carry right (List.mem_cons_of_mem _ List.mem_cons_self) rightEval rightRuns
  have carries : expression.CarriesValue environment ↔ Carries checked.result := by
    rw [Expression.CarriesValue, runs, isResult]
    constructor
    · exact fun all => all _ rfl
    · intro carries eval isEval
      rw [← Option.some.inj (Option.some.inj isEval)]
      exact carries
  have shifts : expression.ShiftsByConstant environment ↔
      (BinaryArithmetic.isShift operator = true → left.isUntyped environment = true →
        right.isConstant environment = true) := by
    constructor
    · exact fun shifts => shifts operator left right applied
    · intro holds other otherLeft otherRight isOther
      rw [applied] at isOther
      cases isOther
      exact holds
  rw [carries, shifts]
  rcases check_cases isChecked with ⟨isShift, shiftOperator, isShifted⟩ | ⟨notShift, isConcluded⟩
  · have shifted := checkShift_spec isShifted
    rw [carries_checkShift_iff isShifted leftCarries,
      (left.check_describes leftRuns).untyped (isNumeric_of_isIntegral shifted.integral),
      (right.check_describes rightRuns).constant (isNumeric_of_isCount shifted.countKind)]
    exact ⟨fun holds _ => holds, fun holds => holds isShift⟩
  · refine iff_of_true ?_ fun isShift => absurd isShift (Bool.eq_false_iff.mp notShift)
    exact carries_of_checkArithmetic isConcluded leftCarries rightCarries

theorem carriesValue_unary {operator : UnaryOperator} {children : List Expression}
    (applied : expression.applied environment = some (.unary operator, children))
    (carry : ∀ operand ∈ children, operand.CarriesValue environment) :
    expression.CarriesValue environment := by
  intro eval runs
  rcases Expression.check_of_applied applied runs with ⟨evals, operands, isChecked⟩
  rcases check_unary isChecked with ⟨argument, result, rfl, isChecked, isResult⟩
  rcases operands with _ | ⟨childRuns, ⟨⟩⟩
  rw [Option.some.inj isResult]
  exact carries_of_applied (UnaryOperator.check_spec isChecked)
    (carry _ List.mem_cons_self argument childRuns)

theorem shiftsByConstant_of_ne
    (notBinary : ∀ operator children,
      expression.applied environment ≠ some (.binary operator, children)) :
    expression.ShiftsByConstant environment :=
  fun operator left right applied => absurd applied (notBinary operator [left, right])

theorem carriesValue_iff_shiftsByConstant (accepted : (expression.check environment).isSome = true)
    (operands : ∀ function children, expression.applied environment = some (function, children) →
      ∀ operand ∈ children, operand.CarriesValue environment) :
    expression.CarriesValue environment ↔ expression.ShiftsByConstant environment := by
  rcases Option.isSome_iff_exists.mp accepted with ⟨result, runs⟩
  cases isApplied : expression.applied environment with
  | none =>
      refine iff_of_true (carriesValue_of_notOperator ?_) (shiftsByConstant_of_ne ?_)
      · rw [Expression.isOperator, isApplied]
        rfl
      · intro operator children
        rw [isApplied]
        exact (Option.some_ne_none _).symm
  | some applied =>
      rcases applied with ⟨function, children⟩
      have carry := operands function children isApplied
      cases function with
      | builtIn function =>
          refine iff_of_true (carriesValue_of_notOperator ?_) (shiftsByConstant_of_ne ?_)
          · rw [Expression.isOperator_of_applied isApplied]
            rfl
          · intro operator other same
            rw [isApplied] at same
            cases same
      | unary operator =>
          refine iff_of_true (carriesValue_unary isApplied carry) (shiftsByConstant_of_ne ?_)
          intro operator other same
          rw [isApplied] at same
          cases same
      | binary operator => exact carriesValue_binary_iff isApplied runs carry

theorem Expression.All.self {p : Expression → Prop} (all : expression.All p) : p expression := by
  cases expression with
  | literal | identifier | typeExpression => exact all
  | _ => exact all.1

theorem all_iff_of_notApplied {inside inside' : Prop}
    (notApplied : expression.applied environment = none) (same : inside ↔ inside') :
    expression.CarriesValue environment ∧ inside ↔
      expression.ShiftsByConstant environment ∧ inside' := by
  refine and_congr (iff_of_true (carriesValue_of_notOperator ?_) (shiftsByConstant_of_ne ?_)) same
  · rw [Expression.isOperator, notApplied]
    rfl
  · intro operator children
    rw [notApplied]
    exact (Option.some_ne_none _).symm

mutual

theorem Expression.all_carriesValue_iff :
    ∀ expression : Expression, (expression.check environment).isSome = true →
      (expression.All (Expression.CarriesValue environment) ↔
        expression.All (Expression.ShiftsByConstant environment))
  | .literal literal, accepted =>
      carriesValue_iff_shiftsByConstant accepted fun _ _ applied => by cases applied
  | .identifier name, accepted =>
      carriesValue_iff_shiftsByConstant accepted fun _ _ applied => by cases applied
  | .typeExpression type, accepted =>
      carriesValue_iff_shiftsByConstant accepted fun _ _ applied => by cases applied
  | .unaryArithmetic operator child, accepted => by
      have childAccepted : (child.check environment).isSome = true := by
        rcases Option.isSome_iff_exists.mp accepted with ⟨_, runs⟩
        simp only [Expression.check, Option.bind_eq_bind, Option.bind_eq_some_iff] at runs
        rcases runs with ⟨_, childRuns, _⟩
        exact Option.isSome_iff_exists.mpr ⟨_, childRuns⟩
      refine (and_congr_left fun all => ?_).trans
        (and_congr_right' (child.all_carriesValue_iff childAccepted))
      apply carriesValue_iff_shiftsByConstant accepted
      intro _ _ applied operand member
      cases applied
      rw [List.mem_singleton.mp member]
      exact all.self
  | .binaryArithmetic operator left right, accepted => by
      have childrenAccepted : (left.check environment).isSome = true ∧
          (right.check environment).isSome = true := by
        rcases Option.isSome_iff_exists.mp accepted with ⟨_, runs⟩
        simp only [Expression.check, Option.bind_eq_bind, Option.bind_eq_some_iff] at runs
        rcases runs with ⟨_, leftRuns, _, rightRuns, _⟩
        exact ⟨Option.isSome_iff_exists.mpr ⟨_, leftRuns⟩, Option.isSome_iff_exists.mpr ⟨_, rightRuns⟩⟩
      refine (and_congr_left fun all => ?_).trans (and_congr_right' (and_congr
        (left.all_carriesValue_iff childrenAccepted.1)
        (right.all_carriesValue_iff childrenAccepted.2)))
      apply carriesValue_iff_shiftsByConstant accepted
      intro _ _ applied operand member
      cases applied
      rcases List.mem_cons.mp member with isLeft | isRight
      · rw [isLeft]
        exact all.1.self
      · rw [List.mem_singleton.mp isRight]
        exact all.2.self
  | .call expression arguments, accepted => by
      rcases Option.isSome_iff_exists.mp accepted with ⟨_, runs⟩
      simp only [Expression.check, Option.bind_eq_bind, Option.bind_eq_some_iff] at runs
      rcases runs with ⟨_, calleeRuns, _, argumentsRun, _⟩
      refine (and_congr_left fun all => ?_).trans (and_congr_right' (and_congr
        (expression.all_carriesValue_iff (Option.isSome_iff_exists.mpr ⟨_, calleeRuns⟩))
        (arguments.all_carriesValue_iff (Option.isSome_iff_exists.mpr ⟨_, argumentsRun⟩))))
      apply carriesValue_iff_shiftsByConstant accepted
      intro function children applied operand member
      rcases Option.map_eq_some_iff.mp applied with ⟨_, _, same⟩
      cases same
      exact (all.2.of_mem operand member).self
  | .conversion type argument, accepted => by
      rcases Option.isSome_iff_exists.mp accepted with ⟨_, runs⟩
      simp only [Expression.check, Option.bind_eq_bind, Option.bind_eq_some_iff] at runs
      rcases runs with ⟨_, typeRuns, _, argumentRuns, _⟩
      exact all_iff_of_notApplied rfl (and_congr
        (type.all_carriesValue_iff (Option.isSome_iff_exists.mpr ⟨_, typeRuns⟩))
        (argument.all_carriesValue_iff (Option.isSome_iff_exists.mpr ⟨_, argumentRuns⟩)))
  | .dereference child, accepted => by
      rcases Option.isSome_iff_exists.mp accepted with ⟨_, runs⟩
      simp only [Expression.check, Option.bind_eq_bind, Option.bind_eq_some_iff] at runs
      rcases runs with ⟨_, childRuns, _⟩
      exact all_iff_of_notApplied rfl
        (child.all_carriesValue_iff (Option.isSome_iff_exists.mpr ⟨_, childRuns⟩))
  | .addressOf child, accepted => by
      rcases Option.isSome_iff_exists.mp accepted with ⟨_, runs⟩
      simp only [Expression.check, Option.bind_eq_bind, Option.bind_eq_some_iff] at runs
      rcases runs with ⟨_, childRuns, _⟩
      exact all_iff_of_notApplied rfl
        (child.all_carriesValue_iff (Option.isSome_iff_exists.mpr ⟨_, childRuns⟩))
  | .select base identifier, accepted => by
      rcases Option.isSome_iff_exists.mp accepted with ⟨_, runs⟩
      simp only [Expression.check, Option.bind_eq_bind, Option.bind_eq_some_iff] at runs
      rcases runs with ⟨_, baseRuns, _⟩
      exact all_iff_of_notApplied rfl
        (base.all_carriesValue_iff (Option.isSome_iff_exists.mpr ⟨_, baseRuns⟩))
  | .index base index, accepted => by
      rcases Option.isSome_iff_exists.mp accepted with ⟨_, runs⟩
      simp only [Expression.check, Option.bind_eq_bind, Option.bind_eq_some_iff] at runs
      rcases runs with ⟨_, baseRuns, _, indexRuns, _⟩
      exact all_iff_of_notApplied rfl (and_congr
        (base.all_carriesValue_iff (Option.isSome_iff_exists.mpr ⟨_, baseRuns⟩))
        (index.all_carriesValue_iff (Option.isSome_iff_exists.mpr ⟨_, indexRuns⟩)))
  | .indexSlice base low high max, accepted => by
      rcases Option.isSome_iff_exists.mp accepted with ⟨_, runs⟩
      simp only [Expression.check, Option.bind_eq_bind, Option.bind_eq_some_iff] at runs
      rcases runs with ⟨_, baseRuns, _, _, _, lowRuns, _, highRuns, _, maxRuns, _⟩
      exact all_iff_of_notApplied rfl (and_congr
        (base.all_carriesValue_iff (Option.isSome_iff_exists.mpr ⟨_, baseRuns⟩)) (and_congr
          (low.all_carriesValue_iff (Option.isSome_iff_exists.mpr ⟨_, lowRuns⟩)) (and_congr
            (high.all_carriesValue_iff (Option.isSome_iff_exists.mpr ⟨_, highRuns⟩))
            (max.all_carriesValue_iff (Option.isSome_iff_exists.mpr ⟨_, maxRuns⟩)))))
  | .pushPortCall identifier arguments, accepted => by
      rcases Option.isSome_iff_exists.mp accepted with ⟨_, runs⟩
      simp only [Expression.check, Option.bind_eq_bind, Option.bind_eq_some_iff] at runs
      rcases runs with ⟨_, argumentsRun, _⟩
      exact all_iff_of_notApplied rfl
        (arguments.all_carriesValue_iff (Option.isSome_iff_exists.mpr ⟨_, argumentsRun⟩))
  | .indexedPushPortCall identifier index arguments, accepted => by
      rcases Option.isSome_iff_exists.mp accepted with ⟨_, runs⟩
      simp only [Expression.check, Option.bind_eq_bind, Option.bind_eq_some_iff] at runs
      rcases runs with ⟨_, indexRuns, _, _, _, argumentsRun, _⟩
      exact all_iff_of_notApplied rfl (and_congr
        (index.all_carriesValue_iff (Option.isSome_iff_exists.mpr ⟨_, indexRuns⟩))
        (arguments.all_carriesValue_iff (Option.isSome_iff_exists.mpr ⟨_, argumentsRun⟩)))
  | .compositeLiteral type value, accepted => by cases accepted

theorem Arguments.all_carriesValue_iff :
    ∀ arguments : Arguments, (arguments.check environment).isSome = true →
      (arguments.All (Expression.CarriesValue environment) ↔
        arguments.All (Expression.ShiftsByConstant environment))
  | .nil, _ => Iff.rfl
  | .cons expression rest, accepted => by
      rcases Option.isSome_iff_exists.mp accepted with ⟨_, runs⟩
      simp only [Arguments.check, Option.bind_eq_bind, Option.bind_eq_some_iff] at runs
      rcases runs with ⟨_, firstRuns, _, restRuns, _⟩
      exact and_congr
        (expression.all_carriesValue_iff (Option.isSome_iff_exists.mpr ⟨_, firstRuns⟩))
        (rest.all_carriesValue_iff (Option.isSome_iff_exists.mpr ⟨_, restRuns⟩))

theorem Bound.all_carriesValue_iff :
    ∀ bound : Bound, (bound.check environment).isSome = true →
      (bound.All (Expression.CarriesValue environment) ↔
        bound.All (Expression.ShiftsByConstant environment))
  | .absent, _ => Iff.rfl
  | .present expression, accepted => by
      rcases Option.isSome_iff_exists.mp accepted with ⟨_, runs⟩
      simp only [Bound.check, Option.bind_eq_bind, Option.bind_eq_some_iff] at runs
      rcases runs with ⟨_, expressionRuns, _⟩
      exact expression.all_carriesValue_iff (Option.isSome_iff_exists.mpr ⟨_, expressionRuns⟩)

end

end Expressions

/-- A `uint` named `x`. -/
def oneVariable : Environment where
  floating := ⟨fun _ _ x _ => x, fun _ _ _ _ => false, fun _ _ x => x, fun _ _ _ => true⟩
  negateFloating := fun _ x => x
  leftover := fun _ => 0
  symbols := fun name =>
    if name = "x" then some (.localVariable ⟨.basic .uint, rfl⟩ .mutable .mutable) else none
  signature := fun _ => ⟨[], []⟩
  declarations := fun _ => ⟨.basic .uint, rfl⟩
  field := fun _ _ => none
  field_untyped := fun _ _ _ => rfl
  callable := fun _ _ => none
  callable_untyped := fun _ _ _ => rfl
  predeclared := fun _ => 0
  receiver := none
  context := .other
  inMutablePhase := false

/-- `1 << x` is accepted with an untyped type and without value. -/
theorem Expression.shiftedByVariable_not_constant :
    ((Expression.binaryArithmetic .leftShift (.literal (.integer 1)) (.identifier "x")).check
        oneVariable).isSome = true ∧
      ¬(Expression.binaryArithmetic .leftShift (.literal (.integer 1)) (.identifier "x")).CarriesValue
        oneVariable := by
  refine ⟨by decide, fun carries => ?_⟩
  rcases carries ⟨⟨.value, .basic .untypedInteger, none⟩, .immutable, .immutable⟩ rfl rfl
    (by decide) with ⟨value, isValue, _⟩
  cases isValue

end Rcgo.Checker
