import Rcgo.Checker.UntypedConstants
import Rcgo.Code.Generation

/-!
# The uses of untyped constants

What is asserted of a constant when it is assigned or converted, and when the
code generator makes a literal of it.  The checker has converted it by then,
unless its context leaves it untyped.
-/

namespace Rcgo.Checker

open Rcgo.Code

variable {environment : Environment}

/-! ## Single uses -/

/-- The kinds that `make_literal` has a case for. -/
def hasLiteral : Kind → Bool
  | .bool | .uint8 | .uint16 | .uint32 | .uint64 | .int8 | .int16 | .int32 | .int64 | .uint | .int
  | .float64 | .string | .pointer | .slice => true
  | _ => false

theorem makeLiteral_isSome_iff (characters : List UInt8 → Nat) (type : DataType) (value : Value) :
    (makeLiteral characters type value).isSome = true ↔ hasLiteral type.underlyingKind = true := by
  unfold makeLiteral
  cases type.underlyingKind <;>
    first | exact iff_of_true rfl rfl | exact iff_of_false Bool.false_ne_true Bool.false_ne_true

section Uses

/-- The uses of an untyped expression that assert its value are met: it can be
asked where the expression is assignable and representable, and it has a value
of the default type, of which a literal can be made. -/
structure UsesMet (environment : Environment) (characters : List UInt8 → Nat)
    (eval : ExpressionValue) : Prop where
  representable : ∀ target : DataType, target.isUntyped = false →
    (Value.representable environment.floating eval.type target eval.value).isSome = true
  assignable : ∀ target : DataType,
    (areAssignable environment.floating eval.type eval.value target).isSome = true
  defaultValue : ∃ converted,
    eval.convert environment.floating (environment.defaultType eval.type) = some converted ∧
      converted.value.isSome = true
  literal : ∀ converted ∈
      eval.convert environment.floating (environment.defaultType eval.type),
    ∀ value ∈ converted.value, (makeLiteral characters converted.type value).isSome = true

theorem representable_isSome {eval : ExpressionValue} {floating : Floating} (carries : Carries eval)
    (isUntyped : eval.type.isUntyped = true) (notNil : eval.type.kind ≠ .untypedNil)
    {target : DataType} (typed : target.isUntyped = false) :
    (Value.representable floating eval.type target eval.value).isSome = true := by
  rcases carries isUntyped notNil with ⟨value, isValue, isValueOf⟩
  have isAsked : (eval.type.isUntyped && !target.isUntyped) = true := by
    rw [isUntyped, typed]
    rfl
  rw [isValue]
  unfold Value.representable
  rw [if_pos isAsked, kind_of_isUntyped isUntyped]
  rw [DataType.isUntyped] at isUntyped
  generalize eval.type.kind = kind at isUntyped notNil isValueOf
  cases value with
  | bits word => cases kind <;> rfl
  | text bytes =>
      cases kind <;> first | rfl | exact absurd isUntyped (by decide) | cases isValueOf

theorem areAssignable_isSome {eval : ExpressionValue} {floating : Floating} (carries : Carries eval)
    (isUntyped : eval.type.isUntyped = true) (notNil : eval.type.kind ≠ .untypedNil)
    (target : DataType) : (areAssignable floating eval.type eval.value target).isSome = true := by
  unfold areAssignable
  split
  · rfl
  · rename_i typed
    split
    · rfl
    · split
      · rfl
      · split
        · rfl
        · exact representable_isSome carries isUntyped notNil (Bool.eq_false_iff.mpr typed)

theorem convert_default_iff {eval : ExpressionValue} (carries : Carries eval)
    (isUntyped : eval.type.isUntyped = true) (notNil : eval.type.kind ≠ .untypedNil) :
    (∃ converted,
        eval.convert environment.floating (environment.defaultType eval.type) = some converted ∧
          converted.value.isSome = true) ↔ eval.type.kind ≠ .untypedComplex := by
  rcases carries isUntyped notNil with ⟨value, isValue, isValueOf⟩
  have isConverted : (∃ converted,
      value.convert environment.floating eval.type (environment.defaultType eval.type) =
        some converted) ↔ eval.type.kind ≠ .untypedComplex := by
    unfold Value.convert Environment.defaultType
    rw [kind_of_isUntyped isUntyped]
    rw [DataType.isUntyped] at isUntyped
    generalize eval.type.kind = kind at isUntyped notNil isValueOf
    cases value with
    | bits word =>
        by_cases isComplex : kind = .untypedComplex
        · subst isComplex
          exact iff_of_false (fun converts => by rcases converts with ⟨_, converts⟩; cases converts)
            fun notComplex => notComplex rfl
        · refine iff_of_true ?_ isComplex
          cases kind <;>
            first | exact absurd rfl isComplex | exact ⟨_, rfl⟩ | cases isUntyped
    | text bytes =>
        have isString : kind = .untypedString := by
          cases kind <;> first | rfl | exact absurd isUntyped (by decide) | cases isValueOf
        subst isString
        exact iff_of_true ⟨_, rfl⟩ (by decide)
  have differs : eval.type ≠ environment.defaultType eval.type := by
    intro same
    have isNamed : (environment.defaultType eval.type).isUntyped = false := by
      unfold Environment.defaultType
      rw [DataType.isUntyped] at isUntyped
      generalize kind_eq : eval.type.kind = kind at isUntyped notNil
      cases kind <;> first | rfl | exact absurd rfl notNil | cases isUntyped
    rw [← same, isUntyped] at isNamed
    cases isNamed
  rw [← isConverted, ExpressionValue.convert, if_neg differs, isValue]
  constructor
  · rintro ⟨_, converts, _⟩
    rcases Option.map_eq_some_iff.mp converts with ⟨converted, isValue, _⟩
    exact ⟨converted, isValue⟩
  · rintro ⟨converted, converts⟩
    refine ⟨{ eval with type := environment.defaultType eval.type, value := some converted }, ?_, rfl⟩
    simp only [converts, Option.map_some]

/-- `make_literal` has a case for every default type but `complex128`. -/
theorem hasLiteral_defaultType {type : DataType} (isUntyped : type.isUntyped = true)
    (notNil : type.kind ≠ .untypedNil) (notComplex : type.kind ≠ .untypedComplex) :
    hasLiteral (environment.defaultType type).underlyingKind = true := by
  rw [DataType.isUntyped] at isUntyped
  unfold Environment.defaultType
  generalize kind_eq : type.kind = kind at isUntyped notNil notComplex
  cases kind <;>
    first | rfl | exact absurd rfl notNil | exact absurd rfl notComplex | cases isUntyped

theorem Carries.usesMet_iff {eval : ExpressionValue} (characters : List UInt8 → Nat)
    (carries : Carries eval) (isUntyped : eval.type.isUntyped = true)
    (notNil : eval.type.kind ≠ .untypedNil) :
    UsesMet environment characters eval ↔ eval.type.kind ≠ .untypedComplex := by
  constructor
  · exact fun met => (convert_default_iff carries isUntyped notNil).mp met.defaultValue
  · intro notComplex
    refine ⟨fun _ typed => representable_isSome carries isUntyped notNil typed,
      fun target => areAssignable_isSome carries isUntyped notNil target,
      (convert_default_iff carries isUntyped notNil).mpr notComplex, ?_⟩
    intro converted isConverted value _
    rw [makeLiteral_isSome_iff, (convert_spec isConverted).1]
    exact hasLiteral_defaultType isUntyped notNil notComplex

end Uses

/-! ## The code generator -/

/-- The type is untyped, and not that of `nil`. -/
def isUntypedConstant (type : DataType) : Bool :=
  type.isUntyped && type.kind != .untypedNil

namespace Expression

/-- `node.eval` before the nodes around it are checked. -/
def ownEval (environment : Environment) (expression : Expression) : Option ExpressionValue :=
  ((expression.check environment).bind id).map Eval.toExpressionValue

/-- The node has a value, which no conversion changes. -/
def isFolded (environment : Environment) (expression : Expression) : Bool :=
  (expression.ownEval environment).any fun own => own.value.isSome

/-- `make_literal` for a node whose own type is untyped: the type and the value
that the node has been left with. -/
def madeLiteral (environment : Environment) (expression : Expression)
    (left : Option ExpressionValue) : List (DataType × Value) :=
  if (expression.ownEval environment).any fun own => isUntypedConstant own.type then
    (left.bind fun left => left.value.map fun value => (left.type, value)).toList
  else []

end Expression

/-- An argument of a conversion: a constant string gets its default type. -/
def Environment.convertedArgument (environment : Environment) (argument : ExpressionValue) :
    Option ExpressionValue :=
  if argument.value.isSome && argument.type.isUntyped then
    argument.convert environment.floating (environment.defaultType argument.type)
  else some argument

/-- The arguments as the check of a function leaves them. -/
def PolymorphicFunction.checkedArguments (environment : Environment)
    (arguments : List (Option Eval)) : PolymorphicFunction → List (Option ExpressionValue)
  | builtIn .println =>
      arguments.map fun argument => argument.bind fun argument =>
        argument.toExpressionValue.convert environment.floating
          (environment.defaultType argument.type)
  | builtIn _ | unary _ => arguments.map (Option.map Eval.toExpressionValue)
  | binary operator =>
      match twoArguments arguments with
      | some (left, right) =>
          match operator.check environment.floating left.toExpressionValue
            right.toExpressionValue with
          | some checked => [some checked.left, some checked.right]
          | none => []
      | none => []

/-- The arguments as the check of a call leaves them. -/
def Environment.callArguments (environment : Environment) (parameters : List FormalParameter)
    (arguments : List (Option Eval)) : List (Option ExpressionValue) :=
  ((checkTypesArguments environment.floating parameters arguments).getD []).map fun argument =>
    some argument.toExpressionValue

/-- `node.parameters` of a call. -/
def Environment.parameters (environment : Environment) (type : DataType) : List FormalParameter :=
  match type with
  | .callable _ signature => (environment.signature signature).parameters
  | _ => []

/-- The parameters of a push port of the receiver, or of an array of such. -/
def Environment.portParameters (environment : Environment) (identifier : String) :
    List FormalParameter :=
  match (environment.receiver.bind fun receiver => environment.field receiver.val identifier).map
    Subtype.val with
  | some (.callable _ signature) => (environment.signature signature).parameters
  | some (.array _ (.callable _ signature)) => (environment.signature signature).parameters
  | _ => []

/-- The index of an array or of a slice as its check leaves it. -/
def Environment.checkedIndex (environment : Environment) (base : Option DataType)
    (index : ExpressionValue) : Option ExpressionValue :=
  match base.map DataType.underlyingType with
  | some (.array dimension _) => checkArrayIndex environment.floating (some dimension) false index
  | some (.slice _) => checkArrayIndex environment.floating none false index
  | _ => none

/-- A bound as its check leaves it. -/
def Environment.checkedBound (environment : Environment) (base : Option DataType)
    (bound : ExpressionValue) : Option ExpressionValue :=
  match base.map DataType.underlyingType with
  | some (.array dimension _) => checkArrayIndex environment.floating (some dimension) true bound
  | some (.slice _) => checkArrayIndex environment.floating none true bound
  | _ => none

mutual

/-- The literals that the code generator makes of untyped constants, for an
expression that its context has left with a type and a value. -/
def Expression.literals (environment : Environment) :
    Expression → Option ExpressionValue → List (DataType × Value)
  | .literal literal, left => Expression.madeLiteral environment (.literal literal) left
  | .identifier name, left => Expression.madeLiteral environment (.identifier name) left
  | .typeExpression _, _ => []
  | .unaryArithmetic operator child, left =>
      if (Expression.unaryArithmetic operator child).isFolded environment then
        Expression.madeLiteral environment (.unaryArithmetic operator child) left
      else child.literals environment (child.ownEval environment)
  | .binaryArithmetic operator leftChild rightChild, left =>
      if (Expression.binaryArithmetic operator leftChild rightChild).isFolded environment then
        Expression.madeLiteral environment (.binaryArithmetic operator leftChild rightChild) left
      else
        let operands :=
          PolymorphicFunction.checkedArguments environment
            [(leftChild.check environment).bind id, (rightChild.check environment).bind id]
            (.binary operator)
        leftChild.literals environment (operands[0]?.bind id) ++
          rightChild.literals environment (operands[1]?.bind id)
  | .call expression arguments, _ =>
      let evals := (arguments.check environment).getD []
      let callee := (expression.check environment).bind id
      if callee.any Eval.isType then
        arguments.literals environment (evals.map fun argument => argument.bind fun argument =>
          environment.convertedArgument argument.toExpressionValue)
      else
        match expression.polymorphicFunction environment with
        | some function =>
            arguments.literals environment (function.checkedArguments environment evals)
        | none =>
            -- the base of a method or the pull port
            let literals :=
              if callee.any fun callee => callee.type.kind != .function then
                expression.literals environment (callee.map Eval.toExpressionValue)
              else []
            literals ++
              arguments.literals environment
                (environment.callArguments
                  ((callee.map fun callee => environment.parameters callee.type).getD []) evals)
  | .conversion _ argument, _ =>
      argument.literals environment
        ((argument.ownEval environment).bind environment.convertedArgument)
  | .dereference child, _ => child.literals environment (child.ownEval environment)
  | .addressOf child, _ => child.literals environment (child.ownEval environment)
  | .select base _, _ => base.literals environment (base.ownEval environment)
  | .index base index, _ =>
      base.literals environment (base.ownEval environment) ++
        index.literals environment ((index.ownEval environment).bind
          (environment.checkedIndex ((base.ownEval environment).map ExpressionValue.type)))
  | .indexSlice base low high max, _ =>
      let type := (base.ownEval environment).map ExpressionValue.type
      base.literals environment (base.ownEval environment) ++
        (low.literals environment type ++
          (high.literals environment type ++ max.literals environment type))
  | .pushPortCall identifier arguments, _ =>
      arguments.literals environment
        (environment.callArguments (environment.portParameters identifier)
          ((arguments.check environment).getD []))
  | .indexedPushPortCall identifier index arguments, _ =>
      index.literals environment ((index.ownEval environment).bind
          (environment.checkedIndex ((environment.receiver.bind fun receiver =>
            environment.field receiver.val identifier).map Subtype.val))) ++
        arguments.literals environment
          (environment.callArguments (environment.portParameters identifier)
            ((arguments.check environment).getD []))
  | .compositeLiteral _ _, _ => []

def Arguments.literals (environment : Environment) :
    Arguments → List (Option ExpressionValue) → List (DataType × Value)
  | .nil, _ => []
  | .cons expression rest, left =>
      expression.literals environment (left.head?.bind id) ++ rest.literals environment left.tail

/-- A bound with the type of the base. -/
def Bound.literals (environment : Environment) :
    Bound → Option DataType → List (DataType × Value)
  | .absent, _ => []
  | .present expression, type =>
      expression.literals environment
        ((expression.ownEval environment).bind (environment.checkedBound type))

end

/-! ## What the contexts convert -/

section Contexts

variable {expression child : Expression} {own final : ExpressionValue} {type : DataType}
  {floating : Floating} {left : Option ExpressionValue}

/-- The operator is applied as such, not by a call. -/
def Expression.NotByCall (environment : Environment) : Expression → Prop
  | .call expression _ =>
      ∀ function, expression.polymorphicFunction environment = some function →
        function.isOperator = false
  | _ => True

/-- If the expression is an untyped constant, its context has given it a type. -/
def LeftTyped (environment : Environment) (expression : Expression)
    (left : Option ExpressionValue) : Prop :=
  ∀ own final, expression.ownEval environment = some own → isUntypedConstant own.type = true →
    left = some final → final.value.isSome = true → final.type.isUntyped = false

theorem ownEval_eq {eval : Option Eval} (runs : expression.check environment = some eval) :
    expression.ownEval environment = eval.map Eval.toExpressionValue := by
  rw [Expression.ownEval, runs]
  rfl

theorem typed_of_madeLiteral (leftTyped : LeftTyped environment expression left) :
    ∀ literal ∈ expression.madeLiteral environment left, literal.1.isUntyped = false := by
  intro literal member
  unfold Expression.madeLiteral at member
  split at member
  case isFalse => cases member
  case isTrue isUntyped =>
    rcases (Option.any_eq_true _ _).mp isUntyped with ⟨own, isOwn, isUntyped⟩
    rw [Option.mem_toList, Option.bind_eq_some_iff] at member
    rcases member with ⟨final, isFinal, isMade⟩
    rcases Option.map_eq_some_iff.mp isMade with ⟨value, isValue, same⟩
    rw [← same]
    apply leftTyped own final isOwn isUntyped isFinal
    rw [isValue]
    rfl

theorem LeftTyped.of_eval {eval : Eval} (runs : expression.check environment = some (some eval))
    (typed : isUntypedConstant eval.type = false) : LeftTyped environment expression left := by
  intro own final isOwn isUntyped
  rw [ownEval_eq runs, Option.map_some, Option.some.injEq] at isOwn
  rw [← isOwn, typed] at isUntyped
  cases isUntyped

theorem isUntypedConstant_of_typed (typed : type.isUntyped = false) :
    isUntypedConstant type = false := by
  rw [isUntypedConstant, typed]
  rfl

theorem typed_of_underlyingType (typed : type.underlyingType.isUntyped = false) :
    type.isUntyped = false := by
  by_contra isUntyped
  rw [Bool.not_eq_false] at isUntyped
  rw [underlyingType_of_isUntyped isUntyped, isUntyped] at typed
  cases typed

theorem not_isUntypedConstant_of_isDeclared (isDeclared : type.isDeclared = true) :
    isUntypedConstant type = false := by
  rw [isUntypedConstant]
  cases isUntyped : type.isUntyped with
  | false => rfl
  | true =>
      rw [kind_of_isDeclared isDeclared isUntyped]
      rfl

theorem typed_of_areAssignable {value : Option Value} {source target : DataType}
    (assignable : areAssignable floating source value target = some true) :
    target.isUntyped = false := by
  unfold areAssignable at assignable
  split at assignable
  case isTrue => cases assignable
  case isFalse typed => exact Bool.eq_false_iff.mpr typed

theorem typed_of_checkArrayIndex {dimension : Option Nat} {allowEqual : Bool}
    (runs : checkArrayIndex floating dimension allowEqual own = some final) :
    final.type.isUntyped = false := by
  unfold checkArrayIndex at runs
  split at runs
  · simp only [Option.bind_eq_bind, Option.bind_eq_some_iff, Option.some.injEq] at runs
    rcases runs with ⟨_, _, _, _, _, _, _, _, _, _, _, _, _, _, rfl⟩
    rfl
  split at runs
  case isFalse => cases runs
  case isTrue isTyped =>
    have typed : own.type.isUntyped = false := by
      by_contra isUntyped
      rw [Bool.not_eq_false] at isUntyped
      rw [kind_of_isUntyped isUntyped] at isTyped
      rw [DataType.isUntyped] at isUntyped
      generalize own.type.kind = kind at isTyped isUntyped
      revert isTyped isUntyped
      cases kind <;> decide
    split at runs
    · simp only [Option.bind_eq_bind, Option.bind_eq_some_iff, Option.some.injEq] at runs
      rcases runs with ⟨_, _, rfl⟩
      exact typed
    · simp only [Option.bind_eq_bind, Option.bind_eq_some_iff, Option.some.injEq] at runs
      rcases runs with ⟨_, _, _, _, _, _, _, _, rfl⟩
      exact typed

theorem typed_defaultType (isUntyped : isUntypedConstant type = true) :
    (environment.defaultType type).isUntyped = false := by
  rw [isUntypedConstant, DataType.isUntyped, Bool.and_eq_true] at isUntyped
  unfold Environment.defaultType
  generalize kind_eq : type.kind = kind at isUntyped
  cases kind <;> first | rfl | exact absurd isUntyped.2 (by decide) | cases isUntyped.1

theorem LeftTyped.of_defaultType {argument : Eval}
    (runs : child.check environment = some (some argument)) :
    LeftTyped environment child
      (argument.toExpressionValue.convert environment.floating
        (environment.defaultType argument.type)) := by
  intro own final isOwn isUntyped isFinal _
  rw [ownEval_eq runs] at isOwn
  rw [← Option.some.inj isOwn] at isUntyped
  rw [(convert_spec isFinal).1]
  exact typed_defaultType isUntyped

/-- The type of `nil` goes with no other untyped type. -/
theorem nil_iff_of_pickType {accepted partner : Kind → Bool} {other picked : DataType}
    (isPicked : pickType accepted partner type other = some picked)
    (within : ∀ kind, partner kind = true → kind.isUntypedNumeric = true) :
    type.underlyingKind = .untypedNil ↔ other.underlyingKind = .untypedNil := by
  have notNil : ∀ {kind : Kind}, kind.isUntypedNumeric = true → kind ≠ .untypedNil :=
    fun isNumeric => (isUntyped_of_isUntypedNumeric isNumeric).2
  unfold pickType at isPicked
  split at isPicked
  case isFalse => cases isPicked
  split at isPicked
  case isTrue isUntyped =>
    split at isPicked
    case isFalse => cases isPicked
    case isTrue isPartner =>
      exact iff_of_false (notNil isUntyped) (notNil (within _ isPartner))
  case isFalse =>
    split at isPicked
    case isFalse => cases isPicked
    case isTrue same => rw [same]

theorem nil_iff_of_pick {operator : BinaryArithmetic} {other picked : DataType}
    (isPicked : operator.pick type other = some picked) :
    type.underlyingKind = .untypedNil ↔ other.underlyingKind = .untypedNil := by
  have integral : ∀ kind : Kind, kind.isUntypedIntegral = true → kind.isUntypedNumeric = true := by
    intro kind
    cases kind <;> decide
  have orderable : ∀ kind : Kind, kind.isUntypedReal = true → kind.isUntypedNumeric = true := by
    intro kind
    cases kind <;> decide
  have notNil : ∀ {kind : Kind}, kind.isAnyBoolean = true → kind ≠ .untypedNil := by
    intro kind
    cases kind <;> decide
  cases operator with
  | multiply | divide | add | subtract => exact nil_iff_of_pickType isPicked fun _ => id
  | modulus | bitAnd | bitAndNot | bitOr | bitXor => exact nil_iff_of_pickType isPicked integral
  | equal | notEqual => exact nil_iff_of_pickType isPicked fun _ => id
  | lessThan | lessEqual | moreThan | moreEqual => exact nil_iff_of_pickType isPicked orderable
  | logicOr | logicAnd =>
      simp only [BinaryArithmetic.pick, pickLogical] at isPicked
      split at isPicked
      case isFalse => cases isPicked
      case isTrue areBoolean =>
        rw [Bool.and_eq_true] at areBoolean
        exact iff_of_false (notNil areBoolean.1) (notNil areBoolean.2)
  | leftShift | rightShift => cases isPicked

theorem isUntypedConstant_iff :
    isUntypedConstant type = true ↔ type.isUntyped = true ∧ type.kind ≠ .untypedNil := by
  rw [isUntypedConstant, Bool.and_eq_true, bne_iff_ne]

/-- Two untyped operands with a result that is not constant are `nil`. -/
theorem nil_of_checkArithmetic {operator : BinaryArithmetic} {leftEval rightEval : ExpressionValue}
    {checked : CheckedOperator}
    (runs : operator.checkArithmetic floating leftEval rightEval = some checked)
    (isNone : checked.result.value = none) (leftCarries : Carries leftEval)
    (rightCarries : Carries rightEval)
    (isUntyped : (choose leftEval.type rightEval.type).isUntyped = true) :
    isUntypedConstant leftEval.type = false ∧ isUntypedConstant rightEval.type = false := by
  have concluded := checkArithmetic_spec runs
  rcases (isUntyped_choose _ _).mp isUntyped with ⟨leftUntyped, rightUntyped⟩
  have sameNil : leftEval.type.kind = .untypedNil ↔ rightEval.type.kind = .untypedNil := by
    simp only [BinaryArithmetic.checkArithmetic, Option.bind_eq_bind,
      Option.bind_eq_some_iff] at runs
    rcases runs with ⟨_, _, runs⟩
    rw [leftUntyped, rightUntyped, Bool.and_self, if_pos rfl] at runs
    rcases Option.bind_eq_some_iff.mp runs with ⟨_, isPicked, _⟩
    rw [← kind_of_isUntyped leftUntyped, ← kind_of_isUntyped rightUntyped]
    exact nil_iff_of_pick isPicked
  have notBoth : ¬(leftEval.type.kind ≠ .untypedNil ∧ rightEval.type.kind ≠ .untypedNil) := by
    intro ⟨leftNotNil, rightNotNil⟩
    rcases leftCarries leftUntyped leftNotNil with ⟨x, isLeft, _⟩
    rcases rightCarries rightUntyped rightNotNil with ⟨y, isRight, _⟩
    have leftSome := concluded.leftValue
    have rightSome := concluded.rightValue
    rw [isLeft] at leftSome
    rw [isRight] at rightSome
    rcases Option.isSome_iff_exists.mp leftSome with ⟨x', isLeft'⟩
    rcases Option.isSome_iff_exists.mp rightSome with ⟨y', isRight'⟩
    have computed := concluded.computed
    rw [isLeft', isRight', isNone] at computed
    exact compute_ne_none x' y' computed
  rw [← Bool.not_eq_true, ← Bool.not_eq_true, isUntypedConstant_iff, isUntypedConstant_iff]
  exact ⟨fun isConstant => notBoth ⟨isConstant.2, mt sameNil.mpr isConstant.2⟩,
    fun isConstant => notBoth ⟨mt sameNil.mp isConstant.2, isConstant.2⟩⟩

/-- The operands of an operator whose result is not constant. -/
theorem leftTyped_operands {operator : BinaryArithmetic} {leftChild rightChild : Expression}
    {leftEval rightEval : Eval} {checked : CheckedOperator}
    (leftRuns : leftChild.check environment = some (some leftEval))
    (rightRuns : rightChild.check environment = some (some rightEval))
    (runs : operator.check environment.floating leftEval.toExpressionValue
      rightEval.toExpressionValue = some checked)
    (isNone : checked.result.value = none) (leftCarries : Carries leftEval.toExpressionValue)
    (rightCarries : Carries rightEval.toExpressionValue) (carries : Carries checked.result) :
    LeftTyped environment leftChild (some checked.left) ∧
      LeftTyped environment rightChild (some checked.right) := by
  have leftOwn := ownEval_eq leftRuns
  have rightOwn := ownEval_eq rightRuns
  rcases check_cases runs with ⟨_, shiftOperator, isShifted⟩ | ⟨_, isConcluded⟩
  · have shifted := checkShift_spec isShifted
    constructor
    · apply LeftTyped.of_eval leftRuns
      rw [← Bool.not_eq_true, isUntypedConstant_iff]
      intro isConstant
      rcases carries (shifted.resultType ▸ isConstant.1) (shifted.resultType ▸ isConstant.2) with
        ⟨value, isValue, _⟩
      rw [isNone] at isValue
      cases isValue
    · intro own final _ _ isFinal isSome
      rw [← Option.some.inj isFinal] at isSome ⊢
      rcases convertCount_spec shifted.count with ⟨noCount, same⟩ | ⟨isUint, _, _⟩
      · rw [same, noCount] at isSome
        cases isSome
      · rw [isUint]
        rfl
  · have concluded := checkArithmetic_spec isConcluded
    have areNil := nil_of_checkArithmetic isConcluded isNone leftCarries rightCarries
    constructor
    · intro own final isOwn isUntyped isFinal _
      rw [leftOwn, Option.map_some, Option.some.injEq] at isOwn
      rw [← Option.some.inj isFinal, concluded.leftType]
      by_contra notTyped
      rw [Bool.not_eq_false] at notTyped
      rw [← isOwn, (areNil notTyped).1] at isUntyped
      cases isUntyped
    · intro own final isOwn isUntyped isFinal _
      rw [rightOwn, Option.map_some, Option.some.injEq] at isOwn
      rw [← Option.some.inj isFinal, concluded.rightType]
      by_contra notTyped
      rw [Bool.not_eq_false] at notTyped
      rw [← isOwn, (areNil notTyped).2] at isUntyped
      cases isUntyped

theorem leftTyped_callArguments {children : List Expression} {evals : List (Option Eval)}
    (run : List.Forall₂ (fun child eval => child.check environment = some eval) children evals) :
    ∀ {parameters : List FormalParameter} {converted : List Eval},
      checkTypesArguments environment.floating parameters evals = some converted →
        List.Forall₂ (LeftTyped environment) children
          (converted.map fun argument => some argument.toExpressionValue) := by
  induction run with
  | nil =>
      intro parameters converted runs
      cases parameters with
      | nil =>
          cases runs
          exact .nil
      | cons => cases runs
  | @cons child argument _ _ childRuns _ inductionHypothesis =>
      intro parameters converted runs
      cases parameters with
      | nil => cases runs
      | cons parameter parameters =>
          cases argument with
          | none => cases runs
          | some argument =>
              simp only [checkTypesArguments, Option.bind_eq_bind, Option.bind_eq_some_iff,
                Option.some.injEq, Option.guard_eq_some'] at runs
              rcases runs with ⟨_, isAssignable, _, isTrue, final, isFinal, _, _, rest, restRuns,
                rfl⟩
              subst isTrue
              refine .cons ?_ (inductionHypothesis restRuns)
              intro own other _ _ isOther _
              rw [← Option.some.inj isOther]
              change final.type.isUntyped = false
              rw [(convert_spec isFinal).1]
              exact typed_of_areAssignable isAssignable

theorem typed_of_move {out : DataType} (isMoved : type.move = some out) :
    isUntypedConstant type = false := by
  unfold DataType.move at isMoved
  split at isMoved
  case h_1 => rfl
  case h_2 => cases isMoved

theorem typed_of_mergeChange {out : DataType} (isMerged : type.mergeChange = some out) :
    isUntypedConstant type = false := by
  unfold DataType.mergeChange at isMerged
  split at isMerged
  case h_1 => rfl
  case h_2 => cases isMerged

theorem typed_of_slice {base : DataType} (isSlice : type.underlyingType = .slice base) :
    isUntypedConstant type = false := by
  apply isUntypedConstant_of_typed
  apply typed_of_underlyingType
  rw [isSlice]
  rfl

theorem LeftTyped.single {argument : Eval} {children : List Expression}
    (run : List.Forall₂ (fun child eval => child.check environment = some eval) children
      [some argument])
    (typed : isUntypedConstant argument.type = false) :
    List.Forall₂ (LeftTyped environment) children [some argument.toExpressionValue] := by
  cases run with
  | cons childRuns rest =>
      cases rest
      exact .cons (LeftTyped.of_eval childRuns typed) .nil

theorem wellTyped_of_check {argument : Eval}
    (runs : child.check environment = some (some argument)) : argument.WellTyped :=
  (child.check_describes runs).typed

/-- Of the arguments of a built-in function only those of `println` may be untyped. -/
theorem leftTyped_builtIn {function : BuiltInFunction} {children : List Expression}
    {evals : List (Option Eval)} {result : Option Eval}
    (run : List.Forall₂ (fun child eval => child.check environment = some eval) children evals)
    (runs : function.check environment evals = some result) :
    List.Forall₂ (LeftTyped environment) children
      (PolymorphicFunction.checkedArguments environment evals (.builtIn function)) := by
  unfold BuiltInFunction.check at runs
  split at runs
  case h_1 argument =>
    simp only [Option.bind_eq_bind, Option.bind_eq_some_iff, Option.guard_eq_some'] at runs
    rcases runs with ⟨_, isType, _⟩
    apply LeftTyped.single run
    cases run with
    | cons childRuns _ =>
        apply not_isUntypedConstant_of_isDeclared
        apply (wellTyped_of_check childRuns).isDeclared
        rw [Eval.isType, beq_iff_eq] at isType
        rw [isType]
        decide
  case h_2 argument =>
    simp only [Option.bind_eq_bind, Option.bind_eq_some_iff] at runs
    rcases runs with ⟨out, isMoved, _⟩
    exact LeftTyped.single run (typed_of_move isMoved)
  case h_3 argument =>
    simp only [Option.bind_eq_bind, Option.bind_eq_some_iff] at runs
    rcases runs with ⟨out, isMerged, _⟩
    exact LeftTyped.single run (typed_of_mergeChange isMerged)
  case h_4 argument =>
    simp only [Option.bind_eq_bind, Option.bind_eq_some_iff, Option.guard_eq_some',
      beq_iff_eq] at runs
    rcases runs with ⟨_, _, _, isSlice, _⟩
    apply LeftTyped.single run
    apply isUntypedConstant_of_typed
    by_contra isUntyped
    rw [Bool.not_eq_false] at isUntyped
    rw [kind_of_isUntyped isUntyped] at isSlice
    rw [DataType.isUntyped, isSlice] at isUntyped
    cases isUntyped
  case h_5 slice element =>
    simp only [Option.bind_eq_bind, Option.bind_eq_some_iff] at runs
    rcases runs with ⟨_, _, runs⟩
    split at runs
    case h_2 => cases runs
    case h_1 base isSlice =>
      simp only [Option.bind_eq_some_iff, Option.guard_eq_some', beq_iff_eq] at runs
      rcases runs with ⟨_, sameType, _⟩
      cases run with
      | cons sliceRuns rest =>
          have isDeclared := (wellTyped_of_check sliceRuns).isDeclared_underlyingType (by
            rw [DataType.underlyingKind, isSlice]
            rfl)
          rw [isSlice] at isDeclared
          refine .cons (LeftTyped.of_eval sliceRuns (typed_of_slice isSlice))
            (LeftTyped.single rest ?_)
          rw [← sameType]
          exact not_isUntypedConstant_of_isDeclared isDeclared
  case h_6 argument =>
    simp only [Option.bind_eq_bind, Option.bind_eq_some_iff] at runs
    rcases runs with ⟨_, _, runs⟩
    apply LeftTyped.single run
    split at runs
    case h_1 base isSlice => exact typed_of_slice isSlice
    case h_2 =>
      simp only [Option.bind_eq_some_iff, Option.guard_eq_some', beq_iff_eq] at runs
      rcases runs with ⟨_, isString, _⟩
      apply isUntypedConstant_of_typed
      by_contra isUntyped
      rw [Bool.not_eq_false] at isUntyped
      rw [underlyingType_of_isUntyped isUntyped] at isString
      rw [DataType.isUntyped, isString] at isUntyped
      cases isUntyped
  case h_7 =>
    rw [PolymorphicFunction.checkedArguments, List.forall₂_map_right_iff]
    apply run.imp
    intro child eval childRuns
    cases eval with
    | none =>
        intro own final isOwn
        rw [ownEval_eq childRuns] at isOwn
        cases isOwn
    | some argument => exact LeftTyped.of_defaultType childRuns
  case h_8 => cases runs

theorem leftTyped_convertedArgument :
    LeftTyped environment child
      ((child.ownEval environment).bind environment.convertedArgument) := by
  intro own final isOwn isUntyped isFinal isSome
  rw [isOwn, Option.bind_some] at isFinal
  unfold Environment.convertedArgument at isFinal
  split at isFinal
  case isTrue =>
    rw [(convert_spec isFinal).1]
    exact typed_defaultType isUntyped
  case isFalse notConverted =>
    rw [Option.some.injEq] at isFinal
    rw [← isFinal] at isSome ⊢
    rw [isSome, Bool.true_and, Bool.not_eq_true] at notConverted
    exact notConverted

theorem leftTyped_checkedIndex (base : Option DataType) (index : Option ExpressionValue) :
    LeftTyped environment child (index.bind (environment.checkedIndex base)) := by
  intro own final _ _ isFinal _
  rcases Option.bind_eq_some_iff.mp isFinal with ⟨index, _, isChecked⟩
  unfold Environment.checkedIndex at isChecked
  split at isChecked
  · exact typed_of_checkArrayIndex isChecked
  · exact typed_of_checkArrayIndex isChecked
  · cases isChecked

theorem leftTyped_checkedBound (base : Option DataType) (bound : Option ExpressionValue) :
    LeftTyped environment child (bound.bind (environment.checkedBound base)) := by
  intro own final _ _ isFinal _
  rcases Option.bind_eq_some_iff.mp isFinal with ⟨index, _, isChecked⟩
  unfold Environment.checkedBound at isChecked
  split at isChecked
  · exact typed_of_checkArrayIndex isChecked
  · exact typed_of_checkArrayIndex isChecked
  · cases isChecked

theorem leftTyped_port {identifier : String} {index : Option Eval} {children : List Expression}
    {evals : List (Option Eval)}
    (run : List.Forall₂ (fun child eval => child.check environment = some eval) children evals)
    (runs : environment.checkPort identifier index evals = some ()) :
    List.Forall₂ (LeftTyped environment) children
      (environment.callArguments (environment.portParameters identifier) evals) := by
  have converts : ∃ converted,
      checkTypesArguments environment.floating (environment.portParameters identifier) evals =
        some converted := by
    simp only [Environment.checkPort, Option.bind_eq_bind, Option.bind_eq_some_iff] at runs
    rcases runs with ⟨receiver, isReceiver, field, isField, runs⟩
    unfold Environment.portParameters
    rw [isReceiver, Option.bind_some, isField, Option.map_some]
    split at runs
    · rename_i isPort
      rcases Option.bind_eq_some_iff.mp runs with ⟨converted, isConverted, _⟩
      rw [isPort]
      exact ⟨converted, isConverted⟩
    · rename_i isPort
      simp only [Option.bind_eq_some_iff] at runs
      rcases runs with ⟨_, _, converted, isConverted, _⟩
      rw [isPort]
      exact ⟨converted, isConverted⟩
    · cases runs
  rcases converts with ⟨converted, isConverted⟩
  rw [Environment.callArguments, isConverted]
  exact leftTyped_callArguments run isConverted

theorem leftTyped_checkCall {callee : Eval} {children : List Expression}
    {evals : List (Option Eval)} {result : Option Eval}
    (run : List.Forall₂ (fun child eval => child.check environment = some eval) children evals)
    (runs : environment.checkCall callee evals = some result) :
    isUntypedConstant callee.type = false ∧
      List.Forall₂ (LeftTyped environment) children
        (environment.callArguments (environment.parameters callee.type) evals) := by
  unfold Environment.checkCall at runs
  split at runs
  case h_2 => cases runs
  case h_1 kind signature isCallable =>
    simp only [Option.bind_eq_bind, Option.bind_eq_some_iff, Option.guard_eq_some'] at runs
    rcases runs with ⟨_, mayCall, _, _, converted, isConverted, _⟩
    constructor
    · apply isUntypedConstant_of_typed
      rw [isCallable]
      cases kind <;> first | rfl | cases mayCall
    · rw [isCallable, Environment.parameters, Environment.callArguments, isConverted]
      exact leftTyped_callArguments run isConverted

theorem typed_of_dereference {eval result : Eval}
    (runs : environment.checkDereference eval = some result) :
    isUntypedConstant eval.type = false := by
  unfold Environment.checkDereference at runs
  split at runs
  case h_2 => cases runs
  case h_1 isPointer =>
    apply isUntypedConstant_of_typed
    apply typed_of_underlyingType
    rw [isPointer]
    rfl

theorem typed_of_addressOf {eval result : Eval} (wellTyped : eval.WellTyped)
    (runs : checkAddressOf eval = some result) : isUntypedConstant eval.type = false := by
  simp only [checkAddressOf, Option.bind_eq_bind, Option.bind_eq_some_iff, Option.guard_eq_some',
    beq_iff_eq] at runs
  rcases runs with ⟨_, isVariable, _⟩
  apply not_isUntypedConstant_of_isDeclared
  apply wellTyped.isDeclared
  rw [isVariable]
  decide

theorem typed_of_select {eval result : Eval} {identifier : String}
    (runs : environment.checkSelect eval identifier = some result) :
    isUntypedConstant eval.type = false := by
  simp only [Environment.checkSelect, Option.bind_eq_bind, Option.bind_eq_some_iff] at runs
  rcases runs with ⟨_, _, type, isFound, _⟩
  apply isUntypedConstant_of_typed
  by_contra isUntyped
  rw [Bool.not_eq_false] at isUntyped
  rw [environment.field_untyped _ _ isUntyped, environment.callable_untyped _ _ isUntyped] at isFound
  cases isFound

theorem typed_of_index {eval index result : Eval}
    (runs : environment.checkIndex eval index = some result) :
    isUntypedConstant eval.type = false := by
  unfold Environment.checkIndex at runs
  apply isUntypedConstant_of_typed
  apply typed_of_underlyingType
  split at runs
  case h_3 => cases runs
  all_goals
    rename_i isBase
    rw [isBase]
    rfl

theorem typed_of_indexSlice {eval result : Eval} {low high max : Option Eval}
    (runs : environment.checkIndexSlice eval low high max = some result) :
    isUntypedConstant eval.type = false := by
  simp only [Environment.checkIndexSlice, Option.bind_eq_bind, Option.bind_eq_some_iff] at runs
  rcases runs with ⟨_, _, _, _, runs⟩
  apply isUntypedConstant_of_typed
  apply typed_of_underlyingType
  split at runs
  case h_3 => cases runs
  all_goals
    rename_i isBase
    rw [isBase]
    rfl

theorem not_isFolded {eval : Eval} (runs : expression.check environment = some (some eval))
    (notFolded : ¬expression.isFolded environment = true) : eval.value = none := by
  rw [Expression.isFolded, ownEval_eq runs] at notFolded
  exact Option.not_isSome_iff_eq_none.mp notFolded

mutual

/-- Where no operator is applied by a call, the checker has given a type to every
constant that the code generator makes a literal of. -/
theorem Expression.typed_literals :
    ∀ (expression : Expression) {result : Option Eval} (left : Option ExpressionValue),
      expression.check environment = some result →
        expression.All (Expression.CarriesValue environment) →
          expression.All (Expression.NotByCall environment) →
            LeftTyped environment expression left →
              ∀ literal ∈ expression.literals environment left, literal.1.isUntyped = false
  | .literal _, _, _, _, _, _, leftTyped => typed_of_madeLiteral leftTyped
  | .identifier _, _, _, _, _, _, leftTyped => typed_of_madeLiteral leftTyped
  | .typeExpression _, _, _, _, _, _, _ => fun _ member => absurd member List.not_mem_nil
  | .unaryArithmetic operator child, _, left, runs, carry, notByCall, leftTyped => by
      rw [Expression.literals]
      split
      case isTrue => exact typed_of_madeLiteral leftTyped
      case isFalse notFolded =>
        rcases Expression.check_of_applied rfl runs with ⟨evals, operands, isApplied⟩
        rcases check_unary isApplied with ⟨argument, folded, rfl, isChecked, rfl⟩
        rcases operands with _ | ⟨childRuns, ⟨⟩⟩
        apply child.typed_literals _ childRuns carry.2
          notByCall.2
        intro own final _ _ isFinal isSome
        have isNone := not_isFolded runs notFolded
        rw [ownEval_eq childRuns, Option.map_some, Option.some.injEq] at isFinal
        rw [← isFinal, ← (UnaryOperator.check_spec isChecked).isSome, isNone] at isSome
        cases isSome
  | .binaryArithmetic operator leftChild rightChild, _, left, runs, carry, notByCall, leftTyped => by
      rw [Expression.literals]
      split
      case isTrue => exact typed_of_madeLiteral leftTyped
      case isFalse notFolded =>
        rcases Expression.check_of_applied rfl runs with ⟨evals, operands, isApplied⟩
        rcases check_binary isApplied with ⟨leftEval, rightEval, checked, rfl, isChecked, rfl⟩
        rcases operands with _ | ⟨leftRuns, _ | ⟨rightRuns, ⟨⟩⟩⟩
        have operands := leftTyped_operands leftRuns rightRuns isChecked
          (not_isFolded runs notFolded) (carry.2.1.self leftEval leftRuns)
          (carry.2.2.self rightEval rightRuns) (carry.1 _ runs)
        simp only [leftRuns, rightRuns, Option.bind_some, id, PolymorphicFunction.checkedArguments,
          twoArguments, Option.bind_eq_bind, isChecked]
        intro literal member
        rcases List.mem_append.mp member with inLeft | inRight
        · exact leftChild.typed_literals _ leftRuns carry.2.1
            notByCall.2.1 operands.1 literal inLeft
        · exact rightChild.typed_literals _ rightRuns
            carry.2.2 notByCall.2.2 operands.2 literal inRight
  | .call expression arguments, _, left, runs, carry, notByCall, _ => by
      simp only [Expression.check, Option.bind_eq_bind, Option.bind_eq_some_iff] at runs
      rcases runs with ⟨callee, calleeRuns, evals, argumentsRun, runs⟩
      have run := arguments.check_toList argumentsRun
      have inArguments := fun lefts => arguments.typed_literals lefts
        argumentsRun carry.2.2 notByCall.2.2
      simp only [Expression.literals, calleeRuns, argumentsRun, Option.getD_some, Option.bind_some,
        id]
      split
      case isTrue =>
        apply inArguments
        rw [List.forall₂_map_right_iff]
        apply run.imp
        intro child eval childRuns
        have converted : LeftTyped environment child _ := leftTyped_convertedArgument
        rw [ownEval_eq childRuns, Option.bind_map] at converted
        exact converted
      case isFalse notType =>
        have isNone : callee.filter Eval.isType = none := by
          cases callee with
          | none => rfl
          | some callee =>
              rw [Option.filter_eq_none_iff]
              intro other isOther
              rw [← Option.some.inj isOther]
              exact notType
        rw [isNone] at runs
        cases isFunction : expression.polymorphicFunction environment with
        | some function =>
            simp only [isFunction] at runs
            apply inArguments
            cases function with
            | builtIn function => exact leftTyped_builtIn run runs
            | unary | binary => cases notByCall.1 _ isFunction
        | none =>
            simp only [isFunction, Option.bind_eq_some_iff] at runs
            rcases runs with ⟨eval, rfl, runs⟩
            have typed := leftTyped_checkCall run runs
            intro literal member
            rcases List.mem_append.mp member with inCallee | isArgument
            · split at inCallee
              · exact expression.typed_literals _ calleeRuns
                  carry.2.1 notByCall.2.1 (LeftTyped.of_eval calleeRuns typed.1) literal inCallee
              · cases inCallee
            · exact inArguments _ typed.2 literal isArgument
  | .conversion type argument, _, left, runs, carry, notByCall, _ => by
      simp only [Expression.check, Option.bind_eq_bind, Option.bind_eq_some_iff] at runs
      rcases runs with ⟨_, _, _, argumentRuns, _⟩
      exact argument.typed_literals _ argumentRuns carry.2.2
        notByCall.2.2 leftTyped_convertedArgument
  | .dereference child, _, left, runs, carry, notByCall, _ => by
      simp only [Expression.check, Option.bind_eq_bind, Option.bind_eq_some_iff] at runs
      rcases runs with ⟨_, childRuns, eval, rfl, _, isChecked, _⟩
      exact child.typed_literals _ childRuns carry.2
        notByCall.2 (LeftTyped.of_eval childRuns (typed_of_dereference isChecked))
  | .addressOf child, _, left, runs, carry, notByCall, _ => by
      simp only [Expression.check, Option.bind_eq_bind, Option.bind_eq_some_iff] at runs
      rcases runs with ⟨_, childRuns, eval, rfl, _, isChecked, _⟩
      exact child.typed_literals _ childRuns carry.2
        notByCall.2 (LeftTyped.of_eval childRuns
          (typed_of_addressOf (child.check_describes childRuns).typed isChecked))
  | .select base identifier, _, left, runs, carry, notByCall, _ => by
      simp only [Expression.check, Option.bind_eq_bind, Option.bind_eq_some_iff] at runs
      rcases runs with ⟨_, baseRuns, eval, rfl, _, isChecked, _⟩
      exact base.typed_literals _ baseRuns carry.2
        notByCall.2 (LeftTyped.of_eval baseRuns (typed_of_select isChecked))
  | .index base index, _, left, runs, carry, notByCall, _ => by
      simp only [Expression.check, Option.bind_eq_bind, Option.bind_eq_some_iff] at runs
      rcases runs with ⟨_, baseRuns, _, indexRuns, eval, rfl, _, _, _, isChecked, _⟩
      intro literal member
      rcases List.mem_append.mp member with inBase | inIndex
      · exact base.typed_literals _ baseRuns carry.2.1
          notByCall.2.1 (LeftTyped.of_eval baseRuns (typed_of_index isChecked)) literal inBase
      · exact index.typed_literals _ indexRuns carry.2.2
          notByCall.2.2 (leftTyped_checkedIndex _ _) literal inIndex
  | .indexSlice base low high max, _, left, runs, carry, notByCall, _ => by
      simp only [Expression.check, Option.bind_eq_bind, Option.bind_eq_some_iff] at runs
      rcases runs with ⟨_, baseRuns, eval, rfl, _, lowRuns, _, highRuns, _, maxRuns, _, isChecked, _⟩
      intro literal member
      rcases List.mem_append.mp member with inBase | inBounds
      · exact base.typed_literals _ baseRuns carry.2.1
          notByCall.2.1 (LeftTyped.of_eval baseRuns (typed_of_indexSlice isChecked)) literal inBase
      rcases List.mem_append.mp inBounds with inLow | inBounds
      · exact low.typed_literals _ lowRuns carry.2.2.1
          notByCall.2.2.1 literal inLow
      rcases List.mem_append.mp inBounds with inHigh | inMax
      · exact high.typed_literals _ highRuns carry.2.2.2.1
          notByCall.2.2.2.1 literal inHigh
      · exact max.typed_literals _ maxRuns carry.2.2.2.2
          notByCall.2.2.2.2 literal inMax
  | .pushPortCall identifier arguments, _, left, runs, carry, notByCall, _ => by
      simp only [Expression.check, Option.bind_eq_bind, Option.bind_eq_some_iff] at runs
      rcases runs with ⟨evals, argumentsRun, _, isPort, _⟩
      rw [Expression.literals, argumentsRun, Option.getD_some]
      exact arguments.typed_literals _ argumentsRun carry.2
        notByCall.2 (leftTyped_port (arguments.check_toList argumentsRun) isPort)
  | .indexedPushPortCall identifier index arguments, _, left, runs, carry, notByCall, _ => by
      simp only [Expression.check, Option.bind_eq_bind, Option.bind_eq_some_iff] at runs
      rcases runs with ⟨_, indexRuns, _, _, evals, argumentsRun, _, isPort, _⟩
      rw [Expression.literals, argumentsRun, Option.getD_some]
      intro literal member
      rcases List.mem_append.mp member with inIndex | inArguments
      · exact index.typed_literals _ indexRuns carry.2.1
          notByCall.2.1 (leftTyped_checkedIndex _ _) literal inIndex
      · exact arguments.typed_literals _ argumentsRun
          carry.2.2 notByCall.2.2
          (leftTyped_port (arguments.check_toList argumentsRun) isPort) literal inArguments
  | .compositeLiteral _ _, _, _, runs, _, _, _ => by cases runs

theorem Arguments.typed_literals :
    ∀ (arguments : Arguments) {evals : List (Option Eval)} (left : List (Option ExpressionValue)),
      arguments.check environment = some evals →
        arguments.All (Expression.CarriesValue environment) →
          arguments.All (Expression.NotByCall environment) →
            List.Forall₂ (LeftTyped environment) arguments.toList left →
              ∀ literal ∈ arguments.literals environment left, literal.1.isUntyped = false
  | .nil, _, _, _, _, _, _ => fun _ member => absurd member List.not_mem_nil
  | .cons expression rest, _, left, runs, carry, notByCall, leftTyped => by
      simp only [Arguments.check, Option.bind_eq_bind, Option.bind_eq_some_iff] at runs
      rcases runs with ⟨_, firstRuns, _, restRuns, _⟩
      cases leftTyped with
      | cons firstTyped restTyped =>
          intro literal member
          rcases List.mem_append.mp member with inFirst | inRest
          · exact expression.typed_literals _ firstRuns carry.1
              notByCall.1 firstTyped literal inFirst
          · exact rest.typed_literals _ restRuns carry.2
              notByCall.2 restTyped literal inRest

theorem Bound.typed_literals :
    ∀ (bound : Bound) {eval : Option Eval} (type : Option DataType),
      bound.check environment = some eval →
      bound.All (Expression.CarriesValue environment) →
        bound.All (Expression.NotByCall environment) →
          ∀ literal ∈ bound.literals environment type, literal.1.isUntyped = false
  | .absent, _, _, _, _, _ => fun _ member => absurd member List.not_mem_nil
  | .present expression, _, type, runs, carry, notByCall => by
      simp only [Bound.check, Option.bind_eq_bind, Option.bind_eq_some_iff] at runs
      rcases runs with ⟨_, expressionRuns, _⟩
      exact expression.typed_literals _ expressionRuns carry
        notByCall (leftTyped_checkedBound _ _)

end

end Contexts

/-- `x + 1`. -/
def successor : Expression :=
  .binaryArithmetic .add (.identifier "x") (.literal (.integer 1))

/-- In an accepted expression everything untyped is constant if and only if
nothing untyped is shifted by a count that is not constant.  A constant meets
the uses of an untyped expression, unless it is a complex number.  The literals
that the code generator makes of untyped constants are there if and only if
`make_literal` has a case for what their contexts have left them with; this is a
type, unless the constant is the whole expression or an operator is applied by a
call. -/
theorem Expression.untyped_isConstant_iff (environment : Environment) (expression : Expression)
    (characters : List UInt8 → Nat) (accepted : (expression.check environment).isSome = true) :
    (expression.All (Expression.CarriesValue environment) ↔
        expression.All (Expression.ShiftsByConstant environment)) ∧
      (∀ eval : ExpressionValue, Carries eval → eval.type.isUntyped = true →
        eval.type.kind ≠ .untypedNil →
          (UsesMet environment characters eval ↔ eval.type.kind ≠ .untypedComplex)) ∧
      ∀ left : Option ExpressionValue,
        ((∀ literal ∈ expression.literals environment left,
            (makeLiteral characters literal.1 literal.2).isSome = true) ↔
          ∀ literal ∈ expression.literals environment left,
            hasLiteral literal.1.underlyingKind = true) ∧
        (expression.All (Expression.ShiftsByConstant environment) →
          expression.All (Expression.NotByCall environment) →
            LeftTyped environment expression left →
              ∀ literal ∈ expression.literals environment left, literal.1.isUntyped = false) := by
  refine ⟨expression.all_carriesValue_iff accepted,
    fun _ carries isUntyped notNil => carries.usesMet_iff characters isUntyped notNil,
    fun left => ⟨?_, ?_⟩⟩
  · exact forall₂_congr fun literal _ => makeLiteral_isSome_iff characters literal.1 literal.2
  · intro shifts
    rcases Option.isSome_iff_exists.mp accepted with ⟨_, runs⟩
    exact expression.typed_literals left runs ((expression.all_carriesValue_iff accepted).mpr shifts)

/-- In `x + 1` the one is a `uint`. -/
theorem Expression.untyped_isConstant_iff_successor :
    (successor.All (Expression.CarriesValue oneVariable) ↔
        successor.All (Expression.ShiftsByConstant oneVariable)) ∧
      (∀ eval : ExpressionValue, Carries eval → eval.type.isUntyped = true →
        eval.type.kind ≠ .untypedNil →
          (UsesMet oneVariable (fun _ => 0) eval ↔ eval.type.kind ≠ .untypedComplex)) ∧
      ∀ left : Option ExpressionValue,
        ((∀ literal ∈ successor.literals oneVariable left,
            (makeLiteral (fun _ => 0) literal.1 literal.2).isSome = true) ↔
          ∀ literal ∈ successor.literals oneVariable left,
            hasLiteral literal.1.underlyingKind = true) ∧
        (successor.All (Expression.ShiftsByConstant oneVariable) →
          successor.All (Expression.NotByCall oneVariable) →
            LeftTyped oneVariable successor left →
              ∀ literal ∈ successor.literals oneVariable left, literal.1.isUntyped = false) :=
  Expression.untyped_isConstant_iff oneVariable successor (fun _ => 0) (by decide)

example : successor.literals oneVariable none = [(.basic .uint, .bits 1)] := rfl

/-- In the statement `1;` the one is left untyped. -/
example : (Expression.literal (.integer 1)).literals oneVariable
    ((Expression.literal (.integer 1)).ownEval oneVariable) =
      [(.basic .untypedInteger, .bits 1)] := rfl

end Rcgo.Checker
