import Rcgo.Checker.Scope
import Rcgo.Checker.SliceBounds
import Rcgo.Code.UnaryOperators

/-!
# The checker of expressions

The part of the visitor in `check_types.cpp` that visits expressions, with the
checks of the operators and the built-in functions in `semantic.cpp`.  An error
stops the check, and so does an assertion that fails.
-/

namespace Rcgo.Code

mutual

/-- A type that can be declared: of the untyped types only that of `nil` occurs in it. -/
def DataType.isDeclared : DataType → Bool
  | .basic kind => !kind.isUntyped || kind == .untypedNil
  | .struct fields => fields.areDeclared
  | .component fields => fields.areDeclared
  | .array _ base => base.isDeclared
  | .pointer base => base.isDeclared
  | .slice base => base.isDeclared
  | .heap base => base.isDeclared
  | .callable kind _ => !kind.isUntyped
  | .named _ definition => definition.isDeclared
  | .declared _ => true

def Fields.areDeclared : Fields → Bool
  | .nil => true
  | .cons type rest => type.isDeclared && rest.areDeclared

end

/-- A type of a declaration, or one that is built from such types. -/
abbrev DeclaredType :=
  { type : DataType // type.isDeclared = true }

namespace DataType

/-- `Type::is_slice_of_bytes`. -/
def isSliceOfBytes (type : DataType) : Bool :=
  match type.underlyingType with
  | slice base => base.underlyingKind == .uint8
  | _ => false

/-- `Type::is_slice_of_runes`. -/
def isSliceOfRunes (type : DataType) : Bool :=
  match type.underlyingType with
  | slice base => base.underlyingKind == .int32
  | _ => false

/-- `Type::pointer_to_array`, asked for. -/
def isPointerToArray (type : DataType) : Bool :=
  match type.underlyingType with
  | pointer base => base.underlyingKind == .array
  | _ => false

/-- `Type::move`. -/
def move : DataType → Option DataType
  | pointer (heap base) => some (pointer (heap base))
  | _ => none

/-- `Type::merge_change`. -/
def mergeChange : DataType → Option DataType
  | pointer (heap base) => some (pointer base)
  | _ => none

end DataType

def Kind.isText (kind : Kind) : Bool :=
  kind == .untypedString || kind == .string

def Value.isText : Value → Bool
  | bits _ => false
  | text _ => true

end Rcgo.Code

namespace Rcgo.Checker

open Rcgo.Code

/-- A literal with the value that the scanner has read. -/
inductive Literal where
  | rune (word : Nat)
  | integer (word : Nat)
  | float (word : Nat)
  | complex (word : Nat)
  | string (bytes : List UInt8)
  deriving DecidableEq

namespace Literal

/-- The kind of its type. -/
def kind : Literal → Kind
  | rune _ => .untypedRune
  | integer _ => .untypedInteger
  | float _ => .untypedFloat
  | complex _ => .untypedComplex
  | string _ => .untypedString

def value : Literal → Value
  | rune word | integer word | float word | complex word => .bits word
  | string bytes => .text bytes

end Literal

/-- The unary operators. -/
inductive UnaryOperator where
  | logicNot
  | arithmetic (operator : UnaryArithmetic)
  deriving DecidableEq, Repr

mutual

/-- An expression as the parser leaves it. -/
inductive Expression where
  | literal (literal : Literal)
  | identifier (name : String)
  | typeExpression (type : DeclaredType)
  | unaryArithmetic (operator : UnaryOperator) (child : Expression)
  | binaryArithmetic (operator : BinaryArithmetic) (left right : Expression)
  | call (expression : Expression) (arguments : Arguments)
  | conversion (type argument : Expression)
  | dereference (child : Expression)
  | addressOf (child : Expression)
  | select (base : Expression) (identifier : String)
  | index (base index : Expression)
  | indexSlice (base : Expression) (low high max : Bound)
  | pushPortCall (identifier : String) (arguments : Arguments)
  | indexedPushPortCall (identifier : String) (index : Expression) (arguments : Arguments)
  | compositeLiteral (type : Expression) (value : Arguments)

/-- `ExpressionList`. -/
inductive Arguments where
  | nil
  | cons (expression : Expression) (rest : Arguments)

/-- A bound of a slice expression, with the flag that it is there. -/
inductive Bound where
  | absent
  | present (expression : Expression)

end

/-- `semantic::ExpressionValue` with the mutabilities. -/
structure Eval extends ExpressionValue where
  intrinsicMutability : Mutability
  indirectionMutability : Mutability

namespace Eval

/-- `ExpressionValue::is_type`. -/
def isType (eval : Eval) : Bool :=
  eval.expressionKind == .type

/-- `ExpressionValue::fix_string_indirection_mutability`. -/
def fixStringIndirectionMutability (eval : Eval) : Eval :=
  if eval.type.underlyingKind = .string ∧ eval.indirectionMutability = .mutable then
    { eval with indirectionMutability := .immutable }
  else eval

/-- A value without a constant, that cannot be changed itself. -/
def computed (type : DataType) (indirectionMutability : Mutability) : Eval where
  expressionKind := .value
  type := type
  value := none
  intrinsicMutability := .immutable
  indirectionMutability := indirectionMutability

end Eval

/-! ## What identifiers stand for -/

/-- The built-in functions. -/
inductive BuiltInFunction where
  | new
  | move
  | merge
  | len
  | append
  | copy
  | println
  deriving DecidableEq, Repr

/-- `decl::PolymorphicFunction`: the nodes of operators have one as well. -/
inductive PolymorphicFunction where
  | builtIn (function : BuiltInFunction)
  | unary (operator : UnaryOperator)
  | binary (operator : BinaryArithmetic)
  deriving DecidableEq, Repr

/-- The value is one of the type: the bytes of a string, or the bits of anything else. -/
def IsValueOf (kind : Kind) (value : Value) : Prop :=
  value.isText = kind.isText

/-- `decl::Constant`. -/
structure Constant where
  type : DataType
  value : Value
  isType : type.isDeclared = true ∨ type.isUntyped = true
  isValue : IsValueOf type.underlyingKind value

/-- The symbols that an expression may name. -/
inductive Declaration where
  | polymorphicFunction (function : BuiltInFunction)
  | functionBase (type : DeclaredType)
  | parameter (type : DeclaredType) (intrinsicMutability indirectionMutability : Mutability)
  | namedType (type : DeclaredType)
  | constant (constant : Constant)
  | localVariable (type : DeclaredType) (intrinsicMutability indirectionMutability : Mutability)
  | hidden

/-- A parameter as a call sees it. -/
structure FormalParameter where
  type : DeclaredType
  indirectionMutability : Mutability

/-- The parameters and the results of a callable, without the receiver. -/
structure CallSignature where
  parameters : List FormalParameter
  returns : List FormalParameter

/-- `Visitor::Context`. -/
inductive Context where
  | other
  | action
  | reaction
  | initializer
  | getter
  deriving DecidableEq, Repr

/-- What the check of an expression depends on. -/
structure Environment where
  floating : Floating
  /-- the negation of floating-point and complex numbers -/
  negateFloating : Kind → Nat → Nat
  /-- what the union for the value of a node holds before it is written -/
  leftover : Expression → Nat
  /-- `find_global_symbol` -/
  symbols : String → Option Declaration
  signature : Nat → CallSignature
  /-- the definitions of the named types that occur in them -/
  declarations : Nat → DeclaredType
  /-- `find_field` -/
  field : DataType → String → Option DeclaredType
  field_untyped : ∀ type name, type.isUntyped = true → field type name = none
  /-- `find_callable` and `callable_type` -/
  callable : DataType → String → Option DeclaredType
  callable_untyped : ∀ type name, type.isUntyped = true → callable type name = none
  /-- the predeclared types by their names -/
  predeclared : String → Nat
  receiver : Option DeclaredType
  context : Context
  inMutablePhase : Bool

namespace Environment

variable (environment : Environment)

/-- A type that has been met inside its own definition. -/
def resolve : DataType → DataType
  | .declared name => (environment.declarations name).val
  | type => type

def named (name : String) (kind : Kind) : DataType :=
  .named (environment.predeclared name) (.basic kind)

/-- `Type::default_type`. -/
def defaultType (type : DataType) : DataType :=
  match type.kind with
  | .untypedBoolean => environment.named "bool" .bool
  | .untypedRune => environment.named "rune" .int32
  | .untypedInteger => environment.named "int" .int
  | .untypedFloat => environment.named "float64" .float64
  | .untypedComplex => environment.named "complex128" .complex128
  | .untypedString => environment.named "string" .string
  | _ => type

/-- The value of a unary operator. -/
def foldUnary (operator : UnaryOperator) (kind : Kind) (leftover : Nat) (value : Value) :
    Option Value :=
  match operator, value with
  | .logicNot, value => some (Cxx.ofBool !value.toBool)
  | .arithmetic .posate, value => some value
  | .arithmetic operator, .bits word =>
      if kind.isIntegral then (operator.fold kind leftover word).map Value.bits
      else if operator = .negate then some (.bits (environment.negateFloating kind word))
      else none
  | _, .text _ => none

end Environment

/-- The kinds that a unary operator can be applied to. -/
def UnaryOperator.applies : UnaryOperator → Kind → Bool
  | logicNot => Kind.isAnyBoolean
  | arithmetic .complement => Kind.isIntegral
  | arithmetic _ => Kind.isNumeric

/-- `LogicNot::check`, `Posate::check`, `Negate::check` and `Complement::check`. -/
def UnaryOperator.check (environment : Environment) (operator : UnaryOperator) (leftover : Nat)
    (argument : ExpressionValue) : Option ExpressionValue :=
  if argument.isValueOrVariable && operator.applies argument.type.underlyingKind then
    match argument.value with
    | none => some ⟨.value, argument.type, none⟩
    | some value =>
        (environment.foldUnary operator argument.type.underlyingKind leftover value).map
          fun result => ⟨.value, argument.type, some result⟩
  else none

/-! ## Identifiers, calls and conversions -/

/-- `visit (IdentifierExpression)` for the symbol that has been found. -/
def Declaration.check : Declaration → Option Eval
  | .polymorphicFunction _ =>
      some ⟨⟨.value, .basic .polymorphicFunction, none⟩, .immutable, .immutable⟩
  | .functionBase type => some ⟨⟨.value, type.val, none⟩, .immutable, .immutable⟩
  | .parameter type intrinsicMutability indirectionMutability =>
      some (Eval.fixStringIndirectionMutability
        ⟨⟨.variable, type.val, none⟩, intrinsicMutability, indirectionMutability⟩)
  | .namedType type => some ⟨⟨.type, type.val, none⟩, .immutable, .immutable⟩
  | .constant symbol =>
      some (Eval.fixStringIndirectionMutability
        ⟨⟨.value, symbol.type, some symbol.value⟩, .immutable, .mutable⟩)
  | .localVariable type intrinsicMutability indirectionMutability =>
      some (Eval.fixStringIndirectionMutability
        ⟨⟨.variable, type.val, none⟩, intrinsicMutability, indirectionMutability⟩)
  | .hidden => none

/-- `check_types_arguments` and `require_value_or_variable_list`: the arguments
as they are afterwards. -/
def checkTypesArguments (floating : Floating) :
    List FormalParameter → List (Option Eval) → Option (List Eval)
  | [], [] => some []
  | parameter :: parameters, some argument :: arguments => do
      let assignable ← areAssignable floating argument.type argument.value parameter.type.val
      guard assignable
      let converted ← argument.toExpressionValue.convert floating parameter.type.val
      guard converted.isValueOrVariable
      let rest ← checkTypesArguments floating parameters arguments
      some ({ argument with toExpressionValue := converted } :: rest)
  | _, _ => none

/-- `check_mutability_arguments`. -/
def checkMutabilityArguments (parameters : List FormalParameter) (arguments : List Eval) : Bool :=
  (parameters.zip arguments).all fun (parameter, argument) =>
    !(argument.type.containsPointer &&
      parameter.indirectionMutability.ctorIdx < argument.indirectionMutability.ctorIdx)

/-- The result of a call; none inside for a call without one. -/
def CallSignature.result (signature : CallSignature) : Option (Option Eval) :=
  match signature.returns with
  | [] => some none
  | [result] =>
      some (some (Eval.computed result.type.val
        result.indirectionMutability).fixStringIndirectionMutability)
  | _ => none

/-- Where a callable of the kind may be called from. -/
def Environment.mayCall (environment : Environment) (kind : Kind) : Bool :=
  match kind with
  | .function | .method => true
  | .pullPort =>
      (environment.context == .getter || environment.context == .action ||
        environment.context == .reaction) && !environment.inMutablePhase
  | .initializer => environment.context == .initializer
  | .getter =>
      (environment.context == .getter || environment.context == .action ||
        environment.context == .reaction || environment.context == .initializer) &&
        !environment.inMutablePhase
  | _ => false

/-- `visit (Call)` for a callable that is no built-in function. -/
def Environment.checkCall (environment : Environment) (callee : Eval)
    (arguments : List (Option Eval)) : Option (Option Eval) :=
  match callee.type with
  | .callable kind signature => do
      guard (environment.mayCall kind)
      guard callee.isValueOrVariable
      let arguments ←
        checkTypesArguments environment.floating (environment.signature signature).parameters
          arguments
      guard (checkMutabilityArguments (environment.signature signature).parameters arguments)
      (environment.signature signature).result
  | _ => none

/-- The conversions of values that are not constant. -/
def isConvertible (floating : Floating) (source target : DataType) : Option Bool :=
  (areAssignable floating source none target).map fun assignable =>
    assignable || source.underlyingType == target.underlyingType ||
      (source.kind == .pointer && target.kind == .pointer && source == target) ||
      ((source.underlyingKind.isTypedInteger || source.underlyingKind.isTypedFloat) &&
        (target.underlyingKind.isTypedInteger || target.underlyingKind.isTypedFloat)) ||
      (source.underlyingKind.isTypedComplex && target.underlyingKind.isTypedComplex) ||
      ((source.underlyingKind.isTypedInteger || source.isSliceOfBytes || source.isSliceOfRunes) &&
        target.underlyingKind == .string) ||
      (source.underlyingKind == .string && (target.isSliceOfBytes || target.isSliceOfRunes))

/-- `reset_mutability` after `conversion`: the data has been copied. -/
def resetsMutability (source target : DataType) : Bool :=
  ((source.underlyingKind.isTypedInteger || source.isSliceOfBytes || source.isSliceOfRunes) &&
      target.underlyingKind == .string) ||
    ((source.underlyingKind == .string || source.underlyingKind == .untypedString) &&
      (target.isSliceOfBytes || target.isSliceOfRunes))

/-- `conversion`.  Of the conversions of constants only the one of a string to a
slice of bytes is implemented. -/
def Environment.checkConversion (environment : Environment) (type argument : Eval) :
    Option Eval := do
  guard type.isType
  guard argument.isValueOrVariable
  match argument.value with
  | some value =>
      let representable ←
        Value.representable environment.floating argument.type type.type (some value)
      guard (!representable)
      guard ((argument.type.underlyingKind == .string ||
        argument.type.underlyingKind == .untypedString) && type.type.isSliceOfBytes)
  | none =>
      let convertible ← isConvertible environment.floating argument.type type.type
      guard convertible
  let indirectionMutability :=
    if resetsMutability argument.type type.type then .mutable else argument.indirectionMutability
  some (Eval.computed type.type indirectionMutability).fixStringIndirectionMutability

/-! ## Built-in functions -/

/-- The check of a built-in function; the result, none inside for `println`. -/
def BuiltInFunction.check (environment : Environment) (function : BuiltInFunction)
    (arguments : List (Option Eval)) : Option (Option Eval) :=
  match function, arguments with
  | .new, [some argument] => do
      guard argument.isType
      some (some (Eval.computed (.pointer argument.type) .mutable))
  | .move, [some argument] => do
      let out ← argument.type.move
      guard argument.isValueOrVariable
      some (some (Eval.computed out .mutable))
  | .merge, [some argument] => do
      let out ← argument.type.mergeChange
      guard argument.isValueOrVariable
      some (some (Eval.computed out .mutable))
  | .len, [some argument] => do
      guard argument.isValueOrVariable
      guard (argument.type.underlyingKind == .slice)
      some (some (Eval.computed (environment.named "int" .int) .immutable))
  | .append, [some slice, some element] => do
      guard (slice.isValueOrVariable && element.isValueOrVariable)
      match slice.type.underlyingType with
      | .slice base => do
          guard (base == element.type)
          some (some (Eval.computed (.slice base) .mutable))
      | _ => none
  | .copy, [some argument] => do
      guard argument.isValueOrVariable
      match argument.type.underlyingType with
      | .slice base => guard (!base.containsPointer)
      | type => guard (type.kind == .string)
      some (some (Eval.computed argument.type .mutable))
  | .println, arguments => do
      let _ ← arguments.mapM fun argument => do
        let argument ← argument
        argument.toExpressionValue.convert environment.floating
          (environment.defaultType argument.type)
      some none
  | _, _ => none

/-- `assert (arguments.size () == 1)`; the argument must be a value. -/
def oneArgument : List (Option Eval) → Option Eval
  | [argument] => argument
  | _ => none

/-- `assert (arguments.size () == 2)`; the arguments must be values. -/
def twoArguments : List (Option Eval) → Option (Eval × Eval)
  | [left, right] => do
      let left ← left
      let right ← right
      some (left, right)
  | _ => none

/-- `PolymorphicFunction::check`. -/
def PolymorphicFunction.check (environment : Environment) (leftover : Nat)
    (arguments : List (Option Eval)) : PolymorphicFunction → Option (Option Eval)
  | builtIn function => function.check environment arguments
  | unary operator => do
      let argument ← oneArgument arguments
      let result ← operator.check environment leftover argument.toExpressionValue
      some (some ⟨result, .immutable, .immutable⟩)
  | binary operator => do
      let (left, right) ← twoArguments arguments
      let checked ←
        operator.check environment.floating left.toExpressionValue right.toExpressionValue
      some (some ⟨checked.result, .immutable, .immutable⟩)

/-! ## Operands -/

/-- `visit (Dereference)`. -/
def Environment.checkDereference (environment : Environment) (child : Eval) : Option Eval :=
  match child.type.underlyingType with
  | .pointer base => do
      guard child.isValueOrVariable
      some (Eval.fixStringIndirectionMutability
        ⟨⟨.variable, environment.resolve base, none⟩, child.indirectionMutability,
          child.indirectionMutability⟩)
  | _ => none

/-- `visit (AddressOf)`. -/
def checkAddressOf (child : Eval) : Option Eval := do
  guard (child.expressionKind == .variable)
  let indirectionMutability :=
    if child.intrinsicMutability.ctorIdx < child.indirectionMutability.ctorIdx then
      child.indirectionMutability
    else child.intrinsicMutability
  some ⟨⟨.value, .pointer child.type, none⟩, child.intrinsicMutability, indirectionMutability⟩

/-- `visit (Select)`: a field, else a callable of the type. -/
def Environment.checkSelect (environment : Environment) (base : Eval) (identifier : String) :
    Option Eval := do
  guard base.isValueOrVariable
  let type ← (environment.field base.type identifier).orElse
    fun _ => environment.callable base.type identifier
  if base.type.underlyingKind = .pointer then
    some (Eval.fixStringIndirectionMutability
      ⟨⟨.variable, type.val, none⟩, base.indirectionMutability, base.indirectionMutability⟩)
  else
    some (Eval.fixStringIndirectionMutability
      ⟨⟨base.expressionKind, type.val, none⟩, base.intrinsicMutability,
        base.indirectionMutability⟩)

/-- `visit (Index)`. -/
def Environment.checkIndex (environment : Environment) (base index : Eval) : Option Eval :=
  match base.type.underlyingType with
  | .array dimension type => do
      let _ ← checkArrayIndex environment.floating (some dimension) false index.toExpressionValue
      guard base.isValueOrVariable
      some (Eval.fixStringIndirectionMutability
        ⟨⟨base.expressionKind, environment.resolve type, none⟩, base.intrinsicMutability,
          base.indirectionMutability⟩)
  | .slice type => do
      let _ ← checkArrayIndex environment.floating none false index.toExpressionValue
      guard base.isValueOrVariable
      some (Eval.fixStringIndirectionMutability
        ⟨⟨.variable, environment.resolve type, none⟩, base.intrinsicMutability,
          base.indirectionMutability⟩)
  | _ => none

/-- `visit (IndexSlice)`; slices of strings and of pointers to arrays are not implemented. -/
def Environment.checkIndexSlice (environment : Environment) (base : Eval)
    (low high max : Option Eval) : Option Eval := do
  guard base.isValueOrVariable
  guard (base.type.underlyingKind != .untypedString && !base.type.isPointerToArray)
  let low := low.map Eval.toExpressionValue
  let high := high.map Eval.toExpressionValue
  let max := max.map Eval.toExpressionValue
  match base.type.underlyingType with
  | .array dimension type => do
      checkBounds environment.floating (some dimension) low high max
      some (Eval.computed (.slice type) base.indirectionMutability).fixStringIndirectionMutability
  | .slice type => do
      checkBounds environment.floating none low high max
      some (Eval.computed (.slice type) base.indirectionMutability).fixStringIndirectionMutability
  | _ => none

/-- The port of `visit (PushPortCall)`, or with an index of `visit (IndexedPushPortCall)`. -/
def Environment.checkPort (environment : Environment) (identifier : String)
    (index : Option Eval) (arguments : List (Option Eval)) : Option Unit := do
  let receiver ← environment.receiver
  let field ← environment.field receiver.val identifier
  match field.val, index with
  | .callable .pushPort signature, none => do
      let _ ←
        checkTypesArguments environment.floating (environment.signature signature).parameters
          arguments
      some ()
  | .array dimension (.callable .pushPort signature), some index => do
      let _ ← checkArrayIndex environment.floating (some dimension) false index.toExpressionValue
      let _ ←
        checkTypesArguments environment.floating (environment.signature signature).parameters
          arguments
      some ()
  | _, _ => none

/-! ## Trees -/

/-- `node.polymorphic_function`; a call has taken that of its callee. -/
def Expression.polymorphicFunction (environment : Environment) :
    Expression → Option PolymorphicFunction
  | .identifier name =>
      match environment.symbols name with
      | some (.polymorphicFunction function) => some (.builtIn function)
      | _ => none
  | .unaryArithmetic operator _ => some (.unary operator)
  | .binaryArithmetic operator _ _ => some (.binary operator)
  | .call expression _ => expression.polymorphicFunction environment
  | _ => none

mutual

/-- The visitor on an expression: what it gives the node, none inside for a node
without a type. -/
def Expression.check (environment : Environment) : Expression → Option (Option Eval)
  | .literal literal =>
      some (some
        ⟨⟨.value, .basic literal.kind, some literal.value⟩, .immutable, .immutable⟩)
  | .identifier name => do
      let symbol ← environment.symbols name
      let eval ← symbol.check
      some (some eval)
  | .typeExpression type => some (some ⟨⟨.type, type.val, none⟩, .immutable, .immutable⟩)
  | .unaryArithmetic operator child => do
      let argument ← child.check environment
      PolymorphicFunction.check environment (environment.leftover (.unaryArithmetic operator child))
        [argument] (.unary operator)
  | .binaryArithmetic operator left right => do
      let leftEval ← left.check environment
      let rightEval ← right.check environment
      PolymorphicFunction.check environment
        (environment.leftover (.binaryArithmetic operator left right)) [leftEval, rightEval]
        (.binary operator)
  | .call expression arguments => do
      let callee ← expression.check environment
      let evals ← arguments.check environment
      match callee.filter Eval.isType, evals with
      | some type, [some argument] => do
          let eval ← environment.checkConversion type argument
          some (some eval)
      | some _, _ => none
      | none, evals =>
          match expression.polymorphicFunction environment with
          | some function =>
              function.check environment (environment.leftover (.call expression arguments)) evals
          | none => do
              let callee ← callee
              environment.checkCall callee evals
  | .conversion type argument => do
      let type ← type.check environment
      let argument ← argument.check environment
      let type ← type
      let argument ← argument
      let eval ← environment.checkConversion type argument
      some (some eval)
  | .dereference child => do
      let child ← child.check environment
      let child ← child
      let eval ← environment.checkDereference child
      some (some eval)
  | .addressOf child => do
      let child ← child.check environment
      let child ← child
      let eval ← checkAddressOf child
      some (some eval)
  | .select base identifier => do
      let base ← base.check environment
      let base ← base
      let eval ← environment.checkSelect base identifier
      some (some eval)
  | .index base index => do
      let base ← base.check environment
      let index ← index.check environment
      let base ← base
      let index ← index
      let eval ← environment.checkIndex base index
      some (some eval)
  | .indexSlice base low high max => do
      let base ← base.check environment
      let base ← base
      let low ← low.check environment
      let high ← high.check environment
      let max ← max.check environment
      let eval ← environment.checkIndexSlice base low high max
      some (some eval)
  | .pushPortCall identifier arguments => do
      let evals ← arguments.check environment
      environment.checkPort identifier none evals
      some none
  | .indexedPushPortCall identifier index arguments => do
      let index ← index.check environment
      let index ← index
      let evals ← arguments.check environment
      environment.checkPort identifier (some index) evals
      some none
  -- `assert (false)`
  | .compositeLiteral _ _ => none

/-- `visit (ExpressionList)`. -/
def Arguments.check (environment : Environment) : Arguments → Option (List (Option Eval))
  | .nil => some []
  | .cons expression rest => do
      let eval ← expression.check environment
      let evals ← rest.check environment
      some (eval :: evals)

/-- A bound, if it is there. -/
def Bound.check (environment : Environment) : Bound → Option (Option Eval)
  | .absent => some none
  | .present expression => do
      let eval ← expression.check environment
      let eval ← eval
      some (some eval)

end

end Rcgo.Checker
