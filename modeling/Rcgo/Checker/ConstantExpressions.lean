import Rcgo.Checker.OperatorConstants
import Rcgo.Code.DefinedArithmetic

/-!
# Constant expressions

Expressions of literals, named constants and operators.  Here a check that
reports an error is told apart from one that does not come to an end: an
assertion fails, code marked unreachable is reached or an operation of C++ is
undefined.  Beside the checker stands what an expression means, with exact
integers.
-/

namespace Rcgo.Code

/-! ## The checks of the operators

None stands for a check that does not come to an end, none inside for an error
that is reported. -/

/-- `BinaryArithmetic::check`. -/
def BinaryArithmetic.examineArithmetic (floating : Floating) (operator : BinaryArithmetic)
    (left right : ExpressionValue) : Option (Option CheckedOperator) :=
  if left.isValueOrVariable && right.isValueOrVariable then
    if left.type.isUntyped && right.type.isUntyped then
      match operator.pick left.type right.type with
      | none => some none
      | some type => do
          let left ← left.convert floating type
          let right ← right.convert floating type
          let checked ← operator.conclude floating type left right
          some (some checked)
    else do
      let assignable ← eitherAssignable floating left right
      if assignable then do
        let type := choose left.type right.type
        let left ← left.convert floating type
        let right ← right.convert floating type
        match operator.pick type type with
        | none => some none
        | some _ => do
            let checked ← operator.conclude floating type left right
            some (some checked)
      else some none
  else some none

/-- The right operand of a shift. -/
def examineCount (floating : Floating) (right : ExpressionValue) : Option (Option ExpressionValue) :=
  match right.value with
  | none => some (some right)
  | some value => do
      let representable ← Value.representable floating right.type (.basic .uint) (some value)
      if representable then do
        let value ← value.convert floating right.type (.basic .uint)
        some (some { right with type := .basic .uint, value := some value })
      else some none

/-- `BinaryShift::check`. -/
def examineShift (floating : Floating) (operator : ShiftOperator) (left right : ExpressionValue) :
    Option (Option CheckedOperator) :=
  if left.isValueOrVariable && right.isValueOrVariable then
    if right.type.underlyingKind.isTypedUnsignedInteger ||
        right.type.underlyingKind.isUntypedNumeric then do
      let count ← examineCount floating right
      match count with
      | none => some none
      | some right =>
          if left.type.underlyingKind.isIntegral then do
            let value ← computeShiftValue operator left.type.underlyingKind left.value right.value
            some (some
              { left, right, result := { expressionKind := .value, type := left.type, value } })
          else some none
    else some none
  else some none

/-- The check of a binary operator. -/
def BinaryArithmetic.examine (floating : Floating) (operator : BinaryArithmetic)
    (left right : ExpressionValue) : Option (Option CheckedOperator) :=
  match operator with
  | leftShift => examineShift floating .left left right
  | rightShift => examineShift floating .right left right
  | _ => operator.examineArithmetic floating left right

/-! ## What the operators mean -/

/-- The operator of C++ that constants are folded with. -/
def BinaryArithmetic.cxxOperator : BinaryArithmetic → Option CxxOperator
  | multiply => some .times
  | divide => some .over
  | modulus => some .remainder
  | bitAnd => some .bitAnd
  | bitAndNot => some .bitAndNot
  | add => some .plus
  | subtract => some .minus
  | bitOr => some .bitOr
  | bitXor => some .bitXor
  | equal => some .equals
  | notEqual => some .differs
  | lessThan => some .less
  | lessEqual => some .lessEqual
  | moreThan => some .more
  | moreEqual => some .moreEqual
  | leftShift | rightShift | logicOr | logicAnd => none

/-- The value of an operator that is not a shift. -/
def BinaryArithmetic.meaning (floating : Floating) (operator : BinaryArithmetic) (kind : Kind)
    (x y : Value) : Value :=
  match operator, kind.integerType, operator.cxxOperator, x, y with
  | logicOr, _, _, x, y => Cxx.ofBool (x.toBool || y.toBool)
  | logicAnd, _, _, x, y => Cxx.ofBool (x.toBool && y.toBool)
  | _, some (signed, width), some cxxOperator, .bits x, .bits y =>
      Cxx.integerResult signed width (Cxx.readInteger signed width x)
        (Cxx.readInteger signed width y) cxxOperator
  | operator, _, _, x, y => (operator.fold floating kind x y).getD (.bits 0)

/-- The operands are integers for which the operator is undefined. -/
def BinaryArithmetic.Undefined (operator : BinaryArithmetic) (kind : Kind) (x y : Value) : Prop :=
  match kind.integerType, operator.cxxOperator, x, y with
  | some (signed, width), some cxxOperator, .bits x, .bits y =>
      Cxx.Undefined signed width (Cxx.readInteger signed width x) (Cxx.readInteger signed width y)
        cxxOperator
  | _, _, _, _ => False

def ShiftOperator.meaning (operator : ShiftOperator) (kind : Kind) (x count : Value) : Value :=
  match kind.integerType, x, count with
  | some (signed, width), .bits x, .bits count =>
      Cxx.shiftResult width (Cxx.readInteger signed width x) (count % 2 ^ 64) operator
  | _, x, _ => x

/-- The shift of the integer by the count is undefined. -/
def ShiftOperator.Undefined (operator : ShiftOperator) (kind : Kind) (x count : Value) : Prop :=
  match kind.integerType, x, count with
  | some (signed, width), .bits x, .bits count =>
      Cxx.UndefinedShift signed width (Cxx.readInteger signed width x) (count % 2 ^ 64) operator
  | _, _, _ => False

/-- `Value::convert` has a case for the kinds. -/
def Kind.convertsTo (source target : Kind) : Bool :=
  match source with
  | untypedNil | untypedBoolean | untypedString => true
  | _ =>
      source.isNumeric && source != untypedComplex && target != untypedRune &&
        target != untypedComplex

/-- A type and a constant of it. -/
structure Folded where
  type : DataType
  value : Value

namespace Folded

def expression (folded : Folded) : ExpressionValue :=
  ⟨.value, folded.type, some folded.value⟩

def convert (floating : Floating) (type : DataType) (folded : Folded) : Value :=
  if folded.type = type then folded.value
  else (folded.value.convert floating folded.type type).getD folded.value

/-- The constant has another type and cannot be converted. -/
def Stuck (type : DataType) (folded : Folded) : Prop :=
  folded.type ≠ type ∧ folded.type.underlyingKind.convertsTo type.underlyingKind = false

end Folded

namespace BinaryArithmetic

variable (floating : Floating) (operator : BinaryArithmetic) (left right : Folded)

/-- The type that the operands are converted to, if they go together. -/
def operandType : Option DataType :=
  if left.type.isUntyped && right.type.isUntyped then operator.pick left.type right.type
  else if eitherAssignable floating left.expression right.expression = some true then
    some (choose left.type right.type)
  else none

/-- The result of an operator that is not a shift. -/
def arithmeticMeans : Option Folded :=
  (operator.operandType floating left right).bind fun type =>
    if (operator.pick type type).isSome then
      some
        { type := if operator.isBoolean then .basic .untypedBoolean else type
          value :=
            operator.meaning floating type.underlyingKind (left.convert floating type)
              (right.convert floating type) }
    else none

/-- The operands go together, and one of them cannot be converted or the
operator is undefined for them. -/
def ArithmeticFails : Prop :=
  ∃ type, operator.operandType floating left right = some type ∧
    (left.Stuck type ∨ right.Stuck type ∨
      (operator.pick type type).isSome = true ∧
        operator.Undefined type.underlyingKind (left.convert floating type)
          (right.convert floating type))

end BinaryArithmetic

namespace ShiftOperator

variable (floating : Floating) (operator : ShiftOperator) (left right : Folded)

/-- The right operand is an untyped number that fits into a `uint`. -/
def TakesCount : Prop :=
  right.type.underlyingKind.isUntypedNumeric = true ∧
    Value.representable floating right.type (.basic .uint) (some right.value) = some true

instance : Decidable (TakesCount floating right) := by
  unfold TakesCount
  infer_instance

/-- The result of a shift. -/
def means : Option Folded :=
  if TakesCount floating right ∧ left.type.underlyingKind.isIntegral = true then
    some
      { type := left.type
        value :=
          operator.meaning left.type.underlyingKind left.value
            (right.convert floating (.basic .uint)) }
  else none

/-- The count is a typed constant, for which `Value::representable` has an
assertion, or a complex number, which cannot be converted, or the shift is
undefined. -/
def Fails : Prop :=
  right.type.underlyingKind.isTypedUnsignedInteger = true ∨
    TakesCount floating right ∧
      (right.type.underlyingKind = .untypedComplex ∨
        left.type.underlyingKind.isIntegral = true ∧
          operator.Undefined left.type.underlyingKind left.value
            (right.convert floating (.basic .uint)))

end ShiftOperator

namespace BinaryArithmetic

def means (floating : Floating) (left right : Folded) : BinaryArithmetic → Option Folded
  | leftShift => ShiftOperator.left.means floating left right
  | rightShift => ShiftOperator.right.means floating left right
  | operator => operator.arithmeticMeans floating left right

/-- The check of a binary operator does not come to an end. -/
def Fails (floating : Floating) (left right : Folded) : BinaryArithmetic → Prop
  | leftShift => ShiftOperator.left.Fails floating left right
  | rightShift => ShiftOperator.right.Fails floating left right
  | operator => operator.ArithmeticFails floating left right

end BinaryArithmetic

end Rcgo.Code

namespace Rcgo.Checker

open Rcgo.Code

namespace UnaryOperator

/-- The check of a unary operator: none where it does not come to an end, none
inside where an error is reported. -/
def examine (environment : Environment) (operator : UnaryOperator) (leftover : Nat)
    (argument : ExpressionValue) : Option (Option ExpressionValue) :=
  if argument.isValueOrVariable && operator.applies argument.type.underlyingKind then
    (operator.check environment leftover argument).map some
  else some none

/-- The value of a unary operator.  The member that is written is that of the
code. -/
def meaning (environment : Environment) (operator : UnaryOperator) (kind : Kind) (leftover : Nat)
    (value : Value) : Value :=
  match operator, kind.unaryMember, value with
  | .logicNot, _, value => Cxx.ofBool !value.toBool
  | .arithmetic .negate, some (signed, width), .bits word =>
      .bits (Cxx.storeMember width leftover
        (Cxx.writeInteger width (-Cxx.readInteger signed width word)))
  | .arithmetic .complement, some (signed, width), .bits word =>
      .bits (Cxx.storeMember width leftover
        (Cxx.writeInteger width (-Cxx.readInteger signed width word - 1)))
  | .arithmetic .negate, none, .bits word => .bits (environment.negateFloating kind word)
  | _, _, value => value

def Undefined (operator : UnaryOperator) (kind : Kind) (value : Value) : Prop :=
  match operator, kind.unaryMember, value with
  | .arithmetic .negate, some (signed, width), .bits word =>
      Cxx.IsLeast signed width (Cxx.readInteger signed width word)
  | _, _, _ => False

/-- The result of a unary operator. -/
def means (environment : Environment) (operator : UnaryOperator) (leftover : Nat)
    (argument : Folded) : Option Folded :=
  if operator.applies argument.type.underlyingKind then
    some
      { type := argument.type
        value :=
          operator.meaning environment argument.type.underlyingKind leftover argument.value }
  else none

/-- The operator is applied to a constant that it is undefined for. -/
def Fails (operator : UnaryOperator) (argument : Folded) : Prop :=
  operator.applies argument.type.underlyingKind = true ∧
    operator.Undefined argument.type.underlyingKind argument.value

end UnaryOperator

/-! ## Expressions -/

/-- What the checker has written into a node. -/
structure Node where
  expressionKind : ExpressionKind
  type : Option DataType
  value : Option Value
  deriving DecidableEq

namespace Node

def unknown : Node :=
  ⟨.unknown, none, none⟩

def error : Node :=
  { unknown with expressionKind := .error }

def checked (result : ExpressionValue) : Node :=
  { unknown with
    expressionKind := result.expressionKind, type := some result.type, value := result.value }

def ofResult (result : Option ExpressionValue) : Node :=
  result.elim error checked

/-- The node as an operand, unless there is an error. -/
def operand (node : Node) : Option ExpressionValue :=
  if node.expressionKind = .error then none
  else node.type.map fun type => ⟨node.expressionKind, type, node.value⟩

/-- The node has an error and no value, or it has a constant. -/
def Settled (node : Node) : Prop :=
  node.expressionKind = .error ∧ node.value = none ∨
    node.expressionKind = .value ∧ node.type.isSome = true ∧ node.value.isSome = true

end Node

/-- An expression built from literals, named constants and operators. -/
inductive ConstantExpression where
  | literal (literal : Literal)
  | constant (symbol : Constant)
  | unaryArithmetic (operator : UnaryOperator) (child : ConstantExpression)
  | binaryArithmetic (operator : Code.BinaryArithmetic) (left right : ConstantExpression)

namespace ConstantExpression

/-- The expression with names for its constants. -/
def toExpression (name : Constant → String) : ConstantExpression → Expression
  | literal token => .literal token
  | constant symbol => .identifier (name symbol)
  | unaryArithmetic operator child => .unaryArithmetic operator (child.toExpression name)
  | binaryArithmetic operator left right =>
      .binaryArithmetic operator (left.toExpression name) (right.toExpression name)

variable (environment : Environment) (leftover : ConstantExpression → Nat)

/-- The visitor of `check_types.cpp`.  Both operands are visited, also where
there is an error in one of them. -/
def examine : ConstantExpression → Option Node
  | literal token => some (.checked ⟨.value, .basic token.kind, some token.value⟩)
  | constant symbol => some (.checked ⟨.value, symbol.type, some symbol.value⟩)
  | unaryArithmetic operator child => do
      let node ← child.examine
      match node.operand with
      | none => some .error
      | some argument => do
          let result ←
            operator.examine environment (leftover (unaryArithmetic operator child)) argument
          some (.ofResult result)
  | binaryArithmetic operator left right => do
      let leftNode ← left.examine
      let rightNode ← right.examine
      match leftNode.operand, rightNode.operand with
      | some left, some right => do
          let checked ← operator.examine environment.floating left right
          some (.ofResult (checked.map CheckedOperator.result))
      | _, _ => some .error

/-- The constant that the expression stands for, none for an error. -/
def meaning : ConstantExpression → Option Folded
  | literal token => some ⟨.basic token.kind, token.value⟩
  | constant symbol => some ⟨symbol.type, symbol.value⟩
  | unaryArithmetic operator child =>
      child.meaning.bind
        (operator.means environment (leftover (unaryArithmetic operator child)))
  | binaryArithmetic operator left right =>
      left.meaning.bind fun x => right.meaning.bind fun y => operator.means environment.floating x y

/-- Some operator of the expression fails for the constants that its operands
stand for. -/
def Fails : ConstantExpression → Prop
  | literal _ => False
  | constant _ => False
  | unaryArithmetic operator child =>
      child.Fails ∨ ∃ argument, child.meaning environment leftover = some argument ∧
        operator.Fails argument
  | binaryArithmetic operator left right =>
      left.Fails ∨ right.Fails ∨ ∃ x y, left.meaning environment leftover = some x ∧
        right.meaning environment leftover = some y ∧ operator.Fails environment.floating x y

end ConstantExpression

end Rcgo.Checker
