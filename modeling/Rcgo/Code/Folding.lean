import Rcgo.Code.Arithmetic

/-!
# Binary operators in the checker

`BinaryArithmetic::check` and `BinaryShift::check` give the result of a binary
operator its type and, where the operands allow it, its value.  A check that
reports an error, fails an assertion or reaches code marked unreachable has no
result.
-/

namespace Rcgo.Code

/-- `semantic::ExpressionKind`. -/
inductive ExpressionKind where
  | unknown
  | error
  | value
  | variable
  | type
  | emptyType
  | void
  deriving DecidableEq, Repr

/-- `ExpressionValue`: what the checker knows of an expression.  The value is
there when the expression is constant. -/
structure ExpressionValue where
  expressionKind : ExpressionKind
  type : DataType
  value : Option Value
  deriving DecidableEq

/-- `::BinaryArithmetic`. -/
inductive BinaryArithmetic where
  | multiply
  | divide
  | modulus
  | leftShift
  | rightShift
  | bitAnd
  | bitAndNot
  | add
  | subtract
  | bitOr
  | bitXor
  | equal
  | notEqual
  | lessThan
  | lessEqual
  | moreThan
  | moreEqual
  | logicOr
  | logicAnd
  deriving DecidableEq, Repr

namespace Kind

/-- The numeric kinds of `convert_numeric`. -/
def isNumeric (kind : Kind) : Bool :=
  kind.isTypedInteger || kind.isTypedFloat || kind.isTypedComplex || kind.isUntypedNumeric

/-- The kinds in the switch of `Arithmetic::pick`. -/
def isArithmetic (kind : Kind) : Bool :=
  kind.isNumeric

/-- The kinds in the switch of `Comparable::pick`. -/
def isComparable (kind : Kind) : Bool :=
  kind.isNumeric || kind == untypedNil || kind == untypedBoolean || kind == untypedString ||
    kind == bool || kind == string || kind == pointer

/-- The kinds in the switch of `Orderable::pick`. -/
def isOrderable (kind : Kind) : Bool :=
  kind.isTypedInteger || kind.isTypedFloat || kind == untypedRune || kind == untypedInteger ||
    kind == untypedFloat || kind == untypedString || kind == string

/-- The untyped kinds of the partner in `Integral::pick`. -/
def isUntypedIntegral (kind : Kind) : Bool :=
  kind == untypedRune || kind == untypedInteger

/-- The untyped kinds of the partner in `Orderable::pick`. -/
def isUntypedReal (kind : Kind) : Bool :=
  kind == untypedRune || kind == untypedInteger || kind == untypedFloat

end Kind

/-- `choose`: the type of the greater kind. -/
def choose (x y : DataType) : DataType :=
  if y.kind.ctorIdx < x.kind.ctorIdx then x else y

/-- The switch that the pickers share: an untyped numeric type goes with the
partners given for it, any other kind in the switch with the same type. -/
def pickType (accepted partner : Kind → Bool) (left right : DataType) : Option DataType :=
  if accepted left.underlyingKind then
    if left.underlyingKind.isUntypedNumeric then
      if partner right.underlyingKind then some (choose left right) else none
    else if left = right then some left
    else none
  else none

/-- `Arithmetic::pick`. -/
def pickArithmetic : DataType → DataType → Option DataType :=
  pickType Kind.isArithmetic Kind.isUntypedNumeric

/-- `Integral::pick`. -/
def pickIntegral : DataType → DataType → Option DataType :=
  pickType Kind.isIntegral Kind.isUntypedIntegral

/-- `Comparable::pick`. -/
def pickComparable : DataType → DataType → Option DataType :=
  pickType Kind.isComparable Kind.isUntypedNumeric

/-- `Orderable::pick`. -/
def pickOrderable : DataType → DataType → Option DataType :=
  pickType Kind.isOrderable Kind.isUntypedReal

/-- `Logical::pick`. -/
def pickLogical (left right : DataType) : Option DataType :=
  if left.underlyingKind.isAnyBoolean && right.underlyingKind.isAnyBoolean then
    some (choose left right)
  else none

/-- The input picker of an operator that is not a shift. -/
def BinaryArithmetic.pick : BinaryArithmetic → DataType → DataType → Option DataType
  | multiply | divide | add | subtract => pickArithmetic
  | modulus | bitAnd | bitAndNot | bitOr | bitXor => pickIntegral
  | equal | notEqual => pickComparable
  | lessThan | lessEqual | moreThan | moreEqual => pickOrderable
  | logicOr | logicAnd => pickLogical
  | leftShift | rightShift => fun _ _ => none

/-- The operators with `BooleanPicker` as their output picker. -/
def BinaryArithmetic.isBoolean : BinaryArithmetic → Bool
  | equal | notEqual | lessThan | lessEqual | moreThan | moreEqual | logicOr | logicAnd => true
  | _ => false

namespace Value

/-- `Value::convert`; none where the type it is converted from is marked
unreachable. -/
def convert (floating : Floating) (source target : DataType) (value : Value) : Option Value :=
  let target := target.underlyingKind
  let source := source.underlyingKind
  -- There is no case for an untyped complex number.
  if source.isNumeric ∧ source ≠ .untypedComplex then
    match value with
    | bits word =>
        if target.isNumeric then
          if target = .untypedRune ∨ target = .untypedComplex then none
          else some (bits (floating.convertNumeric source target word))
        else some value
    | text _ => none
  else
    match source with
    | .untypedBoolean | .untypedString => some value
    | .untypedNil => some (if target = .pointer ∨ target = .slice then bits 0 else value)
    | _ => none

/-- `Value::representable`, with its assertions. -/
def representable (floating : Floating) (source target : DataType) (value : Option Value) :
    Option Bool :=
  if source.isUntyped && !target.isUntyped then
    match source.underlyingKind, value with
    | .untypedNil, some _ =>
        some (target.underlyingKind == .pointer || target.underlyingKind == .slice)
    | .untypedBoolean, some _ => some (target.underlyingKind == .bool)
    | .untypedString, some _ => some (target.underlyingKind == .string)
    | kind, some (bits word) =>
        some (target.underlyingKind.isNumeric &&
          floating.toAndBack kind target.underlyingKind word)
    | _, _ => none
  else none

end Value

/-- `ExpressionValue::convert`. -/
def ExpressionValue.convert (floating : Floating) (type : DataType) (expression : ExpressionValue) :
    Option ExpressionValue :=
  if expression.type = type then some expression
  else
    match expression.value with
    | none => some { expression with type := type }
    | some value =>
        (value.convert floating expression.type type).map fun value =>
          { expression with type := type, value := some value }

/-- `ExpressionValue::is_value_or_variable`. -/
def ExpressionValue.isValueOrVariable (expression : ExpressionValue) : Bool :=
  expression.expressionKind == .value || expression.expressionKind == .variable

/-- `are_assignable`. -/
def areAssignable (floating : Floating) (source : DataType) (value : Option Value)
    (target : DataType) : Option Bool :=
  if target.isUntyped then some false
  else if source = target then some true
  else if source.underlyingType = target.underlyingType ∧ (!source.isNamed || !target.isNamed) then
    some true
  else if source.kind = .untypedNil ∧
      target.underlyingKind ∈ [Kind.pointer, .function, .slice, .map, .interface] then
    some true
  else if source.isUntyped then Value.representable floating source target value
  else some false

/-- The switch of `multiply`, `divide`, `add` and `subtract` in `value.cpp`. -/
def computeArithmetic (floating : Floating) (operator : CxxOperator) (kind : Kind)
    (left right : Value) : Option Value :=
  match kind with
  | .untypedRune | .untypedInteger | .untypedFloat | .untypedComplex
  | .uint8 | .uint16 | .uint32 | .uint64 | .int8 | .int16 | .int32 | .int64
  | .float32 | .float64 | .complex64 | .complex128 | .uint | .int | .uintptr =>
      kind.cType.bind fun type => Cxx.apply floating type operator left right
  | _ => none

/-- The switch of `modulus`, `bit_and`, `bit_and_not`, `bit_or` and `bit_xor`. -/
def computeIntegral (floating : Floating) (operator : CxxOperator) (kind : Kind)
    (left right : Value) : Option Value :=
  match kind with
  | .untypedRune | .untypedInteger
  | .uint8 | .uint16 | .uint32 | .uint64 | .int8 | .int16 | .int32 | .int64
  | .uint | .int | .uintptr =>
      kind.cType.bind fun type => Cxx.apply floating type operator left right
  | _ => none

/-- The switch of `equal` and `not_equal`; the value for two `nil` is given. -/
def computeEquality (floating : Floating) (operator : CxxOperator) (ofNil : Bool) (kind : Kind)
    (left right : Value) : Option Value :=
  match kind with
  | .untypedNil => some (Cxx.ofBool ofNil)
  | .untypedBoolean | .untypedRune | .untypedInteger | .untypedFloat | .untypedComplex
  | .untypedString | .bool
  | .uint8 | .uint16 | .uint32 | .uint64 | .int8 | .int16 | .int32 | .int64
  | .float32 | .float64 | .complex64 | .complex128 | .uint | .int | .uintptr
  | .string | .pointer =>
      kind.cType.bind fun type => Cxx.apply floating type operator left right
  | _ => none

/-- The switch of `less_than`, `less_equal`, `more_than` and `more_equal`. -/
def computeOrder (floating : Floating) (operator : CxxOperator) (kind : Kind)
    (left right : Value) : Option Value :=
  match kind with
  | .untypedRune | .untypedInteger | .untypedFloat | .untypedString
  | .uint8 | .uint16 | .uint32 | .uint64 | .int8 | .int16 | .int32 | .int64
  | .float32 | .float64 | .uint | .int | .uintptr | .string =>
      kind.cType.bind fun type => Cxx.apply floating type operator left right
  | _ => none

/-- The functions of `value.cpp` that the operators fold constants with. -/
def BinaryArithmetic.fold (floating : Floating) :
    BinaryArithmetic → Kind → Value → Value → Option Value
  | multiply => computeArithmetic floating .times
  | divide => computeArithmetic floating .over
  | modulus => computeIntegral floating .remainder
  | bitAnd => computeIntegral floating .bitAnd
  | bitAndNot => computeIntegral floating .bitAndNot
  | add => computeArithmetic floating .plus
  | subtract => computeArithmetic floating .minus
  | bitOr => computeIntegral floating .bitOr
  | bitXor => computeIntegral floating .bitXor
  | equal => computeEquality floating .equals true
  | notEqual => computeEquality floating .differs false
  | lessThan => computeOrder floating .less
  | lessEqual => computeOrder floating .lessEqual
  | moreThan => computeOrder floating .more
  | moreEqual => computeOrder floating .moreEqual
  | _ => fun _ _ _ => none

/-- The `bool` in a value. -/
def Value.toBool : Value → Bool
  | bits word => word % 256 != 0
  | text _ => false

/-- `LogicOrComputer::compute`. -/
def computeLogicOr (left right : Option Value) : Option Value :=
  left.bind fun left =>
    if left.toBool then some (Cxx.ofBool true) else right.map fun right => Cxx.ofBool right.toBool

/-- `LogicAndComputer::compute`. -/
def computeLogicAnd (left right : Option Value) : Option Value :=
  left.bind fun left =>
    if !left.toBool then some (Cxx.ofBool false) else right.map fun right => Cxx.ofBool right.toBool

/-- The computers of the operators that are not shifts.  The result is none
where the computer stops the compiler. -/
def BinaryArithmetic.compute (floating : Floating) (operator : BinaryArithmetic) (type : DataType)
    (left right : Option Value) : Option (Option Value) :=
  match operator, left, right with
  | logicOr, left, right => some (computeLogicOr left right)
  | logicAnd, left, right => some (computeLogicAnd left right)
  | operator, some left, some right =>
      (operator.fold floating type.underlyingKind left right).map some
  | _, _, _ => some none

/-- The operands and the result of an operator after its check. -/
structure CheckedOperator where
  left : ExpressionValue
  right : ExpressionValue
  result : ExpressionValue

/-- `UntypedBoolean::instance ()` where both operands are constant, else
`Bool::instance ()`. -/
def pickBoolean (left right : ExpressionValue) : DataType :=
  if left.value.isSome && right.value.isSome then .basic .untypedBoolean else .basic .bool

/-- The type of the result, by the output picker of the operator. -/
def BinaryArithmetic.pickResult (operator : BinaryArithmetic) (type : DataType)
    (left right : ExpressionValue) : DataType :=
  if operator.isBoolean then pickBoolean left right else type

/-- The end of `BinaryArithmetic::check`: both operands have the type. -/
def BinaryArithmetic.conclude (floating : Floating) (operator : BinaryArithmetic)
    (type : DataType) (left right : ExpressionValue) : Option CheckedOperator :=
  (operator.compute floating type left.value right.value).map fun value =>
    { left, right,
      result :=
        { expressionKind := .value, type := operator.pickResult type left right, value } }

/-- One of the operands is assignable to the type of the other. -/
def eitherAssignable (floating : Floating) (left right : ExpressionValue) : Option Bool :=
  (areAssignable floating left.type left.value right.type).bind fun assignable =>
    if assignable then some true else areAssignable floating right.type right.value left.type

/-- `BinaryArithmetic::check`. -/
def BinaryArithmetic.checkArithmetic (floating : Floating) (operator : BinaryArithmetic)
    (left right : ExpressionValue) : Option CheckedOperator := do
  guard (left.isValueOrVariable && right.isValueOrVariable)
  if left.type.isUntyped && right.type.isUntyped then
    let type ← operator.pick left.type right.type
    let left ← left.convert floating type
    let right ← right.convert floating type
    operator.conclude floating type left right
  else
    let assignable ← eitherAssignable floating left right
    guard assignable
    let type := choose left.type right.type
    let left ← left.convert floating type
    let right ← right.convert floating type
    let _ ← operator.pick type type
    operator.conclude floating type left right

/-- The switch of `BinaryShift::check` over the type of the left operand. -/
def computeShift (operator : ShiftOperator) (kind : Kind) (left right : Value) : Option Value :=
  match kind with
  | .uint8 | .uint16 | .uint32 | .uint64 | .int8 | .int16 | .int32 | .int64
  | .uint | .int | .uintptr | .untypedRune | .untypedInteger =>
      kind.cType.bind fun type => Cxx.shift type operator left right
  | _ => none

/-- The right operand of a shift: a constant is converted to `uint`. -/
def convertCount (floating : Floating) (right : ExpressionValue) : Option ExpressionValue :=
  match right.value with
  | none => some right
  | some value => do
      let representable ← Value.representable floating right.type (.basic .uint) (some value)
      guard representable
      let value ← value.convert floating right.type (.basic .uint)
      some { right with type := .basic .uint, value := some value }

/-- The value of a shift, where both operands are constant. -/
def computeShiftValue (operator : ShiftOperator) (kind : Kind) (left right : Option Value) :
    Option (Option Value) :=
  match left, right with
  | some left, some right => (computeShift operator kind left right).map some
  | _, _ => some none

/-- `BinaryShift::check`. -/
def checkShift (floating : Floating) (operator : ShiftOperator) (left right : ExpressionValue) :
    Option CheckedOperator := do
  guard (left.isValueOrVariable && right.isValueOrVariable)
  guard (right.type.underlyingKind.isTypedUnsignedInteger ||
    right.type.underlyingKind.isUntypedNumeric)
  let right ← convertCount floating right
  guard left.type.underlyingKind.isIntegral
  let value ← computeShiftValue operator left.type.underlyingKind left.value right.value
  some { left, right, result := { expressionKind := .value, type := left.type, value } }

/-- The check of a binary operator. -/
def BinaryArithmetic.check (floating : Floating) (operator : BinaryArithmetic)
    (left right : ExpressionValue) : Option CheckedOperator :=
  match operator with
  | leftShift => checkShift floating .left left right
  | rightShift => checkShift floating .right left right
  | _ => operator.checkArithmetic floating left right

end Rcgo.Code
