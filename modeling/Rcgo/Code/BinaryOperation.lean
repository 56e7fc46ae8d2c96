import Rcgo.Code.Folding

/-!
# Operations of binary operators

The functors of `semantic.hpp`, the operations `Binary`, `Shift`, `LogicOr` and
`LogicAnd`, and the functions that pick one of them by the kind of a type.  None
stands for a kind that is marked unreachable.
-/

namespace Rcgo.Code

/-- The function objects of `semantic.hpp` for the operations `Binary`. -/
inductive Functor where
  | multiplier
  | divider
  | modulizer
  | bitAnder
  | bitAndNotter
  | adder
  | subtracter
  | bitOrer
  | bitXorer
  | equalizer
  | notEqualizer
  | lessThaner
  | lessEqualizer
  | moreThaner
  | moreEqualizer
  deriving DecidableEq, Repr

/-- The operator in the body of a function object. -/
def Functor.operator : Functor → CxxOperator
  | multiplier => .times
  | divider => .over
  | modulizer => .remainder
  | bitAnder => .bitAnd
  | bitAndNotter => .bitAndNot
  | adder => .plus
  | subtracter => .minus
  | bitOrer => .bitOr
  | bitXorer => .bitXor
  | equalizer => .equals
  | notEqualizer => .differs
  | lessThaner => .less
  | lessEqualizer => .lessEqual
  | moreThaner => .more
  | moreEqualizer => .moreEqual

/-- Whether the result of a function object is a `bool`. -/
def Functor.isPredicate : Functor → Bool
  | equalizer | notEqualizer | lessThaner | lessEqualizer | moreThaner | moreEqualizer => true
  | _ => false

/-- The operation of a binary operator, without those of its operands.  The
count of a shift goes through `ConvertToUint` for its kind. -/
inductive BinaryOperation where
  | binary (functor : Functor) (kind : Kind)
  | shift (operator : ShiftOperator) (kind count : Kind)
  | logicOr
  | logicAnd
  deriving DecidableEq, Repr

/-- `make_binary_arithmetic`. -/
def makeBinaryArithmetic (functor : Functor) (type : DataType) : Option BinaryOperation :=
  match type.underlyingKind with
  | .bool | .uint8 | .uint16 | .uint32 | .uint64 | .int8 | .int16 | .int32 | .int64
  | .float32 | .float64 | .complex64 | .complex128 | .uint | .int | .uintptr | .pointer =>
      some (.binary functor type.underlyingKind)
  | _ => none

/-- `make_binary_integral`. -/
def makeBinaryIntegral (functor : Functor) (type : DataType) : Option BinaryOperation :=
  match type.underlyingKind with
  | .uint8 | .uint16 | .uint32 | .uint64 | .int8 | .int16 | .int32 | .int64
  | .uint | .int | .uintptr =>
      some (.binary functor type.underlyingKind)
  | _ => none

/-- The kinds of `MakeConvertToUint` and `MakeConvertToInt`. -/
def makeConvertTo (type : DataType) : Option Kind :=
  match type.underlyingKind with
  | .uint8 | .uint16 | .uint32 | .uint64 | .int8 | .int16 | .int32 | .int64
  | .uint | .int | .uintptr => some type.underlyingKind
  | _ => none

/-- `make_shift`. -/
def makeShift (operator : ShiftOperator) (type : DataType) (count : Kind) :
    Option BinaryOperation :=
  match type.underlyingKind with
  | .uint8 | .uint16 | .uint32 | .uint64 | .int8 | .int16 | .int32 | .int64
  | .uint | .int | .uintptr => some (.shift operator type.underlyingKind count)
  | _ => none

/-- `generate_code` of a binary operator, from the type of its result and the
types of its operands. -/
def BinaryArithmetic.generateCode (operator : BinaryArithmetic) (result left right : DataType) :
    Option BinaryOperation :=
  match operator with
  | multiply => makeBinaryArithmetic .multiplier result
  | divide => makeBinaryArithmetic .divider result
  | modulus => makeBinaryIntegral .modulizer result
  | leftShift => (makeConvertTo right).bind (makeShift .left result)
  | rightShift => (makeConvertTo right).bind (makeShift .right result)
  | bitAnd => makeBinaryIntegral .bitAnder result
  | bitAndNot => makeBinaryIntegral .bitAndNotter result
  | add => makeBinaryIntegral .adder result
  | subtract => makeBinaryArithmetic .subtracter result
  | bitOr => makeBinaryIntegral .bitOrer result
  | bitXor => makeBinaryIntegral .bitXorer result
  | equal => makeBinaryArithmetic .equalizer left
  | notEqual => makeBinaryArithmetic .notEqualizer left
  | lessThan => makeBinaryArithmetic .lessThaner left
  | lessEqual => makeBinaryArithmetic .lessEqualizer left
  | moreThan => makeBinaryArithmetic .moreThaner left
  | moreEqual => makeBinaryArithmetic .moreEqualizer left
  | logicOr => some .logicOr
  | logicAnd => some .logicAnd

/-- `ConvertToUint<T>` on a value. -/
def convertToUint (kind : Kind) : Value → Option Value
  | .bits word =>
      match kind.cType with
      | some (.integer signed width) =>
          some (.bits (Cxx.writeInteger 64 (Cxx.readInteger signed width word)))
      | _ => none
  | .text _ => none

/-- What the operation leaves on the stack for the values of its operands.  The
right operand of `LogicOr` and `LogicAnd` is executed only where it is needed. -/
def BinaryOperation.compute (floating : Floating) (operation : BinaryOperation)
    (left right : Value) : Option Value :=
  match operation with
  | binary functor kind =>
      kind.cType.bind fun type => Cxx.apply floating type functor.operator left right
  | shift operator kind count =>
      (convertToUint count right).bind fun count =>
        kind.cType.bind fun type => Cxx.shift type operator left count
  | logicOr => some (Cxx.ofBool (left.toBool || right.toBool))
  | logicAnd => some (Cxx.ofBool (left.toBool && right.toBool))

/-- The operation generated for an operator after its check. -/
def CheckedOperator.generateCode (checked : CheckedOperator) (operator : BinaryArithmetic) :
    Option BinaryOperation :=
  operator.generateCode checked.result.type checked.left.type checked.right.type

end Rcgo.Code
