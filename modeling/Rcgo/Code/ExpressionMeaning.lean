import Rcgo.Code.Operation
import Rcgo.Code.Syntax

/-!
# The meaning of expressions

What an expression means in the source language: its operands from left to
right, then the operator.  A variable means its place, every other expression
its value; both are left on the stack, below which the callees find room for
their frames.
-/

namespace Rcgo.Code

open Rcgo.Foundation Machine

variable {World : Type}

/-- The place on top of the stack is replaced by the object there. -/
def fetch (type : DataType) : Run World Unit := do
  let place ← popPointer
  let size ← orStop type.size
  load place size

def convertTop (runtime : Runtime World) (source target : Kind) : Run World Unit := do
  let size ← orStop source.size
  let word ← pop size
  let targetSize ← orStop target.size
  push targetSize (convertKind runtime source target word)

/-- The characters of the string on top of the stack become the elements of a
new slice. -/
def stringToSlice (runtime : Runtime World) : Run World Unit := do
  let word ← pop (2 * wordBytes)
  let pointer ← use (runtime.allocate (word / 2 ^ 64))
  copy pointer (word % 2 ^ 64) (word / 2 ^ 64)
  pushSlice { pointer, length := word / 2 ^ 64, capacity := word / 2 ^ 64 }

/-- The elements of the slice on top of the stack become the characters of a new
string. -/
def sliceToString (runtime : Runtime World) : Run World Unit := do
  let s ← popSlice
  let pointer ← use (runtime.allocate s.length)
  copy pointer s.pointer s.length
  push (2 * wordBytes) (pointer + 2 ^ 64 * s.length)

/-- The slice on top of the stack gets elements of its own. -/
def copySlice (runtime : Runtime World) (unitSize : Nat) : Run World Unit := do
  let s ← popSlice
  let pointer ← use (runtime.allocate (unitSize * s.length))
  copy pointer s.pointer (unitSize * s.length)
  pushSlice { pointer, length := s.length, capacity := s.length }

/-- The string on top of the stack gets characters of its own. -/
def copyString (runtime : Runtime World) : Run World Unit := do
  let word ← pop (2 * wordBytes)
  let pointer ← use (runtime.allocate (word / 2 ^ 64))
  copy pointer (word % 2 ^ 64) (word / 2 ^ 64)
  push (2 * wordBytes) (pointer + 2 ^ 64 * (word / 2 ^ 64))

/-- The slice or the string on top of the stack gets elements of its own. -/
def copyTop (runtime : Runtime World) (type : DataType) : Run World Unit :=
  match type.underlyingType with
  | .slice element => do
      let unitSize ← orStop element.unitSize
      copySlice runtime unitSize
  | _ => copyString runtime

/-- A new object, or a new heap with an object as its root. -/
def pushNew (runtime : Runtime World) : DataType → Run World Unit
  | .heap base => do
      let size ← orStop base.size
      let link ← use (runtime.makeHeap size)
      pushPointer link
  | type => do
      let size ← orStop type.size
      let pointer ← use (runtime.allocate size)
      pushPointer pointer

/-- The slice below the element on top of the stack is made longer by it, in a
new array when the old one is full. -/
def appendTop (runtime : Runtime World) (unitSize : Nat) : Run World Unit := do
  let element ← pop 1
  let slice ← popSlice
  if slice.capacity < slice.length + 1 then do
    let pointer ← use (runtime.allocate (2 * (slice.length + 1) * unitSize))
    copy pointer slice.pointer (slice.length * unitSize)
    write (pointer + slice.length * unitSize) 1 element
    pushSlice { pointer, length := slice.length + 1, capacity := 2 * (slice.length + 1) }
  else do
    write (slice.pointer + slice.length * unitSize) 1 element
    pushSlice { slice with length := slice.length + 1 }

/-- The value on top of the stack is converted between types that are the same
underneath, between numbers, or between strings and slices of bytes. -/
def convertValue (runtime : Runtime World) (source target : DataType) : Run World Unit :=
  if source.underlyingType = target.underlyingType then pure ()
  else if source.underlyingKind = .slice ∧ target.underlyingKind = .string then
    sliceToString runtime
  else if source.underlyingKind = .string ∧ target.underlyingKind = .slice then
    stringToSlice runtime
  else convertTop runtime source.underlyingKind target.underlyingKind

/-- The element of a sequence from a place on; the index must be inside. -/
def pushElement (place unitSize : Nat) (length index : Int) : Run World Unit :=
  if index < 0 ∨ length ≤ index then stop else pushPointer (place + index.toNat * unitSize)

section Operators

variable (floating : Floating) (left right : Run World Unit)

/-- `left op right` for two operands of one kind; comparisons are `bool`s. -/
def operate (operator : CxxOperator) (comparison : Bool) (kind : Kind) : Run World Unit := do
  let size ← orStop kind.size
  left
  let x ← pop size
  right
  let y ← pop size
  let result ← orStop ((kind.cType.bind fun type =>
    Cxx.apply floating type operator (.bits x) (.bits y)).bind Value.word)
  push (if comparison then 1 else size) result

/-- `left << right` and `left >> right`; the count becomes an `unsigned long`. -/
def shiftBy (runtime : Runtime World) (operator : ShiftOperator) (kind count : Kind) :
    Run World Unit := do
  let size ← orStop kind.size
  left
  let x ← pop size
  right
  convertTop runtime count .uint
  let y ← pop wordBytes
  let result ← orStop ((kind.cType.bind fun type =>
    Cxx.shift type operator (.bits x) (.bits y)).bind Value.word)
  push size result

/-- The meaning of a binary operator over its operands.  The right operand of
`||` and `&&` is evaluated only where it decides. -/
def BinaryArithmetic.evaluate (runtime : Runtime World) (operator : BinaryArithmetic)
    (result leftType rightType : DataType) : Run World Unit :=
  let arithmetic (symbol : CxxOperator) :=
    operate runtime.floating left right symbol false result.underlyingKind
  let comparison (symbol : CxxOperator) :=
    operate runtime.floating left right symbol true leftType.underlyingKind
  match operator with
  | multiply => arithmetic .times
  | divide => arithmetic .over
  | modulus => arithmetic .remainder
  | leftShift => shiftBy left right runtime .left result.underlyingKind rightType.underlyingKind
  | rightShift => shiftBy left right runtime .right result.underlyingKind rightType.underlyingKind
  | bitAnd => arithmetic .bitAnd
  | bitAndNot => arithmetic .bitAndNot
  | add => arithmetic .plus
  | subtract => arithmetic .minus
  | bitOr => arithmetic .bitOr
  | bitXor => arithmetic .bitXor
  | equal => comparison .equals
  | notEqual => comparison .differs
  | lessThan => comparison .less
  | lessEqual => comparison .lessEqual
  | moreThan => comparison .more
  | moreEqual => comparison .moreEqual
  | logicOr => do
      left
      let b ← popBool
      if b then pushBool true else right
  | logicAnd => do
      left
      let b ← popBool
      if b then right else pushBool false

end Operators

namespace Expression

variable (expression : Expression) (evaluation : Run World Unit)

/-- The value of an expression is left on the stack: for a variable the object in
its place. -/
def valued : Run World Unit :=
  if expression.kind = .variable then do
    evaluation
    let type ← orStop expression.type
    fetch type
  else evaluation

/-- The value of an index or of a bound, as an `int`. -/
def asIndex (runtime : Runtime World) : Run World Int := do
  expression.valued evaluation
  let type ← orStop expression.type
  convertTop runtime type.underlyingKind .int
  popLong

/-- A receiver is what the method asks for: a pointer or the object itself. -/
def asReceiver (receiver : DataType) : Run World Unit :=
  if expression.isPointer then
    if receiver.underlyingKind = .pointer then expression.valued evaluation
    else do
      expression.valued evaluation
      fetch receiver
  else if receiver.underlyingKind = .pointer then evaluation
  else expression.valued evaluation

/-- The place of an element of an array or of a slice. -/
def element (index : Run World Int) : Run World Unit := do
  let type ← orStop expression.type
  match type.underlyingType with
  | .array dimension base => do
      let unitSize ← orStop base.unitSize
      evaluation
      let place ← popPointer
      let i ← index
      pushElement place unitSize dimension i
  | .slice base => do
      let unitSize ← orStop base.unitSize
      expression.valued evaluation
      let s ← popSlice
      let i ← index
      pushElement s.pointer unitSize s.length i
  | _ => stop

/-- A part of an array or of a slice, from bounds with their defaults. -/
def part (low high max : Int → Run World Int) : Run World Unit := do
  let type ← orStop expression.type
  match type.underlyingType with
  | .array dimension base => do
      let unitSize ← orStop base.unitSize
      evaluation
      let place ← popPointer
      let low ← low 0
      let high ← high dimension
      let max ← max dimension
      makeSlice place unitSize low high max dimension
  | .slice base => do
      let unitSize ← orStop base.unitSize
      expression.valued evaluation
      let s ← popSlice
      let low ← low 0
      let high ← high s.length
      let max ← max s.capacity
      makeSlice s.pointer unitSize low high max s.capacity
  | _ => stop

/-- A slice is made longer by an element. -/
def appended (runtime : Runtime World) (element : Run World Unit) : Run World Unit := do
  let type ← orStop expression.type
  match type.underlyingType with
  | .slice base => do
      let unitSize ← orStop base.unitSize
      expression.valued evaluation
      element
      appendTop runtime unitSize
  | _ => stop

end Expression

/-- A call: room for the result, then the receiver and the arguments, then the
body of the callable. -/
def callWith (context : Context World) (callable : Nat) (arguments : Run World Unit) :
    Run World Unit := do
  let size ← orStop (context.signature callable).returnSize
  reserve size
  arguments
  let _ ← enterCallable context callable
  pure ()

mutual

/-- The meaning of an expression. -/
def Expression.evaluate (context : Context World) (declarations : Declarations) :
    Expression → Run World Unit
  | .literal type value => do
      let size ← orStop type.underlyingKind.size
      push size (value.object declarations.characters)
  | .identifier offset _ => pushAddress offset
  | .typeName _ => pure ()
  | .typeExpression _ => pure ()
  | .dereference child _ => child.valued (child.evaluate context declarations)
  | .addressOf child _ => child.evaluate context declarations
  | .select base offset _ => do
      if base.isPointer then base.valued (base.evaluate context declarations)
      else base.evaluate context declarations
      let place ← popPointer
      pushPointer (place + offset)
  | .index base index _ =>
      base.element (base.evaluate context declarations)
        (index.asIndex (index.evaluate context declarations) context.runtime)
  | .indexSlice base low high max _ =>
      base.part (base.evaluate context declarations) (low.bound context declarations)
        (high.bound context declarations) (max.bound context declarations)
  | .logicNot child _ => do
      child.valued (child.evaluate context declarations)
      let b ← popBool
      pushBool (!b)
  | .binaryArithmetic operator left right type => do
      let leftType ← orStop left.type
      let rightType ← orStop right.type
      operator.evaluate (left.valued (left.evaluate context declarations))
        (right.valued (right.evaluate context declarations)) context.runtime type leftType rightType
  | .conversion argument type => do
      argument.valued (argument.evaluate context declarations)
      let source ← orStop argument.type
      convertValue context.runtime source type
  | .functionCall callable arguments _ =>
      callWith context callable (arguments.evaluate context declarations)
  | .methodCall callable base arguments _ => do
      let receiver ← orStop (declarations.signature callable).receiver
      callWith context callable do
        base.asReceiver (base.evaluate context declarations) receiver
        arguments.evaluate context declarations
  | .pullPortCall port expression arguments _ => do
      expression.valued (expression.evaluate context declarations)
      let pp ← pop (2 * wordBytes)
      let getter ← orStop (context.getter port (pp / 2 ^ 64))
      callWith context getter do
        pushPointer (pp % 2 ^ 64)
        arguments.evaluate context declarations
  | .new allocated _ => pushNew context.runtime allocated
  | .move argument _ => do
      argument.valued (argument.evaluate context declarations)
      let link ← popPointer
      let moved ← use (context.runtime.move link)
      pushPointer moved
  | .merge argument _ => do
      argument.valued (argument.evaluate context declarations)
      let link ← popPointer
      let root ← use (context.runtime.merge link)
      pushPointer root
  | .len argument _ => do
      argument.valued (argument.evaluate context declarations)
      let slice ← popSlice
      pushLong slice.length
  | .append slice element _ =>
      slice.appended (slice.evaluate context declarations) context.runtime
        (element.valued (element.evaluate context declarations))
  | .copy argument _ => do
      argument.valued (argument.evaluate context declarations)
      let type ← orStop argument.type
      copyTop context.runtime type
  | .println arguments => do
      let kinds ← orStop arguments.kinds
      use context.runtime.beginPrint
      arguments.print context declarations kinds
      use context.runtime.endPrint

/-- The values of the arguments, one after the other. -/
def Arguments.evaluate (context : Context World) (declarations : Declarations) :
    Arguments → Run World Unit
  | .nil => pure ()
  | .cons expression rest => do
      expression.valued (expression.evaluate context declarations)
      rest.evaluate context declarations

/-- The value of a bound of a slice expression, with its default. -/
def Arguments.bound (context : Context World) (declarations : Declarations) :
    Arguments → Int → Run World Int
  | .nil, default => pure default
  | .cons expression _, _ =>
      expression.asIndex (expression.evaluate context declarations) context.runtime

/-- The arguments are printed one after the other, each by the next of the kinds. -/
def Arguments.print (context : Context World) (declarations : Declarations) :
    Arguments → List Kind → Run World Unit
  | .nil, _ => pure ()
  | .cons (.typeExpression _) rest, kinds => rest.print context declarations kinds
  | .cons expression rest, kinds =>
      match kinds with
      | [] => stop
      | kind :: kinds => do
          expression.valued (expression.evaluate context declarations)
          printArgument context.runtime kind
          rest.print context declarations kinds

end

end Rcgo.Code
