import Rcgo.Code.BinaryOperation
import Rcgo.Code.Machine

/-!
# Operations

The operations of `operation.hpp` that are generated for expressions and for the
statements other than `activate`, and how an executor runs them.
-/

namespace Rcgo.Code

open Rcgo.Foundation

mutual

/-- `Operation`.  A callable is known by its number.  The operations of a slice
expression that may be absent are lists of at most one operation. -/
inductive Operation where
  | load (child : Operation) (type : DataType)
  | indexSlice (base index : Operation) (unitSize : Nat)
  | convertToInt (kind : Kind) (child : Operation)
  | convertToUint (kind : Kind) (child : Operation)
  | logicOr (left right : Operation)
  | logicAnd (left right : Operation)
  | literal (size value : Nat)
  | list (list : Operations)
  | functionCall (callable : Nat) (arguments : Operation)
  | methodCall (callable : Nat) (receiver arguments : Operation)
  | dynamicPullPortCall (type : Nat) (func arguments : Operation)
  | setRestoreCurrentInstance (child : Operation) (receiverOffset : Int)
  | clear (offset : Int) (size : Nat)
  | assign (left right : Operation) (size : Nat)
  | addAssign (kind : Kind) (left right : Operation)
  | reference (offset : Int)
  | select (base : Operation) (offset : Nat)
  | indexArray (base index : Operation) (dimension unitSize : Nat)
  | sliceArray (base : Operation) (low high max : Operations) (dimension unitSize : Nat)
  | sliceSlice (base : Operation) (low high max : Operations) (unitSize : Nat)
  | returnOp (child : Operation) (returnOffset : Int) (returnSize : Nat)
  | ifOp (condition trueBranch falseBranch : Operation)
  | whileOp (condition body : Operation)
  | forIota (offset : Int) (limit : Nat) (body : Operation)
  | logicNot (child : Operation)
  | binary (functor : Functor) (kind : Kind) (left right : Operation)
  | shift (operator : ShiftOperator) (kind : Kind) (left right : Operation)
  | change (root : Operation) (rootOffset : Int) (body : Operation)
  | increment (kind : Kind) (child : Operation)
  | decrement (kind : Kind) (child : Operation)
  | conversion (source target : Kind) (child : Operation)
  | convertStringToSliceOfBytes (child : Operation)
  | convertSliceOfBytesToString (child : Operation)
  | popn (child : Operation) (size : Nat)
  | println (evals : List Kind) (args : Operations)
  | newOp (size : Nat)
  | newHeapOp (size : Nat)
  | moveOp (arg : Operation)
  | mergeOp (arg : Operation)
  | lenOp (arg : Operation)
  | appendOp (unitSize : Nat) (arg : Operation)
  | copySliceOp (unitSize : Nat) (arg : Operation)
  | copyStringOp (arg : Operation)
  | noop

/-- A list of operations. -/
inductive Operations where
  | nil
  | cons (operation : Operation) (rest : Operations)

end

/-- The parameters, the result and the locals of a callable. -/
structure Signature where
  receiver : Option DataType
  parameters : List DataType
  result : Option DataType
  localsSize : Nat

/-- `arch::size_on_stack (callable->parameter_list ())`, with the receiver. -/
def Signature.parametersSize (signature : Signature) : Option Nat :=
  sizeOnStackOfList (signature.receiver.toList ++ signature.parameters)

/-- `arch::size_on_stack (callable->return_parameter_list ())`. -/
def Signature.returnSize (signature : Signature) : Option Nat :=
  sizeOnStackOfList signature.result.toList

/-- What operations use besides the stack: the heaps, the current component
instance, the standard output and floating point. -/
structure Runtime (World : Type) where
  floating : Floating
  convertFloating : Kind → Kind → Nat → Nat
  stepFloating : Kind → Bool → Nat → Nat
  allocate : Nat → Memory → World → Nat × Memory × World
  makeHeap : Nat → Memory → World → Nat × Memory × World
  move : Nat → Memory → World → Nat × Memory × World
  merge : Nat → Memory → World → Nat × Memory × World
  enterChange : Nat → Memory → World → Option ((Nat × Nat) × Memory × World)
  leaveChange : Nat → Nat → Memory → World → Unit × Memory × World
  enterInstance : Nat → Memory → World → Nat × Memory × World
  leaveInstance : Nat → Memory → World → Unit × Memory × World
  beginPrint : Memory → World → Unit × Memory × World
  print : Kind → Nat → Memory → World → Unit × Memory × World
  endPrint : Memory → World → Unit × Memory × World

/-- What an executor needs to run the operations of a body: the runtime, the
signatures of the callables, the getters that pull ports are bound to, how a
callable is called, and how often the body of a loop may run. -/
structure Context (World : Type) where
  runtime : Runtime World
  signature : Nat → Signature
  getter : Nat → Nat → Option Nat
  call : Nat → Run World Unit
  fuel : Nat

namespace Machine

variable {World : Type}

def use {α : Type} (effect : Memory → World → α × Memory × World) : Run World α := fun machine =>
  let (value, memory, world) := effect machine.memory machine.world
  .ok (value, { machine with memory, world })

/-- A use of the runtime that may stop the program. -/
def useOrStop {α : Type} (effect : Memory → World → Option (α × Memory × World)) :
    Run World α := fun machine =>
  match effect machine.memory machine.world with
  | some (value, memory, world) => .ok (value, { machine with memory, world })
  | none => .error .stopped

/-- A value, or the end of the program where it is marked unreachable. -/
def orStop {α : Type} : Option α → Run World α
  | some value => pure value
  | none => stop

/-- `Stack::pop` of a `bool`. -/
def popBool : Run World Bool := do
  let word ← pop 1
  pure (word % 256 != 0)

/-- `Stack::push` of a `bool`. -/
def pushBool (b : Bool) : Run World Unit :=
  push 1 b.toNat

/-- `Stack::pop` of a `long`. -/
def popLong : Run World Int := do
  let word ← pop wordBytes
  pure (Cxx.readInteger true 64 word)

/-- `Stack::push` of a `long`. -/
def pushLong (x : Int) : Run World Unit :=
  push wordBytes (Cxx.writeInteger 64 x)

/-- `runtime::Slice`. -/
structure Slice where
  pointer : Nat
  length : Nat
  capacity : Nat

/-- `Stack::pop` of a `runtime::Slice`. -/
def popSlice : Run World Slice := do
  let word ← pop (3 * wordBytes)
  pure { pointer := word % 2 ^ 64, length := word / 2 ^ 64 % 2 ^ 64, capacity := word / 2 ^ 128 }

/-- `Stack::push` of a `runtime::Slice`. -/
def pushSlice (slice : Slice) : Run World Unit :=
  push (3 * wordBytes) (slice.pointer + 2 ^ 64 * slice.length + 2 ^ 128 * slice.capacity)

/-- A write of an object with `size` bytes. -/
def write (address size value : Nat) : Run World Unit :=
  changeMemory fun machine => machine.memory.write address size value

/-- `memcpy`. -/
def copy (target source size : Nat) : Run World Unit :=
  changeMemory fun machine => machine.memory.copy target source size

end Machine

open Machine

variable {World : Type}

/-- The bits of a value, none for the bytes of a string. -/
def Value.word : Value → Option Nat
  | bits word => some word
  | text _ => none

/-- The object of a value: its bits, or the pointer and the length of a
`runtime::String` whose characters are at the address. -/
def Value.object (characters : List UInt8 → Nat) : Value → Nat
  | bits word => word
  | text bytes => characters bytes + 2 ^ 64 * bytes.length

/-- The loop of `ForIota::execute`, with `remaining` iterations to go. -/
def iotaLoop (offset : Int) (body : Run World Control) : Nat → Nat → Run World Control
  | 0, _ => pure .controlContinue
  | remaining + 1, idx => do
      let address ← getAddress offset
      write address wordBytes idx
      let control ← body
      if control = .controlReturn then pure control
      else iotaLoop offset body remaining (idx + 1)

/-- The body of the loop of `While::execute`. -/
def whileBody (condition body : Run World Control) : Run World (Option Control) := do
  let _ ← condition
  let c ← popBool
  if c then do
    let control ← body
    if control = .controlReturn then pure (some control) else pure none
  else pure (some .controlContinue)

/-- The loop of `While::execute`. -/
def whileLoop (fuel : Nat) (condition body : Run World Control) : Run World Control :=
  repeatUntil fuel (whileBody condition body)

/-- The part of `FunctionCall::execute` and its like behind the arguments: the
fake instruction pointer, the frame and the pop of the arguments. -/
def enterCallable (context : Context World) (callable : Nat) : Run World Control := do
  pushPointer 0
  let signature := context.signature callable
  setup signature.localsSize
  context.call callable
  teardown
  let _ ← popPointer
  let size ← orStop signature.parametersSize
  let _ ← popn size
  pure .controlContinue

/-- `ToType y = x` for two arithmetic types. -/
def convertKind (runtime : Runtime World) (source target : Kind) (word : Nat) : Nat :=
  match source.cType, target.cType with
  | some (.integer signed width), some (.integer _ targetWidth) =>
      Cxx.writeInteger targetWidth (Cxx.readInteger signed width word)
  | _, _ => runtime.convertFloating source target word

/-- `++*ptr` and `--*ptr`. -/
def stepKind (runtime : Runtime World) (kind : Kind) (up : Bool) (word : Nat) : Option Nat :=
  match kind.cType with
  | some (.integer signed width) =>
      (Cxx.applyInteger signed width word 1 (if up then .plus else .minus)).bind Value.word
  | _ => some (runtime.stepFloating kind up word)

/-- The bounds check of `SliceArray` and `SliceSlice`, and the slice. -/
def makeSlice (pointer unitSize : Nat) (low high max capacity : Int) : Run World Unit :=
  if 0 ≤ low ∧ low ≤ high ∧ high ≤ max ∧ max ≤ capacity then
    pushSlice
      { pointer := if high - low = 0 then 0 else pointer + low.toNat * unitSize
        length := (high - low).toNat
        capacity := (max - low).toNat }
  else stop

/-- The kinds that `PrintlnOp::execute` prints. -/
def Kind.isPrintable : Kind → Bool
  | bool | uint8 | uint16 | uint32 | uint64 | int8 | int16 | int32 | int64 | float32 | float64
  | uint | int | uintptr | string | pointer => true
  | _ => false

/-- One argument of `PrintlnOp::execute`: the pop of the value and its output. -/
def printArgument (runtime : Runtime World) (kind : Kind) : Run World Unit :=
  if kind.isPrintable then do
    let size ← orStop kind.size
    let word ← pop size
    use (runtime.print kind word)
  else stop

mutual

/-- `Operation::execute`. -/
def execute (context : Context World) : Operation → Run World Control
  | .load child type => do
      let _ ← execute context child
      let pointer ← popPointer
      let size ← orStop type.size
      load pointer size
      pure .controlContinue
  | .indexSlice base index unitSize => do
      let _ ← execute context base
      let s ← popSlice
      let _ ← execute context index
      let i ← popLong
      if i < 0 ∨ (s.length : Int) ≤ i then stop
      else do
        pushPointer (s.pointer + i.toNat * unitSize)
        pure .controlContinue
  | .convertToInt kind child => do
      let _ ← execute context child
      let size ← orStop kind.size
      let word ← pop size
      push wordBytes (convertKind context.runtime kind .int word)
      pure .controlContinue
  | .convertToUint kind child => do
      let _ ← execute context child
      let size ← orStop kind.size
      let word ← pop size
      push wordBytes (convertKind context.runtime kind .uint word)
      pure .controlContinue
  | .logicOr left right => do
      let _ ← execute context left
      let b ← popBool
      if b then do
        pushBool b
        pure .controlContinue
      else do
        let _ ← execute context right
        pure .controlContinue
  | .logicAnd left right => do
      let _ ← execute context left
      let b ← popBool
      if !b then do
        pushBool b
        pure .controlContinue
      else do
        let _ ← execute context right
        pure .controlContinue
  | .literal size value => do
      push size value
      pure .controlContinue
  | .list operations => executeList context operations
  | .functionCall callable arguments => do
      let size ← orStop (context.signature callable).returnSize
      reserve size
      let _ ← execute context arguments
      enterCallable context callable
  | .methodCall callable receiver arguments => do
      let size ← orStop (context.signature callable).returnSize
      reserve size
      let _ ← execute context receiver
      let _ ← execute context arguments
      enterCallable context callable
  | .dynamicPullPortCall type func arguments => do
      let _ ← execute context func
      let pp ← pop (2 * wordBytes)
      let getter ← orStop (context.getter type (pp / 2 ^ 64))
      let size ← orStop (context.signature getter).returnSize
      reserve size
      pushPointer (pp % 2 ^ 64)
      let _ ← execute context arguments
      enterCallable context getter
  | .setRestoreCurrentInstance child receiverOffset => do
      let component ← readPointer receiverOffset
      let old ← use (context.runtime.enterInstance component)
      let control ← execute context child
      use (context.runtime.leaveInstance old)
      pure control
  | .clear offset size => do
      clear offset size
      pure .controlContinue
  | .assign left right size => do
      let _ ← execute context left
      let pointer ← popPointer
      let _ ← execute context right
      store pointer size
      pure .controlContinue
  | .addAssign kind left right => do
      let _ ← execute context left
      let pointer ← popPointer
      let _ ← execute context right
      let size ← orStop kind.size
      let v ← pop size
      let old ← read pointer size
      let sum ← orStop ((kind.cType.bind fun type =>
        Cxx.apply context.runtime.floating type .plus (.bits old) (.bits v)).bind Value.word)
      write pointer size sum
      pure .controlContinue
  | .reference offset => do
      pushAddress offset
      pure .controlContinue
  | .select base offset => do
      let _ ← execute context base
      let pointer ← popPointer
      pushPointer (pointer + offset)
      pure .controlContinue
  | .indexArray base index dimension unitSize => do
      let _ ← execute context base
      let pointer ← popPointer
      let _ ← execute context index
      let i ← popLong
      if i < 0 ∨ (dimension : Int) ≤ i then stop
      else do
        pushPointer (pointer + i.toNat * unitSize)
        pure .controlContinue
  | .sliceArray base low high max dimension unitSize => do
      let _ ← execute context base
      let pointer ← popPointer
      let low ← executeBound context low 0
      let high ← executeBound context high dimension
      let max ← executeBound context max dimension
      makeSlice pointer unitSize low high max dimension
      pure .controlContinue
  | .sliceSlice base low high max unitSize => do
      let _ ← execute context base
      let s ← popSlice
      let low ← executeBound context low 0
      let high ← executeBound context high s.length
      let max ← executeBound context max s.capacity
      makeSlice s.pointer unitSize low high max s.capacity
      pure .controlContinue
  | .returnOp child returnOffset returnSize => do
      let _ ← execute context child
      move returnOffset returnSize
      pure .controlReturn
  | .ifOp condition trueBranch falseBranch => do
      let _ ← execute context condition
      let c ← popBool
      if c then execute context trueBranch else execute context falseBranch
  | .whileOp condition body =>
      whileLoop context.fuel (execute context condition) (execute context body)
  | .forIota offset limit body => iotaLoop offset (execute context body) limit 0
  | .logicNot child => do
      let _ ← execute context child
      let b ← popBool
      pushBool (!b)
      pure .controlContinue
  | .binary functor kind left right => do
      let size ← orStop kind.size
      let _ ← execute context left
      let x ← pop size
      let _ ← execute context right
      let y ← pop size
      let result ← orStop (((BinaryOperation.binary functor kind).compute context.runtime.floating
        (.bits x) (.bits y)).bind Value.word)
      push (if functor.isPredicate then 1 else size) result
      pure .controlContinue
  | .shift operator kind left right => do
      let size ← orStop kind.size
      let _ ← execute context left
      let x ← pop size
      let _ ← execute context right
      let y ← pop wordBytes
      let result ← orStop (((BinaryOperation.shift operator kind .uint).compute
        context.runtime.floating (.bits x) (.bits y)).bind Value.word)
      push size result
      pure .controlContinue
  | .change root rootOffset body => do
      let _ ← execute context root
      let link ← popPointer
      let (old, rootPointer) ← useOrStop (context.runtime.enterChange link)
      let address ← getAddress rootOffset
      write address wordBytes rootPointer
      let control ← execute context body
      use (context.runtime.leaveChange link old)
      pure control
  | .increment kind child => do
      let _ ← execute context child
      let pointer ← popPointer
      let size ← orStop kind.size
      let old ← read pointer size
      let next ← orStop (stepKind context.runtime kind true old)
      write pointer size next
      pure .controlContinue
  | .decrement kind child => do
      let _ ← execute context child
      let pointer ← popPointer
      let size ← orStop kind.size
      let old ← read pointer size
      let next ← orStop (stepKind context.runtime kind false old)
      write pointer size next
      pure .controlContinue
  | .conversion source target child => do
      let _ ← execute context child
      let size ← orStop source.size
      let word ← pop size
      let targetSize ← orStop target.size
      push targetSize (convertKind context.runtime source target word)
      pure .controlContinue
  | .convertStringToSliceOfBytes child => do
      let _ ← execute context child
      let word ← pop (2 * wordBytes)
      let length := word / 2 ^ 64
      let pointer ← use (context.runtime.allocate length)
      copy pointer (word % 2 ^ 64) length
      pushSlice { pointer, length, capacity := length }
      pure .controlContinue
  | .convertSliceOfBytesToString child => do
      let _ ← execute context child
      let s ← popSlice
      let pointer ← use (context.runtime.allocate s.length)
      copy pointer s.pointer s.length
      push (2 * wordBytes) (pointer + 2 ^ 64 * s.length)
      pure .controlContinue
  | .popn child size => do
      let control ← execute context child
      let _ ← popn size
      pure control
  | .println evals args => do
      use context.runtime.beginPrint
      executePrintln context args evals
      use context.runtime.endPrint
      pure .controlContinue
  | .newOp size => do
      let pointer ← use (context.runtime.allocate size)
      pushPointer pointer
      pure .controlContinue
  | .newHeapOp size => do
      let link ← use (context.runtime.makeHeap size)
      pushPointer link
      pure .controlContinue
  | .moveOp arg => do
      let _ ← execute context arg
      let link ← popPointer
      let newLink ← use (context.runtime.move link)
      pushPointer newLink
      pure .controlContinue
  | .mergeOp arg => do
      let _ ← execute context arg
      let link ← popPointer
      let root ← use (context.runtime.merge link)
      pushPointer root
      pure .controlContinue
  | .lenOp arg => do
      let _ ← execute context arg
      let slice ← popSlice
      pushLong slice.length
      pure .controlContinue
  | .appendOp unitSize arg => do
      let _ ← execute context arg
      let element ← pop 1
      let slice ← popSlice
      if slice.capacity < slice.length + 1 then do
        let pointer ← use (context.runtime.allocate (2 * (slice.length + 1) * unitSize))
        copy pointer slice.pointer (slice.length * unitSize)
        write (pointer + slice.length * unitSize) 1 element
        pushSlice
          { pointer, length := slice.length + 1, capacity := 2 * (slice.length + 1) }
        pure .controlContinue
      else do
        write (slice.pointer + slice.length * unitSize) 1 element
        pushSlice { slice with length := slice.length + 1 }
        pure .controlContinue
  | .copySliceOp unitSize arg => do
      let _ ← execute context arg
      let s ← popSlice
      let pointer ← use (context.runtime.allocate (unitSize * s.length))
      copy pointer s.pointer (unitSize * s.length)
      pushSlice { pointer, length := s.length, capacity := s.length }
      pure .controlContinue
  | .copyStringOp arg => do
      let _ ← execute context arg
      let word ← pop (2 * wordBytes)
      let length := word / 2 ^ 64
      let pointer ← use (context.runtime.allocate length)
      copy pointer (word % 2 ^ 64) length
      push (2 * wordBytes) (pointer + 2 ^ 64 * length)
      pure .controlContinue
  | .noop => pure .controlContinue

/-- `ListOperation::execute`. -/
def executeList (context : Context World) : Operations → Run World Control
  | .nil => pure .controlContinue
  | .cons operation rest => do
      let control ← execute context operation
      if control = .controlReturn then pure control else executeList context rest

/-- The loop of `PrintlnOp::execute`. -/
def executePrintln (context : Context World) : Operations → List Kind → Run World Unit
  | .nil, _ => pure ()
  | .cons operation rest, evals =>
      match evals with
      | [] => stop
      | kind :: evals => do
          let _ ← execute context operation
          printArgument context.runtime kind
          executePrintln context rest evals

/-- A bound of a slice expression, with its default. -/
def executeBound (context : Context World) : Operations → Int → Run World Int
  | .nil, default => pure default
  | .cons operation _, _ => do
      let _ ← execute context operation
      popLong

end

variable {context : Context World}

@[simp]
theorem execute_noop : execute context .noop = pure .controlContinue := by
  rw [execute]

@[simp]
theorem executeList_nil : executeList context .nil = pure .controlContinue := by
  rw [executeList]

theorem executeList_cons (operation : Operation) (rest : Operations) :
    executeList context (.cons operation rest) =
      execute context operation >>= fun control =>
        if control = .controlReturn then pure control else executeList context rest := by
  rw [executeList]

end Rcgo.Code
