import Rcgo.Composition.BoundedStack

/-!
# Elaboration frames

The constructors of `Composer::ElaborationVisitor`: the frames in which the
elaborator evaluates the receivers of calls and the indices of ports, compared
with the memory models of the callables.
-/

namespace Rcgo.Code.Arch

/-- The loop of `arch::size_on_stack` over a parameter list. -/
def sizeOnStackFrom : List DataType → Word → Option Word
  | [], sz => some sz
  | type :: rest, sz => do
      let size ← sizeOnStack type
      sizeOnStackFrom rest (sz + size)

/-- `arch::size_on_stack` of a parameter list. -/
def sizeOnStackOfParameters (parameters : List Parameter) : Option Word :=
  sizeOnStackFrom (parameters.map Parameter.type) 0#64

end Rcgo.Code.Arch

namespace Rcgo.Composition

open Rcgo.Code Rcgo.Transaction

/-- The callables that the elaborator walks.  A receiver is a pointer to the
component, and there is an iota where the dimension is not `-1`. -/
inductive NodeDeclaration where
  | action (component : DataType) (hasDimension : Bool)
  | reaction (component : DataType) (types : List DataType) (hasDimension : Bool)
  | getter (component : DataType) (types returns : List DataType)

namespace NodeDeclaration

/-- `parameter_list ()`; an action has the receiver only. -/
def parameters : NodeDeclaration → List Parameter
  | action component _ => [Parameter.makeReceiver (.pointer component)]
  | reaction component types _ | getter component types _ =>
      Parameter.makeReceiver (.pointer component) :: types.map Parameter.make

/-- `dimension () != -1`. -/
def hasDimension : NodeDeclaration → Bool
  | action _ hasDimension | reaction _ _ hasDimension => hasDimension
  | getter _ _ _ => false

/-- The parameter `IOTA`. -/
def iotaParameter (declaration : NodeDeclaration) : Option Parameter :=
  if declaration.hasDimension then some (Parameter.make (.basic .int)) else none

/-- What the stack variables are allocated for. -/
def callable (declaration : NodeDeclaration) : Callable :=
  match declaration with
  | action component _ =>
      .action (Parameter.makeReceiver (.pointer component)) declaration.iotaParameter
  | reaction _ _ _ => .reaction declaration.parameters declaration.iotaParameter
  | getter _ _ returns => .getter declaration.parameters (returns.map Parameter.makeReturn)

def isGetter : NodeDeclaration → Bool
  | getter _ _ _ => true
  | _ => false

end NodeDeclaration

/-- A node of the composition: a callable with its offsets, the address of the
instance and the iota. -/
structure Node where
  declaration : NodeDeclaration
  body : Block DataType
  frame : StackFrame
  allocated : allocateStackVariables declaration.callable body = some frame
  address : Nat
  iota : Nat

/-- The size of the stack of `composition::Executor`. -/
def elaboratorCapacity : Nat := 1024

namespace Node

/-- `memory_model.locals_size_on_stack ()`. -/
def locals (node : Node) : Nat :=
  node.frame.memoryModel.localsSizeOnStack.toNat

/-- The iota is pushed where the callable has a dimension. -/
def pushIota (node : Node) (stack : BoundedStack) : Option BoundedStack :=
  if node.declaration.hasDimension then stack.push node.iota else some stack

/-- `arch::size_on_stack (parameter_list) - sizeof (void*)`. -/
def reserveParameters (node : Node) (stack : BoundedStack) : Option BoundedStack := do
  let size ← Arch.sizeOnStackOfParameters node.declaration.parameters
  stack.reserve (size - BitVec.ofNat 64 8).toNat

/-- The constructor of `ElaborationVisitor` for the node. -/
def elaborate (node : Node) (stack : BoundedStack) : Option BoundedStack :=
  match node.declaration with
  | .action _ _ => do
      let stack ← node.pushIota stack
      let stack ← stack.push node.address
      let stack ← stack.push 0
      stack.setup node.locals
  | .reaction _ _ _ => do
      let stack ← node.pushIota stack
      let stack ← stack.push node.address
      let stack ← node.reserveParameters stack
      let stack ← stack.push 0
      stack.setup node.locals
  | .getter _ _ _ => do
      let stack ← stack.push node.address
      let stack ← node.reserveParameters stack
      stack.setup node.locals

def slots (node : Node) : Slots where
  receiver := node.frame.memoryModel.receiverOffset
  iota := node.frame.parameters.iota.map StackSymbol.offset

/-- The parameters, the return parameters and the iota. -/
def arguments (node : Node) : List StackSymbol :=
  node.frame.parameters.parameters ++ node.frame.parameters.returns ++
    node.frame.parameters.iota.toList

/-- The frame is that of the callable: the slots of the receiver and of the iota
hold the instance and the index, every byte of an argument or a local variable is
reserved, and places have the addresses that they have in every other frame. -/
structure FrameIsRight (node : Node) (stack : BoundedStack) : Prop where
  receiver : ∀ offset, node.slots.receiver = some offset →
    stack.memory (stack.address offset) = node.address
  iota : ∀ offset, node.slots.iota = some offset →
    stack.memory (stack.address offset) = node.iota
  arguments : ∀ symbol ∈ node.arguments, ∀ n ∈ symbol.bytes,
    (stack.data : Int) ≤ stack.basePointer + n ∧ stack.basePointer + n < stack.top
  locals : ∀ declaration ∈ node.frame.body.declarations [] 0, ∀ n ∈ declaration.2.bytes,
    8 ≤ n ∧ stack.basePointer + n < stack.top
  places : ∀ runtime : BoundedStack, runtime.HasRoom →
    runtime.Holds node.slots node.address node.iota →
      ∀ place : Place, place.evaluate node.slots stack = place.evaluate node.slots runtime

/-- The elaborator builds the frame of the callable. -/
def BuildsFrame (node : Node) : Prop :=
  ∀ memory data, ∃ stack,
    node.elaborate (.fresh memory data elaboratorCapacity) = some stack ∧ node.FrameIsRight stack

def parametersSize (node : Node) : Nat :=
  wordSize * wordsOfAll (node.declaration.parameters.map Parameter.type)

def iotaSize (node : Node) : Nat :=
  if node.declaration.hasDimension then wordSize else 0

/-- The local variables lie where the memory model has room for them. -/
def LocalsFit (node : Node) : Prop :=
  ∀ declaration ∈ node.frame.body.declarations [] 0, ∀ n ∈ declaration.2.bytes,
    8 ≤ n ∧ n < 8 + aligned node.locals

/-- An action or a reaction whose frame leaves room for an operand, with local
variables that fit their area. -/
structure Fits (node : Node) : Prop where
  isNode : node.declaration.isGetter = false
  capacity : node.parametersSize + node.iotaSize + wordSize + (wordSize + aligned node.locals) +
    wordSize ≤ elaboratorCapacity
  locals : node.LocalsFit

end Node

/-! ## Offsets -/

section Offsets

variable {depth : Nat} {symbols : List StackSymbol}

theorem toInt_below (small : depth ≤ 2 ^ 63) : (below depth).toInt = -depth := by
  rw [below, ← BitVec.ofInt_natCast, ← BitVec.ofInt_neg]
  exact BitVec.toInt_ofInt_eq_self (by decide) (by omega) (by omega)

theorem getD_sizeOnStack (type : DataType) : type.sizeOnStack.getD 0 = wordSize * wordsOf type := by
  cases isSize : type.sizeOnStack with
  | none => rw [wordsOf, isSize]; rfl
  | some size => exact (wordSize_mul_wordsOf isSize).symm

theorem Descending.le_of_inside (descending : Descending depth symbols) (bound last : Nat)
    (small : bound ≤ 2 ^ 60) (smallLast : last ≤ 2 ^ 60) (start : depth ≤ bound)
    (inside : ∀ symbol ∈ symbols, ∀ n ∈ symbol.bytes, -(bound : Int) ≤ n ∧ n < last) :
    depth + wordSize * wordsOfAll (typesOf symbols) ≤ bound := by
  induction symbols with
  | nil => exact start
  | cons symbol rest inductionHypothesis =>
      have others := inductionHypothesis descending.2 fun other isOther =>
        inside other (List.mem_cons_of_mem _ isOther)
      have isOffset := descending.1
      rw [typesOf_cons, wordsOfAll_cons, Nat.mul_add] at isOffset ⊢
      generalize wordSize * wordsOfAll (typesOf rest) = behind at others isOffset ⊢
      have bytes := inside symbol List.mem_cons_self
      simp only [StackSymbol.bytes, getD_sizeOnStack, Set.mem_ofPred_eq] at bytes
      generalize wordSize * wordsOf symbol.type = size at bytes isOffset ⊢
      rcases Nat.eq_zero_or_pos size with isEmpty | positive
      · omega
      · have first := bytes symbol.offset.toInt ⟨le_refl _, by omega⟩
        have final := bytes (symbol.offset.toInt + size - 1) ⟨by omega, by omega⟩
        have short : depth + (size + behind) ≤ 2 ^ 63 := by omega
        rw [isOffset, toInt_below short] at first
        omega

/-- The bytes of symbols that lie one behind the other below `depth`. -/
theorem Descending.bytes (descending : Descending depth symbols)
    (small : depth + wordSize * wordsOfAll (typesOf symbols) ≤ 2 ^ 63) :
    ∀ symbol ∈ symbols, ∀ n ∈ symbol.bytes,
      -((depth + wordSize * wordsOfAll (typesOf symbols) : Nat) : Int) ≤ n ∧ n < -(depth : Int) := by
  induction symbols with
  | nil => exact fun symbol isSymbol => absurd isSymbol List.not_mem_nil
  | cons symbol rest inductionHypothesis =>
      have isOffset := descending.1
      rw [typesOf_cons, wordsOfAll_cons, Nat.mul_add] at isOffset small ⊢
      have others := inductionHypothesis descending.2 (by omega)
      intro other isOther n isByte
      rcases List.mem_cons.1 isOther with isSymbol | inRest
      · rw [isSymbol] at isByte
        simp only [StackSymbol.bytes, getD_sizeOnStack, Set.mem_ofPred_eq, isOffset] at isByte
        rw [toInt_below small] at isByte
        omega
      · have inside := others other inRest n isByte
        omega

end Offsets

/-! ## The offsets of a callable -/

section Allocation

variable {memoryModel after : MemoryModel} {symbols : List StackSymbol}
  {parameters : List Parameter}

theorem initial_argumentsOffset : MemoryModel.initial.argumentsOffset = below 8 :=
  rfl

theorem sizeOnStack_ne_none_of_allocateParameters
    (runs : allocateParameters memoryModel parameters = some (symbols, after)) :
    ∀ parameter ∈ parameters, parameter.type.sizeOnStack ≠ none := by
  induction parameters generalizing symbols after with
  | nil => exact fun parameter isParameter => absurd isParameter List.not_mem_nil
  | cons parameter rest inductionHypothesis =>
      simp only [allocateParameters, Option.bind_eq_bind, Option.bind_eq_some_iff,
        Prod.exists] at runs
      rcases runs with ⟨others, middle, restRuns, symbol, last, isSymbol, _⟩
      rw [List.forall_mem_cons]
      refine And.intro ?_ (inductionHypothesis restRuns)
      intro isNone
      rw [allocateParameter, MemoryModel.argumentsPush, Arch.sizeOnStack_eq, isNone] at isSymbol
      cases isSymbol

theorem sizeOnStackFrom_eq {types : List DataType}
    (sized : ∀ type ∈ types, type.sizeOnStack ≠ none) (sz : Arch.Word) :
    Arch.sizeOnStackFrom types sz =
      some (sz + BitVec.ofNat 64 (wordSize * wordsOfAll types)) := by
  induction types generalizing sz with
  | nil => exact congrArg some (BitVec.add_zero sz).symm
  | cons type rest inductionHypothesis =>
      rw [List.forall_mem_cons] at sized
      rcases Option.ne_none_iff_exists'.1 sized.1 with ⟨size, isSize⟩
      rw [Arch.sizeOnStackFrom, Arch.sizeOnStack_eq, isSize]
      dsimp only [Option.map_some, Option.bind_eq_bind, Option.bind_some]
      rw [inductionHypothesis sized.2, wordsOfAll_cons, Nat.mul_add, wordSize_mul_wordsOf isSize,
        BitVec.ofNat_add, BitVec.add_assoc]

end Allocation

section Allocation

variable {component : DataType} {types : List DataType} {returns : List Parameter}
  {iota : Option Parameter} {symbols : List StackSymbol} {memoryModel after : MemoryModel}

theorem receiverOffset_eq
    (runs : allocateParameters .initial
      (Parameter.makeReceiver (.pointer component) :: types.map Parameter.make) =
        some (symbols, after)) :
    after.receiverOffset = some (below (8 + wordSize * wordsOfAll (typesOf symbols))) := by
  have spec := allocateParameters_spec runs initial_argumentsOffset
  rw [allocateParameters_makeReceiver runs]
  cases symbols with
  | nil => cases spec.1
  | cons symbol rest => exact congrArg some spec.2.1.1

theorem allocateIota_spec {symbol : Option StackSymbol} {depth : Nat}
    (runs : allocateIota memoryModel iota = some (symbol, after))
    (isDepth : memoryModel.argumentsOffset = below depth)
    (isInt : ∀ parameter, iota = some parameter → parameter = Parameter.make (.basic .int)) :
    after.receiverOffset = memoryModel.receiverOffset ∧
      symbol = iota.map fun _ => ⟨below (depth + wordSize), .basic .int⟩ := by
  cases iota with
  | none =>
      cases runs
      exact And.intro rfl rfl
  | some parameter =>
      rw [allocateIota, Option.map_eq_some_iff] at runs
      rcases runs with ⟨⟨allocated, last⟩, isAllocated, isResult⟩
      rw [Prod.mk.injEq] at isResult
      rw [isInt parameter rfl] at isAllocated
      have spec := (allocateParameter_spec isAllocated isDepth).1
      have receiver := allocateParameter_receiver isAllocated
      rw [← isResult.1, ← isResult.2, spec, receiver]
      exact And.intro rfl rfl

end Allocation

namespace NodeDeclaration

variable (declaration : NodeDeclaration)

theorem exists_parameters : ∃ component types, declaration.parameters =
    Parameter.makeReceiver (.pointer component) :: List.map Parameter.make types := by
  cases declaration with
  | action component => exact ⟨component, [], rfl⟩
  | reaction component types => exact ⟨component, types, rfl⟩
  | getter component types => exact ⟨component, types, rfl⟩

/-- The parameters are allocated first, then the iota or the return parameters. -/
theorem exists_allocateParameters {allocated : AllocatedParameters} {after : MemoryModel}
    (runs : declaration.callable.allocate = some (allocated, after)) :
    ∃ middle, allocateParameters .initial declaration.parameters =
        some (allocated.parameters, middle) ∧
      after.receiverOffset = middle.receiverOffset ∧
      allocated.iota = (declaration.iotaParameter.map fun _ =>
        ⟨below (8 + wordSize * wordsOfAll (declaration.parameters.map Parameter.type) + wordSize),
          .basic .int⟩) ∧
      (declaration.isGetter = false → allocated.returns = []) := by
  have withIota : allocateWithIota declaration.parameters declaration.iotaParameter =
      some (allocated, after) → ∃ middle,
        allocateParameters .initial declaration.parameters =
          some (allocated.parameters, middle) ∧
        after.receiverOffset = middle.receiverOffset ∧
        allocated.iota = (declaration.iotaParameter.map fun _ =>
          ⟨below (8 + wordSize * wordsOfAll (declaration.parameters.map Parameter.type) + wordSize),
            .basic .int⟩) ∧
        (declaration.isGetter = false → allocated.returns = []) := by
    intro runs
    simp only [allocateWithIota, Option.bind_eq_bind, Option.bind_eq_some_iff, Prod.exists,
      Option.some.injEq, Prod.mk.injEq] at runs
    rcases runs with ⟨symbols, middle, isParameters, iota, last, isIota, isAllocated, isAfter⟩
    have spec := allocateParameters_spec isParameters initial_argumentsOffset
    rw [spec.1] at spec
    have isInt : ∀ parameter, declaration.iotaParameter = some parameter →
        parameter = Parameter.make (.basic .int) := by
      intro parameter isParameter
      rw [iotaParameter] at isParameter
      split at isParameter
      · exact (Option.some.inj isParameter).symm
      · cases isParameter
    have iotaSpec := allocateIota_spec isIota spec.2.2 isInt
    rw [← isAllocated, ← isAfter]
    exact ⟨middle, isParameters, iotaSpec.1, iotaSpec.2, fun _ => rfl⟩
  cases declaration with
  | action component hasDimension => exact withIota runs
  | reaction component types hasDimension => exact withIota runs
  | getter component types returns =>
      simp only [callable, Callable.allocate, allocateSignature, Option.bind_eq_bind,
        Option.bind_eq_some_iff, Prod.exists, Option.some.injEq, Prod.mk.injEq] at runs
      rcases runs with
        ⟨symbols, middle, isParameters, results, last, areReturns, isAllocated, isAfter⟩
      rw [← isAllocated, ← isAfter]
      refine ⟨middle, isParameters, ?_, rfl, fun isNode => by cases isNode⟩
      apply allocateParameters_receiver areReturns
      intro parameter isParameter
      rcases List.mem_map.1 isParameter with ⟨type, _, isReturn⟩
      rw [← isReturn]
      exact fun isKind => by cases isKind

end NodeDeclaration

namespace Node

/-- The offsets of the parameters of a node. -/
structure Offsets (node : Node) : Prop where
  types : typesOf node.frame.parameters.parameters =
    node.declaration.parameters.map Parameter.type
  descending : Descending 8 node.frame.parameters.parameters
  receiver : node.slots.receiver = some (below (8 + node.parametersSize))
  iota : node.frame.parameters.iota = (node.declaration.iotaParameter.map fun _ =>
    ⟨below (8 + node.parametersSize + wordSize), .basic .int⟩)
  returns : node.declaration.isGetter = false → node.frame.parameters.returns = []
  size : Arch.sizeOnStackOfParameters node.declaration.parameters =
    some (BitVec.ofNat 64 node.parametersSize)

theorem offsets (node : Node) : node.Offsets := by
  have allocated := node.allocated
  simp only [allocateStackVariables, Option.bind_eq_bind, Option.bind_eq_some_iff, Prod.exists]
    at allocated
  rcases allocated with ⟨parameters, entered, isEntered, body, memoryModel, isBody, isFrame⟩
  have same := allocateBlock_sameArguments isBody
  split at isFrame
  case isFalse => cases isFrame
  rcases node.declaration.exists_allocateParameters isEntered with
    ⟨middle, areParameters, isReceiver, isIota, areReturns⟩
  have spec := allocateParameters_spec areParameters initial_argumentsOffset
  rcases node.declaration.exists_parameters with ⟨component, types, isList⟩
  have receiver : middle.receiverOffset = some (below (8 + node.parametersSize)) := by
    rw [parametersSize, ← spec.1]
    rw [isList] at areParameters
    exact receiverOffset_eq areParameters
  have isFrame := Option.some.inj isFrame
  constructor
  · rw [← isFrame]
    exact spec.1
  · rw [← isFrame]
    exact spec.2.1
  · rw [slots, ← isFrame]
    exact (same.2.trans isReceiver).trans receiver
  · rw [← isFrame]
    exact isIota
  · rw [← isFrame]
    exact areReturns
  · have sized := sizeOnStack_ne_none_of_allocateParameters areParameters
    rw [Arch.sizeOnStackOfParameters, sizeOnStackFrom_eq, BitVec.zero_add]
    · rfl
    · intro type isType
      rcases List.mem_map.1 isType with ⟨parameter, isParameter, isTypeOf⟩
      rw [← isTypeOf]
      exact sized parameter isParameter

/-! ## The frame of the elaborator -/

/-- The bytes that are reserved for the parameters without the receiver. -/
def reserved (node : Node) : Nat :=
  aligned (BitVec.ofNat 64 node.parametersSize - BitVec.ofNat 64 8).toNat

variable {node : Node} {stack middle after : BoundedStack}

theorem pushIota_isSome (node : Node) (stack : BoundedStack) (start : stack.top ≤ stack.limit) :
    (∃ after, node.pushIota stack = some after) ↔ stack.top + node.iotaSize ≤ stack.limit := by
  rw [pushIota, iotaSize]
  split
  · exact BoundedStack.push_isSome _ _
  · exact iff_of_true ⟨stack, rfl⟩ start

theorem pushIota_spec (runs : node.pushIota stack = some after) :
    BoundedStack.Grown stack node.iotaSize after ∧
      (node.declaration.hasDimension = true → after.memory stack.top = node.iota) := by
  rw [pushIota] at runs
  rw [iotaSize]
  split at runs
  · next hasDimension =>
    rw [if_pos hasDimension]
    have spec := BoundedStack.push_spec runs
    exact And.intro spec.1 fun _ => spec.2.2
  · next noDimension =>
    rw [if_neg noDimension, ← Option.some.inj runs]
    exact And.intro ⟨rfl, rfl, rfl, fun _ _ => rfl⟩ fun hasDimension => absurd hasDimension noDimension

theorem reserveParameters_eq (node : Node) (stack : BoundedStack) :
    node.reserveParameters stack =
      stack.reserve (BitVec.ofNat 64 node.parametersSize - BitVec.ofNat 64 8).toNat := by
  rw [reserveParameters, node.offsets.size]
  rfl

/-- The stack of an action or a reaction. -/
structure Elaborated (node : Node) (start : Nat) (stack : BoundedStack) : Prop where
  data : stack.data = start
  limit : stack.limit = start + elaboratorCapacity
  basePointer : stack.basePointer = start + node.iotaSize + wordSize + node.reserved + wordSize
  top : stack.top = stack.basePointer + (wordSize + aligned node.locals)
  receiver : stack.memory (start + node.iotaSize) = node.address
  iota : node.declaration.hasDimension = true → stack.memory start = node.iota

/-- The part that actions and reactions have in common. -/
def elaborateWithIota (node : Node) (stack : BoundedStack) : Option BoundedStack := do
  let stack ← node.pushIota stack
  let stack ← stack.push node.address
  let stack ← node.reserveParameters stack
  let stack ← stack.push 0
  stack.setup node.locals

theorem elaborate_eq (isNode : node.declaration.isGetter = false) (stack : BoundedStack) :
    node.elaborate stack = node.elaborateWithIota stack := by
  rw [elaborate, elaborateWithIota]
  cases isDeclaration : node.declaration with
  | reaction component types hasDimension => rfl
  | getter component types returns =>
      rw [isDeclaration] at isNode
      cases isNode
  | action component hasDimension =>
      have isSize : node.parametersSize = 8 := by
        rw [parametersSize, isDeclaration]
        exact congrArg (wordSize * ·) (wordsOf_pointer component)
      simp only [reserveParameters_eq, isSize]
      congr 1
      funext first
      cases isPushed : first.push node.address with
      | none => rfl
      | some second =>
          have spec := (BoundedStack.push_spec isPushed).1
          have inside := (BoundedStack.push_isSome _ _).1 ⟨second, isPushed⟩
          have unchanged := BoundedStack.reserve_zero second
            (by rw [spec.top, spec.limit]; exact inside)
          dsimp only [Option.bind_eq_bind, Option.bind_some]
          rw [show (BitVec.ofNat 64 8 - BitVec.ofNat 64 8).toNat = 0 from rfl, unchanged]
          rfl

theorem elaborated_of {memory : Transaction.Memory} {data : Nat}
    (runs : node.elaborateWithIota (.fresh memory data elaboratorCapacity) = some stack) :
    node.Elaborated data stack := by
  simp only [elaborateWithIota, reserveParameters_eq, Option.bind_eq_bind,
    Option.bind_eq_some_iff] at runs
  rcases runs with ⟨first, isFirst, second, isSecond, third, isThird, fourth, isFourth, isLast⟩
  have firstSpec := pushIota_spec isFirst
  have secondSpec := BoundedStack.push_spec isSecond
  have thirdSpec := BoundedStack.reserve_spec isThird
  have fourthSpec := BoundedStack.push_spec isFourth
  have lastSpec := BoundedStack.setup_spec isLast
  have start : (BoundedStack.fresh memory data elaboratorCapacity).top = data := rfl
  have behind := (secondSpec.1.trans thirdSpec.1).trans fourthSpec.1
  have whole := (firstSpec.1.trans behind).trans lastSpec.1
  have isBase : stack.basePointer = data + node.iotaSize + wordSize + node.reserved + wordSize := by
    rw [lastSpec.2, behind.top, firstSpec.1.top, start, reserved]
    omega
  refine ⟨whole.data, whole.limit, isBase, ?_, ?_, ?_⟩
  · rw [whole.top, isBase, start, reserved]
    omega
  · have isReceiver := secondSpec.2.2
    rw [firstSpec.1.top, start] at isReceiver
    rw [← isReceiver]
    have kept := ((thirdSpec.1.trans fourthSpec.1).trans lastSpec.1).memory
    apply kept
    rw [secondSpec.1.top, firstSpec.1.top, start]
    exact Nat.lt_add_of_pos_right (by decide)
  · intro hasDimension
    have isIota := firstSpec.2 hasDimension
    rw [start] at isIota
    rw [← isIota]
    apply (behind.trans lastSpec.1).memory
    rw [firstSpec.1.top, start, iotaSize, if_pos hasDimension]
    exact Nat.lt_add_of_pos_right (by decide)

theorem elaborateWithIota_isSome (node : Node) (memory : Transaction.Memory) (data : Nat) :
    (∃ stack, node.elaborateWithIota (.fresh memory data elaboratorCapacity) = some stack) ↔
      node.iotaSize + wordSize + node.reserved + wordSize + (wordSize + aligned node.locals) ≤
        elaboratorCapacity := by
  constructor
  · rintro ⟨stack, runs⟩
    have spec := elaborated_of runs
    simp only [elaborateWithIota, Option.bind_eq_bind, Option.bind_eq_some_iff] at runs
    rcases runs with ⟨_, _, _, _, _, _, fourth, _, isLast⟩
    have room := (BoundedStack.setup_isSome _ _).1 ⟨stack, isLast⟩
    have last := BoundedStack.setup_spec isLast
    rw [← last.1.limit, spec.limit, ← last.2, spec.basePointer] at room
    omega
  · intro room
    have start : (BoundedStack.fresh memory data elaboratorCapacity).top = data := rfl
    have isLimit : (BoundedStack.fresh memory data elaboratorCapacity).limit =
      data + elaboratorCapacity := rfl
    rcases (pushIota_isSome node _ (by rw [start, isLimit]; omega)).2
      (by rw [start, isLimit]; omega) with ⟨first, isFirst⟩
    have firstSpec := (pushIota_spec isFirst).1
    rcases (BoundedStack.push_isSome first node.address).2
      (by rw [firstSpec.top, firstSpec.limit, start, isLimit]; omega) with ⟨second, isSecond⟩
    have secondSpec := firstSpec.trans (BoundedStack.push_spec isSecond).1
    rcases (BoundedStack.reserve_isSome second
      (BitVec.ofNat 64 node.parametersSize - BitVec.ofNat 64 8).toNat).2
      (by rw [secondSpec.top, secondSpec.limit, start, isLimit, ← reserved]; omega)
      with ⟨third, isThird⟩
    have thirdSpec := secondSpec.trans (BoundedStack.reserve_spec isThird).1
    rw [← reserved] at thirdSpec
    rcases (BoundedStack.push_isSome third 0).2
      (by rw [thirdSpec.top, thirdSpec.limit, start, isLimit]; omega) with ⟨fourth, isFourth⟩
    have fourthSpec := thirdSpec.trans (BoundedStack.push_spec isFourth).1
    rcases (BoundedStack.setup_isSome fourth node.locals).2
      (by rw [fourthSpec.top, fourthSpec.limit, start, isLimit]; omega) with ⟨stack, isLast⟩
    refine ⟨stack, ?_⟩
    simp only [elaborateWithIota, reserveParameters_eq, isFirst, isSecond, isThird, isFourth,
      isLast, Option.bind_eq_bind, Option.bind_some]

/-! ## When the frame is right -/

theorem wordSize_le_parametersSize (node : Node) :
    wordSize ≤ node.parametersSize ∧ wordSize ∣ node.parametersSize := by
  rcases node.declaration.exists_parameters with ⟨component, types, isList⟩
  rw [parametersSize, isList, List.map_cons, wordsOfAll_cons]
  refine And.intro ?_ (Nat.dvd_mul_right _ _)
  apply Nat.le_mul_of_pos_right
  rw [show (Parameter.makeReceiver (.pointer component)).type = .pointer component from rfl,
    wordsOf_pointer]
  exact Nat.lt_add_right _ Nat.one_pos

theorem reserved_eq (node : Node) (small : node.parametersSize < 2 ^ 64) :
    node.reserved = node.parametersSize - wordSize := by
  have spec := node.wordSize_le_parametersSize
  have isDifference : (BitVec.ofNat 64 node.parametersSize - BitVec.ofNat 64 8).toNat =
      node.parametersSize - wordSize := by
    rw [wordSize] at spec ⊢
    rw [BitVec.toNat_sub, BitVec.toNat_ofNat, BitVec.toNat_ofNat]
    omega
  rw [reserved, isDifference]
  exact aligned_of_dvd (Nat.dvd_sub spec.2 (Nat.dvd_refl _))

theorem address_below {depth : Nat} (small : depth ≤ 2 ^ 63) :
    stack.address (below depth) = stack.basePointer - depth := by
  rw [BoundedStack.address, toInt_below small]
  omega

theorem parametersSize_le (right : node.FrameIsRight stack) (inside : stack.top ≤ 2 ^ 60)
    (start : stack.data + 8 ≤ stack.basePointer) (isBase : stack.basePointer ≤ stack.top) :
    8 + node.parametersSize ≤ stack.basePointer - stack.data := by
  have offsets := node.offsets
  rw [parametersSize, ← offsets.types]
  apply Descending.le_of_inside offsets.descending _ stack.top (by omega) inside (by omega)
  intro symbol isSymbol n isByte
  have isArgument : symbol ∈ node.arguments :=
    List.mem_append_left _ (List.mem_append_left _ isSymbol)
  have within := right.arguments symbol isArgument n isByte
  omega

theorem basePointer_getter {memory : Transaction.Memory} {data : Nat}
    (isGetter : node.declaration.isGetter = true)
    (runs : node.elaborate (.fresh memory data elaboratorCapacity) = some stack) :
    stack.data = data ∧ stack.basePointer = data + wordSize + node.reserved ∧
      stack.basePointer ≤ stack.top ∧ stack.top ≤ data + elaboratorCapacity := by
  cases isDeclaration : node.declaration with
  | action component hasDimension =>
      rw [isDeclaration] at isGetter
      cases isGetter
  | reaction component types hasDimension =>
      rw [isDeclaration] at isGetter
      cases isGetter
  | getter component types returns =>
      simp only [elaborate, isDeclaration, reserveParameters_eq, Option.bind_eq_bind,
        Option.bind_eq_some_iff] at runs
      rcases runs with ⟨first, isFirst, second, isSecond, isLast⟩
      have firstSpec := (BoundedStack.push_spec isFirst).1
      have secondSpec := firstSpec.trans (BoundedStack.reserve_spec isSecond).1
      have lastSpec := BoundedStack.setup_spec isLast
      have room := (BoundedStack.setup_isSome _ _).1 ⟨stack, isLast⟩
      have start : (BoundedStack.fresh memory data elaboratorCapacity).top = data := rfl
      have isLimit : (BoundedStack.fresh memory data elaboratorCapacity).limit =
        data + elaboratorCapacity := rfl
      have isBase : stack.basePointer = data + wordSize + node.reserved := by
        rw [lastSpec.2, secondSpec.top, start, reserved, Nat.add_assoc]
      refine ⟨(secondSpec.trans lastSpec.1).data, isBase, ?_, ?_⟩
      · rw [lastSpec.2, lastSpec.1.top]
        exact Nat.le_add_right _ _
      · rw [lastSpec.1.top]
        rw [secondSpec.limit, isLimit] at room
        exact room

theorem receiver_getter {memory : Transaction.Memory} {data : Nat}
    (isGetter : node.declaration.isGetter = true) (small : node.parametersSize < 2 ^ 63)
    (runs : node.elaborate (.fresh memory data elaboratorCapacity) = some stack) :
    ∃ offset, node.slots.receiver = some offset ∧ stack.address offset = data - wordSize := by
  rcases basePointer_getter isGetter runs with ⟨_, isBase, _, _⟩
  have isReserved := node.reserved_eq (by omega)
  have positive := node.wordSize_le_parametersSize.1
  have aligned := node.wordSize_le_parametersSize.2
  refine ⟨_, node.offsets.receiver, ?_⟩
  rw [wordSize] at *
  rw [address_below (by omega), isBase, isReserved]
  omega

theorem not_buildsFrame_getter (isGetter : node.declaration.isGetter = true) :
    ¬node.BuildsFrame := by
  intro builds
  rcases builds (fun _ => 0) 0 with ⟨stack, runs, right⟩
  rcases basePointer_getter isGetter runs with ⟨isData, isBase, below, inside⟩
  rw [elaboratorCapacity] at inside
  have small := parametersSize_le right (by omega) (by rw [isData, isBase, wordSize]; omega) below
  have isReserved := node.reserved_eq (by omega)
  have positive := node.wordSize_le_parametersSize.1
  rw [isData, isBase, isReserved] at small
  omega

theorem iotaOffset_eq (node : Node) :
    node.slots.iota = if node.declaration.hasDimension then
      some (below (8 + node.parametersSize + wordSize)) else none := by
  rw [slots, node.offsets.iota, NodeDeclaration.iotaParameter]
  split <;> rfl

theorem holds_of_elaborated {start : Nat} (elaborated : node.Elaborated start stack)
    (isReserved : wordSize + node.reserved = node.parametersSize)
    (small : node.parametersSize ≤ 2 ^ 60) :
    stack.Holds node.slots node.address node.iota := by
  have isBase := elaborated.basePointer
  have isTop := elaborated.top
  have positive := node.wordSize_le_parametersSize.1
  rw [wordSize] at isBase isTop positive isReserved
  constructor
  · intro offset isSlot
    rw [node.offsets.receiver, Option.some.injEq] at isSlot
    rw [← isSlot, address_below (by omega)]
    have isAddress : stack.basePointer - (8 + node.parametersSize) = start + node.iotaSize := by
      omega
    rw [isAddress]
    exact And.intro (by omega) elaborated.receiver
  · intro offset isSlot
    rw [iotaOffset_eq] at isSlot
    split at isSlot
    case isFalse => cases isSlot
    next hasDimension =>
    have isSize : node.iotaSize = 8 := if_pos hasDimension
    rw [Option.some.injEq] at isSlot
    rw [← isSlot, wordSize, address_below (by omega)]
    have isAddress : stack.basePointer - (8 + node.parametersSize + 8) = start := by
      omega
    rw [isAddress]
    exact And.intro (by omega) (elaborated.iota hasDimension)

theorem room_of_places (right : node.FrameIsRight stack) (data : stack.data ≤ stack.top)
    (inside : stack.top ≤ stack.limit)
    (holds : stack.Holds node.slots node.address node.iota) :
    stack.top + wordSize ≤ stack.limit := by
  have hasRoom : BoundedStack.HasRoom { stack with limit := stack.limit + wordSize } :=
    ⟨data, Nat.add_le_add_right inside _⟩
  have wide : BoundedStack.Holds { stack with limit := stack.limit + wordSize } node.slots
      node.address node.iota := ⟨holds.receiver, holds.iota⟩
  have isSlot := node.offsets.receiver
  have evaluated := right.places _ hasRoom wide .receiver
  rw [BoundedStack.evaluate_eq hasRoom wide (by rw [isSlot]; exact Option.some_ne_none _),
    Place.value, Place.evaluate, Place.execute, isSlot] at evaluated
  rcases Option.bind_eq_some_iff.1 evaluated with ⟨after, executed, _⟩
  rcases Option.bind_eq_some_iff.1 executed with ⟨offset, _, loads⟩
  rcases Option.bind_eq_some_iff.1 loads with ⟨referenced, references, _⟩
  exact (BoundedStack.push_isSome _ _).1 ⟨referenced, references⟩

theorem fits_of_buildsFrame (builds : node.BuildsFrame) : node.Fits := by
  have isNode : node.declaration.isGetter = false := by
    rw [← Bool.not_eq_true]
    exact fun isGetter => not_buildsFrame_getter isGetter builds
  rcases builds (fun _ => 0) 0 with ⟨stack, runs, right⟩
  rw [elaborate_eq isNode] at runs
  have elaborated := elaborated_of runs
  have isLimit := elaborated.limit
  have capacity := (node.elaborateWithIota_isSome _ _).1 ⟨stack, runs⟩
  have isBase := elaborated.basePointer
  have isTop := elaborated.top
  rw [elaboratorCapacity] at isLimit capacity
  have small := parametersSize_le right (by omega)
    (by rw [elaborated.data, isBase, wordSize]; omega) (by omega)
  have isReserved := node.reserved_eq (by omega)
  have positive := node.wordSize_le_parametersSize.1
  have holds := holds_of_elaborated elaborated (by omega) (by omega)
  have room := room_of_places right (by rw [elaborated.data]; omega) (by omega) holds
  refine ⟨isNode, ?_, ?_⟩
  · rw [elaboratorCapacity]
    omega
  · intro declaration isDeclaration n isByte
    have within := right.locals declaration isDeclaration n isByte
    rw [wordSize] at isTop
    omega

theorem buildsFrame_of_fits (fits : node.Fits) : node.BuildsFrame := by
  intro memory start
  have capacity := fits.capacity
  rw [elaboratorCapacity] at capacity
  have positive := node.wordSize_le_parametersSize.1
  have isReserved := node.reserved_eq (by omega)
  rcases (node.elaborateWithIota_isSome memory start).2
    (by rw [elaboratorCapacity]; omega) with ⟨stack, runs⟩
  have elaborated := elaborated_of runs
  have isBase := elaborated.basePointer
  have isTop := elaborated.top
  have isLimit := elaborated.limit
  have isData := elaborated.data
  rw [elaboratorCapacity] at isLimit
  have holds := holds_of_elaborated elaborated (by omega) (by omega)
  have hasReceiver : node.slots.receiver ≠ none := by
    rw [node.offsets.receiver]
    exact Option.some_ne_none _
  have hasRoom : stack.HasRoom := ⟨by omega, by omega⟩
  rw [← elaborate_eq fits.isNode] at runs
  refine ⟨stack, runs, ?_, ?_, ?_, ?_, ?_⟩
  · exact fun offset isSlot => (holds.receiver offset isSlot).2
  · exact fun offset isSlot => (holds.iota offset isSlot).2
  · intro symbol isArgument n isByte
    have offsets := node.offsets
    rw [arguments, offsets.returns fits.isNode, List.append_nil, List.mem_append] at isArgument
    rw [wordSize] at *
    rcases isArgument with isParameter | isIota
    · have sum : 8 + wordSize * wordsOfAll (typesOf node.frame.parameters.parameters) =
          8 + node.parametersSize := by rw [offsets.types, parametersSize]
      have within := Descending.bytes offsets.descending (by omega) symbol isParameter n isByte
      omega
    · rw [Option.mem_toList, offsets.iota, Option.map_eq_some_iff] at isIota
      rcases isIota with ⟨parameter, isParameter, isSymbol⟩
      have hasDimension : node.declaration.hasDimension = true := by
        rw [NodeDeclaration.iotaParameter] at isParameter
        split at isParameter
        · assumption
        · cases isParameter
      have isSize : node.iotaSize = 8 := if_pos hasDimension
      rw [← isSymbol] at isByte
      simp only [StackSymbol.bytes, getD_sizeOnStack, wordsOf_int, Set.mem_ofPred_eq] at isByte
      rw [wordSize, toInt_below (by omega)] at isByte
      omega
  · intro declaration isDeclaration n isByte
    have within := fits.locals declaration isDeclaration n isByte
    rw [wordSize] at isTop
    omega
  · intro runtime runtimeRoom runtimeHolds place
    rw [BoundedStack.evaluate_eq hasRoom holds hasReceiver,
      BoundedStack.evaluate_eq runtimeRoom runtimeHolds hasReceiver]

/-- The frame of the callable is built for actions and reactions whose frame is
small enough, and for no getter. -/
theorem buildsFrame_iff (node : Node) : node.BuildsFrame ↔ node.Fits :=
  ⟨fits_of_buildsFrame, buildsFrame_of_fits⟩

theorem sized_parameters (isNode : node.declaration.isGetter = false) :
    ∀ parameter ∈ node.declaration.callable.parameters, parameter.type.sizeOnStack ≠ none := by
  have allocated := node.allocated
  simp only [allocateStackVariables, Option.bind_eq_bind, Option.bind_eq_some_iff, Prod.exists]
    at allocated
  rcases allocated with ⟨parameters, entered, isEntered, _⟩
  rcases node.declaration.exists_allocateParameters isEntered with ⟨middle, areParameters, _⟩
  have sized := sizeOnStack_ne_none_of_allocateParameters areParameters
  have withIota : ∀ parameter ∈ node.declaration.parameters ++
      node.declaration.iotaParameter.toList, parameter.type.sizeOnStack ≠ none := by
    intro parameter isParameter
    rcases List.mem_append.1 isParameter with isFirst | isIota
    · exact sized parameter isFirst
    · rw [Option.mem_toList, NodeDeclaration.iotaParameter] at isIota
      split at isIota
      · rw [← Option.some.inj isIota]
        exact Option.some_ne_none _
      · cases isIota
  cases isDeclaration : node.declaration with
  | action component hasDimension =>
      rw [isDeclaration] at withIota
      exact withIota
  | reaction component types hasDimension =>
      rw [isDeclaration] at withIota
      exact withIota
  | getter component types returns =>
      rw [isDeclaration] at isNode
      cases isNode

theorem localsFit_of_total (isNode : node.declaration.isGetter = false) {total : Nat}
    (isTotal : sizeOnStackOfList ((node.body.declarations [] 0).map Prod.snd) = some total)
    (small : 8 + total < 2 ^ 63) : node.LocalsFit := by
  rcases node.declaration.callable.allocate_sameLocals (sized_parameters isNode) with
    ⟨parameters, entered, isEntered, same⟩
  have isStart : entered.localsOffset.toNat = 8 := by
    rw [same.1]
    rfl
  have room : entered.Room total := ⟨by rw [isStart]; exact Nat.dvd_refl 8, by rw [isStart]; exact small⟩
  rcases allocatesBlock node.body entered [] 0 total isTotal room with
    ⟨block, after, runs, allocation, isRestored⟩
  have allocated := node.allocated
  simp only [allocateStackVariables, isEntered, runs, Option.bind_eq_bind, Option.bind_some]
    at allocated
  split at allocated
  case isFalse => cases allocated
  have isFrame := Option.some.inj allocated
  have isSize : node.locals = total := by
    rw [locals, ← isFrame, allocation.size, same.2]
    change (BitVec.ofNat 64 0 + BitVec.ofNat 64 total).toNat = total
    rw [BitVec.zero_add, BitVec.toNat_ofNat]
    exact Nat.mod_eq_of_lt (by omega)
  have divides : stackAlignment ∣ total := dvd_sizeOnStackOfList isTotal
  intro declaration isDeclaration n isByte
  rw [← isFrame] at isDeclaration
  have inside := allocation.placed.within declaration isDeclaration
  rw [isStart, StackSymbol.lower, StackSymbol.upper] at inside
  rw [StackSymbol.bytes, Set.mem_ofPred_eq, BitVec.toInt_eq_toNat_of_lt (by omega)] at isByte
  rw [isSize, aligned_of_dvd divides]
  omega

end Node

/-- `getter (this * C) value () int { return 0; }` -/
def valueGetter : Node where
  declaration := .getter (.component (.cons (.pointer (.basic .int32)) .nil)) [] [.basic .int]
  body := .list .nil
  frame :=
    { parameters :=
        { parameters := [⟨below 16, .pointer (.component (.cons (.pointer (.basic .int32)) .nil))⟩]
          returns := [⟨below 24, .basic .int⟩]
          iota := none }
      body := .list .nil
      memoryModel := ⟨below 24, BitVec.ofNat 64 8, BitVec.ofNat 64 0, some (below 16)⟩ }
  allocated := rfl
  address := 0
  iota := 0

/-- The frame of a getter is one word short. -/
theorem valueGetter_not_buildsFrame : ¬valueGetter.BuildsFrame :=
  Node.not_buildsFrame_getter rfl

end Rcgo.Composition
