import Rcgo.Code.DataLayout

/-!
# The memory model of a callable

`memory_model.cpp` and the part of `semantic.cpp` that gives parameters and local
variables their offsets from the base pointer.
-/

namespace Rcgo.Code

namespace Arch

/-- `arch::size_on_stack`. -/
def sizeOnStack (type : DataType) : Option Word :=
  (size type).map fun size => alignUp size (BitVec.ofNat 64 stackAlignment)

theorem sizeOnStack_eq (type : DataType) :
    sizeOnStack type = type.sizeOnStack.map (BitVec.ofNat 64) := by
  have isAlignment : IsAlignment stackAlignment := Or.inr ⟨3, by decide, rfl⟩
  rw [sizeOnStack, DataType.sizeOnStack, size_eq, Option.map_map, Option.map_map]
  congr 1
  funext size
  exact alignUp_ofNat size isAlignment

end Arch

/-- `runtime::MemoryModel`.  The offsets are words that are read as signed ones;
the receiver has one when it has been set. -/
structure MemoryModel where
  argumentsOffset : Arch.Word
  localsOffset : Arch.Word
  localsSizeOnStack : Arch.Word
  receiverOffset : Option Arch.Word
  deriving DecidableEq

namespace MemoryModel

/-- `MemoryModel::MemoryModel`. -/
def initial : MemoryModel where
  argumentsOffset := -(BitVec.ofNat 64 8)
  localsOffset := BitVec.ofNat 64 8
  localsSizeOnStack := BitVec.ofNat 64 0
  receiverOffset := none

/-- `MemoryModel::arguments_push`. -/
def argumentsPush (memoryModel : MemoryModel) (type : DataType) : Option MemoryModel :=
  (Arch.sizeOnStack type).map fun size =>
    { memoryModel with argumentsOffset := memoryModel.argumentsOffset - size }

/-- `MemoryModel::locals_empty`. -/
def localsEmpty (memoryModel : MemoryModel) : Bool :=
  memoryModel.localsOffset == BitVec.ofNat 64 8

/-- `MemoryModel::locals_push`. -/
def localsPush (memoryModel : MemoryModel) (type : DataType) : Option MemoryModel :=
  (Arch.sizeOnStack type).map fun size =>
    { memoryModel with
      localsOffset := memoryModel.localsOffset + size
      localsSizeOnStack := memoryModel.localsSizeOnStack + size }

/-- `MemoryModel::locals_pop`. -/
def localsPop (memoryModel : MemoryModel) (size : Arch.Word) : MemoryModel :=
  { memoryModel with
    localsOffset :=
      memoryModel.localsOffset - Arch.alignUp size (BitVec.ofNat 64 stackAlignment) }

/-- `MemoryModel::set_receiver_offset`. -/
def setReceiverOffset (memoryModel : MemoryModel) : MemoryModel :=
  { memoryModel with receiverOffset := some memoryModel.argumentsOffset }

end MemoryModel

/-- `Parameter::Kind`, without the duplicates, which no parameter list has. -/
inductive ParameterKind where
  | ordinary
  | receiver
  | returned
  deriving DecidableEq, Repr

/-- `decl::Parameter`. -/
structure Parameter where
  kind : ParameterKind
  type : DataType
  deriving DecidableEq

namespace Parameter

/-- `Parameter::make`. -/
def make (type : DataType) : Parameter :=
  ⟨.ordinary, type⟩

/-- `Parameter::make_return`. -/
def makeReturn (type : DataType) : Parameter :=
  ⟨.returned, type⟩

/-- `Parameter::make_receiver`. -/
def makeReceiver (type : DataType) : Parameter :=
  ⟨.receiver, type⟩

end Parameter

/-- A parameter or a local variable with its offset from the base pointer. -/
structure StackSymbol where
  offset : Arch.Word
  type : DataType
  deriving DecidableEq

/-- `allocate_symbol` for a parameter. -/
def allocateParameter (memoryModel : MemoryModel) (parameter : Parameter) :
    Option (StackSymbol × MemoryModel) :=
  (memoryModel.argumentsPush parameter.type).map fun memoryModel =>
    (⟨memoryModel.argumentsOffset, parameter.type⟩,
      if parameter.kind = .receiver then memoryModel.setReceiverOffset else memoryModel)

/-- `allocate_symbol` for a variable. -/
def allocateVariable (memoryModel : MemoryModel) (type : DataType) :
    Option (StackSymbol × MemoryModel) :=
  (memoryModel.localsPush type).map fun after => (⟨memoryModel.localsOffset, type⟩, after)

/-- `allocate_parameters`, which begins with the last parameter. -/
def allocateParameters (memoryModel : MemoryModel) :
    List Parameter → Option (List StackSymbol × MemoryModel)
  | [] => some ([], memoryModel)
  | parameter :: rest => do
      let (rest, memoryModel) ← allocateParameters memoryModel rest
      let (symbol, memoryModel) ← allocateParameter memoryModel parameter
      some (symbol :: rest, memoryModel)

/-- What has a memory model and a body.  The parameter list of a method and its
like begins with the receiver; there is an iota where the dimension is not `-1`. -/
inductive Callable where
  | action (receiver : Parameter) (iota : Option Parameter)
  | bind (receiver : Parameter)
  | function (parameters returns : List Parameter)
  | method (parameters returns : List Parameter)
  | initializer (parameters returns : List Parameter)
  | getter (parameters returns : List Parameter)
  | reaction (parameters : List Parameter) (iota : Option Parameter)

/-- The parameters of a callable with their offsets. -/
structure AllocatedParameters where
  parameters : List StackSymbol
  returns : List StackSymbol
  iota : Option StackSymbol
  deriving DecidableEq

/-- The iota, where there is one. -/
def allocateIota (memoryModel : MemoryModel) :
    Option Parameter → Option (Option StackSymbol × MemoryModel)
  | none => some (none, memoryModel)
  | some iota =>
      (allocateParameter memoryModel iota).map fun (symbol, memoryModel) =>
        (some symbol, memoryModel)

def allocateSignature (parameters returns : List Parameter) :
    Option (AllocatedParameters × MemoryModel) := do
  let (parameters, memoryModel) ← allocateParameters .initial parameters
  let (returns, memoryModel) ← allocateParameters memoryModel returns
  some (⟨parameters, returns, none⟩, memoryModel)

def allocateWithIota (parameters : List Parameter) (iota : Option Parameter) :
    Option (AllocatedParameters × MemoryModel) := do
  let (parameters, memoryModel) ← allocateParameters .initial parameters
  let (iota, memoryModel) ← allocateIota memoryModel iota
  some (⟨parameters, [], iota⟩, memoryModel)

/-- The part of `allocate_stack_variables` before the body. -/
def Callable.allocate : Callable → Option (AllocatedParameters × MemoryModel)
  | action receiver iota => allocateWithIota [receiver] iota
  | bind receiver => allocateWithIota [receiver] none
  | function parameters returns => allocateSignature parameters returns
  | method parameters returns => allocateSignature parameters returns
  | initializer parameters returns => allocateSignature parameters returns
  | getter parameters returns => allocateSignature parameters returns
  | reaction parameters iota => allocateWithIota parameters iota

end Rcgo.Code
