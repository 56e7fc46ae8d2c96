import Rcgo.Code.LayoutCorrectness
import Rcgo.Foundation.OrderedMap
import Mathlib.Logic.Function.Basic

/-!
# The instances of a program

`enumerate_instances` of `composition.cpp` with `allocate_instances` and the addresses
of `create_bindings` of `runtime.cpp`.
-/

namespace Rcgo.Composition

open Code Foundation

/-- `InstanceDecl`, after `process_declaration_i` has found a component and its initializer. -/
structure InstanceDecl where
  typeName : Nat
  definition : DataType
  isComponent : ∃ fields, definition.underlyingType = .component fields
  initializer : Nat
  operation : Nat

/-- `symbol->type ()`. -/
def InstanceDecl.type (declaration : InstanceDecl) : DataType :=
  .named declaration.typeName declaration.definition

/-- `composition::Instance`; the objects are numbered in the order of `new`. -/
structure Instance where
  id : Nat
  parent : Option Instance
  address : Arch.Word
  type : DataType
  initializer : Option Nat
  operation : Option Nat

/-- `Instance::offset`. -/
def Instance.offset (inst : Instance) : Arch.Word :=
  match inst.parent with
  | none => 0
  | some parent => inst.address - parent.address

/-- `composition::PushPort` and `composition::PullPort`, with the position of the field. -/
structure Port where
  address : Arch.Word
  owner : Option Instance
  field : Option Nat

/-- The tables of `Composer`, and how many instances there have been. -/
structure Composer where
  created : Nat
  instances : OrderedMap Arch.Word Instance
  pushPorts : OrderedMap Arch.Word Port
  pullPorts : OrderedMap Arch.Word Port

namespace Composer

def initial : Composer where
  created := 0
  instances := .empty
  pushPorts := .empty
  pullPorts := .empty

/-- `add_instance` of a new instance. -/
def addInstance (composer : Composer) (inst : Instance) : Composer :=
  { composer with
    created := composer.created + 1
    instances := composer.instances.insert inst.address inst }

/-- `add_push_port`. -/
def addPushPort (composer : Composer) (port : Port) : Composer :=
  { composer with pushPorts := composer.pushPorts.insert port.address port }

/-- `add_pull_port`. -/
def addPullPort (composer : Composer) (port : Port) : Composer :=
  { composer with pullPorts := composer.pullPorts.insert port.address port }

mutual

/-- `instantiate_contained_instances`.  The result is none where the assertion that the
component has a name fails.  A definition that is a named type itself is looked through as
by `underlying_type`, which leaves the first name. -/
def instantiateContainedInstances : DataType → Option Instance → Option InstanceDecl →
    Arch.Word → Option DataType → Option Nat → Composer → Option (Option Instance × Composer)
  | .named name definition, parent, declaration, address, namedType, _, composer =>
      instantiateContainedInstances definition parent declaration address
        (namedType <|> some (.named name definition)) none composer
  | .component fields, parent, declaration, address, namedType, _, composer => do
      let type ← namedType
      let inst : Instance :=
        { id := composer.created
          parent
          address
          type
          initializer := declaration.map InstanceDecl.initializer
          operation := declaration.map InstanceDecl.operation }
      let composer ← instantiateFields fields fields 0 inst (composer.addInstance inst)
      some (some inst, composer)
  | .array dimension base, parent, _, address, _, field, composer => do
      let composer ← (List.range dimension).foldlM (fun composer idx => do
        let unit ← Arch.unitSize base
        let result ← instantiateContainedInstances base parent none
          (address + Arch.elementOffset unit idx) none field composer
        some result.2) composer
      some (none, composer)
  | .callable .pushPort _, owner, _, address, _, field, composer =>
      some (none, composer.addPushPort { address, owner, field })
  | .callable .pullPort _, owner, _, address, _, field, composer =>
      some (none, composer.addPullPort { address, owner, field })
  | _, _, _, _, _, _, composer => some (none, composer)

/-- The loop over the fields of a component, from the field at a position on. -/
def instantiateFields : Fields → Fields → Nat → Instance → Composer → Option Composer
  | _, .nil, _, _, composer => some composer
  | fields, .cons type rest, i, inst, composer => do
      let offset ← Arch.offset fields i
      let result ← instantiateContainedInstances type (some inst) none (inst.address + offset)
        none (some i) composer
      instantiateFields fields rest (i + 1) inst result.2

end

end Composer

/-- The visitor of `enumerate_instances`, and `symbol->instance` of each declaration. -/
structure Enumeration where
  composer : Composer
  address : Arch.Word
  symbolInstances : List (Option Instance)

namespace Enumeration

def initial : Enumeration where
  composer := .initial
  address := 0
  symbolInstances := []

/-- `visit` of an `InstanceDecl`. -/
def visit (enumeration : Enumeration) (declaration : InstanceDecl) : Option Enumeration := do
  let (inst, composer) ← Composer.instantiateContainedInstances declaration.type none
    (some declaration) enumeration.address none none enumeration.composer
  let size ← Arch.size declaration.type
  some
    { composer
      address := enumeration.address + size
      symbolInstances := enumeration.symbolInstances ++ [inst] }

end Enumeration

/-- `enumerate_instances`. -/
def enumerateInstances (declarations : List InstanceDecl) : Option Enumeration :=
  declarations.foldlM Enumeration.visit .initial

/-! ## Memory -/

/-- The body of the loop of `allocate_instances`: `instance->component`. -/
def allocateInstance (malloc : Instance → Arch.Word) (component : Nat → Arch.Word)
    (inst : Instance) : Nat → Arch.Word :=
  Function.update component inst.id <|
    match inst.parent with
    | none => malloc inst
    | some parent => component parent.id + inst.offset

/-- `allocate_instances`, in the order of the addresses. -/
def allocateInstances (malloc : Instance → Arch.Word) (composer : Composer) : Nat → Arch.Word :=
  composer.instances.entries.foldl
    (fun component entry => allocateInstance malloc component entry.2) fun _ => 0

/-- The place of a port in `create_bindings`. -/
def Port.place (port : Port) (component : Nat → Arch.Word) : Option Arch.Word := do
  let owner ← port.owner
  some (component owner.id + (port.address - owner.address))

/-! ## The generated code -/

/-- A step of an expression that denotes a part of the program. -/
inductive Selector where
  /-- the instance of a declaration -/
  | declared (i : Nat)
  | field (i : Nat)
  | element (i : Nat)
  deriving DecidableEq

/-- The address that `Select` and `IndexArray` compute from that of the whole. -/
def selectAddress : DataType → List Selector → Arch.Word → Option Arch.Word
  | _, [], pointer => some pointer
  | type, selector :: rest, pointer =>
      match type.underlyingType, selector with
      | .component fields, .field i => do
          let part ← fields.toList[i]?
          let offset ← Arch.offset fields i
          selectAddress part rest (pointer + offset)
      | .array dimension base, .element i => do
          let unit ← Arch.unitSize base
          if i < dimension then selectAddress base rest (pointer + Arch.elementOffset unit i)
          else none
      | _, _ => none

end Rcgo.Composition
