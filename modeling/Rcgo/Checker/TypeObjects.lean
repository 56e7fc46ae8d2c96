import Rcgo.Checker.Scope
import Rcgo.Code.DataLayout
import Mathlib.Data.Finset.Basic

/-!
# Type objects

The objects that the compiler builds for types, with their addresses, and
`are_identical` of `type.cpp`.
-/

namespace Rcgo.Code.Kind

def isSingleton : Kind → Bool
  | struct | component | array | map | pointer | slice | heap | function | pushPort
  | pullPort | method | initializer | getter | reaction | interface | named => false
  | _ => true

/-- The kinds of `FunctionBase`. -/
def isFunctionBase : Kind → Bool
  | function | pushPort | pullPort => true
  | _ => false

/-- The kinds of `MethodBase`. -/
def isMethodBase : Kind → Bool
  | method | initializer | getter | reaction => true
  | _ => false

end Rcgo.Code.Kind

namespace Rcgo.Checker

open Rcgo.Code

abbrev Address :=
  Nat

/-- What a field has besides its type. -/
structure FieldLabel where
  isAnonymous : Bool
  name : String
  package : Address
  tags : Finset String
  deriving DecidableEq

mutual

/-- A type object.  A named type is known by its address only. -/
inductive TypeObject where
  | basic (kind : Kind) (isSingleton : kind.isSingleton = true)
  | named (address : Address)
  | pointer (address : Address) (base : TypeObject)
  | slice (address : Address) (base : TypeObject)
  | heap (address : Address) (base : TypeObject)
  | array (address : Address) (base : TypeObject) (dimension : Nat)
  | map (address : Address) (key value : TypeObject)
  | struct (address : Address) (fields : FieldObjects)
  | component (address : Address) (fields : FieldObjects)
  | function (kind : Kind) (isFunctionBase : kind.isFunctionBase = true) (address : Address)
      (parameters results : ParameterObjects) (isVariadic : Bool)
  | method (kind : Kind) (isMethodBase : kind.isMethodBase = true) (address : Address)
  | interface (address : Address) (package : Address) (methods : MethodObjects)

/-- The fields of a struct. -/
inductive FieldObjects where
  | nil
  | cons (label : FieldLabel) (type : TypeObject) (rest : FieldObjects)

/-- The types of a parameter list. -/
inductive ParameterObjects where
  | nil
  | cons (type : TypeObject) (rest : ParameterObjects)

/-- The methods of an interface, in the order of their names. -/
inductive MethodObjects where
  | nil
  | cons (name : String) (type : TypeObject) (rest : MethodObjects)

end

/-- What a pointer to a type object is compared by. -/
inductive Identity where
  | instance (kind : Kind)
  | address (address : Address)
  deriving DecidableEq

namespace TypeObject

def identity : TypeObject → Identity
  | basic kind _ => .instance kind
  | named address => .address address
  | pointer address _ => .address address
  | slice address _ => .address address
  | heap address _ => .address address
  | array address _ _ => .address address
  | map address _ _ => .address address
  | struct address _ => .address address
  | component address _ => .address address
  | function _ _ address _ _ _ => .address address
  | method _ _ address => .address address
  | interface address _ _ => .address address

/-- `Type::kind`. -/
def kind : TypeObject → Kind
  | basic kind _ => kind
  | named _ => .named
  | pointer _ _ => .pointer
  | slice _ _ => .slice
  | heap _ _ => .heap
  | array _ _ _ => .array
  | map _ _ _ => .map
  | struct _ _ => .struct
  | component _ _ => .component
  | function kind _ _ _ _ _ => kind
  | method kind _ _ => kind
  | interface _ _ _ => .interface

/-- The fields of what `Type::to_struct` returns. -/
def fields : TypeObject → Option FieldObjects
  | struct _ fields => some fields
  | component _ fields => some fields
  | _ => none

/-- `Type::to_named_type` is not null. -/
def isNamed : TypeObject → Bool
  | named _ => true
  | _ => false

end TypeObject

def FieldObjects.length : FieldObjects → Nat
  | nil => 0
  | cons _ _ rest => rest.length + 1

def ParameterObjects.length : ParameterObjects → Nat
  | nil => 0
  | cons _ rest => rest.length + 1

def MethodObjects.length : MethodObjects → Nat
  | nil => 0
  | cons _ _ rest => rest.length + 1

/-- `named_uint8`. -/
def namedUint8 : Address := 0

/-- `named_byte`. -/
def namedByte : Address := 1

/-- `util::is_lowercase`. -/
def isLowercase (name : String) : Bool :=
  name.toList.head?.any Char.isLower

mutual

/-- `are_identical`, none where the code is designated unreachable. -/
def areIdentical : TypeObject → TypeObject → Option Bool
  | x, y =>
      if (x.identity = .address namedUint8 ∧ y.identity = .address namedByte) ∨
          (x.identity = .address namedByte ∧ y.identity = .address namedUint8) then
        some true
      else if x.identity = y.identity then
        some true
      else if x.isNamed ∨ y.isNamed then
        some false
      else if x.kind ≠ y.kind then
        some false
      else
        match x, y with
        | .array _ base dimension, .array _ other otherDimension => do
            let same ← areIdentical base other
            some (same && dimension == otherDimension)
        | .slice _ base, .slice _ other => areIdentical base other
        | .struct _ fields, .struct _ others =>
            if fields.length ≠ others.length then some false
            else areIdenticalFields fields others
        | .component _ fields, .component _ others =>
            if fields.length ≠ others.length then some false
            else areIdenticalFields fields others
        | .pointer _ base, .pointer _ other => areIdentical base other
        | .function _ _ _ parameters results isVariadic,
            .function _ _ _ otherParameters otherResults otherVariadic =>
            if parameters.length ≠ otherParameters.length then some false
            else if results.length ≠ otherResults.length then some false
            else if isVariadic ≠ otherVariadic then some false
            else do
              let same ← areIdenticalParameters parameters otherParameters
              if same then areIdenticalParameters results otherResults else some false
        | .interface _ package methods, .interface _ otherPackage others =>
            if methods.length ≠ others.length then some false
            else areIdenticalMethods package otherPackage methods others
        | .map _ key value, .map _ otherKey otherValue => do
            let same ← areIdentical key otherKey
            if same then areIdentical value otherValue else some false
        | .heap _ base, .heap _ other => areIdentical base other
        | _, _ => none
termination_by structural x => x

/-- The loop over the fields. -/
def areIdenticalFields : FieldObjects → FieldObjects → Option Bool
  | .cons f1 type rest, .cons f2 other others =>
      if f1.isAnonymous ≠ f2.isAnonymous then some false
      else if f1.isAnonymous = false ∧ f1.name ≠ f2.name then some false
      else if f1.isAnonymous = false ∧ isLowercase f1.name ∧ f1.package ≠ f2.package then
        some false
      else do
        let same ← areIdentical type other
        if same = false then some false
        else if f1.tags ≠ f2.tags then some false
        else areIdenticalFields rest others
  | _, _ => some true
termination_by structural x => x

/-- The loops over parameters in `function_base_are_identical`. -/
def areIdenticalParameters : ParameterObjects → ParameterObjects → Option Bool
  | .cons type rest, .cons other others => do
      let same ← areIdentical type other
      if same then areIdenticalParameters rest others else some false
  | _, _ => some true
termination_by structural x => x

/-- The loop over the methods of an interface. -/
def areIdenticalMethods (package otherPackage : Address) :
    MethodObjects → MethodObjects → Option Bool
  | .cons name type rest, .cons otherName other others =>
      if name ≠ otherName then some false
      else if isLowercase name ∧ package ≠ otherPackage then some false
      else do
        let same ← areIdentical type other
        if same then areIdenticalMethods package otherPackage rest others else some false
  | _, _ => some true
termination_by structural x => x

end

mutual

/-- The types that a type object refers to. -/
def TypeObject.components : TypeObject → List TypeObject
  | .basic _ _ => []
  | .named _ => []
  | .pointer _ base => [base]
  | .slice _ base => [base]
  | .heap _ base => [base]
  | .array _ base _ => [base]
  | .map _ key value => [key, value]
  | .struct _ fields => fields.types
  | .component _ fields => fields.types
  | .function _ _ _ parameters results _ => parameters.types ++ results.types
  | .method _ _ _ => []
  | .interface _ _ methods => methods.types

def FieldObjects.types : FieldObjects → List TypeObject
  | .nil => []
  | .cons _ type rest => type :: rest.types

def ParameterObjects.types : ParameterObjects → List TypeObject
  | .nil => []
  | .cons type rest => type :: rest.types

def MethodObjects.types : MethodObjects → List TypeObject
  | .nil => []
  | .cons _ type rest => type :: rest.types

end

/-! ## Definitions -/

mutual

/-- The type with named types as they are given. -/
def TypeObject.resolveWith (named : Address → DataType) : TypeObject → DataType
  | .basic kind _ => .basic kind
  | .named address => named address
  | .pointer _ base => .pointer (base.resolveWith named)
  | .slice _ base => .slice (base.resolveWith named)
  | .heap _ base => .heap (base.resolveWith named)
  | .array _ base dimension => .array dimension (base.resolveWith named)
  | .map _ _ _ => .basic .map
  | .struct _ fields => .struct (fields.resolveWith named)
  | .component _ fields => .component (fields.resolveWith named)
  | .function kind _ address _ _ _ => .callable kind address
  | .method kind _ address => .callable kind address
  | .interface _ _ _ => .basic .interface

def FieldObjects.resolveWith (named : Address → DataType) : FieldObjects → Fields
  | .nil => .nil
  | .cons _ type rest => .cons (type.resolveWith named) (rest.resolveWith named)

end

/-- A named type with the definitions in it, down to a depth. -/
def namedType (definition : Address → TypeObject) : Nat → Address → DataType
  | 0, address => .declared address
  | depth + 1, address =>
      .named address ((definition address).resolveWith (namedType definition depth))

/-- The type objects of a program.  `definition` is `NamedType::underlying_type`. -/
structure TypeUniverse where
  objects : Set TypeObject
  definition : Address → TypeObject
  uint8 : .named namedUint8 ∈ objects
  byte : .named namedByte ∈ objects
  closed : ∀ x ∈ objects, ∀ y ∈ x.components, y ∈ objects
  coherent : ∀ x ∈ objects, ∀ y ∈ objects, x.identity = y.identity → x = y
  noMethods : ∀ x ∈ objects, x.kind.isMethodBase = false
  isUint8 : definition namedUint8 = .basic .uint8 rfl
  isByte : definition namedByte = .basic .uint8 rfl

/-- The types of `type node struct { next *node; bytes [4]byte; }`, besides those
with one object each, and another `*node`. -/
def nodeObjects : List TypeObject :=
  let next := .pointer 3 (.named 2)
  let bytes := .array 4 (.named namedByte) 4
  let label (name : String) : FieldLabel := ⟨false, name, 0, ∅⟩
  [.named namedUint8, .named namedByte, .named 2, next, bytes,
    .struct 5 (.cons (label "next") next (.cons (label "bytes") bytes .nil)), .pointer 6 (.named 2)]

theorem nodeObjects_identities :
    nodeObjects.map TypeObject.identity = (List.range 7).map Identity.address :=
  rfl

theorem components_mem_nodeObjects {x y : TypeObject} (member : x ∈ nodeObjects)
    (isComponent : y ∈ x.components) : y ∈ nodeObjects := by
  simp only [nodeObjects, List.mem_cons, List.not_mem_nil, or_false] at member ⊢
  rcases member with rfl | rfl | rfl | rfl | rfl | rfl | rfl
  · cases isComponent
  · cases isComponent
  · cases isComponent
  · simp [List.mem_singleton.mp isComponent]
  · simp [List.mem_singleton.mp isComponent]
  · simp only [TypeObject.components, FieldObjects.types, List.mem_cons, List.not_mem_nil,
      or_false] at isComponent
    rcases isComponent with isNext | isBytes
    · simp [isNext]
    · simp [isBytes]
  · simp [List.mem_singleton.mp isComponent]

theorem exists_address_of_mem_nodeObjects {x : TypeObject} (member : x ∈ nodeObjects) :
    ∃ address, x.identity = .address address := by
  have isIdentity := List.mem_map_of_mem (f := TypeObject.identity) member
  rw [nodeObjects_identities] at isIdentity
  obtain ⟨address, _, isAddress⟩ := List.mem_map.mp isIdentity
  exact ⟨address, isAddress.symm⟩

instance : Inhabited TypeUniverse where
  default :=
    { objects := {x | x ∈ nodeObjects ∨ ∃ kind one, x = .basic kind one}
      definition := fun address => if address = 2 then nodeObjects[5] else .basic .uint8 rfl
      uint8 := Or.inl (by simp [nodeObjects])
      byte := Or.inl (by simp [nodeObjects])
      closed := by
        rintro x (member | ⟨kind, one, rfl⟩) y isComponent
        · exact Or.inl (components_mem_nodeObjects member isComponent)
        · cases isComponent
      coherent := by
        rintro x (member | ⟨kind, one, rfl⟩) y (other | ⟨otherKind, otherOne, rfl⟩) same
        · refine List.inj_on_of_nodup_map ?_ member other same
          rw [nodeObjects_identities]
          decide
        · obtain ⟨address, isAddress⟩ := exists_address_of_mem_nodeObjects member
          rw [isAddress] at same
          cases same
        · obtain ⟨address, isAddress⟩ := exists_address_of_mem_nodeObjects other
          rw [isAddress] at same
          cases same
        · cases same
          rfl
      noMethods := by
        rintro x (member | ⟨kind, one, rfl⟩)
        · simp only [nodeObjects, List.mem_cons, List.not_mem_nil, or_false] at member
          rcases member with rfl | rfl | rfl | rfl | rfl | rfl | rfl
          all_goals rfl
        · cases kind <;> first | rfl | cases one
      isUint8 := rfl
      isByte := rfl }

namespace TypeUniverse

/-- A type of the program, with the named types defined down to a depth. -/
def resolve (types : TypeUniverse) (depth : Nat) (x : TypeObject) : DataType :=
  x.resolveWith (namedType types.definition depth)

/-- `are_identical` returns true. -/
def Identical (types : TypeUniverse) (x y : types.objects) : Prop :=
  areIdentical x.1 y.1 = some true

/-- The layout functions and `contains_pointer` do not tell the types apart. -/
structure SameLayout (types : TypeUniverse) (x y : TypeObject) : Prop where
  size : ∀ depth, Arch.size (types.resolve depth x) = Arch.size (types.resolve depth y)
  alignment : ∀ depth,
    Arch.alignment (types.resolve depth x) = Arch.alignment (types.resolve depth y)
  containsPointer : ∀ depth,
    (types.resolve depth x).containsPointer = (types.resolve depth y).containsPointer
  offset : ∀ depth fields others, x.fields = some fields → y.fields = some others →
    ∀ i, Arch.offset (fields.resolveWith (namedType types.definition depth)) i =
      Arch.offset (others.resolveWith (namedType types.definition depth)) i

end TypeUniverse

end Rcgo.Checker
