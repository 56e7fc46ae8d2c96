import Rcgo.Code.Kind

/-!
# Sizes of types

`arch.cpp`: the alignment and the size of a type, none for the types that cannot
be allocated.
-/

namespace Rcgo.Code

/-- `util::align_up` for an alignment that is a power of two or zero. -/
def alignUp (value alignment : Nat) : Nat :=
  (value + (alignment - 1)) / alignment * alignment

/-- `arch::stack_alignment ()`, the size of a pointer. -/
def stackAlignment : Nat := 8

def aligned (size : Nat) : Nat :=
  alignUp size stackAlignment

/-- `sizeof` of the C++ type that holds values of the kind. -/
def Kind.size : Kind → Option Nat
  | bool | uint8 | int8 => some 1
  | uint16 | int16 => some 2
  | uint32 | int32 | float32 => some 4
  | uint64 | int64 | float64 | complex64 | uint | int | uintptr => some 8
  | complex128 | string => some 16
  | pointer | function | pushPort | fileDescriptor => some 8
  | pullPort => some 16
  | slice => some 24
  | _ => none

/-- `arch::alignment` of a type that is no array and has no fields. -/
def Kind.alignment : Kind → Option Nat
  | bool | uint8 | int8 => some 1
  | uint16 | int16 => some 2
  | uint32 | int32 | float32 | complex64 => some 4
  | uint64 | int64 | float64 | complex128 | uint | int | uintptr | string => some 8
  | pointer | slice | function | pushPort | pullPort | fileDescriptor => some 8
  | _ => none

mutual

/-- `arch::alignment`. -/
def DataType.alignment : DataType → Option Nat
  | .struct fields => fields.alignment
  | .component fields => fields.alignment
  | .array _ base => base.alignment
  | .named _ definition => definition.alignment
  | .basic kind => kind.alignment
  | .pointer _ => Kind.alignment .pointer
  | .slice _ => Kind.alignment .slice
  | .heap _ => none
  | .callable kind _ => kind.alignment
  | .declared _ => none

/-- The greatest alignment of the fields. -/
def Fields.alignment : Fields → Option Nat
  | .nil => some 0
  | .cons type rest => do
      let first ← type.alignment
      let others ← rest.alignment
      some (max first others)

end

mutual

/-- `arch::size`. -/
def DataType.size : DataType → Option Nat
  | .struct fields => fields.sizeFrom 0
  | .component fields => fields.sizeFrom 0
  | .array dimension base => do
      let size ← base.size
      let alignment ← base.alignment
      some (alignUp size alignment * dimension)
  | .named _ definition => definition.size
  | .basic kind => kind.size
  | .pointer _ => Kind.size .pointer
  | .slice _ => Kind.size .slice
  | .heap _ => none
  | .callable kind _ => kind.size
  | .declared _ => none

/-- The end of the fields when they begin behind `offset`. -/
def Fields.sizeFrom : Fields → Nat → Option Nat
  | .nil, offset => some offset
  | .cons type rest, offset => do
      let alignment ← type.alignment
      let size ← type.size
      rest.sizeFrom (alignUp offset alignment + size)

end

/-- `arch::unit_size` of an array or a slice with elements of the type. -/
def DataType.unitSize (element : DataType) : Option Nat := do
  let size ← element.size
  let alignment ← element.alignment
  some (alignUp size alignment)

/-- `arch::size_on_stack`. -/
def DataType.sizeOnStack (type : DataType) : Option Nat :=
  type.size.map aligned

/-- `arch::size_on_stack` of a parameter list. -/
def sizeOnStackOfList : List DataType → Option Nat
  | [] => some 0
  | type :: rest => do
      let first ← type.sizeOnStack
      let others ← sizeOnStackOfList rest
      some (first + others)

theorem aligned_of_dvd {size : Nat} (divides : stackAlignment ∣ size) : aligned size = size := by
  unfold aligned alignUp stackAlignment at *
  omega

theorem dvd_aligned (size : Nat) : stackAlignment ∣ aligned size :=
  Nat.dvd_mul_left stackAlignment _

theorem dvd_sizeOnStackOfList {types : List DataType} {size : Nat}
    (isSize : sizeOnStackOfList types = some size) : stackAlignment ∣ size := by
  induction types generalizing size with
  | nil =>
      rw [← Option.some.inj isSize]
      exact Nat.dvd_zero _
  | cons type rest inductionHypothesis =>
      simp only [sizeOnStackOfList, Option.bind_eq_bind, Option.bind_eq_some_iff] at isSize
      obtain ⟨first, isFirst, others, areOthers, isSum⟩ := isSize
      obtain ⟨n, _, isAligned⟩ := Option.map_eq_some_iff.mp isFirst
      rw [← Option.some.inj isSum, ← isAligned]
      exact Nat.dvd_add (dvd_aligned n) (inductionHypothesis areOthers)

theorem DataType.size_underlyingType (type : DataType) : type.underlyingType.size = type.size := by
  induction type using DataType.underlyingType.induct with
  | case1 _ definition inductionHypothesis =>
      rw [DataType.underlyingType, inductionHypothesis, DataType.size]
  | case2 type notNamed =>
      rw [DataType.underlyingType]
      exact notNamed

theorem DataType.underlyingType_ne_named (type : DataType) (name : Nat) (definition : DataType) :
    type.underlyingType ≠ .named name definition := by
  induction type using DataType.underlyingType.induct with
  | case1 other inner inductionHypothesis =>
      rw [DataType.underlyingType]
      exact inductionHypothesis
  | case2 type notNamed =>
      rw [DataType.underlyingType]
      · exact notNamed name definition
      · exact notNamed

theorem DataType.size_eq {type : DataType}
    (notBuilt : type.underlyingKind ∉ [Kind.struct, .component, .array]) :
    type.size = type.underlyingKind.size := by
  rw [← type.size_underlyingType]
  rw [underlyingKind] at *
  cases isType : type.underlyingType with
  | named name definition => exact absurd isType (type.underlyingType_ne_named name definition)
  | struct fields => simp [isType, kind] at notBuilt
  | component fields => simp [isType, kind] at notBuilt
  | array dimension base => simp [isType, kind] at notBuilt
  | _ => rfl

theorem DataType.size_of_kind {type : DataType} {kind : Kind} {n : Nat}
    (isKind : type.underlyingKind = kind) (isSize : kind.size = some n) : type.size = some n := by
  rw [size_eq, isKind, isSize]
  rw [isKind]
  intro built
  simp only [List.mem_cons, List.not_mem_nil, or_false] at built
  rcases built with isBuilt | isBuilt | isBuilt
  all_goals
    rw [isBuilt] at isSize
    cases isSize

theorem DataType.sizeOnStack_of_kind {type : DataType} {kind : Kind} {n : Nat}
    (isKind : type.underlyingKind = kind) (isSize : kind.size = some n) :
    type.sizeOnStack = some (aligned n) := by
  rw [sizeOnStack, size_of_kind isKind isSize, Option.map_some]

theorem DataType.sizeOnStack_congr {type other : DataType}
    (same : type.underlyingType = other.underlyingType) : type.sizeOnStack = other.sizeOnStack := by
  rw [sizeOnStack, sizeOnStack, ← type.size_underlyingType, same, other.size_underlyingType]

end Rcgo.Code
