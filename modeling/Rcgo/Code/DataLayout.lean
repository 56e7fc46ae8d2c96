import Rcgo.Code.Layout
import Rcgo.Foundation.Placement

/-!
# The layout of data

`arch.cpp` in 64-bit words: alignment, size and unit size of a type and the
offset of a field.  The sizes of `Layout` are the same computations without a
bound, and a word is such a size modulo `2 ^ 64`.
-/

namespace Rcgo.Code

def Fields.toList : Fields → List DataType
  | .nil => []
  | .cons type rest => type :: rest.toList

/-- The first `n` fields. -/
def Fields.take : Nat → Fields → Fields
  | 0, _ => .nil
  | _ + 1, .nil => .nil
  | n + 1, .cons type rest => .cons type (rest.take n)

namespace Arch

/-- `size_t`. -/
abbrev Word := BitVec 64

/-- `util::align_up`. -/
def alignUp (value alignment : Word) : Word :=
  (value + (alignment - 1#64)) &&& ~~~(alignment - 1#64)

/-- `std::max`. -/
def maximum (word other : Word) : Word :=
  if word < other then other else word

mutual

/-- `arch::alignment`, none where the code is designated unreachable. -/
def alignment : DataType → Option Word
  | .struct fields => alignmentOfFields fields 0#64
  | .component fields => alignmentOfFields fields 0#64
  | .array _ base => alignment base
  | .named _ definition => alignment definition
  | .basic kind => kind.alignment.map (BitVec.ofNat 64)
  | .pointer _ => (Kind.alignment .pointer).map (BitVec.ofNat 64)
  | .slice _ => (Kind.alignment .slice).map (BitVec.ofNat 64)
  | .heap _ => none
  | .callable kind _ => kind.alignment.map (BitVec.ofNat 64)
  | .declared _ => none

/-- The loop over the fields in `arch::alignment`. -/
def alignmentOfFields : Fields → Word → Option Word
  | .nil, sz => some sz
  | .cons type rest, sz => do
      let first ← alignment type
      alignmentOfFields rest (maximum sz first)

end

mutual

/-- `arch::size`, none where the code is designated unreachable. -/
def size : DataType → Option Word
  | .struct fields => sizeOfFields fields 0#64
  | .component fields => sizeOfFields fields 0#64
  | .array dimension base => do
      let size ← size base
      let alignment ← alignment base
      some (alignUp size alignment * BitVec.ofNat 64 dimension)
  | .named _ definition => size definition
  | .basic kind => kind.size.map (BitVec.ofNat 64)
  | .pointer _ => (Kind.size .pointer).map (BitVec.ofNat 64)
  | .slice _ => (Kind.size .slice).map (BitVec.ofNat 64)
  | .heap _ => none
  | .callable kind _ => kind.size.map (BitVec.ofNat 64)
  | .declared _ => none

/-- The loop over the fields in `arch::size`. -/
def sizeOfFields : Fields → Word → Option Word
  | .nil, sz => some sz
  | .cons type rest, sz => do
      let alignment ← alignment type
      let size ← size type
      sizeOfFields rest (alignUp sz alignment + size)

end

/-- `arch::unit_size` of an array or a slice with elements of the type. -/
def unitSize (element : DataType) : Option Word := do
  let size ← size element
  let alignment ← alignment element
  some (alignUp size alignment)

/-- The loop over the fields in `arch::offset`, for the field at a position. -/
def offsetFrom : Fields → Nat → Word → Option Word
  | .nil, _, _ => none
  | .cons type _, 0, sz => do
      let alignment ← alignment type
      some (alignUp sz alignment)
  | .cons type rest, i + 1, sz => do
      let alignment ← alignment type
      let size ← size type
      offsetFrom rest i (alignUp sz alignment + size)

/-- `arch::offset` of the field at a position of a struct. -/
def offset (fields : Fields) (i : Nat) : Option Word :=
  offsetFrom fields i 0#64

end Arch

/-! ## Words and unbounded sizes -/

open Foundation

theorem alignUp_eq_roundUp : Code.alignUp = roundUp :=
  rfl

/-- A power of two that a word can hold with a bit to spare, or zero. -/
def IsAlignment (n : Nat) : Prop :=
  n = 0 ∨ ∃ k < 64, n = 2 ^ k

theorem IsAlignment.lt {n : Nat} (isAlignment : IsAlignment n) : n < 2 ^ 64 := by
  rcases isAlignment with rfl | ⟨k, isBit, rfl⟩
  · exact Nat.two_pow_pos 64
  · exact Nat.pow_lt_pow_right (by decide) isBit

theorem IsAlignment.max {n m : Nat} (first : IsAlignment n) (second : IsAlignment m) :
    IsAlignment (max n m) := by
  rcases Nat.le_total n m with le | le
  · rwa [Nat.max_eq_right le]
  · rwa [Nat.max_eq_left le]

theorem Kind.isAlignment {kind : Kind} {n : Nat} (isKind : kind.alignment = some n) :
    IsAlignment n := by
  have isOne : n = 2 ^ 0 ∨ n = 2 ^ 1 ∨ n = 2 ^ 2 ∨ n = 2 ^ 3 := by
    cases kind <;> simp_all [Kind.alignment]
  rcases isOne with isPower | isPower | isPower | isPower
  all_goals exact .inr ⟨_, by decide, isPower⟩

mutual

theorem DataType.isAlignment (type : DataType) {n : Nat} (isType : type.alignment = some n) :
    IsAlignment n := by
  cases type with
  | struct fields => exact fields.isAlignment isType
  | component fields => exact fields.isAlignment isType
  | array _ base => exact base.isAlignment isType
  | named _ definition => exact definition.isAlignment isType
  | basic kind => exact Kind.isAlignment isType
  | pointer _ => exact Kind.isAlignment isType
  | slice _ => exact Kind.isAlignment isType
  | callable kind _ => exact Kind.isAlignment isType
  | heap _ => cases isType
  | declared _ => cases isType

theorem Fields.isAlignment (fields : Fields) {n : Nat} (areFields : fields.alignment = some n) :
    IsAlignment n := by
  cases fields with
  | nil => exact .inl (Option.some.inj areFields).symm
  | cons type rest =>
      simp only [Fields.alignment, Option.bind_eq_bind, Option.bind_eq_some_iff,
        Option.some.injEq] at areFields
      obtain ⟨first, isFirst, others, areOthers, rfl⟩ := areFields
      exact (type.isAlignment isFirst).max (rest.isAlignment areOthers)

end

theorem DataType.alignment_underlyingType (type : DataType) :
    type.underlyingType.alignment = type.alignment := by
  induction type using DataType.underlyingType.induct with
  | case1 _ definition inductionHypothesis =>
      rw [DataType.underlyingType, inductionHypothesis, DataType.alignment]
  | case2 type notNamed =>
      rw [DataType.underlyingType]
      exact notNamed

theorem DataType.alignment_of_kind {type : DataType} {kind : Kind} {n : Nat}
    (isKind : type.underlyingKind = kind) (isAlignment : kind.alignment = some n) :
    type.alignment = some n := by
  rw [← type.alignment_underlyingType]
  rw [underlyingKind] at isKind
  subst isKind
  cases isType : type.underlyingType with
  | named name definition => exact absurd isType (type.underlyingType_ne_named name definition)
  | struct fields => simp [isType, DataType.kind, Kind.alignment] at isAlignment
  | component fields => simp [isType, DataType.kind, Kind.alignment] at isAlignment
  | array dimension base => simp [isType, DataType.kind, Kind.alignment] at isAlignment
  | heap base => simp [isType, DataType.kind, Kind.alignment] at isAlignment
  | declared name => simp [isType, DataType.kind, Kind.alignment] at isAlignment
  | _ => simpa [isType, DataType.kind, DataType.alignment] using isAlignment

namespace Arch

theorem alignUp_ofNat {n : Nat} (value : Nat) (isAlignment : IsAlignment n) :
    alignUp (BitVec.ofNat 64 value) (BitVec.ofNat 64 n) = BitVec.ofNat 64 (roundUp value n) := by
  rcases isAlignment with rfl | ⟨k, isBit, rfl⟩
  · rw [roundUp_zero_unit]
    exact roundUp_ofNat_zero _
  · exact roundUp_ofNat isBit value

theorem maximum_ofNat {n m : Nat} (first : n < 2 ^ 64) (second : m < 2 ^ 64) :
    maximum (BitVec.ofNat 64 n) (BitVec.ofNat 64 m) = BitVec.ofNat 64 (max n m) := by
  have isLess : BitVec.ofNat 64 n < BitVec.ofNat 64 m ↔ n < m := by
    rw [BitVec.lt_def, BitVec.toNat_ofNat, BitVec.toNat_ofNat, Nat.mod_eq_of_lt first,
      Nat.mod_eq_of_lt second]
  unfold maximum
  by_cases less : n < m
  · rw [if_pos (isLess.mpr less), Nat.max_eq_right (Nat.le_of_lt less)]
  · rw [if_neg fun holds => less (isLess.mp holds), Nat.max_eq_left (Nat.le_of_not_lt less)]

mutual

theorem alignment_eq (type : DataType) :
    alignment type = type.alignment.map (BitVec.ofNat 64) := by
  cases type with
  | struct fields =>
      rw [alignment, DataType.alignment, alignmentOfFields_eq fields (Nat.two_pow_pos 64)]
      simp
  | component fields =>
      rw [alignment, DataType.alignment, alignmentOfFields_eq fields (Nat.two_pow_pos 64)]
      simp
  | array _ base => exact alignment_eq base
  | named _ definition => exact alignment_eq definition
  | basic kind => rfl
  | pointer _ => rfl
  | slice _ => rfl
  | callable kind _ => rfl
  | heap _ => rfl
  | declared _ => rfl

theorem alignmentOfFields_eq (fields : Fields) {sz : Nat} (small : sz < 2 ^ 64) :
    alignmentOfFields fields (BitVec.ofNat 64 sz) =
      fields.alignment.map fun n => BitVec.ofNat 64 (max sz n) := by
  cases fields with
  | nil => simp [alignmentOfFields, Fields.alignment]
  | cons type rest =>
      rw [alignmentOfFields, Fields.alignment, alignment_eq type]
      cases isFirst : type.alignment with
      | none => rfl
      | some first =>
          have isSmall := (type.isAlignment isFirst).lt
          have := alignmentOfFields_eq rest (Nat.max_lt.mpr ⟨small, isSmall⟩)
          simp only [Option.map_some, Option.bind_eq_bind, Option.bind_some,
            maximum_ofNat small isSmall, this]
          cases rest.alignment with
          | none => rfl
          | some others => simp [Nat.max_assoc]

end

mutual

/-- A size in words is the unbounded size modulo `2 ^ 64`. -/
theorem size_eq (type : DataType) : size type = type.size.map (BitVec.ofNat 64) := by
  cases type with
  | struct fields => exact sizeOfFields_eq fields 0
  | component fields => exact sizeOfFields_eq fields 0
  | array dimension base =>
      rw [size, DataType.size, size_eq base, alignment_eq base]
      cases base.size with
      | none => rfl
      | some size =>
          cases isAlignment : base.alignment with
          | none => rfl
          | some alignment =>
              simp [alignUp_ofNat size (base.isAlignment isAlignment), alignUp_eq_roundUp,
                BitVec.ofNat_mul]
  | named _ definition => exact size_eq definition
  | basic kind => rfl
  | pointer _ => rfl
  | slice _ => rfl
  | callable kind _ => rfl
  | heap _ => rfl
  | declared _ => rfl

theorem sizeOfFields_eq (fields : Fields) (sz : Nat) :
    sizeOfFields fields (BitVec.ofNat 64 sz) =
      (fields.sizeFrom sz).map (BitVec.ofNat 64) := by
  cases fields with
  | nil => rfl
  | cons type rest =>
      rw [sizeOfFields, Fields.sizeFrom, size_eq type, alignment_eq type]
      cases isAlignment : type.alignment with
      | none => rfl
      | some alignment =>
          cases type.size with
          | none => rfl
          | some size =>
              have := sizeOfFields_eq rest (roundUp sz alignment + size)
              simpa [alignUp_ofNat sz (type.isAlignment isAlignment), alignUp_eq_roundUp,
                BitVec.ofNat_add] using this

end

theorem unitSize_eq (element : DataType) :
    unitSize element = element.unitSize.map (BitVec.ofNat 64) := by
  rw [unitSize, DataType.unitSize, size_eq, alignment_eq]
  cases element.size with
  | none => rfl
  | some size =>
      cases isAlignment : element.alignment with
      | none => rfl
      | some alignment =>
          simp [alignUp_ofNat size (element.isAlignment isAlignment), alignUp_eq_roundUp]

theorem sizeOfFields_take {fields : Fields} {i : Nat} {type : DataType} {sz offset size : Word}
    (isField : fields.toList[i]? = some type) (isOffset : offsetFrom fields i sz = some offset)
    (isSize : Arch.size type = some size) :
    sizeOfFields (fields.take (i + 1)) sz = some (offset + size) := by
  induction i generalizing fields sz with
  | zero =>
      cases fields with
      | nil => cases isOffset
      | cons first rest =>
          rw [Fields.toList, List.getElem?_cons_zero, Option.some.injEq] at isField
          subst isField
          simp only [offsetFrom, Option.bind_eq_bind, Option.bind_eq_some_iff,
            Option.some.injEq] at isOffset
          obtain ⟨alignment, isAlignment, rfl⟩ := isOffset
          simp [Fields.take, sizeOfFields, isAlignment, isSize]
  | succ i inductionHypothesis =>
      cases fields with
      | nil => cases isOffset
      | cons first rest =>
          rw [Fields.toList, List.getElem?_cons_succ] at isField
          simp only [offsetFrom, Option.bind_eq_bind, Option.bind_eq_some_iff] at isOffset
          obtain ⟨alignment, isAlignment, firstSize, isFirstSize, isOffset⟩ := isOffset
          rw [Fields.take, sizeOfFields, isAlignment, isFirstSize]
          exact inductionHypothesis isField isOffset

end Arch

end Rcgo.Code
