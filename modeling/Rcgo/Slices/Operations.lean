import Rcgo.Code.DataLayout
import Rcgo.Code.Operation

/-!
# The operations on slices

`operation.cpp`: what slicing, indexing, append, copy and the conversion of a
string compute once their operands are off the stack.  An operation that copies
memory lists the bytes it touches.
-/

namespace Rcgo.Slices

open Code Machine

deriving instance DecidableEq, Repr for Slice

/-- An element type whose `arch::unit_size` is defined. -/
structure ElementType where
  type : DataType
  unit : Arch.Word
  isUnit : Arch.unitSize type = some unit

/-- `arch::unit_size` as the number of bytes between elements. -/
def ElementType.unitSize (element : ElementType) : Nat :=
  element.unit.toNat

/-- The operands of a slice expression, none where they are absent. -/
structure Bounds where
  low : Option Int
  high : Option Int
  max : Option Int
  deriving DecidableEq, Repr

/-- The values that are checked and used. -/
structure Range where
  low : Int
  high : Int
  max : Int
  deriving DecidableEq, Repr

/-- The operands with the defaults of the absent ones. -/
def Bounds.resolve (bounds : Bounds) (length capacity : Int) : Range where
  low := bounds.low.getD 0
  high := bounds.high.getD length
  max := bounds.max.getD capacity

/-- The bounds check of `SliceArray` and `SliceSlice`. -/
def Range.InBounds (range : Range) (capacity : Int) : Prop :=
  0 ≤ range.low ∧ range.low ≤ range.high ∧ range.high ≤ range.max ∧ range.max ≤ capacity

instance (range : Range) (capacity : Int) : Decidable (range.InBounds capacity) :=
  inferInstanceAs (Decidable (_ ∧ _ ∧ _ ∧ _))

/-- The slice of a range that is in bounds, none where the program is stopped. -/
def takeRange (pointer unitSize : Nat) (capacity : Int) (range : Range) : Option Slice :=
  if range.InBounds capacity then
    let length := Cxx.writeInteger 64 (range.high - range.low)
    some
      { pointer := if length ≠ 0 then Cxx.writeInteger 64 (pointer + range.low * unitSize) else 0
        length
        capacity := Cxx.writeInteger 64 (range.max - range.low) }
  else none

/-- `static_cast<long>`. -/
def long (word : Nat) : Int :=
  Cxx.readInteger true 64 word

/-- The range of a `SliceArray`. -/
def SliceArray.range (dimension : Nat) (bounds : Bounds) : Range :=
  bounds.resolve dimension dimension

/-- `SliceArray::execute`, for an array at the address. -/
def SliceArray.execute (element : ElementType) (dimension pointer : Nat) (bounds : Bounds) :
    Option Slice :=
  takeRange pointer element.unitSize dimension (SliceArray.range dimension bounds)

/-- The range of a `SliceSlice`. -/
def SliceSlice.range (s : Slice) (bounds : Bounds) : Range :=
  bounds.resolve (long s.length) (long s.capacity)

/-- `SliceSlice::execute`. -/
def SliceSlice.execute (element : ElementType) (s : Slice) (bounds : Bounds) : Option Slice :=
  takeRange s.pointer element.unitSize (long s.capacity) (SliceSlice.range s bounds)

/-- `IndexSlice::execute`: the address of the element. -/
def IndexSlice.execute (element : ElementType) (s : Slice) (i : Int) : Option Nat :=
  if i < 0 ∨ s.length ≤ i.toNat then none
  else some ((s.pointer + i.toNat * element.unitSize) % 2 ^ 64)

/-- Bytes that are read or written. -/
structure Access where
  address : Nat
  size : Nat
  deriving DecidableEq, Repr

/-- Memory that was allocated at once: an object of a heap, a component, the
memory of a stack. -/
structure Object where
  address : Nat
  size : Nat
  deriving DecidableEq, Repr

/-- What an operation does to the memory. -/
structure Effects where
  memory : Memory
  accesses : List Access
  allocated : List Object

abbrev Action (α : Type) := StateM Effects α

/-- `memcpy`. -/
def memcpy (target source size : Nat) : Action Unit :=
  modify fun effects =>
    { effects with
      memory := effects.memory.copy target source size
      accesses := effects.accesses ++ [⟨source, size⟩, ⟨target, size⟩] }

/-- `memcpy` of a byte that is no part of the memory of the program. -/
def store (target size : Nat) (byte : UInt8) : Action Unit :=
  modify fun effects =>
    { effects with
      memory := effects.memory.write target size byte.toNat
      accesses := effects.accesses ++ [⟨target, size⟩] }

/-- `Heap::allocate`, where the heap answers with an address. -/
def allocate (heap : Nat → Nat) (size : Nat) : Action Nat := do
  modify fun effects =>
    { effects with allocated := effects.allocated ++ [⟨heap size, size⟩] }
  pure (heap size)

/-- `AppendOp::execute`. -/
def AppendOp.execute (heap : Nat → Nat) (element : ElementType) (slice : Slice) (byte : UInt8) :
    Action Slice := do
  let newLength := (slice.length + 1) % 2 ^ 64
  let slice ←
    if slice.capacity < newLength then do
      let newCapacity := 2 * newLength % 2 ^ 64
      let pointer ← allocate heap (newCapacity * element.unitSize % 2 ^ 64)
      memcpy pointer slice.pointer (slice.length * element.unitSize % 2 ^ 64)
      pure { slice with pointer, capacity := newCapacity }
    else pure slice
  store ((slice.pointer + slice.length * element.unitSize) % 2 ^ 64) element.unitSize byte
  pure { slice with length := newLength }

/-- `CopyOp::execute` for a slice. -/
def CopyOp.execute (heap : Nat → Nat) (element : ElementType) (slice : Slice) : Action Slice := do
  let size := element.unitSize * slice.length % 2 ^ 64
  let pointer ← allocate heap size
  memcpy pointer slice.pointer size
  pure { pointer, length := slice.length, capacity := slice.length }

/-- `ConvertStringToSliceOfBytes::execute`, for the bytes of a string. -/
def ConvertStringToSliceOfBytes.execute (heap : Nat → Nat) (pointer length : Nat) :
    Action Slice := do
  let target ← allocate heap length
  memcpy target pointer length
  pure { pointer := target, length, capacity := length }

/-! ## The machine -/

theorem writeInteger_of_nonneg {x : Int} (nonneg : 0 ≤ x) (small : x < 2 ^ 64) :
    Cxx.writeInteger 64 x = x.toNat := by
  rw [Cxx.writeInteger, BitVec.toNat_ofInt]
  exact congrArg Int.toNat (Int.emod_eq_of_lt nonneg small)

section TakeRange

variable {pointer unitSize : Nat} {capacity : Int} {range : Range}

theorem takeRange_of_not_inBounds (outOfBounds : ¬ range.InBounds capacity) :
    takeRange pointer unitSize capacity range = none :=
  if_neg outOfBounds

theorem takeRange_of_inBounds (inBounds : range.InBounds capacity) (small : capacity < 2 ^ 63)
    (noWrap : pointer + range.low.toNat * unitSize < 2 ^ 64) :
    takeRange pointer unitSize capacity range = some
      { pointer := if range.low = range.high then 0 else pointer + range.low.toNat * unitSize
        length := (range.high - range.low).toNat
        capacity := (range.max - range.low).toNat } := by
  obtain ⟨low, high, max, within⟩ := id inBounds
  have isLength := writeInteger_of_nonneg (x := range.high - range.low) (by omega) (by omega)
  have isCapacity := writeInteger_of_nonneg (x := range.max - range.low) (by omega) (by omega)
  have isSum : (pointer + range.low * unitSize : Int) =
      ((pointer + range.low.toNat * unitSize : Nat) : Int) := by
    push_cast
    rw [Int.toNat_of_nonneg low]
  have isPointer := writeInteger_of_nonneg
    (x := ((pointer + range.low.toNat * unitSize : Nat) : Int)) (by omega) (by omega)
  rw [Int.toNat_natCast] at isPointer
  rw [takeRange, if_pos inBounds, isSum]
  dsimp only
  rw [isLength, isCapacity, isPointer]
  by_cases empty : range.low = range.high
  · rw [if_pos empty, if_neg (by omega)]
  · rw [if_neg empty, if_pos (by omega)]

/-- The machine of `Code` pushes the slice of the range or is stopped. -/
theorem makeSlice_eq {World : Type} (small : capacity < 2 ^ 63)
    (noWrap : pointer + range.low.toNat * unitSize < 2 ^ 64) :
    (makeSlice pointer unitSize range.low range.high range.max capacity : Run World Unit) =
      (takeRange pointer unitSize capacity range).elim stop pushSlice := by
  by_cases inBounds : range.InBounds capacity
  · rw [takeRange_of_inBounds inBounds small noWrap, Option.elim_some]
    refine (if_pos inBounds).trans ?_
    by_cases empty : range.low = range.high
    · rw [if_pos empty, if_pos (by omega)]
    · rw [if_neg empty, if_neg (by omega)]
  · rw [takeRange_of_not_inBounds inBounds]
    exact if_neg inBounds

end TakeRange

end Rcgo.Slices
