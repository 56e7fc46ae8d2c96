import Rcgo.Slices.Representation
import Rcgo.Foundation.Transition

/-!
# Slices in the runs of a program

The slices that the operations produce, between whatever else the program does
with its memory.
-/

namespace Rcgo.Slices

open Code Machine Foundation

/-- The memory, what is allocated of it, and the slices the program holds. -/
structure State where
  memory : Memory
  objects : List Object
  values : List Value

/-- The execution of an operation on slices, with its operands and what it
produces, or anything else the program does. -/
inductive Event where
  | sliceArray (element : ElementType) (dimension pointer : Nat) (bounds : Bounds) (result : Slice)
  | sliceSlice (operand : Value) (bounds : Bounds) (result : Slice)
  | append (operand : Value) (byte : UInt8) (result : Slice) (accesses : List Access)
  | copy (operand : Value) (result : Slice) (accesses : List Access)
  | convertString (element : ElementType) (pointer length : Nat) (result : Slice)
  | index (operand : Value) (i : Int) (result : Nat)
  | other

/-- The heap answers a request of no bytes with the null pointer, and any other
with memory of its own. -/
def Granted (limit : Nat) (objects : List Object) (object : Object) : Prop :=
  if object.size = 0 then object.address = 0
  else object.Placed limit ∧ ∀ other ∈ objects, object.Apart other

/-- The slice without elements that `Slice::make` returns. -/
def nilSlice : Slice where
  pointer := 0
  length := 0
  capacity := 0

def Effects.of (memory : Memory) : Effects where
  memory := memory
  accesses := []
  allocated := []

/-- The state after an operation that allocates: what it was granted is there. -/
def State.after (state : State) (element : ElementType) (result : Slice × Effects) : State where
  memory := result.2.memory
  objects := result.2.allocated.filter (·.size ≠ 0) ++ state.objects
  values := { element, slice := result.1 } :: state.values

/-- The steps of a program.  The address space ends at `limit`.  An array is
allocated with `arch::size` bytes; its dimension is a `long`.  Only slices of
`uint8` are appended to. -/
inductive Step (limit : Nat) : State → Event → State → Prop where
  | sliceArray {state : State} {element : ElementType} {dimension pointer : Nat} {bounds : Bounds}
      {result : Slice} {object : Object} (isLong : dimension < 2 ^ 63)
      (isObject : object ∈ state.objects)
      (isArray : object.Contains pointer (dimension * element.unitSize % 2 ^ 64))
      (executes : SliceArray.execute element dimension pointer bounds = some result) :
      Step limit state (.sliceArray element dimension pointer bounds result)
        { state with values := { element, slice := result } :: state.values }
  | sliceSlice {state : State} {operand : Value} {bounds : Bounds} {result : Slice}
      (isOperand : operand ∈ state.values)
      (executes : SliceSlice.execute operand.element operand.slice bounds = some result) :
      Step limit state (.sliceSlice operand bounds result)
        { state with values := { element := operand.element, slice := result } :: state.values }
  | append {state : State} {operand : Value} {byte : UInt8} {heap : Nat → Nat}
      {result : Slice × Effects} (isOperand : operand ∈ state.values)
      (isByte : operand.element.type.underlyingKind = .uint8)
      (executes : (AppendOp.execute heap operand.element operand.slice byte).run
        (.of state.memory) = result)
      (granted : ∀ object ∈ result.2.allocated, Granted limit state.objects object) :
      Step limit state (.append operand byte result.1 result.2.accesses)
        (state.after operand.element result)
  | copy {state : State} {operand : Value} {heap : Nat → Nat} {result : Slice × Effects}
      (isOperand : operand ∈ state.values)
      (executes : (CopyOp.execute heap operand.element operand.slice).run
        (.of state.memory) = result)
      (granted : ∀ object ∈ result.2.allocated, Granted limit state.objects object) :
      Step limit state (.copy operand result.1 result.2.accesses)
        (state.after operand.element result)
  | convertString {state : State} {element : ElementType} {pointer length : Nat}
      {heap : Nat → Nat} {result : Slice × Effects}
      (isByte : element.type.underlyingKind = .uint8)
      (executes : (ConvertStringToSliceOfBytes.execute heap pointer length).run
        (.of state.memory) = result)
      (granted : ∀ object ∈ result.2.allocated, Granted limit state.objects object) :
      Step limit state (.convertString element pointer length result.1)
        (state.after element result)
  | index {state : State} {operand : Value} {i : Int} {result : Nat}
      (isOperand : operand ∈ state.values)
      (executes : IndexSlice.execute operand.element operand.slice i = some result) :
      Step limit state (.index operand i result) state
  | other {state after : State}
      (placed : ∀ object ∈ after.objects, object.Placed limit)
      (known : ∀ value ∈ after.values, value ∈ state.values ∨ value.slice = nilSlice)
      (kept : ∀ value ∈ after.values, 0 < value.slice.capacity →
        ∀ object ∈ state.objects, value.LiesIn object → object ∈ after.objects) :
      Step limit state .other after

abbrev Run (limit : Nat) : State → List (Transition State Event) → State → Prop :=
  Trace (Step limit)

/-- Every slice of the program is valid. -/
structure State.Valid (limit : Nat) (state : State) : Prop where
  placed : ∀ object ∈ state.objects, object.Placed limit
  values : ∀ value ∈ state.values, value.Valid state.objects

/-- The result begins with the elements of the operand and ends with the byte. -/
structure Appended (before after : Memory) (operand : Slice) (byte : UInt8) (result : Slice) :
    Prop where
  length : result.length = operand.length + 1
  first : ∀ k < operand.length, after (result.pointer + k) = before (operand.pointer + k)
  last : after (result.pointer + operand.length) = byte

/-- What an operation on slices promises: its result is valid, and what it
touches is memory of the object of its operand, or of the object it allocates. -/
def Correct : Transition State Event → Prop
  | ⟨_, .sliceArray element _ _ _ result, after⟩ =>
      Value.Valid after.objects { element, slice := result }
  | ⟨before, .sliceSlice operand _ result, after⟩ =>
      Value.Valid after.objects { operand with slice := result } ∧
        (0 < result.capacity → ∃ object ∈ before.objects, operand.LiesIn object ∧
          Value.LiesIn { operand with slice := result } object)
  | ⟨before, .append operand byte result accesses, after⟩ =>
      Value.Valid after.objects { operand with slice := result } ∧
        Appended before.memory after.memory operand.slice byte result ∧
        (operand.slice.length < operand.slice.capacity →
          ∃ object ∈ before.objects, operand.LiesIn object ∧
            ∀ access ∈ accesses, access.Within object)
  | ⟨before, .copy operand result accesses, after⟩ =>
      Value.Valid after.objects { operand with slice := result } ∧
        (∀ access ∈ accesses,
          (∃ object ∈ before.objects, operand.LiesIn object ∧ access.Within object) ∨
            access.Within ⟨result.pointer, result.capacity * operand.element.unitSize⟩)
  | ⟨_, .convertString element _ _ result, after⟩ =>
      Value.Valid after.objects { element, slice := result }
  | ⟨before, .index operand _ result, _⟩ =>
      ∃ object ∈ before.objects, operand.LiesIn object ∧
        object.Contains result operand.element.unitSize
  | ⟨_, .other, _⟩ => True

/-- A slicing leaves some element or no capacity, and elements that are copied
take some bytes. -/
def KeepsPointer : Transition State Event → Prop
  | ⟨_, .sliceArray _ dimension _ bounds _, _⟩ => (SliceArray.range dimension bounds).KeepsPointer
  | ⟨_, .sliceSlice operand bounds _, _⟩ => (SliceSlice.range operand.slice bounds).KeepsPointer
  | ⟨_, .copy operand _ _, _⟩ => operand.slice.length = 0 ∨ 0 < operand.element.unitSize
  | _ => True

/-- The size of a sliced array is below `2 ^ 64`. -/
def ArrayFits : Transition State Event → Prop
  | ⟨_, .sliceArray element dimension _ _ _, _⟩ =>
      ∀ size, (DataType.array dimension element.type).size = some size → size < 2 ^ 64
  | _ => True

/-! ## The sizes of elements -/

theorem ElementType.unitSize_of_byte {element : ElementType}
    (isByte : element.type.underlyingKind = .uint8) : element.unitSize = 1 := by
  have isUnit := element.isUnit
  have isSize : element.type.size = some 1 := DataType.size_of_kind isByte rfl
  have isAlignment : element.type.alignment = some 1 := DataType.alignment_of_kind isByte rfl
  rw [Arch.unitSize_eq, DataType.unitSize, isSize, isAlignment] at isUnit
  rw [ElementType.unitSize, ← Option.some.inj isUnit]
  rfl

/-- The elements of an array whose size is below `2 ^ 64` are as far apart as
the size says. -/
theorem ElementType.bytes_lt {element : ElementType} {dimension : Nat}
    (fits : ∀ size, (DataType.array dimension element.type).size = some size → size < 2 ^ 64) :
    dimension * element.unitSize < 2 ^ 64 := by
  have isUnit := element.isUnit
  rw [Arch.unitSize_eq, Option.map_eq_some_iff] at isUnit
  obtain ⟨unit, isUnbounded, isWord⟩ := isUnit
  have isSize : (DataType.array dimension element.type).size = some (unit * dimension) := by
    simp only [DataType.unitSize, Option.bind_eq_bind, Option.bind_eq_some_iff,
      Option.some.injEq] at isUnbounded
    obtain ⟨size, isSize, alignment, isAlignment, rfl⟩ := isUnbounded
    rw [DataType.size, isSize, isAlignment]
    rfl
  have below := fits _ isSize
  have le : element.unitSize ≤ unit := by
    rw [ElementType.unitSize, ← isWord, BitVec.toNat_ofNat]
    exact Nat.mod_le _ _
  rw [Nat.mul_comm] at below
  exact Nat.lt_of_le_of_lt (Nat.mul_le_mul_left dimension le) below

/-! ## What one step promises -/

section Steps

variable {limit : Nat} {state : State} {element : ElementType} {operand : Value}
  {result : Slice × Effects}

theorem Granted.address_eq {objects : List Object} {object : Object}
    (granted : Granted limit objects object) (isEmpty : object.size = 0) : object.address = 0 := by
  rwa [Granted, if_pos isEmpty] at granted

theorem Granted.placed {objects : List Object} {object : Object}
    (granted : Granted limit objects object) (notEmpty : object.size ≠ 0) :
    object.Placed limit := by
  rw [Granted, if_neg notEmpty] at granted
  exact granted.1

theorem State.Valid.push (valid : state.Valid limit) {value : Value}
    (isValid : value.Valid state.objects) :
    State.Valid limit { state with values := value :: state.values } :=
  ⟨valid.placed, List.forall_mem_cons.mpr ⟨isValid, valid.values⟩⟩

theorem State.after_placed (placed : ∀ object ∈ state.objects, object.Placed limit)
    (granted : ∀ object ∈ result.2.allocated, Granted limit state.objects object) :
    ∀ object ∈ (state.after element result).objects, object.Placed limit := by
  intro object isObject
  rcases List.mem_append.mp isObject with isNew | isOld
  · obtain ⟨isAllocated, notEmpty⟩ := List.mem_filter.mp isNew
    exact (granted object isAllocated).placed (of_decide_eq_true notEmpty)
  · exact placed object isOld

theorem State.Valid.after (valid : state.Valid limit)
    (granted : ∀ object ∈ result.2.allocated, Granted limit state.objects object)
    (isValid : Value.Valid (state.after element result).objects { element, slice := result.1 }) :
    (state.after element result).Valid limit := by
  refine ⟨State.after_placed valid.placed granted, List.forall_mem_cons.mpr ⟨isValid, ?_⟩⟩
  intro value isValue
  exact (valid.values value isValue).mono fun _ isObject _ => List.mem_append_right _ isObject

theorem valid_of_granted (small : limit ≤ 2 ^ 62) {size : Nat}
    (isAllocated : result.2.allocated = [⟨result.1.pointer, size⟩])
    (granted : ∀ object ∈ result.2.allocated, Granted limit state.objects object)
    (le : result.1.length ≤ result.1.capacity)
    (isSize : result.1.capacity * element.unitSize = size)
    (takesBytes : 0 < result.1.capacity → 0 < element.unitSize) :
    Value.Valid (state.after element result).objects { element, slice := result.1 } := by
  have isGranted := granted ⟨result.1.pointer, size⟩ (by rw [isAllocated]; exact .head _)
  rcases Nat.eq_zero_or_pos result.1.capacity with isZero | positive
  · exact Value.Valid.of_le le (by dsimp only; omega) fun positive => by dsimp only at positive; omega
  have sizePositive : 0 < size := isSize ▸ Nat.mul_pos positive (takesBytes positive)
  have isPlaced := isGranted.placed (Nat.pos_iff_ne_zero.mp sizePositive)
  have inside := isPlaced.inside
  have capacityLe : result.1.capacity ≤ size :=
    isSize ▸ Nat.le_mul_of_pos_right _ (takesBytes positive)
  dsimp only at inside
  refine Value.Valid.of_le le (by dsimp only; omega) fun _ => ?_
  refine ⟨⟨result.1.pointer, size⟩, List.mem_append_left _ ?_, Nat.le_refl _, ?_⟩
  · rw [isAllocated]
    exact List.mem_filter.mpr ⟨.head _, decide_eq_true (Nat.pos_iff_ne_zero.mp sizePositive)⟩
  · dsimp only
    rw [isSize]

theorem Value.Valid.end_le {objects : List Object} {value : Value} (valid : value.Valid objects)
    (placed : ∀ object ∈ objects, object.Placed limit) (positive : 0 < value.slice.capacity) :
    value.slice.pointer + value.slice.capacity * value.element.unitSize ≤ limit := by
  obtain ⟨object, isObject, liesIn⟩ := valid.addresses positive
  exact Nat.le_trans liesIn.2 (placed object isObject).inside

theorem sliceArray_valid {objects : List Object} (placed : ∀ object ∈ objects, object.Placed limit)
    (small : limit ≤ 2 ^ 62) {dimension pointer : Nat} (isLong : dimension < 2 ^ 63)
    (fits : ∀ size, (DataType.array dimension element.type).size = some size → size < 2 ^ 64)
    {object : Object} (isObject : object ∈ objects)
    (isArray : object.Contains pointer (dimension * element.unitSize % 2 ^ 64)) {bounds : Bounds}
    (keeps : (SliceArray.range dimension bounds).KeepsPointer) {slice : Slice}
    (executes : SliceArray.execute element dimension pointer bounds = some slice) :
    Value.Valid objects { element, slice } := by
  have dimensionSmall : (dimension : Int) < 2 ^ 63 := by omega
  have inside := (placed object isObject).inside
  rw [Nat.mod_eq_of_lt (element.bytes_lt fits)] at isArray
  obtain ⟨le, capacityLt⟩ := takeRange_length_le dimensionSmall executes
  refine Value.Valid.of_le le capacityLt fun positive => ⟨object, isObject, ?_⟩
  exact takeRange_liesIn (by omega) dimensionSmall keeps isArray executes positive

theorem sliceSlice_correct {objects : List Object}
    (placed : ∀ object ∈ objects, object.Placed limit) (small : limit ≤ 2 ^ 62)
    (valid : operand.Valid objects) {bounds : Bounds}
    (keeps : (SliceSlice.range operand.slice bounds).KeepsPointer) {slice : Slice}
    (executes : SliceSlice.execute operand.element operand.slice bounds = some slice) :
    Value.Valid objects { operand with slice } ∧
      (0 < slice.capacity → ∃ object ∈ objects, operand.LiesIn object ∧
        Value.LiesIn { operand with slice } object) := by
  have capacitySmall := long_lt operand.slice.capacity
  have isCapacity := long_eq valid.capacity_lt
  obtain ⟨le, capacityLt⟩ := takeRange_length_le capacitySmall executes
  have liesIn : 0 < slice.capacity → ∃ object ∈ objects, operand.LiesIn object ∧
      Value.LiesIn { operand with slice } object := by
    intro positive
    have operandPositive : 0 < operand.slice.capacity := by
      have isLength := (takeRange_length capacitySmall executes).2
      have within := (inBounds_of_takeRange executes).2.2.2
      have low := (inBounds_of_takeRange executes).1
      omega
    obtain ⟨object, isObject, contains⟩ := valid.addresses operandPositive
    have inside := (placed object isObject).inside
    refine ⟨object, isObject, contains, ?_⟩
    have isToNat : (long operand.slice.capacity).toNat = operand.slice.capacity := by omega
    refine takeRange_liesIn (by omega) capacitySmall keeps ?_ executes positive
    rw [isToNat]
    exact contains
  refine ⟨Value.Valid.of_le le capacityLt fun positive => ?_, liesIn⟩
  obtain ⟨object, isObject, _, contains⟩ := liesIn positive
  exact ⟨object, isObject, contains⟩

theorem indexSlice_correct {objects : List Object}
    (placed : ∀ object ∈ objects, object.Placed limit) (small : limit ≤ 2 ^ 62)
    (valid : operand.Valid objects) {i : Int} {pointer : Nat}
    (executes : IndexSlice.execute operand.element operand.slice i = some pointer) :
    ∃ object ∈ objects, operand.LiesIn object ∧
      object.Contains pointer operand.element.unitSize := by
  have positive : 0 < operand.slice.capacity := by
    have le := valid.length_le_capacity
    by_contra isZero
    have outOfBounds : i < 0 ∨ operand.slice.length ≤ i.toNat := by omega
    rw [IndexSlice.execute, if_pos outOfBounds] at executes
    cases executes
  obtain ⟨object, isObject, liesIn⟩ := valid.addresses positive
  have inside := (placed object isObject).inside
  exact ⟨object, isObject, liesIn, indexSlice_contains valid liesIn (by omega) executes⟩

theorem copyOp_correct (valid : state.Valid limit) (small : limit ≤ 2 ^ 62) {heap : Nat → Nat}
    (isOperand : operand ∈ state.values)
    (executes : (CopyOp.execute heap operand.element operand.slice).run (.of state.memory) = result)
    (granted : ∀ object ∈ result.2.allocated, Granted limit state.objects object)
    (takesBytes : operand.slice.length = 0 ∨ 0 < operand.element.unitSize) :
    Value.Valid (state.after operand.element result).objects { operand with slice := result.1 } ∧
      ∀ access ∈ result.2.accesses,
        (∃ object ∈ state.objects, operand.LiesIn object ∧ access.Within object) ∨
          access.Within ⟨result.1.pointer, result.1.capacity * operand.element.unitSize⟩ := by
  have operandValid := valid.values operand isOperand
  have le := operandValid.length_le_capacity
  have bytesLe := Nat.mul_le_mul_right operand.element.unitSize le
  have isSize : operand.element.unitSize * operand.slice.length % 2 ^ 64 =
      operand.slice.length * operand.element.unitSize := by
    rw [Nat.mul_comm]
    rcases Nat.eq_zero_or_pos operand.slice.capacity with isZero | positive
    · have : operand.slice.length = 0 := by omega
      rw [this, Nat.zero_mul, Nat.zero_mod]
    · have := operandValid.end_le valid.placed positive
      exact Nat.mod_eq_of_lt (by omega)
  subst executes
  constructor
  · refine valid_of_granted small ?_ granted (Nat.le_refl _) isSize.symm ?_
    · rfl
    · intro positive
      rcases takesBytes with isZero | takesBytes
      · exact absurd isZero (Nat.pos_iff_ne_zero.mp positive)
      · exact takesBytes
  · intro access isAccess
    have isEither : access = ⟨operand.slice.pointer,
          operand.element.unitSize * operand.slice.length % 2 ^ 64⟩ ∨
        access = ⟨heap (operand.element.unitSize * operand.slice.length % 2 ^ 64),
          operand.element.unitSize * operand.slice.length % 2 ^ 64⟩ := by
      rcases List.mem_cons.mp isAccess with isRead | isRest
      · exact .inl isRead
      · exact .inr (List.mem_singleton.mp isRest)
    rw [isSize] at isEither
    rcases isEither with rfl | rfl
    · rcases Nat.eq_zero_or_pos operand.slice.capacity with isZero | positive
      · refine .inr (.inl ?_)
        have : operand.slice.length = 0 := by omega
        rw [this, Nat.zero_mul]
      · obtain ⟨object, isObject, liesIn⟩ := operandValid.addresses positive
        refine .inl ⟨object, isObject, liesIn, .inr (liesIn.mono (Nat.le_refl _) ?_)⟩
        dsimp only
        omega
    · refine .inr (.inr ⟨?_, ?_⟩)
      · dsimp only
        rw [← isSize]
        exact Nat.le_refl _
      · dsimp only
        rw [← isSize]
        exact Nat.add_le_add_left (Nat.le_of_eq isSize) _

theorem convertString_valid (small : limit ≤ 2 ^ 62) {heap : Nat → Nat} {pointer length : Nat}
    (isByte : element.type.underlyingKind = .uint8)
    (executes : (ConvertStringToSliceOfBytes.execute heap pointer length).run (.of state.memory) =
      result)
    (granted : ∀ object ∈ result.2.allocated, Granted limit state.objects object) :
    Value.Valid (state.after element result).objects { element, slice := result.1 } := by
  have isUnit := element.unitSize_of_byte isByte
  subst executes
  have isAllocated : [(⟨heap length, length⟩ : Object)] = [⟨heap length, length⟩] := rfl
  refine valid_of_granted small isAllocated granted (Nat.le_refl _) ?_ fun _ => ?_
  · rw [isUnit, Nat.mul_one]
    rfl
  · rw [isUnit]
    exact Nat.one_pos

/-- What append promises, whether or not the elements move. -/
theorem appendOp_correct (valid : state.Valid limit) (small : limit ≤ 2 ^ 62) {heap : Nat → Nat}
    {byte : UInt8} (isOperand : operand ∈ state.values)
    (isByte : operand.element.type.underlyingKind = .uint8)
    (executes : (AppendOp.execute heap operand.element operand.slice byte).run (.of state.memory) =
      result)
    (granted : ∀ object ∈ result.2.allocated, Granted limit state.objects object) :
    Value.Valid (state.after operand.element result).objects { operand with slice := result.1 } ∧
      Appended state.memory result.2.memory operand.slice byte result.1 ∧
      (operand.slice.length < operand.slice.capacity →
        ∃ object ∈ state.objects, operand.LiesIn object ∧
          ∀ access ∈ result.2.accesses, access.Within object) := by
  have isUnit := operand.element.unitSize_of_byte isByte
  have operandValid := valid.values operand isOperand
  have le := operandValid.length_le_capacity
  have capacityLt := operandValid.capacity_lt
  by_cases room : operand.slice.length < operand.slice.capacity
  · obtain ⟨object, isObject, liesIn⟩ := operandValid.addresses (by omega)
    have inside := (valid.placed object isObject).inside
    obtain ⟨behind, before⟩ := id liesIn
    rw [isUnit, Nat.mul_one] at before
    rw [appendOp_inPlace heap isUnit room capacityLt (by omega)] at executes
    subst executes
    refine ⟨?_, ⟨rfl, ?_, ?_⟩, fun _ => ⟨object, isObject, liesIn, ?_⟩⟩
    · exact Value.Valid.of_le room capacityLt fun _ =>
        ⟨object, List.mem_append_right _ isObject, liesIn⟩
    · intro k isFirst
      exact write_byte_of_ne (by dsimp only; omega)
    · exact write_byte_self
    · intro access isAccess
      rw [List.mem_singleton.mp isAccess]
      exact .inr ⟨by dsimp only; omega, by dsimp only; omega⟩
  · have full : operand.slice.capacity = operand.slice.length := by omega
    have capacityLe : operand.slice.capacity ≤ 2 ^ 62 := by
      rcases Nat.eq_zero_or_pos operand.slice.capacity with isZero | positive
      · omega
      · have := operandValid.end_le valid.placed positive
        rw [isUnit] at this
        omega
    rw [appendOp_grown heap isUnit full capacityLe rfl] at executes
    subst executes
    have isPlaced := (granted _ (.head _)).placed (by dsimp only; omega)
    have inside := isPlaced.inside
    dsimp only at inside
    have isEnd := Nat.mod_eq_of_lt
      (show heap (2 * (operand.slice.length + 1)) + operand.slice.length < 2 ^ 64 by omega)
    refine ⟨?_, ⟨rfl, ?_, ?_⟩, fun less => absurd less room⟩
    · refine valid_of_granted small rfl granted ?_ ?_ fun _ => ?_
      · dsimp only
        omega
      · rw [isUnit, Nat.mul_one]
      · rw [isUnit]
        exact Nat.one_pos
    · intro k isFirst
      dsimp only
      rw [isEnd, write_byte_of_ne (by omega), copy_inside isFirst]
      rfl
    · dsimp only
      rw [isEnd, write_byte_self]

end Steps

/-! ## Runs -/

section Runs

variable {limit : Nat} {before after : State} {event : Event}

theorem Step.correct (small : limit ≤ 2 ^ 62) (valid : before.Valid limit)
    (step : Step limit before event after) (fits : ArrayFits { before, event, after })
    (keeps : KeepsPointer { before, event, after }) :
    after.Valid limit ∧ Correct { before, event, after } := by
  cases step with
  | sliceArray isLong isObject isArray executes =>
      have isValid :=
        sliceArray_valid valid.placed small isLong fits isObject isArray keeps executes
      exact ⟨valid.push isValid, isValid⟩
  | sliceSlice isOperand executes =>
      have isCorrect := sliceSlice_correct valid.placed small (valid.values _ isOperand) keeps
        executes
      exact ⟨valid.push isCorrect.1, isCorrect⟩
  | append isOperand isByte executes granted =>
      have isCorrect := appendOp_correct valid small isOperand isByte executes granted
      exact ⟨valid.after granted isCorrect.1, isCorrect⟩
  | copy isOperand executes granted =>
      have isCorrect := copyOp_correct valid small isOperand executes granted keeps
      exact ⟨valid.after granted isCorrect.1, isCorrect⟩
  | convertString isByte executes granted =>
      have isValid := convertString_valid small isByte executes granted
      exact ⟨valid.after granted isValid, isValid⟩
  | index isOperand executes =>
      exact ⟨valid, indexSlice_correct valid.placed small (valid.values _ isOperand) executes⟩
  | other placed known kept =>
      refine ⟨⟨placed, fun value isValue => ?_⟩, trivial⟩
      have isNil : value.slice = nilSlice → value.Valid after.objects := by
        intro isNil
        refine Value.Valid.of_le ?_ ?_ ?_
        · rw [isNil]
          exact Nat.le_refl 0
        · rw [isNil]
          exact Nat.two_pow_pos 63
        · rw [isNil]
          exact fun positive => absurd positive (Nat.lt_irrefl 0)
      rcases known value isValue with isOld | isNilSlice
      · rcases Nat.eq_zero_or_pos value.slice.capacity with isZero | positive
        · have isValid := valid.values value isOld
          exact ⟨isValid.nonneg, isValid.length_le, isValid.isWord, fun positive => by omega⟩
        · exact (valid.values value isOld).mono (kept value isValue positive)
      · exact isNil isNilSlice

theorem Step.placed (step : Step limit before event after)
    (placed : ∀ object ∈ before.objects, object.Placed limit) :
    ∀ object ∈ after.objects, object.Placed limit := by
  cases step with
  | sliceArray _ _ _ _ => exact placed
  | sliceSlice _ _ => exact placed
  | append _ _ _ granted => exact State.after_placed placed granted
  | copy _ _ granted => exact State.after_placed placed granted
  | convertString _ _ granted => exact State.after_placed placed granted
  | index _ _ => exact placed
  | other placed _ _ => exact placed

theorem Step.keepsPointer (step : Step limit before event after)
    (placed : ∀ object ∈ before.objects, object.Placed limit)
    (correct : Correct { before, event, after }) : KeepsPointer { before, event, after } := by
  cases step with
  | sliceArray isLong isObject isArray executes =>
      by_contra lost
      have isNull := takeRange_lost (by omega) lost executes
      exact not_valid_of_null placed isNull correct
  | sliceSlice isOperand executes =>
      by_contra lost
      have isNull := takeRange_lost (long_lt _) lost executes
      exact not_valid_of_null placed isNull correct.1
  | @copy operand heap _ isOperand executes granted =>
      by_contra lost
      obtain ⟨someElements, noBytes⟩ := not_or.mp lost
      have isSize : operand.element.unitSize * operand.slice.length % 2 ^ 64 = 0 := by
        rw [Nat.eq_zero_of_not_pos noBytes, Nat.zero_mul, Nat.zero_mod]
      have placedAfter := @State.after_placed limit before operand.element _ placed granted
      subst executes
      have isNull := (granted _ (.head _)).address_eq isSize
      exact not_valid_of_null placedAfter ⟨isNull, Nat.pos_of_ne_zero someElements⟩ correct.1
  | append _ _ _ _ => trivial
  | convertString _ _ _ => trivial
  | index _ _ => trivial
  | other _ _ _ => trivial

/-- In a run in which the sizes of the sliced arrays are below `2 ^ 64`, the
operations on slices keep what slices stand for exactly if each slicing leaves
some element or no capacity, and no elements without bytes are copied. -/
theorem slices_correct_iff {limit : Nat} (small : limit ≤ 2 ^ 62) {start finish : State}
    {transitions : List (Transition State Event)} (valid : start.Valid limit)
    (run : Run limit start transitions finish)
    (fits : ∀ transition ∈ transitions, ArrayFits transition) :
    (∀ transition ∈ transitions, Correct transition) ↔
      ∀ transition ∈ transitions, KeepsPointer transition := by
  constructor
  · intro correct
    have implies : ∀ transition ∈ transitions, Correct transition → KeepsPointer transition :=
      run.forall_of_steps (fun state => ∀ object ∈ state.objects, object.Placed limit)
        (fun _ _ _ placed step => step.placed placed)
        (fun _ _ _ placed step correct => step.keepsPointer placed correct) valid.placed
    exact fun transition isTransition =>
      implies transition isTransition (correct transition isTransition)
  · intro keeps
    refine Trace.forall_of_invariant (State.Valid limit)
      (fun transition => ArrayFits transition ∧ KeepsPointer transition)
      (fun _ _ _ valid step allowed => (step.correct small valid allowed.1 allowed.2).1)
      (fun _ _ _ valid step allowed => (step.correct small valid allowed.1 allowed.2).2)
      run valid ?_
    exact fun transition isTransition =>
      ⟨fits transition isTransition, keeps transition isTransition⟩

end Runs

/-! ## Slices of an array of four bytes -/

/-- `uint8` as the type of elements. -/
def byteElement : ElementType where
  type := .basic .uint8
  unit := 1#64
  isUnit := by decide

/-- An array `a` of type `[4]uint8` at address 16. -/
def arrayState : State where
  memory := fun _ => 0
  objects := [⟨16, 4⟩]
  values := []

theorem arrayState_valid : arrayState.Valid (2 ^ 40) :=
  ⟨List.forall_mem_singleton.mpr ⟨by decide, by decide⟩, fun _ isValue => by cases isValue⟩

/-- `s := a[1:3]` -/
def slicedState : State :=
  { arrayState with values := [{ element := byteElement, slice := ⟨17, 2, 3⟩ }] }

/-- `t := s[:1]` -/
def reslicedState : State :=
  { slicedState with
    values := { element := byteElement, slice := ⟨17, 1, 3⟩ } :: slicedState.values }

/-- What `append (t, 7)` does. -/
def appendResult : Slice × Effects :=
  (AppendOp.execute (fun _ => 0) byteElement ⟨17, 1, 3⟩ 7).run (.of reslicedState.memory)

/-- `s := a[1:3]; t := s[:1]; append (t, 7)` -/
def appendRun : List (Transition State Event) :=
  [⟨arrayState, .sliceArray byteElement 4 16 ⟨some 1, some 3, none⟩ ⟨17, 2, 3⟩, slicedState⟩,
    ⟨slicedState, .sliceSlice ⟨byteElement, ⟨17, 2, 3⟩⟩ ⟨none, some 1, none⟩ ⟨17, 1, 3⟩,
      reslicedState⟩,
    ⟨reslicedState, .append ⟨byteElement, ⟨17, 1, 3⟩⟩ 7 appendResult.1 appendResult.2.accesses,
      reslicedState.after byteElement appendResult⟩]

theorem appendRun_isRun :
    Run (2 ^ 40) arrayState appendRun (reslicedState.after byteElement appendResult) := by
  refine .cons (.sliceArray (by decide) (.head _) ⟨by decide, by decide⟩ ?_) ?_
  · decide
  refine .cons (.sliceSlice (.head _) ?_) ?_
  · decide
  refine .cons (.append (.head _) rfl rfl ?_) (.nil _)
  rintro object ⟨⟩

theorem slices_correct_appendRun : appendRun.length = 3 ∧
    ∀ transition ∈ appendRun, Correct transition := by
  refine ⟨rfl, ?_⟩
  refine (slices_correct_iff (by decide) arrayState_valid appendRun_isRun ?_).mpr ?_
  · refine List.forall_mem_cons.mpr ⟨?_, List.forall_mem_cons.mpr ⟨trivial, ?_⟩⟩
    · intro size isSize
      rw [← Option.some.inj isSize]
      decide
    · exact List.forall_mem_singleton.mpr trivial
  · refine List.forall_mem_cons.mpr ⟨.inl (by decide), List.forall_mem_cons.mpr ⟨?_, ?_⟩⟩
    · exact .inl (by decide)
    · exact List.forall_mem_singleton.mpr trivial

/-- `a[0:0]` has a capacity of four and the null pointer. -/
theorem emptySlice_not_correct :
    ¬ ∀ (limit : Nat) (start finish : State) (transitions : List (Transition State Event)),
      limit ≤ 2 ^ 62 → start.Valid limit → Run limit start transitions finish →
        ∀ transition ∈ transitions, Correct transition := by
  intro correct
  have first : Step (2 ^ 40) arrayState
      (.sliceArray byteElement 4 16 ⟨some 0, some 0, none⟩ ⟨0, 0, 4⟩)
      { arrayState with values := [{ element := byteElement, slice := ⟨0, 0, 4⟩ }] } :=
    .sliceArray (by decide) (.head _) ⟨by decide, by decide⟩ (by decide)
  have isCorrect := correct _ _ _ _ (by decide) arrayState_valid (.cons first (.nil _)) _ (.head _)
  rcases first.keepsPointer arrayState_valid.placed isCorrect with less | full
  · exact absurd less (by decide)
  · exact absurd full (by decide)

end Rcgo.Slices
