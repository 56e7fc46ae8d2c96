import Rcgo.Slices.Operations

/-!
# What a slice stands for

A slice with a capacity addresses that many elements of one object.  Each
operation keeps this, but for the slicing that leaves no element and some
capacity: there the pointer is lost.
-/

namespace Rcgo.Slices

open Code Machine Foundation

/-- The bytes from the address on belong to the object. -/
def Object.Contains (object : Object) (address size : Nat) : Prop :=
  object.address ≤ address ∧ address + size ≤ object.address + object.size

def Access.Within (access : Access) (object : Object) : Prop :=
  access.size = 0 ∨ object.Contains access.address access.size

def Object.Apart (object other : Object) : Prop :=
  object.address + object.size ≤ other.address ∨ other.address + other.size ≤ object.address

/-- A slice with the type of its elements. -/
structure Value where
  element : ElementType
  slice : Slice

/-- The bytes of the slice up to its capacity belong to the object. -/
def Value.LiesIn (value : Value) (object : Object) : Prop :=
  object.Contains value.slice.pointer (value.slice.capacity * value.element.unitSize)

/-- The length, as `len` returns it, is not negative and at most the capacity,
and a capacity is that of elements of one object. -/
structure Value.Valid (objects : List Object) (value : Value) : Prop where
  nonneg : 0 ≤ long value.slice.length
  length_le : long value.slice.length ≤ long value.slice.capacity
  isWord : value.slice.length < 2 ^ 64 ∧ value.slice.capacity < 2 ^ 64
  addresses : 0 < value.slice.capacity → ∃ object ∈ objects, value.LiesIn object

/-- Objects of an address space that ends at `limit`; none is at the null pointer. -/
structure Object.Placed (limit : Nat) (object : Object) : Prop where
  notNull : 0 < object.address
  inside : object.address + object.size ≤ limit

theorem Object.Contains.mono {object : Object} {address size address' size' : Nat}
    (contains : object.Contains address size) (behind : address ≤ address')
    (before : address' + size' ≤ address + size) : object.Contains address' size' :=
  ⟨Nat.le_trans contains.1 behind, Nat.le_trans before contains.2⟩

theorem long_eq {n : Nat} (small : n < 2 ^ 63) : long n = n := by
  have isWord : n % 2 ^ 64 = n := Nat.mod_eq_of_lt (by omega)
  rw [long, Cxx.readInteger, if_pos rfl, BitVec.toInt_eq_toNat_cond, BitVec.toNat_ofNat, isWord,
    if_pos (by omega)]

theorem lt_of_long_nonneg {n : Nat} (isWord : n < 2 ^ 64) (nonneg : 0 ≤ long n) :
    n < 2 ^ 63 := by
  by_contra large
  have isMod : n % 2 ^ 64 = n := Nat.mod_eq_of_lt isWord
  rw [long, Cxx.readInteger, if_pos rfl, BitVec.toInt_eq_toNat_cond, BitVec.toNat_ofNat, isMod,
    if_neg (by omega)] at nonneg
  omega

theorem long_lt (n : Nat) : long n < 2 ^ 63 := by
  have := BitVec.toInt_lt (x := BitVec.ofNat 64 n)
  rw [long, Cxx.readInteger, if_pos rfl]
  omega

namespace Value.Valid

variable {objects : List Object} {value : Value}

theorem capacity_lt (valid : value.Valid objects) : value.slice.capacity < 2 ^ 63 :=
  lt_of_long_nonneg valid.isWord.2 (Int.le_trans valid.nonneg valid.length_le)

theorem length_le_capacity (valid : value.Valid objects) :
    value.slice.length ≤ value.slice.capacity := by
  have le := valid.length_le
  rw [long_eq (lt_of_long_nonneg valid.isWord.1 valid.nonneg), long_eq valid.capacity_lt] at le
  exact Int.ofNat_le.mp le

theorem of_le (le : value.slice.length ≤ value.slice.capacity)
    (small : value.slice.capacity < 2 ^ 63)
    (addresses : 0 < value.slice.capacity → ∃ object ∈ objects, value.LiesIn object) :
    value.Valid objects := by
  have isLength := long_eq (Nat.lt_of_le_of_lt le small)
  refine ⟨?_, ?_, ⟨by omega, by omega⟩, addresses⟩
  · rw [isLength]
    exact Int.natCast_nonneg _
  · rw [isLength, long_eq small]
    exact Int.ofNat_le.mpr le

theorem mono {others : List Object} (valid : value.Valid objects)
    (kept : ∀ object ∈ objects, value.LiesIn object → object ∈ others) : value.Valid others := by
  refine ⟨valid.nonneg, valid.length_le, valid.isWord, ?_⟩
  intro positive
  obtain ⟨object, isObject, liesIn⟩ := valid.addresses positive
  exact ⟨object, kept object isObject liesIn, liesIn⟩

end Value.Valid

/-! ## Slicing -/

def Range.KeepsPointer (range : Range) : Prop :=
  range.low < range.high ∨ range.low = range.max

section Slicing

variable {limit : Nat} {element : ElementType} {pointer unitSize : Nat} {capacity : Int}
  {range : Range} {slice : Slice} {objects : List Object} {object : Object}

theorem inBounds_of_takeRange (taken : takeRange pointer unitSize capacity range = some slice) :
    range.InBounds capacity := by
  by_contra outOfBounds
  rw [takeRange_of_not_inBounds outOfBounds] at taken
  cases taken

theorem Range.InBounds.bytes_le (inBounds : range.InBounds capacity) (unit : Nat) :
    range.low.toNat * unit + (range.max - range.low).toNat * unit ≤ capacity.toNat * unit := by
  obtain ⟨low, high, max, within⟩ := inBounds
  rw [← Nat.add_mul]
  exact Nat.mul_le_mul_right unit (by omega)

theorem takeRange_length (small : capacity < 2 ^ 63)
    (taken : takeRange pointer unitSize capacity range = some slice) :
    slice.length = (range.high - range.low).toNat ∧
      slice.capacity = (range.max - range.low).toNat := by
  obtain ⟨low, high, max, within⟩ := inBounds_of_takeRange taken
  rw [takeRange, if_pos ⟨low, high, max, within⟩, Option.some.injEq] at taken
  rw [← taken]
  exact ⟨writeInteger_of_nonneg (by omega) (by omega), writeInteger_of_nonneg (by omega) (by omega)⟩

theorem takeRange_length_le (small : capacity < 2 ^ 63)
    (taken : takeRange pointer unitSize capacity range = some slice) :
    slice.length ≤ slice.capacity ∧ slice.capacity < 2 ^ 63 := by
  obtain ⟨isLength, isCapacity⟩ := takeRange_length small taken
  obtain ⟨low, high, max, within⟩ := inBounds_of_takeRange taken
  omega

theorem takeRange_lost (small : capacity < 2 ^ 63) (lost : ¬ range.KeepsPointer)
    (taken : takeRange pointer unitSize capacity range = some slice) :
    slice.pointer = 0 ∧ 0 < slice.capacity := by
  obtain ⟨isLength, isCapacity⟩ := takeRange_length small taken
  obtain ⟨low, high, max, within⟩ := inBounds_of_takeRange taken
  obtain ⟨notLess, notFull⟩ := not_or.mp lost
  have isEmpty : range.high - range.low = 0 := by omega
  have isZero : Cxx.writeInteger 64 0 = 0 := rfl
  refine ⟨?_, by omega⟩
  rw [takeRange, if_pos ⟨low, high, max, within⟩, Option.some.injEq, isEmpty] at taken
  rw [← taken]
  dsimp only
  rw [isZero, if_neg (not_not_intro rfl)]

theorem not_valid_of_null (placed : ∀ object ∈ objects, object.Placed limit)
    (isNull : slice.pointer = 0 ∧ 0 < slice.capacity) :
    ¬ Value.Valid objects { element, slice } := by
  intro valid
  obtain ⟨other, isOther, atNull, _⟩ := valid.addresses isNull.2
  have notNull := (placed other isOther).notNull
  have := isNull.1
  dsimp only at atNull
  omega

theorem takeRange_liesIn (inside : object.address + object.size < 2 ^ 64)
    (small : capacity < 2 ^ 63) (keeps : range.KeepsPointer)
    (contains : object.Contains pointer (capacity.toNat * element.unitSize))
    (taken : takeRange pointer element.unitSize capacity range = some slice)
    (positive : 0 < slice.capacity) : Value.LiesIn { element, slice } object := by
  have inBounds := inBounds_of_takeRange taken
  have bytes := inBounds.bytes_le element.unitSize
  obtain ⟨behind, before⟩ := contains
  rw [takeRange_of_inBounds inBounds small (by omega), Option.some.injEq] at taken
  subst taken
  obtain ⟨low, high, max, within⟩ := inBounds
  dsimp only at positive
  have notEmpty : range.low ≠ range.high := by
    rcases keeps with less | full
    · omega
    · omega
  refine ⟨?_, ?_⟩
  · dsimp only
    rw [if_neg notEmpty]
    omega
  · dsimp only
    rw [if_neg notEmpty]
    omega

end Slicing

/-! ## Indexing, append, copy -/

section Bytes

variable {memory : Memory} {address : Nat} {byte : UInt8}

theorem write_byte_self : memory.write address 1 byte.toNat address = byte := by
  rw [Memory.write, if_pos ⟨Nat.le_refl _, Nat.lt_succ_self _⟩]
  simp

theorem write_byte_of_ne {other : Nat} (differ : other ≠ address) :
    memory.write address 1 byte.toNat other = memory other :=
  if_neg (by omega)

theorem copy_inside {source size k : Nat} (inside : k < size) :
    memory.copy address source size (address + k) = memory (source + k) := by
  rw [Memory.copy, if_pos ⟨Nat.le_add_right _ _, Nat.add_lt_add_left inside _⟩,
    Nat.add_sub_cancel_left]

end Bytes

section Elements

variable {value : Value} {object : Object}

theorem indexSlice_contains {objects : List Object} (valid : value.Valid objects)
    (liesIn : value.LiesIn object) (inside : object.address + object.size < 2 ^ 64) {i : Int}
    {pointer : Nat} (isPointer : IndexSlice.execute value.element value.slice i = some pointer) :
    object.Contains pointer value.element.unitSize := by
  obtain ⟨behind, before⟩ := liesIn
  rw [IndexSlice.execute] at isPointer
  split at isPointer
  · cases isPointer
  · rename_i inBounds
    obtain ⟨nonneg, less⟩ := not_or.mp inBounds
    have le := valid.length_le_capacity
    have bytes : (i.toNat + 1) * value.element.unitSize ≤
        value.slice.capacity * value.element.unitSize :=
      Nat.mul_le_mul_right _ (by omega)
    rw [Nat.add_mul, Nat.one_mul] at bytes
    rw [Option.some.injEq] at isPointer
    have isSum : (value.slice.pointer + i.toNat * value.element.unitSize) % 2 ^ 64 =
        value.slice.pointer + i.toNat * value.element.unitSize :=
      Nat.mod_eq_of_lt (by omega)
    rw [← isPointer, isSum]
    exact ⟨by omega, by omega⟩

theorem appendOp_inPlace (heap : Nat → Nat) {element : ElementType} (isByte : element.unitSize = 1)
    {slice : Slice} (room : slice.length < slice.capacity) (small : slice.capacity < 2 ^ 63)
    (inside : slice.pointer + slice.length < 2 ^ 64) (byte : UInt8) (effects : Effects) :
    (AppendOp.execute heap element slice byte).run effects =
      ({ slice with length := slice.length + 1 },
        { effects with
          memory := effects.memory.write (slice.pointer + slice.length) 1 byte.toNat
          accesses := effects.accesses ++ [⟨slice.pointer + slice.length, 1⟩] }) := by
  have isLength : (slice.length + 1) % 2 ^ 64 = slice.length + 1 := Nat.mod_eq_of_lt (by omega)
  have isTarget : (slice.pointer + slice.length) % 2 ^ 64 = slice.pointer + slice.length :=
    Nat.mod_eq_of_lt inside
  have notGrown : ¬ slice.capacity < slice.length + 1 := by omega
  simp only [AppendOp.execute, isByte, Nat.mul_one, isLength, if_neg notGrown, pure_bind, isTarget]
  rfl

theorem appendOp_grown (heap : Nat → Nat) {element : ElementType} (isByte : element.unitSize = 1)
    {slice : Slice} (full : slice.capacity = slice.length) (small : slice.capacity ≤ 2 ^ 62)
    {target : Nat} (isTarget : heap (2 * (slice.length + 1)) = target) (byte : UInt8)
    (effects : Effects) :
    (AppendOp.execute heap element slice byte).run effects =
      ({ pointer := target, length := slice.length + 1, capacity := 2 * (slice.length + 1) },
        { memory := (effects.memory.copy target slice.pointer slice.length).write
            ((target + slice.length) % 2 ^ 64) 1 byte.toNat
          accesses := effects.accesses ++ [⟨slice.pointer, slice.length⟩, ⟨target, slice.length⟩] ++
            [⟨(target + slice.length) % 2 ^ 64, 1⟩]
          allocated := effects.allocated ++ [⟨target, 2 * (slice.length + 1)⟩] }) := by
  have isLength : (slice.length + 1) % 2 ^ 64 = slice.length + 1 := Nat.mod_eq_of_lt (by omega)
  have isCapacity : 2 * (slice.length + 1) % 2 ^ 64 = 2 * (slice.length + 1) :=
    Nat.mod_eq_of_lt (by omega)
  have isSize : slice.length % 2 ^ 64 = slice.length := Nat.mod_eq_of_lt (by omega)
  have grown : slice.capacity < slice.length + 1 := by omega
  simp only [AppendOp.execute, allocate, isByte, Nat.mul_one, isLength, isCapacity, isSize,
    if_pos grown, bind_assoc, pure_bind, isTarget]
  rfl

end Elements

end Rcgo.Slices
