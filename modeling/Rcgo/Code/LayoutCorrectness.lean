import Rcgo.Code.DataLayout

/-!
# Where the layout of data is right

The fields of a struct and the elements of an array lie aligned, apart and inside
the whole exactly where no struct without fields is stored and no size reaches
`2 ^ 64`.
-/

namespace Rcgo.Code

open Foundation

/-! ## The types of stored data -/

def Kind.predeclared : List Kind :=
  [bool, uint8, uint16, uint32, uint64, int8, int16, int32, int64, float32, float64, complex64,
    complex128, uint, int, uintptr, string, fileDescriptor]

/-- The field that `Component::Component` prepends. -/
def runtimeField : DataType :=
  .pointer (.basic .int32)

mutual

/-- A type that `process_type` gives to a field, a variable or a parameter.
A type that stores itself is defined recursively and is none of them. -/
def DataType.IsGiven : DataType → Prop
  | .basic kind => kind ∈ Kind.predeclared
  | .callable kind _ => kind ∈ [Kind.function, .pushPort, .pullPort]
  | .pointer _ => True
  | .slice _ => True
  | .heap _ => True
  | .array _ base => base.IsGiven
  | .named _ definition => definition.IsGiven
  | .struct fields => fields.AreGiven
  | .component fields => fields.toList.head? = some runtimeField ∧ fields.AreGiven
  | .declared _ => False

def Fields.AreGiven : Fields → Prop
  | .nil => True
  | .cons type rest => type.IsGiven ∧ rest.AreGiven

end

mutual

/-- The property holds of the type and of every type it stores. -/
def DataType.Everywhere (property : DataType → Prop) : DataType → Prop
  | .struct fields => property (.struct fields) ∧ fields.Everywhere property
  | .component fields => property (.component fields) ∧ fields.Everywhere property
  | .array dimension base => property (.array dimension base) ∧ base.Everywhere property
  | .named _ definition => definition.Everywhere property
  | .basic kind => property (.basic kind)
  | .callable kind signature => property (.callable kind signature)
  | .pointer base => property (.pointer base)
  | .slice base => property (.slice base)
  | .heap base => property (.heap base)
  | .declared name => property (.declared name)

def Fields.Everywhere (property : DataType → Prop) : Fields → Prop
  | .nil => True
  | .cons type rest => type.Everywhere property ∧ rest.Everywhere property

end

namespace Arch

/-! ## What a layout promises -/

/-- The words `arch.cpp` computes for a field. -/
structure Slot where
  offset : Word
  size : Word
  alignment : Word
  deriving DecidableEq, Repr

/-- The field at a position of a struct. -/
def slot (fields : Fields) (i : Nat) : Option Slot := do
  let type ← fields.toList[i]?
  let offset ← offset fields i
  let size ← size type
  let alignment ← alignment type
  some { offset, size, alignment }

def Slot.bytes (slot : Slot) : Set Nat :=
  bytesAt slot.offset.toNat slot.size.toNat

/-- The fields lie aligned, inside the whole and apart, where the size
computation has them. -/
structure FieldsLaidOut (fields : Fields) (whole : Word) : Prop where
  placed : ∀ i < fields.toList.length, ∃ slot, Arch.slot fields i = some slot ∧
    slot.alignment.toNat ∣ slot.offset.toNat ∧
    slot.offset.toNat + slot.size.toNat ≤ whole.toNat
  apart : ∀ i j slot other, Arch.slot fields i = some slot → Arch.slot fields j = some other →
    i ≠ j → Disjoint slot.bytes other.bytes
  agrees : ∀ i slot, Arch.slot fields i = some slot →
    sizeOfFields (fields.take (i + 1)) 0#64 = some (slot.offset + slot.size)

/-- What `IndexArray` adds to the address of the array. -/
def elementOffset (unit : Word) (i : Nat) : Word :=
  BitVec.ofNat 64 i * unit

/-- The elements lie aligned, inside the whole and apart. -/
structure ElementsLaidOut (dimension : Nat) (unit size alignment whole : Word) : Prop where
  placed : ∀ i < dimension, alignment.toNat ∣ (elementOffset unit i).toNat ∧
    (elementOffset unit i).toNat + size.toNat ≤ whole.toNat
  apart : ∀ i < dimension, ∀ j < dimension, i ≠ j →
    Disjoint (bytesAt (elementOffset unit i).toNat size.toNat)
      (bytesAt (elementOffset unit j).toNat size.toNat)

/-- What a type is made of lies where it should. -/
def PartsLaidOut : DataType → Word → Prop
  | .struct fields, whole => FieldsLaidOut fields whole
  | .component fields, whole => FieldsLaidOut fields whole
  | .array dimension base, whole =>
      ∃ unit size alignment, unitSize base = some unit ∧ Arch.size base = some size ∧
        Arch.alignment base = some alignment ∧
        ElementsLaidOut dimension unit size alignment whole
  | _, _ => True

/-- Alignment and size are defined, the alignment is a power of two, and the
parts lie where they should. -/
structure LaidOut (type : DataType) : Prop where
  alignment : ∃ alignment, Arch.alignment type = some alignment ∧ ∃ k, alignment.toNat = 2 ^ k
  parts : ∃ size, Arch.size type = some size ∧ PartsLaidOut type size

/-- The type is no heap and no struct without fields, and its size is below `2 ^ 64`. -/
structure Fits (type : DataType) : Prop where
  notHeap : ∀ base, type ≠ .heap base
  notEmpty : type ≠ .struct .nil
  bounded : ∀ n, type.size = some n → n < 2 ^ 64

end Arch

/-! ## Fields as items that are placed in order -/

/-- The size and the alignment of each field. -/
def Fields.items : Fields → Option (List Item)
  | .nil => some []
  | .cons type rest => do
      let size ← type.size
      let alignment ← type.alignment
      let others ← rest.items
      some ({ size, alignment } :: others)

namespace Fields

variable {fields : Fields} {items : List Item}

theorem items_cons {type : DataType} {rest : Fields}
    (areItems : (Fields.cons type rest).items = some items) :
    ∃ item others, items = item :: others ∧ type.size = some item.size ∧
      type.alignment = some item.alignment ∧ rest.items = some others := by
  simp only [Fields.items, Option.bind_eq_bind, Option.bind_eq_some_iff,
    Option.some.injEq] at areItems
  obtain ⟨size, isSize, alignment, isAlignment, others, areOthers, rfl⟩ := areItems
  exact ⟨_, others, rfl, isSize, isAlignment, areOthers⟩

theorem getElem?_items {i : Nat} {item : Item} (areItems : fields.items = some items)
    (isItem : items[i]? = some item) :
    ∃ type, fields.toList[i]? = some type ∧ type.size = some item.size ∧
      type.alignment = some item.alignment := by
  induction i generalizing fields items with
  | zero =>
      cases fields with
      | nil =>
          rw [← Option.some.inj areItems] at isItem
          cases isItem
      | cons type rest =>
          obtain ⟨first, others, rfl, isSize, isAlignment, _⟩ := items_cons areItems
          rw [List.getElem?_cons_zero, Option.some.injEq] at isItem
          exact ⟨type, rfl, isItem ▸ isSize, isItem ▸ isAlignment⟩
  | succ i inductionHypothesis =>
      cases fields with
      | nil =>
          rw [← Option.some.inj areItems] at isItem
          cases isItem
      | cons type rest =>
          obtain ⟨first, others, rfl, _, _, areOthers⟩ := items_cons areItems
          exact inductionHypothesis areOthers isItem

theorem length_items (areItems : fields.items = some items) :
    fields.toList.length = items.length := by
  induction items generalizing fields with
  | nil =>
      cases fields with
      | nil => rfl
      | cons type rest =>
          obtain ⟨_, _, isCons, _⟩ := items_cons areItems
          cases isCons
  | cons item others inductionHypothesis =>
      cases fields with
      | nil => cases areItems
      | cons type rest =>
          obtain ⟨_, _, isCons, _, _, areOthers⟩ := items_cons areItems
          cases isCons
          rw [toList, List.length_cons, List.length_cons, inductionHypothesis areOthers]

theorem sizeFrom_eq (areItems : fields.items = some items) (start : Nat) :
    fields.sizeFrom start = some (endFrom items start) := by
  induction items generalizing fields start with
  | nil =>
      cases fields with
      | nil => rfl
      | cons type rest =>
          obtain ⟨_, _, isCons, _⟩ := items_cons areItems
          cases isCons
  | cons item others inductionHypothesis =>
      cases fields with
      | nil => cases areItems
      | cons type rest =>
          obtain ⟨_, _, isCons, isSize, isAlignment, areOthers⟩ := items_cons areItems
          cases isCons
          rw [sizeFrom, isSize, isAlignment]
          exact inductionHypothesis areOthers _

theorem offsetFrom_eq (areItems : fields.items = some items) {i : Nat} {item : Item}
    (isItem : items[i]? = some item) (start : Nat) :
    Arch.offsetFrom fields i (BitVec.ofNat 64 start) =
      some (BitVec.ofNat 64 (roundUp (endFrom (items.take i) start) item.alignment)) := by
  induction i generalizing fields items start with
  | zero =>
      cases fields with
      | nil =>
          rw [← Option.some.inj areItems] at isItem
          cases isItem
      | cons type rest =>
          obtain ⟨first, others, rfl, isSize, isAlignment, _⟩ := items_cons areItems
          rw [List.getElem?_cons_zero, Option.some.injEq] at isItem
          subst isItem
          rw [Arch.offsetFrom, Arch.alignment_eq, isAlignment]
          exact congrArg some (Arch.alignUp_ofNat start (type.isAlignment isAlignment))
  | succ i inductionHypothesis =>
      cases fields with
      | nil =>
          rw [← Option.some.inj areItems] at isItem
          cases isItem
      | cons type rest =>
          obtain ⟨first, others, rfl, isSize, isAlignment, areOthers⟩ := items_cons areItems
          have := inductionHypothesis areOthers isItem
            (roundUp start first.alignment + first.size)
          rw [Arch.offsetFrom, Arch.alignment_eq, isAlignment, Arch.size_eq, isSize]
          simpa [Arch.alignUp_ofNat start (type.isAlignment isAlignment), BitVec.ofNat_add,
            endFrom] using this

theorem slot_eq (areItems : fields.items = some items) {i : Nat} {item : Item}
    (isItem : items[i]? = some item) :
    Arch.slot fields i = some
      { offset := BitVec.ofNat 64 (place items i item)
        size := BitVec.ofNat 64 item.size
        alignment := BitVec.ofNat 64 item.alignment } := by
  obtain ⟨type, isField, isSize, isAlignment⟩ := getElem?_items areItems isItem
  have isOffset : Arch.offset fields i = some (BitVec.ofNat 64 (place items i item)) :=
    offsetFrom_eq areItems isItem 0
  rw [Arch.slot, isField]
  simp [isOffset, Arch.size_eq, isSize, Arch.alignment_eq, isAlignment]

theorem exists_item (areItems : fields.items = some items) {i : Nat} {slot : Arch.Slot}
    (isSlot : Arch.slot fields i = some slot) : ∃ item, items[i]? = some item := by
  simp only [Arch.slot, Option.bind_eq_bind, Option.bind_eq_some_iff] at isSlot
  obtain ⟨type, isField, _⟩ := isSlot
  have inside := (List.getElem?_eq_some_iff.mp isField).1
  rw [length_items areItems] at inside
  exact ⟨_, List.getElem?_eq_getElem inside⟩

end Fields

/-- An item with a size that a word holds and a power of two as its alignment. -/
def IsRegular (item : Item) : Prop :=
  item.size < 2 ^ 64 ∧ ∃ k < 64, item.alignment = 2 ^ k

namespace IsRegular

variable {item : Item}

theorem positive (regular : IsRegular item) : 0 < item.alignment := by
  obtain ⟨_, k, _, isPower⟩ := regular
  rw [isPower]
  exact Nat.two_pow_pos k

theorem divides (regular : IsRegular item) : item.alignment ∣ 2 ^ 64 := by
  obtain ⟨_, k, isBit, isPower⟩ := regular
  rw [isPower]
  exact Nat.pow_dvd_pow 2 (Nat.le_of_lt isBit)

theorem toNat_size (regular : IsRegular item) : (BitVec.ofNat 64 item.size).toNat = item.size := by
  rw [BitVec.toNat_ofNat, Nat.mod_eq_of_lt regular.1]

theorem toNat_alignment (regular : IsRegular item) :
    (BitVec.ofNat 64 item.alignment).toNat = item.alignment := by
  obtain ⟨_, k, isBit, isPower⟩ := regular
  rw [BitVec.toNat_ofNat, isPower, Nat.mod_eq_of_lt (Nat.pow_lt_pow_right (by decide) isBit)]

end IsRegular

namespace Arch

/-- A word that is a multiple of an alignment is one modulo `2 ^ 64`. -/
theorem dvd_toNat_ofNat {alignment n : Nat} (divides : alignment ∣ 2 ^ 64)
    (isMultiple : alignment ∣ n) : alignment ∣ (BitVec.ofNat 64 n).toNat := by
  rw [BitVec.toNat_ofNat]
  exact (Nat.dvd_mod_iff divides).mpr isMultiple

section Fields

variable {fields : Fields} {items : List Item}

theorem fieldsLaidOut_iff (areItems : fields.items = some items)
    (regular : ∀ item ∈ items, IsRegular item) :
    FieldsLaidOut fields (BitVec.ofNat 64 (endFrom items 0)) ↔ KeptApart 64 items := by
  constructor
  · intro laidOut
    constructor
    · intro i item isItem
      have inside := (List.getElem?_eq_some_iff.mp isItem).1
      rw [← Fields.length_items areItems] at inside
      obtain ⟨slot, isSlot, _, inside⟩ := laidOut.placed i inside
      rw [Fields.slot_eq areItems isItem, Option.some.injEq] at isSlot
      subst isSlot
      rwa [(regular item (List.mem_of_getElem? isItem)).toNat_size] at inside
    · intro i j item other isItem isOther differ
      have apart := laidOut.apart i j _ _ (Fields.slot_eq areItems isItem)
        (Fields.slot_eq areItems isOther) differ
      rwa [Slot.bytes, Slot.bytes, (regular item (List.mem_of_getElem? isItem)).toNat_size,
        (regular other (List.mem_of_getElem? isOther)).toNat_size] at apart
  · intro kept
    constructor
    · intro i inside
      rw [Fields.length_items areItems] at inside
      have isItem := List.getElem?_eq_getElem inside
      have isRegular := regular _ (List.getElem_mem inside)
      refine ⟨_, Fields.slot_eq areItems isItem, ?_, ?_⟩
      · rw [isRegular.toNat_alignment]
        exact dvd_toNat_ofNat isRegular.divides (dvd_roundUp _ _)
      · rw [isRegular.toNat_size]
        exact kept.inside i _ isItem
    · intro i j slot other isSlot isOther differ
      obtain ⟨item, isItem⟩ := Fields.exists_item areItems isSlot
      obtain ⟨otherItem, isOtherItem⟩ := Fields.exists_item areItems isOther
      rw [Fields.slot_eq areItems isItem, Option.some.injEq] at isSlot
      rw [Fields.slot_eq areItems isOtherItem, Option.some.injEq] at isOther
      subst isSlot isOther
      rw [Slot.bytes, Slot.bytes, (regular item (List.mem_of_getElem? isItem)).toNat_size,
        (regular otherItem (List.mem_of_getElem? isOtherItem)).toNat_size]
      exact kept.apart i j item otherItem isItem isOtherItem differ
    · intro i slot isSlot
      simp only [Arch.slot, Option.bind_eq_bind, Option.bind_eq_some_iff,
        Option.some.injEq] at isSlot
      obtain ⟨type, isField, offset, isOffset, size, isSize, _, _, rfl⟩ := isSlot
      exact sizeOfFields_take isField isOffset isSize

end Fields

theorem toNat_elementOffset (unit i : Nat) :
    (elementOffset (BitVec.ofNat 64 unit) i).toNat = i * unit % 2 ^ 64 := by
  rw [elementOffset, ← BitVec.ofNat_mul, BitVec.toNat_ofNat]

theorem elementsLaidOut_iff {element : Item} (regular : IsRegular element) (dimension : Nat) :
    ElementsLaidOut dimension (BitVec.ofNat 64 (roundUp element.size element.alignment))
        (BitVec.ofNat 64 element.size) (BitVec.ofNat 64 element.alignment)
        (BitVec.ofNat 64 (dimension * roundUp element.size element.alignment)) ↔
      ElementsKeptApart 64 dimension (roundUp element.size element.alignment) element.size := by
  constructor
  · intro laidOut
    constructor
    · intro i isElement
      have inside := (laidOut.placed i isElement).2
      rwa [toNat_elementOffset, regular.toNat_size, BitVec.toNat_ofNat] at inside
    · intro i isElement j isOther differ
      have apart := laidOut.apart i isElement j isOther differ
      rwa [toNat_elementOffset, toNat_elementOffset, regular.toNat_size] at apart
  · intro kept
    constructor
    · intro i isElement
      rw [toNat_elementOffset, regular.toNat_size, regular.toNat_alignment, BitVec.toNat_ofNat,
        Nat.dvd_mod_iff regular.divides]
      exact ⟨Nat.dvd_mul_left_of_dvd (dvd_roundUp _ _) i, kept.inside i isElement⟩
    · intro i isElement j isOther differ
      rw [toNat_elementOffset, toNat_elementOffset, regular.toNat_size]
      exact kept.apart i isElement j isOther differ

end Arch

/-! ## Types that fit -/

theorem Fields.alignment_of_items {fields : Fields} {items : List Item}
    (areItems : fields.items = some items) :
    ∃ n, fields.alignment = some n ∧ ∀ item ∈ items, item.alignment ≤ n := by
  induction items generalizing fields with
  | nil =>
      cases fields with
      | nil => exact ⟨0, rfl, fun _ isItem => absurd isItem List.not_mem_nil⟩
      | cons type rest =>
          obtain ⟨_, _, isCons, _⟩ := items_cons areItems
          cases isCons
  | cons item others inductionHypothesis =>
      cases fields with
      | nil => cases areItems
      | cons type rest =>
          obtain ⟨_, _, isCons, _, isAlignment, areOthers⟩ := items_cons areItems
          cases isCons
          obtain ⟨n, isRest, atMost⟩ := inductionHypothesis areOthers
          refine ⟨max item.alignment n, ?_, ?_⟩
          · rw [Fields.alignment, isAlignment, isRest]
            rfl
          · intro other isOther
            rcases List.mem_cons.mp isOther with rfl | isOther
            · exact Nat.le_max_left _ _
            · exact Nat.le_trans (atMost other isOther) (Nat.le_max_right _ _)

/-- Size and alignment are those of a regular item. -/
def AreRegular (size alignment : Option Nat) : Prop :=
  ∃ item, IsRegular item ∧ size = some item.size ∧ alignment = some item.alignment

theorem Fields.areRegular {fields : Fields} {items : List Item}
    (areItems : fields.items = some items) (regular : ∀ item ∈ items, IsRegular item)
    (notEmpty : fields ≠ .nil) (bounded : endFrom items 0 < 2 ^ 64) :
    AreRegular (fields.sizeFrom 0) fields.alignment := by
  obtain ⟨n, isAlignment, atMost⟩ := alignment_of_items areItems
  have positive : 0 < n := by
    cases fields with
    | nil => exact absurd rfl notEmpty
    | cons type rest =>
        obtain ⟨first, others, rfl, _⟩ := items_cons areItems
        have isFirst := List.mem_cons_self (a := first) (l := others)
        exact Nat.lt_of_lt_of_le (regular first isFirst).positive (atMost first isFirst)
  rcases fields.isAlignment isAlignment with isZero | ⟨k, isBit, isPower⟩
  · omega
  · exact ⟨{ size := endFrom items 0, alignment := n }, ⟨bounded, k, isBit, isPower⟩,
      sizeFrom_eq areItems 0, isAlignment⟩

theorem Kind.areRegular {kind : Kind}
    (isStored : kind ∈ Kind.predeclared ++ [Kind.function, .pushPort, .pullPort]) :
    AreRegular kind.size kind.alignment := by
  have table : ∀ kind ∈ Kind.predeclared ++ [Kind.function, .pushPort, .pullPort],
      kind.size ∈ [1, 2, 4, 8, 16].map some ∧
        kind.alignment ∈ [0, 1, 2, 3].map fun k => some (2 ^ k) := by
    decide
  obtain ⟨sizeInTable, alignmentInTable⟩ := table kind isStored
  obtain ⟨size, isSize, sizeEq⟩ := List.mem_map.mp sizeInTable
  obtain ⟨k, isPower, alignmentEq⟩ := List.mem_map.mp alignmentInTable
  refine ⟨{ size, alignment := 2 ^ k }, ⟨?_, k, ?_, rfl⟩, sizeEq.symm, alignmentEq.symm⟩
  · have : ∀ n ∈ [1, 2, 4, 8, 16], n < 2 ^ 64 := by decide
    exact this size isSize
  · have : ∀ n ∈ [0, 1, 2, 3], n < 64 := by decide
    exact this k isPower

theorem areRegular_pointer : AreRegular (Kind.size .pointer) (Kind.alignment .pointer) :=
  ⟨{ size := 8, alignment := 2 ^ 3 }, ⟨by decide, 3, by decide, rfl⟩, rfl, rfl⟩

theorem areRegular_slice : AreRegular (Kind.size .slice) (Kind.alignment .slice) :=
  ⟨{ size := 24, alignment := 2 ^ 3 }, ⟨by decide, 3, by decide, rfl⟩, rfl, rfl⟩

namespace Arch

theorem fields_laidOut_iff {fields : Fields} {items : List Item}
    (areItems : fields.items = some items) (regular : ∀ item ∈ items, IsRegular item) :
    ((∃ alignment, alignmentOfFields fields 0#64 = some alignment ∧
        ∃ k, alignment.toNat = 2 ^ k) ∧
      ∃ size, sizeOfFields fields 0#64 = some size ∧ FieldsLaidOut fields size) ↔
      fields ≠ .nil ∧ ∀ n, fields.sizeFrom 0 = some n → n < 2 ^ 64 := by
  have isSize : sizeOfFields fields 0#64 = some (BitVec.ofNat 64 (endFrom items 0)) := by
    rw [sizeOfFields_eq fields 0, Fields.sizeFrom_eq areItems 0]
    rfl
  have isAlignment := alignmentOfFields_eq fields (Nat.two_pow_pos 64)
  constructor
  · rintro ⟨⟨alignment, areAligned, k, isPower⟩, size, hasSize, laidOut⟩
    constructor
    · rintro rfl
      rw [alignmentOfFields, Option.some.injEq] at areAligned
      rw [← areAligned] at isPower
      exact absurd isPower.symm (Nat.two_pow_pos k).ne'
    · intro n isEnd
      rw [isSize, Option.some.injEq] at hasSize
      rw [← hasSize] at laidOut
      rw [Fields.sizeFrom_eq areItems, Option.some.injEq] at isEnd
      rw [← isEnd]
      exact ((fieldsLaidOut_iff areItems regular).mp laidOut).end_lt
        fun item isItem => (regular item isItem).divides
  · rintro ⟨notEmpty, bounded⟩
    have below := bounded _ (Fields.sizeFrom_eq areItems 0)
    constructor
    · obtain ⟨item, isRegular, _, hasAlignment⟩ :=
        Fields.areRegular areItems regular notEmpty below
      rw [isAlignment, hasAlignment, Option.map_some, Nat.zero_max]
      refine ⟨_, rfl, ?_⟩
      rw [isRegular.toNat_alignment]
      exact isRegular.2.imp fun _ => And.right
    · refine ⟨_, isSize, (fieldsLaidOut_iff areItems regular).mpr ?_⟩
      exact KeptApart.of_end_lt (fun item isItem => (regular item isItem).positive) below

theorem array_laidOut_iff {dimension : Nat} {base : DataType}
    (regular : AreRegular base.size base.alignment) :
    LaidOut (.array dimension base) ↔ Fits (.array dimension base) := by
  obtain ⟨item, isRegular, isSize, isAlignment⟩ := regular
  have hasSize : DataType.size (.array dimension base) =
      some (dimension * roundUp item.size item.alignment) := by
    rw [DataType.size, isSize, isAlignment, Nat.mul_comm]
    rfl
  have isUnit : unitSize base =
      some (BitVec.ofNat 64 (roundUp item.size item.alignment)) := by
    rw [unitSize_eq, DataType.unitSize, isSize, isAlignment]
    rfl
  have elements := elementsLaidOut_iff isRegular dimension
  constructor
  · rintro ⟨_, whole, isWhole, unit, size, alignment, hasUnit, baseSize, baseAlignment, laidOut⟩
    refine ⟨by simp, by simp, ?_⟩
    intro n isN
    rw [size_eq, hasSize, Option.map_some, Option.some.injEq] at isWhole
    rw [isUnit, Option.some.injEq] at hasUnit
    rw [size_eq, isSize, Option.map_some, Option.some.injEq] at baseSize
    rw [alignment_eq, isAlignment, Option.map_some, Option.some.injEq] at baseAlignment
    rw [hasSize, Option.some.injEq] at isN
    subst isWhole hasUnit baseSize baseAlignment isN
    exact (elements.mp laidOut).end_lt isRegular.divides
  · rintro ⟨_, _, bounded⟩
    have below := bounded _ hasSize
    constructor
    · refine ⟨BitVec.ofNat 64 item.alignment, ?_, ?_⟩
      · rw [alignment, alignment_eq, isAlignment]
        rfl
      · rw [isRegular.toNat_alignment]
        exact isRegular.2.imp fun _ => And.right
    · refine ⟨_, by rw [size_eq, hasSize]; rfl, _, _, _, isUnit, ?_, ?_, elements.mpr ?_⟩
      · rw [size_eq, isSize]
        rfl
      · rw [alignment_eq, isAlignment]
        rfl
      · exact ElementsKeptApart.of_end_lt isRegular.positive below

theorem laidOut_of_areRegular {type : DataType} (regular : AreRegular type.size type.alignment)
    (noParts : ∀ size, PartsLaidOut type size) : LaidOut type := by
  obtain ⟨item, isRegular, isSize, isAlignment⟩ := regular
  constructor
  · refine ⟨BitVec.ofNat 64 item.alignment, by rw [alignment_eq, isAlignment]; rfl, ?_⟩
    rw [isRegular.toNat_alignment]
    exact isRegular.2.imp fun _ => And.right
  · exact ⟨BitVec.ofNat 64 item.size, by rw [size_eq, isSize]; rfl, noParts _⟩

theorem Fits.of_size {type : DataType} {size : Nat} (isSize : type.size = some size)
    (below : size < 2 ^ 64) (notHeap : ∀ base, type ≠ .heap base) (notEmpty : type ≠ .struct .nil) :
    Fits type := by
  refine ⟨notHeap, notEmpty, ?_⟩
  intro n isN
  rw [isSize, Option.some.injEq] at isN
  exact isN ▸ below

theorem fits_of_areRegular {type : DataType} (regular : AreRegular type.size type.alignment)
    (notHeap : ∀ base, type ≠ .heap base) (notEmpty : type ≠ .struct .nil) : Fits type := by
  obtain ⟨item, isRegular, isSize, _⟩ := regular
  exact Fits.of_size isSize isRegular.1 notHeap notEmpty

end Arch

theorem Fields.ne_nil_of_head {fields : Fields} {type : DataType}
    (isHead : fields.toList.head? = some type) : fields ≠ .nil := by
  rintro rfl
  cases isHead

mutual

theorem DataType.areRegular (type : DataType) (given : type.IsGiven)
    (fits : type.Everywhere Arch.Fits) : AreRegular type.size type.alignment := by
  cases type with
  | struct fields =>
      obtain ⟨fits, parts⟩ := fits
      obtain ⟨items, areItems, regular⟩ := fields.exists_items given parts
      refine Fields.areRegular areItems regular (fun isNil => fits.notEmpty (by rw [isNil])) ?_
      exact fits.bounded _ (Fields.sizeFrom_eq areItems 0)
  | component fields =>
      obtain ⟨isHead, given⟩ := given
      obtain ⟨fits, parts⟩ := fits
      obtain ⟨items, areItems, regular⟩ := fields.exists_items given parts
      refine Fields.areRegular areItems regular (Fields.ne_nil_of_head isHead) ?_
      exact fits.bounded _ (Fields.sizeFrom_eq areItems 0)
  | array dimension base =>
      obtain ⟨fits, parts⟩ := fits
      obtain ⟨item, isRegular, isSize, isAlignment⟩ := base.areRegular given parts
      have hasSize : DataType.size (.array dimension base) =
          some (roundUp item.size item.alignment * dimension) := by
        rw [DataType.size, isSize, isAlignment]
        rfl
      exact ⟨{ size := _, alignment := item.alignment }, ⟨fits.bounded _ hasSize, isRegular.2⟩,
        hasSize, isAlignment⟩
  | named _ definition => exact definition.areRegular given fits
  | basic kind => exact Kind.areRegular (List.mem_append_left _ given)
  | callable kind _ => exact Kind.areRegular (List.mem_append_right _ given)
  | pointer _ => exact areRegular_pointer
  | slice _ => exact areRegular_slice
  | heap base => exact absurd rfl (fits.notHeap base)
  | declared _ => cases given

theorem Fields.exists_items (fields : Fields) (given : fields.AreGiven)
    (fits : fields.Everywhere Arch.Fits) :
    ∃ items, fields.items = some items ∧ ∀ item ∈ items, IsRegular item := by
  cases fields with
  | nil => exact ⟨[], rfl, fun _ isItem => absurd isItem List.not_mem_nil⟩
  | cons type rest =>
      obtain ⟨item, isRegular, isSize, isAlignment⟩ := type.areRegular given.1 fits.1
      obtain ⟨others, areOthers, regular⟩ := rest.exists_items given.2 fits.2
      refine ⟨item :: others, ?_, ?_⟩
      · rw [Fields.items, isSize, isAlignment, areOthers]
        rfl
      · intro other isOther
        rcases List.mem_cons.mp isOther with rfl | isOther
        · exact isRegular
        · exact regular other isOther

end

namespace Arch

theorem struct_laidOut_iff {fields : Fields} (given : fields.AreGiven)
    (parts : fields.Everywhere Fits) : LaidOut (.struct fields) ↔ Fits (.struct fields) := by
  obtain ⟨items, areItems, regular⟩ := fields.exists_items given parts
  have equivalent := fields_laidOut_iff areItems regular
  constructor
  · rintro ⟨alignment, placed⟩
    obtain ⟨notEmpty, bounded⟩ := equivalent.mp ⟨alignment, placed⟩
    exact ⟨by simp, fun isEmpty => notEmpty (DataType.struct.inj isEmpty), bounded⟩
  · rintro ⟨_, notEmpty, bounded⟩
    obtain ⟨alignment, placed⟩ :=
      equivalent.mpr ⟨fun isNil => notEmpty (congrArg DataType.struct isNil), bounded⟩
    exact ⟨alignment, placed⟩

theorem component_laidOut_iff {fields : Fields} (given : fields.AreGiven)
    (notEmpty : fields ≠ .nil) (parts : fields.Everywhere Fits) :
    LaidOut (.component fields) ↔ Fits (.component fields) := by
  obtain ⟨items, areItems, regular⟩ := fields.exists_items given parts
  have equivalent := fields_laidOut_iff areItems regular
  constructor
  · rintro ⟨alignment, placed⟩
    exact ⟨by simp, by simp, (equivalent.mp ⟨alignment, placed⟩).2⟩
  · rintro ⟨_, _, bounded⟩
    obtain ⟨alignment, placed⟩ := equivalent.mpr ⟨notEmpty, bounded⟩
    exact ⟨alignment, placed⟩

theorem not_laidOut_heap (base : DataType) : ¬ LaidOut (.heap base) := by
  rintro ⟨⟨_, isAlignment, _⟩, _⟩
  cases isAlignment

end Arch

mutual

/-- A type and what it stores are laid out exactly if they fit. -/
theorem DataType.laidOut_iff_fits (type : DataType) (given : type.IsGiven) :
    type.Everywhere Arch.LaidOut ↔ type.Everywhere Arch.Fits := by
  cases type with
  | struct fields =>
      have parts := fields.laidOut_iff_fits given
      constructor
      · rintro ⟨laidOut, partsLaidOut⟩
        have partsFit := parts.mp partsLaidOut
        exact ⟨(Arch.struct_laidOut_iff given partsFit).mp laidOut, partsFit⟩
      · rintro ⟨fits, partsFit⟩
        exact ⟨(Arch.struct_laidOut_iff given partsFit).mpr fits, parts.mpr partsFit⟩
  | component fields =>
      have parts := fields.laidOut_iff_fits given.2
      have notEmpty := Fields.ne_nil_of_head given.1
      constructor
      · rintro ⟨laidOut, partsLaidOut⟩
        have partsFit := parts.mp partsLaidOut
        exact ⟨(Arch.component_laidOut_iff given.2 notEmpty partsFit).mp laidOut, partsFit⟩
      · rintro ⟨fits, partsFit⟩
        exact ⟨(Arch.component_laidOut_iff given.2 notEmpty partsFit).mpr fits,
          parts.mpr partsFit⟩
  | array dimension base =>
      have parts := base.laidOut_iff_fits given
      constructor
      · rintro ⟨laidOut, partsLaidOut⟩
        have partsFit := parts.mp partsLaidOut
        exact ⟨(Arch.array_laidOut_iff (base.areRegular given partsFit)).mp laidOut, partsFit⟩
      · rintro ⟨fits, partsFit⟩
        exact ⟨(Arch.array_laidOut_iff (base.areRegular given partsFit)).mpr fits,
          parts.mpr partsFit⟩
  | named _ definition => exact definition.laidOut_iff_fits given
  | basic kind =>
      have regular := Kind.areRegular (List.mem_append_left _ given)
      exact iff_of_true (Arch.laidOut_of_areRegular regular fun _ => trivial)
        (Arch.fits_of_areRegular regular (by simp) (by simp))
  | callable kind _ =>
      have regular := Kind.areRegular (List.mem_append_right _ given)
      exact iff_of_true (Arch.laidOut_of_areRegular regular fun _ => trivial)
        (Arch.fits_of_areRegular regular (by simp) (by simp))
  | pointer _ =>
      exact iff_of_true (Arch.laidOut_of_areRegular areRegular_pointer fun _ => trivial)
        (Arch.fits_of_areRegular areRegular_pointer (by simp) (by simp))
  | slice _ =>
      exact iff_of_true (Arch.laidOut_of_areRegular areRegular_slice fun _ => trivial)
        (Arch.fits_of_areRegular areRegular_slice (by simp) (by simp))
  | heap base =>
      exact iff_of_false (Arch.not_laidOut_heap base) fun fits => fits.notHeap base rfl
  | declared _ => cases given

theorem Fields.laidOut_iff_fits (fields : Fields) (given : fields.AreGiven) :
    fields.Everywhere Arch.LaidOut ↔ fields.Everywhere Arch.Fits := by
  cases fields with
  | nil => exact Iff.rfl
  | cons type rest =>
      exact and_congr (type.laidOut_iff_fits given.1) (rest.laidOut_iff_fits given.2)

end

namespace Arch

/-- The layout is right in a type and in all it stores exactly if no heap and no
struct without fields is stored and no size reaches `2 ^ 64`. -/
theorem layout_correct_iff (type : DataType) (given : type.IsGiven) :
    type.Everywhere LaidOut ↔ type.Everywhere Fits :=
  type.laidOut_iff_fits given

/-- `struct { flag bool; pairs [3]struct { x int32; y uint8; }; name string; }` -/
def nestedStruct : DataType :=
  .struct (.cons (.basic .bool)
    (.cons (.array 3 (.struct (.cons (.basic .int32) (.cons (.basic .uint8) .nil))))
      (.cons (.basic .string) .nil)))

theorem layout_correct_nestedStruct : nestedStruct.Everywhere LaidOut := by
  refine (layout_correct_iff nestedStruct ?_).mpr ?_
  · simp [nestedStruct, DataType.IsGiven, Fields.AreGiven, Kind.predeclared]
  · refine ⟨?_, ?_, ⟨?_, ?_, ?_, ?_, trivial⟩, ?_, trivial⟩
    all_goals exact Fits.of_size rfl (by decide) (by simp) (by simp)

/-- `struct { a int; e struct {}; b int; }` -/
def structAroundEmpty : Fields :=
  .cons (.basic .int) (.cons (.struct .nil) (.cons (.basic .int) .nil))

example : slot structAroundEmpty 0 = slot structAroundEmpty 2 := by
  decide

/-- The field behind the empty struct lies on the first field. -/
theorem structAroundEmpty_not_laidOut :
    ¬ ∀ type : DataType, type.IsGiven → type.Everywhere LaidOut := by
  intro correct
  have given : (DataType.struct structAroundEmpty).IsGiven := by
    simp [structAroundEmpty, DataType.IsGiven, Fields.AreGiven, Kind.predeclared]
  obtain ⟨_, size, _, laidOut⟩ := (correct _ given).1
  have first : slot structAroundEmpty 0 = some { offset := 0, size := 8, alignment := 8 } := rfl
  have last : slot structAroundEmpty 2 = some { offset := 0, size := 8, alignment := 8 } := rfl
  have apart := laidOut.apart 0 2 _ _ first last (by decide)
  exact not_disjoint_bytesAt_zero (by decide) (by decide) apart

end Arch

end Rcgo.Code
