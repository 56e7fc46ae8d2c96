import Rcgo.Storage.Retention
import Mathlib.Order.Interval.Finset.Nat

/-!
# Objects and free slots

The slots of a heap are divided among the allocated objects and the chunks of
the free list.  Allocations and stores keep this.
-/

namespace Rcgo.Storage

open Rcgo.Foundation

abbrev Objects := Set Region

namespace Heap

/-- The object takes these slots of the block, and they carry its bits. -/
structure Occupies (heap : Heap) (object : Region) (block slot count : Nat) : Prop where
  member : block ∈ heap.tree.inorder
  place : object.1 = block + slot * slotSize
  isSize : roundedSize object.2 = count * slotSize
  positive : 0 < count
  inBlock : slot + count ≤ slotCount heap.blocks block
  head : heap.bit block slot .object = true
  inner : ∀ s, slot < s → s < slot + count → heap.bit block s .object = false
  allocated : ∀ s, slot ≤ s → s < slot + count → heap.bit block s .allocated = true

def allocatedSlots (heap : Heap) : Finset (Nat × Nat) :=
  (MarkState.slots heap).filter fun p => heap.bit p.1 p.2 .allocated = true

theorem mem_allocatedSlots {heap : Heap} {block slot : Nat} :
    (block, slot) ∈ heap.allocatedSlots ↔
      block ∈ heap.tree.inorder ∧ slot < slotCount heap.blocks block ∧
        heap.bit block slot .allocated = true := by
  rw [allocatedSlots, Finset.mem_filter, MarkState.mem_slots, and_assoc]

/-- The representation invariant of a heap with these objects. -/
structure Partitioned (heap : Heap) (mem : Memory) (objects : Objects) : Prop where
  layout : heap.Layout mem
  clean : heap.Clean
  exact : heap.Exact mem
  held : ∀ object ∈ objects, ∃ block slot count, heap.Occupies object block slot count
  single : ∀ object ∈ objects, ∀ other ∈ objects, object.1 = other.1 → object = other
  owned :
    ∀ block ∈ heap.tree.inorder, ∀ slot, heap.bit block slot .allocated = true →
      ∃ object ∈ objects, ∃ first count, heap.Occupies object block first count ∧
        first ≤ slot ∧ slot < first + count
  flagged :
    ∀ block ∈ heap.tree.inorder, ∀ slot, heap.bit block slot .object = true →
      heap.bit block slot .allocated = true
  size : heap.allocatedSize = heap.allocatedSlots.card * slotSize

theorem slot_unique {heap : Heap} {mem : Memory} (layout : heap.Layout mem)
    {block other slot otherSlot : Nat} (member : block ∈ heap.tree.inorder)
    (otherMember : other ∈ heap.tree.inorder) (inBlock : slot < slotCount heap.blocks block)
    (otherInBlock : otherSlot < slotCount heap.blocks other)
    (same : block + slot * slotSize = other + otherSlot * slotSize) :
    block = other ∧ slot = otherSlot := by
  have limit := (layout.aligned block member).1
  have otherLimit := (layout.aligned other otherMember).1
  simp only [slotSize] at limit otherLimit same
  rcases layout.ordered.eq_or_apart member otherMember with sameBlock | apart
  · subst sameBlock
    exact ⟨rfl, by omega⟩
  · omega

namespace Occupies

variable {heap : Heap} {object : Region} {block slot count : Nat}

theorem holdsObject (occupies : heap.Occupies object block slot count) :
    heap.HoldsObject object :=
  ⟨block, slot, count, occupies.member, occupies.place, occupies.isSize, occupies.positive,
   occupies.inBlock, occupies.head, occupies.allocated⟩

theorem head_allocated (occupies : heap.Occupies object block slot count) :
    heap.bit block slot .allocated = true :=
  occupies.allocated slot le_rfl (by have := occupies.positive; omega)

theorem congr (occupies : heap.Occupies object block slot count) {after : Heap}
    (member : block ∈ after.tree.inorder)
    (limit : (after.blocks block).limit = (heap.blocks block).limit)
    (same :
      ∀ s, slot ≤ s → s < slot + count →
        after.bit block s .object = heap.bit block s .object ∧
          (heap.bit block s .allocated = true → after.bit block s .allocated = true)) :
    after.Occupies object block slot count := by
  have positive := occupies.positive
  refine ⟨member, occupies.place, occupies.isSize, positive, ?_, ?_, ?_, ?_⟩
  · rw [slotCount_congr limit]
    exact occupies.inBlock
  · rw [(same slot le_rfl (by omega)).1]
    exact occupies.head
  · intro s above below
    rw [(same s (by omega) below).1]
    exact occupies.inner s above below
  · intro s atLeast below
    exact (same s atLeast below).2 (occupies.allocated s atLeast below)

theorem unique (occupies : heap.Occupies object block slot count) {mem : Memory}
    (layout : heap.Layout mem) {otherBlock otherSlot otherCount : Nat}
    (other : heap.Occupies object otherBlock otherSlot otherCount) :
    block = otherBlock ∧ slot = otherSlot ∧ count = otherCount := by
  have inBlock := occupies.inBlock
  have otherInBlock := other.inBlock
  have positive := occupies.positive
  have otherPositive := other.positive
  obtain ⟨sameBlock, sameSlot⟩ :=
    slot_unique layout occupies.member other.member (by omega) (by omega)
      (occupies.place.symm.trans other.place)
  have sameSize := occupies.isSize.symm.trans other.isSize
  simp only [slotSize] at sameSize
  exact ⟨sameBlock, sameSlot, by omega⟩

theorem same_first (occupies : heap.Occupies object block slot count) {other : Region}
    {otherSlot otherCount : Nat}
    (otherOccupies : heap.Occupies other block otherSlot otherCount) {s : Nat}
    (inside : slot ≤ s ∧ s < slot + count) (otherInside : otherSlot ≤ s ∧ s < otherSlot + otherCount) :
    slot = otherSlot := by
  by_contra different
  rcases Nat.lt_or_gt_of_ne different with before | behind
  · have isInner := occupies.inner otherSlot before (by omega)
    rw [otherOccupies.head] at isInner
    cases isInner
  · have isInner := otherOccupies.inner slot behind (by omega)
    rw [occupies.head] at isInner
    cases isInner

end Occupies

theorem FreeChunks.congr_memory {heap : Heap} {mem other : Memory} {chunks : List Region}
    (free : heap.FreeChunks mem chunks)
    (same :
      ∀ block ∈ heap.tree.inorder, ∀ slot, slot < slotCount heap.blocks block →
        heap.bit block slot .allocated = false →
          ∀ a, InSlot block slot a → other a = mem a) :
    heap.FreeChunks other chunks := by
  refine ⟨?_, free.run, free.apart⟩
  apply free.segment.congr
  intro region member
  obtain ⟨block, inTree, slot, inBlock, isFree, first, second⟩ := (free.run region member).header
  have sameSlot := same block inTree slot inBlock isFree
  exact ⟨sameSlot _ first, sameSlot _ second⟩

namespace Partitioned

variable {heap : Heap} {mem : Memory} {objects : Objects}
  (partitioned : heap.Partitioned mem objects)

include partitioned

theorem headed : heap.Headed := by
  intro block member slot isAllocated
  obtain ⟨object, _, first, count, occupies, atMost, _⟩ :=
    partitioned.owned block member slot isAllocated
  exact ⟨first, atMost, occupies.head⟩

theorem ready : heap.Ready :=
  ⟨partitioned.layout.ordered, partitioned.layout.aligned, partitioned.clean,
   partitioned.headed⟩

theorem allocated_inBlock {block slot : Nat} (member : block ∈ heap.tree.inorder)
    (isAllocated : heap.bit block slot .allocated = true) :
    slot < slotCount heap.blocks block := by
  obtain ⟨object, _, first, count, occupies, _, below⟩ :=
    partitioned.owned block member slot isAllocated
  have inBlock := occupies.inBlock
  omega

theorem object_unique {object other : Region} {block first count otherFirst otherCount s : Nat}
    (isObject : object ∈ objects) (isOther : other ∈ objects)
    (occupies : heap.Occupies object block first count)
    (otherOccupies : heap.Occupies other block otherFirst otherCount)
    (inside : first ≤ s ∧ s < first + count)
    (otherInside : otherFirst ≤ s ∧ s < otherFirst + otherCount) : object = other := by
  have sameFirst := occupies.same_first otherOccupies inside otherInside
  apply partitioned.single object isObject other isOther
  rw [occupies.place, otherOccupies.place, sameFirst]

theorem store {other : Memory}
    (same :
      ∀ block ∈ heap.tree.inorder, ∀ slot, slot < slotCount heap.blocks block →
        heap.bit block slot .allocated = false →
          ∀ a, InSlot block slot a → other a = mem a) :
    heap.Partitioned other objects := by
  obtain ⟨⟨ordered, aligned, blockSize, chunks, free⟩, clean, ⟨others, otherFree, covering⟩,
    held, single, owned, flagged, size⟩ := partitioned
  exact
    ⟨⟨ordered, aligned, blockSize, chunks, free.congr_memory same⟩, clean,
     ⟨others, otherFree.congr_memory same, covering⟩, held, single, owned, flagged, size⟩

theorem frame {other : Memory} (same : ∀ a, heap.Owns a → other a = mem a) :
    heap.Partitioned other objects := by
  apply partitioned.store
  intro block member slot inBlock _ a inside
  exact same a ⟨block, member, inside.inside inBlock⟩

end Partitioned

/-! ## Allocation -/

section Allocate

variable {heap after : Heap} {mem afterMem : Memory} {objects : Objects}
  {address size block slot count : Nat}
  (partitioned : heap.Partitioned mem objects)
  (allocation :
    Allocation heap mem address (roundedSize size) after afterMem block slot count)

include allocation

private theorem occupies_of_old {object : Region} {b first number : Nat}
    (occupies : heap.Occupies object b first number) :
    after.Occupies object b first number := by
  obtain ⟨inAfter, limit⟩ := allocation.grows b occupies.member
  apply occupies.congr inAfter limit
  intro s atLeast below
  have isAllocated := occupies.allocated s atLeast below
  refine ⟨?_, fun _ => allocation.keeps_bit occupies.member isAllocated⟩
  rw [Bool.eq_iff_iff, allocation.bits b inAfter s .object]
  constructor
  · intro either
    rcases either with old | ⟨sameBlock, isNew⟩
    · exact old.2
    · have isSlot : s = slot := by simpa using isNew
      have wasFree :=
        allocation.wasFree (sameBlock ▸ occupies.member) s (by omega)
          (by have := allocation.positive; omega)
      rw [← sameBlock, isAllocated] at wasFree
      cases wasFree
  · intro isObject
    exact Or.inl ⟨occupies.member, isObject⟩

include partitioned

private theorem occupies_new : after.Occupies (address, size) block slot count := by
  have bits := allocation.bits block allocation.member
  refine ⟨allocation.member, allocation.place, allocation.isSize, allocation.positive,
    allocation.inBlock, ?_, ?_, ?_⟩
  · exact (bits slot .object).mpr (Or.inr ⟨rfl, Or.inl ⟨rfl, rfl⟩⟩)
  · intro s above below
    rw [Bool.eq_false_iff]
    intro isObject
    rcases (bits s .object).mp isObject with ⟨inTree, old⟩ | ⟨_, isNew⟩
    · have isAllocated := partitioned.flagged block inTree s old
      rw [allocation.wasFree inTree s (by omega) below] at isAllocated
      cases isAllocated
    · have isSlot : s = slot := by simpa using isNew
      omega
  · intro s atLeast below
    exact (bits s .allocated).mpr (Or.inr ⟨rfl, Or.inr ⟨rfl, atLeast, below⟩⟩)

private theorem card_allocatedSlots :
    after.allocatedSlots.card = heap.allocatedSlots.card + count := by
  have isUnion :
      after.allocatedSlots =
        heap.allocatedSlots ∪ (Finset.Ico slot (slot + count)).image fun s => (block, s) := by
    ext ⟨b, s⟩
    rw [Finset.mem_union, mem_allocatedSlots, mem_allocatedSlots, Finset.mem_image]
    constructor
    · intro ⟨inAfter, _, isAllocated⟩
      rcases (allocation.bits b inAfter s .allocated).mp isAllocated with
        ⟨inTree, old⟩ | ⟨sameBlock, isNew⟩
      · exact Or.inl ⟨inTree, partitioned.allocated_inBlock inTree old, old⟩
      · have range : slot ≤ s ∧ s < slot + count := by simpa using isNew
        exact Or.inr ⟨s, Finset.mem_Ico.mpr range, by rw [sameBlock]⟩
    · intro either
      rcases either with ⟨inTree, inBlock, old⟩ | ⟨u, range, isPair⟩
      · obtain ⟨inAfter, limit⟩ := allocation.grows b inTree
        refine ⟨inAfter, ?_, allocation.keeps_bit inTree old⟩
        rw [slotCount_congr limit]
        exact inBlock
      · rw [Prod.mk.injEq] at isPair
        rw [← isPair.1, ← isPair.2]
        have range := Finset.mem_Ico.mp range
        have inBlock := allocation.inBlock
        refine ⟨allocation.member, by omega, ?_⟩
        exact (allocation.bits block allocation.member u .allocated).mpr
          (Or.inr ⟨rfl, Or.inr ⟨rfl, range⟩⟩)
  have disjoint :
      Disjoint heap.allocatedSlots
        ((Finset.Ico slot (slot + count)).image fun s => (block, s)) := by
    rw [Finset.disjoint_left]
    intro ⟨b, s⟩ isOld isNew
    obtain ⟨inTree, _, isAllocated⟩ := mem_allocatedSlots.mp isOld
    obtain ⟨u, range, isPair⟩ := Finset.mem_image.mp isNew
    rw [Prod.mk.injEq] at isPair
    rw [← isPair.1] at inTree isAllocated
    rw [← isPair.2] at isAllocated
    have range := Finset.mem_Ico.mp range
    rw [allocation.wasFree inTree u range.1 range.2] at isAllocated
    cases isAllocated
  rw [isUnion, Finset.card_union_of_disjoint disjoint, Finset.card_image_of_injective]
  · rw [Nat.card_Ico, Nat.add_sub_cancel_left]
  · intro first second same
    exact (Prod.mk.inj same).2

/-- `allocate` adds an object. -/
theorem Partitioned.allocate {storage blockSize : Nat} (layout : after.Layout afterMem)
    (allocates :
      Allocates heap mem storage blockSize address (roundedSize size) after afterMem) :
    after.Partitioned afterMem (insert (address, size) objects) := by
  have isNew := occupies_new partitioned allocation
  have fresh : ∀ object ∈ objects, object.1 ≠ address := by
    intro object isObject same
    obtain ⟨b, first, number, occupies⟩ := partitioned.held object isObject
    have kept := occupies_of_old allocation occupies
    have inBlock := kept.inBlock
    have newInBlock := isNew.inBlock
    have positive := kept.positive
    have newPositive := isNew.positive
    obtain ⟨sameBlock, sameSlot⟩ :=
      slot_unique layout kept.member isNew.member (by omega) (by omega)
        (kept.place.symm.trans (same.trans isNew.place))
    have wasFree := allocation.wasFree (sameBlock ▸ occupies.member) slot le_rfl (by omega)
    have isAllocated := occupies.head_allocated
    rw [sameBlock, sameSlot, wasFree] at isAllocated
    cases isAllocated
  refine ⟨layout, allocation.clean partitioned.clean, allocates.exact partitioned.exact, ?_, ?_,
    ?_, ?_, ?_⟩
  · intro object isObject
    rcases Set.mem_insert_iff.mp isObject with isAdded | old
    · rw [isAdded]
      exact ⟨block, slot, count, isNew⟩
    · obtain ⟨b, first, number, occupies⟩ := partitioned.held object old
      exact ⟨b, first, number, occupies_of_old allocation occupies⟩
  · intro object isObject other isOther same
    rcases Set.mem_insert_iff.mp isObject with isAdded | old
    · rcases Set.mem_insert_iff.mp isOther with otherAdded | otherOld
      · rw [isAdded, otherAdded]
      · rw [isAdded] at same
        exact absurd same.symm (fresh other otherOld)
    · rcases Set.mem_insert_iff.mp isOther with otherAdded | otherOld
      · rw [otherAdded] at same
        exact absurd same (fresh object old)
      · exact partitioned.single object old other otherOld same
  · intro b inAfter s isAllocated
    rcases (allocation.bits b inAfter s .allocated).mp isAllocated with
      ⟨inTree, old⟩ | ⟨sameBlock, added⟩
    · obtain ⟨object, isObject, first, number, occupies, range⟩ :=
        partitioned.owned b inTree s old
      exact
        ⟨object, Set.mem_insert_of_mem _ isObject, first, number,
         occupies_of_old allocation occupies, range⟩
    · have range : slot ≤ s ∧ s < slot + count := by simpa using added
      rw [sameBlock]
      exact ⟨(address, size), Set.mem_insert _ _, slot, count, isNew, range⟩
  · intro b inAfter s isObject
    rcases (allocation.bits b inAfter s .object).mp isObject with
      ⟨inTree, old⟩ | ⟨sameBlock, added⟩
    · exact allocation.keeps_bit inTree (partitioned.flagged b inTree s old)
    · have isSlot : s = slot := by simpa using added
      rw [sameBlock, isSlot]
      exact isNew.head_allocated
  · rw [allocates.allocatedSize, card_allocatedSlots partitioned allocation, partitioned.size,
      allocation.isSize, Nat.add_mul]

end Allocate

end Heap

/-! ## Every slot has one use -/

def Region.TakesSlot (object : Region) (block slot : Nat) : Prop :=
  Region.HasSlot (object.1, roundedSize object.2) block slot

namespace Heap

/-- The objects of the heap and the chunks of its free list share its slots. -/
structure Divided (heap : Heap) (mem : Memory) (objects : Objects) : Prop where
  held : ∀ object ∈ objects, heap.HoldsObject object
  slots :
    ∃ chunks, heap.FreeChunks mem chunks ∧ chunks.Pairwise Region.Apart ∧
      (∀ chunk ∈ chunks, ∃ block ∈ heap.tree.inorder,
        (block ≤ chunk.1 ∧ chunk.1 + chunk.2 ≤ (heap.blocks block).limit) ∧
          ∃ count, 0 < count ∧ chunk.2 = count * slotSize) ∧
      ∀ block ∈ heap.tree.inorder, ∀ slot, slot < slotCount heap.blocks block →
        ((∃! object, object ∈ objects ∧ object.TakesSlot block slot) ∧
            ∀ chunk ∈ chunks, ¬ chunk.HasSlot block slot) ∨
          ((∃! chunk, chunk ∈ chunks ∧ chunk.HasSlot block slot) ∧
            ∀ object ∈ objects, ¬ object.TakesSlot block slot)
  allocatedSize : heap.allocatedSize = heap.allocatedSlots.card * slotSize

variable {heap : Heap} {mem : Memory} {objects : Objects}

theorem slot_of_hasSlot (layout : heap.Layout mem) {block other slot first count : Nat}
    (member : block ∈ heap.tree.inorder) (otherMember : other ∈ heap.tree.inorder)
    (inBlock : slot < slotCount heap.blocks block)
    (otherInBlock : first + count ≤ slotCount heap.blocks other)
    (hasSlot : Region.HasSlot (other + first * slotSize, count * slotSize) block slot) :
    other = block ∧ first ≤ slot ∧ slot < first + count := by
  have limit := (layout.aligned block member).1
  have otherLimit := (layout.aligned other otherMember).1
  simp only [Region.HasSlot, slotSize] at hasSlot
  simp only [slotSize] at limit otherLimit
  rcases layout.ordered.eq_or_apart member otherMember with same | apart
  · subst same
    exact ⟨rfl, by omega, by omega⟩
  · omega

namespace Partitioned

variable (partitioned : heap.Partitioned mem objects)

include partitioned

theorem takesSlot_iff {object : Region} {block first count : Nat}
    (occupies : heap.Occupies object block first count) {other slot : Nat}
    (member : other ∈ heap.tree.inorder) (inBlock : slot < slotCount heap.blocks other) :
    object.TakesSlot other slot ↔ block = other ∧ first ≤ slot ∧ slot < first + count := by
  rw [Region.TakesSlot, occupies.place, occupies.isSize]
  constructor
  · exact slot_of_hasSlot partitioned.layout member occupies.member inBlock occupies.inBlock
  · intro ⟨same, atLeast, below⟩
    rw [same]
    simp only [Region.HasSlot, slotSize]
    omega

theorem object_of_allocated {block slot : Nat} (member : block ∈ heap.tree.inorder)
    (isAllocated : heap.bit block slot .allocated = true) :
    ∃! object, object ∈ objects ∧ object.TakesSlot block slot := by
  have inBlock := partitioned.allocated_inBlock member isAllocated
  obtain ⟨object, isObject, first, count, occupies, atLeast, below⟩ :=
    partitioned.owned block member slot isAllocated
  refine ⟨object, ⟨isObject, ?_⟩, ?_⟩
  · exact (partitioned.takesSlot_iff occupies member inBlock).mpr ⟨rfl, atLeast, below⟩
  · intro other ⟨isOther, takes⟩
    obtain ⟨otherBlock, otherFirst, otherCount, otherOccupies⟩ := partitioned.held other isOther
    obtain ⟨same, otherRange⟩ :=
      (partitioned.takesSlot_iff otherOccupies member inBlock).mp takes
    subst same
    exact
      partitioned.object_unique isOther isObject otherOccupies occupies otherRange
        ⟨atLeast, below⟩

theorem allocated_of_takesSlot {object : Region} {block slot : Nat} (isObject : object ∈ objects)
    (member : block ∈ heap.tree.inorder) (inBlock : slot < slotCount heap.blocks block)
    (takes : object.TakesSlot block slot) : heap.bit block slot .allocated = true := by
  obtain ⟨other, first, count, occupies⟩ := partitioned.held object isObject
  obtain ⟨same, atLeast, below⟩ := (partitioned.takesSlot_iff occupies member inBlock).mp takes
  subst same
  exact occupies.allocated slot atLeast below

theorem free_of_hasSlot {chunks : List Region} (free : heap.FreeChunks mem chunks)
    {chunk : Region} {block slot : Nat} (isChunk : chunk ∈ chunks)
    (member : block ∈ heap.tree.inorder) (inBlock : slot < slotCount heap.blocks block)
    (hasSlot : chunk.HasSlot block slot) : heap.bit block slot .allocated = false := by
  obtain ⟨other, first, last, otherMember, isRegion, nonempty, otherInBlock, isFree⟩ :=
    free.run chunk isChunk
  rw [isRegion] at hasSlot
  obtain ⟨same, atLeast, below⟩ :=
    slot_of_hasSlot partitioned.layout member otherMember inBlock (by omega) hasSlot
  subst same
  exact isFree slot atLeast (by omega)

omit partitioned in
theorem chunk_of_free {chunks : List Region} (free : heap.FreeChunks mem chunks)
    (covering : heap.Covering chunks) {block slot : Nat} (member : block ∈ heap.tree.inorder)
    (inBlock : slot < slotCount heap.blocks block)
    (isFree : heap.bit block slot .allocated = false) :
    ∃! chunk, chunk ∈ chunks ∧ chunk.HasSlot block slot := by
  obtain ⟨chunk, isChunk, hasSlot⟩ := covering block member slot inBlock isFree
  refine ⟨chunk, ⟨isChunk, hasSlot⟩, ?_⟩
  intro other ⟨isOther, otherHasSlot⟩
  by_contra different
  have symmetric : Std.Symm Region.Apart := ⟨fun _ _ => Region.Apart.symm⟩
  have apart := free.apart.forall isOther isChunk different
  simp only [Region.HasSlot, slotSize] at hasSlot otherHasSlot
  simp only [Region.Apart] at apart
  omega

theorem divided : heap.Divided mem objects := by
  obtain ⟨chunks, free, covering⟩ := partitioned.exact
  refine ⟨?_, ⟨chunks, free, free.apart, ?_, ?_⟩, partitioned.size⟩
  · intro object isObject
    obtain ⟨block, slot, count, occupies⟩ := partitioned.held object isObject
    exact occupies.holdsObject
  · intro chunk isChunk
    obtain ⟨block, member, inside⟩ := (free.run chunk isChunk).inside partitioned.layout.aligned
    exact ⟨block, member, inside, (free.run chunk isChunk).size_pos⟩
  · intro block member slot inBlock
    cases isAllocated : heap.bit block slot .allocated with
    | true =>
        refine Or.inl ⟨partitioned.object_of_allocated member isAllocated, ?_⟩
        intro chunk isChunk hasSlot
        rw [partitioned.free_of_hasSlot free isChunk member inBlock hasSlot] at isAllocated
        cases isAllocated
    | false =>
        refine Or.inr ⟨chunk_of_free free covering member inBlock isAllocated, ?_⟩
        intro object isObject takes
        rw [partitioned.allocated_of_takesSlot isObject member inBlock takes] at isAllocated
        cases isAllocated

end Partitioned

end Heap

end Rcgo.Storage
