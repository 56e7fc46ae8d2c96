import Rcgo.Storage.Layout

/-!
# The history of a heap

A heap is built by allocations and by stores into its objects.
-/

namespace Rcgo.Storage

open Rcgo.Foundation

/-- The size that `allocate` takes from the free list. -/
def roundedSize (size : Nat) : Nat :=
  alignUp size slotSize

theorem roundedSize_eq (size : Nat) :
    ∃ count, roundedSize size = count * slotSize ∧ size ≤ roundedSize size ∧
      (0 < size → 0 < count) := by
  refine ⟨(size + (slotSize - 1)) / slotSize, rfl, ?_, ?_⟩
  · simp only [roundedSize, alignUp, slotSize]
    omega
  · simp only [slotSize]
    omega

theorem alignUp_mul (count : Nat) : alignUp (count * slotSize) slotSize = count * slotSize := by
  simp only [alignUp, slotSize]
  omega

namespace Heap

/-- What `operator new` guarantees of the storage for a block. -/
structure Fresh (heap : Heap) (storage size : Nat) : Prop where
  positive : 0 < storage
  aligned : slotSize ∣ storage
  apart :
    ∀ block ∈ heap.tree.inorder,
      (heap.blocks block).limit ≤ storage ∨ storage + size ≤ block

theorem newBlockSize_eq
    {heap : Heap} {mem : Memory} (layout : heap.Layout mem) (count : Nat) :
    ∃ slots, heap.newBlockSize (count * slotSize) = slots * slotSize ∧ count ≤ slots := by
  obtain ⟨slots, isSlots⟩ := layout.blockSize
  rw [newBlockSize, isSlots]
  by_cases larger : count * slotSize > slots * slotSize
  · rw [if_pos larger]
    exact ⟨count, rfl, le_rfl⟩
  · rw [if_neg larger]
    refine ⟨slots, rfl, ?_⟩
    simp only [slotSize] at larger
    omega

section MakeBlock

variable {heap : Heap} {mem : Memory} {storage slots : Nat} {chunks : List Region}
  (fresh : heap.Fresh storage (slots * slotSize)) (positive : 0 < slots)
  (layout : heap.Layout mem)

include fresh positive layout in
private theorem ne_storage {block : Nat} (inTree : block ∈ heap.tree.inorder) :
    block ≠ storage := by
  have nonempty := layout.ordered.nonempty block inTree
  have apart := fresh.apart block inTree
  simp only [slotSize] at apart
  omega

private def withBlock (blocks : Blocks) (storage slots : Nat) : Blocks :=
  Function.update blocks storage ⟨storage + slots * slotSize, false, BitArray.empty⟩

private theorem withBlock_same (blocks : Blocks) :
    withBlock blocks storage slots storage =
      ⟨storage + slots * slotSize, false, BitArray.empty⟩ :=
  Function.update_self _ _ _

private theorem withBlock_other (blocks : Blocks) {block : Nat} (different : block ≠ storage) :
    withBlock blocks storage slots block = blocks block :=
  Function.update_of_ne different _ _

include fresh positive layout

private theorem ordered_withBlock :
    BlockTree.Ordered (withBlock heap.blocks storage slots)
      (heap.tree.insert storage).inorder := by
  apply BlockTree.Ordered.insert
  · apply layout.ordered.congr
    intro a inTree
    rw [withBlock_other heap.blocks (ne_storage fresh positive layout inTree)]
  · rw [withBlock_same]
    simp only [slotSize]
    omega
  · intro a inTree
    rw [withBlock_same, withBlock_other heap.blocks (ne_storage fresh positive layout inTree)]
    exact fresh.apart a inTree

private theorem aligned_withBlock :
    Aligned (heap.tree.insert storage) (withBlock heap.blocks storage slots) := by
  intro block inTree
  rcases BlockTree.mem_inorder_insert.mp inTree with isNew | old
  · subst isNew
    have limit :
        (withBlock heap.blocks block slots block).limit = block + slots * slotSize := by
      rw [withBlock_same]
    rw [limit_eq_of_count limit]
    exact ⟨limit, fresh.positive, Nat.dvd_trans (by decide) fresh.aligned⟩
  · rw [slotCount, withBlock_other heap.blocks (ne_storage fresh positive layout old)]
    exact layout.aligned block old

private theorem freeChunks_withBlock {head : Nat} {other : Memory}
    (free : heap.FreeChunks mem chunks)
    (segment : FreeSegment other head (chunks ++ [(storage, slots * slotSize)]) 0)
    (size : Nat) :
    FreeChunks
      { heap with
        tree := heap.tree.insert storage
        blocks := withBlock heap.blocks storage slots
        freeListHead := head
        nextBlockSize := size } other (chunks ++ [(storage, slots * slotSize)]) := by
  refine ⟨segment, ?_, ?_⟩
  · intro region member
    rcases List.mem_append.mp member with inList | isNew
    · apply (free.run region inList).congr
      · intro block inTree
        refine ⟨BlockTree.mem_inorder_insert.mpr (Or.inr inTree), ?_⟩
        apply slotCount_congr
        simp only [withBlock_other heap.blocks (ne_storage fresh positive layout inTree)]
      · intro block inTree slot _ _ isFree
        simp only [withBlock_other heap.blocks (ne_storage fresh positive layout inTree)]
        exact isFree
    · rw [List.mem_singleton.mp isNew]
      refine ⟨storage, 0, slots, BlockTree.mem_inorder_insert.mpr (Or.inl rfl), by simp,
        positive, ?_, ?_⟩
      · apply le_of_eq
        apply Eq.symm
        apply limit_eq_of_count
        simp only [withBlock_same]
      · intro slot _ _
        simp only [withBlock_same, BitArray.has_empty]
  · refine List.pairwise_append.mpr ⟨free.apart, List.pairwise_singleton _ _, ?_⟩
    intro region member new isNew
    rw [List.mem_singleton.mp isNew]
    obtain ⟨block, inTree, above, below⟩ := (free.run region member).inside layout.aligned
    have apart := fresh.apart block inTree
    simp only [Region.Apart]
    omega

end MakeBlock

/-- The allocation from a new block is one of the heap without it. -/
private theorem allocation_of_withBlock
    {heap middle after : Heap} {mem middleMem afterMem : Memory}
    {storage slots address size block slot count : Nat}
    (fresh : heap.Fresh storage (slots * slotSize)) (positive : 0 < slots)
    (layout : heap.Layout mem)
    (allocation : Allocation middle middleMem address size after afterMem block slot count)
    (isTree : middle.tree = heap.tree.insert storage)
    (isBlocks : middle.blocks = withBlock heap.blocks storage slots)
    (isRoot : middle.rootBegin = heap.rootBegin ∧ middle.rootEnd = heap.rootEnd)
    (unchanged :
      ∀ b ∈ heap.tree.inorder, ∀ s, s < slotCount heap.blocks b →
        heap.bit b s .allocated = true → ∀ a, InSlot b s a → middleMem a = mem a) :
    Allocation heap mem address size after afterMem block slot count := by
  have sameBlock : ∀ b ∈ heap.tree.inorder, middle.blocks b = heap.blocks b := by
    intro b inTree
    rw [isBlocks, withBlock_other heap.blocks (ne_storage fresh positive layout inTree)]
  have inMiddle : ∀ b, b ∈ middle.tree.inorder ↔ b = storage ∨ b ∈ heap.tree.inorder := by
    intro b
    rw [isTree]
    exact BlockTree.mem_inorder_insert
  have newEmpty : middle.blocks storage = ⟨storage + slots * slotSize, false, BitArray.empty⟩ := by
    rw [isBlocks, withBlock_same]
  refine ⟨allocation.place, allocation.positive, allocation.isSize, allocation.member,
    allocation.inBlock, ?_, ?_, ?_, ?_, ?_, ?_⟩
  · intro inTree s atLeast below
    have wasFree := allocation.wasFree ((inMiddle block).mpr (Or.inr inTree)) s atLeast below
    rw [bit, sameBlock block inTree] at wasFree
    exact wasFree
  · intro b inAfter s flag
    rw [allocation.bits b inAfter s flag, inMiddle]
    apply or_congr_left
    constructor
    · intro old
      rcases old.1 with isNew | inTree
      · have hasBit := old.2
        rw [bit, isNew, newEmpty, BitArray.has_empty] at hasBit
        cases hasBit
      · refine ⟨inTree, ?_⟩
        rw [bit, ← sameBlock b inTree]
        exact old.2
    · intro old
      refine ⟨Or.inr old.1, ?_⟩
      rw [bit, sameBlock b old.1]
      exact old.2
  · intro b inAfter isMarked
    obtain ⟨member, marked⟩ := allocation.marked b inAfter isMarked
    rcases (inMiddle b).mp member with isNew | inTree
    · rw [isNew, newEmpty] at marked
      cases marked
    · rw [sameBlock b inTree] at marked
      exact ⟨inTree, marked⟩
  · intro b inTree
    obtain ⟨inAfter, limit⟩ := allocation.grows b ((inMiddle b).mpr (Or.inr inTree))
    rw [sameBlock b inTree] at limit
    exact ⟨inAfter, limit⟩
  · intro b inTree s inBlock isAllocated a inside
    have sameMiddle := sameBlock b inTree
    rw [allocation.memory b ((inMiddle b).mpr (Or.inr inTree)) s ?_ ?_ a inside]
    · exact unchanged b inTree s inBlock isAllocated a inside
    · rw [slotCount, sameMiddle]
      exact inBlock
    · rw [bit, sameMiddle]
      exact isAllocated
  · rw [allocation.root.1, allocation.root.2]
    exact isRoot

/-- The free list has exactly the unallocated slots. -/
def Exact (heap : Heap) (mem : Memory) : Prop :=
  ∃ chunks, heap.FreeChunks mem chunks ∧ heap.Covering chunks

/-- What else `allocate` does, when a new block would be at this storage. -/
structure Allocates (heap : Heap) (mem : Memory) (storage blockSize address size : Nat)
    (after : Heap) (afterMem : Memory) : Prop where
  allocatedSize : after.allocatedSize = heap.allocatedSize + size
  zeroed : ∀ a, address ≤ a → a < address + size → afterMem a = 0
  frame :
    ∀ a, (∀ block ∈ heap.tree.inorder, a < block ∨ (heap.blocks block).limit ≤ a) →
      (a < storage ∨ storage + blockSize ≤ a) → afterMem a = mem a
  blocks :
    ∀ block ∈ after.tree.inorder,
      block ∈ heap.tree.inorder ∨
        (block = storage ∧ (after.blocks block).limit = storage + blockSize)
  exact : heap.Exact mem → after.Exact afterMem

section TakeNewBlock

variable {heap : Heap} {mem linkedMem : Memory} {storage slots head : Nat} {chunks : List Region}

/-- The memory after the header of the new block has been written. -/
private def headerWritten (mem : Memory) (storage size : Nat) : Memory :=
  Function.update (Function.update mem (storage + wordSize) size) storage 0

private theorem headerWritten_outside {size a : Nat}
    (outside : a < storage ∨ storage + slotSize ≤ a) :
    headerWritten mem storage size a = mem a := by
  simp only [slotSize] at outside
  rw [headerWritten, Function.update_of_ne (by omega),
    Function.update_of_ne (by simp only [wordSize]; omega)]

private theorem makeBlock_outside {a : Nat} (outside : a < storage ∨ storage + slots * slotSize ≤ a) :
    (heap.makeBlock mem storage (slots * slotSize)).2 a = mem a := by
  simp only [makeBlock, clearMemory, alignUp_mul]
  rw [if_neg (by omega)]

private theorem chunk_outside (fresh : heap.Fresh storage (slots * slotSize))
    (layout : heap.Layout mem) (free : heap.FreeChunks mem chunks) :
    ∀ region ∈ chunks, slotSize ≤ region.2 ∧
      Region.Apart region (storage, slots * slotSize) := by
  intro region member
  obtain ⟨block, inTree, above, below⟩ := (free.run region member).inside layout.aligned
  obtain ⟨regionSlots, regionPositive, isRegion⟩ := (free.run region member).size_pos
  have apart := fresh.apart block inTree
  refine ⟨?_, by simp only [Region.Apart]; omega⟩
  rw [isRegion]
  simp only [slotSize]
  omega

private theorem segment_makeBlock
    (outside : ∀ region ∈ chunks, slotSize ≤ region.2 ∧
      Region.Apart region (storage, slots * slotSize))
    (segment : FreeSegment mem heap.freeListHead chunks 0) :
    FreeSegment (heap.makeBlock mem storage (slots * slotSize)).2
      (heap.makeBlock mem storage (slots * slotSize)).1.freeListHead chunks 0 := by
  apply segment.congr
  intro region member
  have apart := outside region member
  simp only [Region.Apart, slotSize] at apart
  constructor
  · apply makeBlock_outside
    simp only [slotSize]
    omega
  · apply makeBlock_outside
    simp only [slotSize, wordSize]
    omega

private theorem segment_headerWritten (fresh : heap.Fresh storage (slots * slotSize))
    (positive : 0 < slots)
    (outside : ∀ region ∈ chunks, slotSize ≤ region.2 ∧
      Region.Apart region (storage, slots * slotSize))
    (segment : FreeSegment linkedMem head chunks storage) :
    FreeSegment (headerWritten linkedMem storage (slots * slotSize)) head
      (chunks ++ [(storage, slots * slotSize)]) 0 := by
  refine FreeSegment.append_iff.mpr ⟨storage, ?_, rfl, Nat.ne_of_gt fresh.positive, ?_, ?_⟩
  · apply segment.congr
    intro region member
    have apart := outside region member
    simp only [Region.Apart, slotSize] at apart
    constructor
    · apply headerWritten_outside
      simp only [slotSize]
      omega
    · apply headerWritten_outside
      simp only [slotSize, wordSize]
      omega
  · rw [headerWritten, Function.update_of_ne (by simp only [wordSize]; omega),
      Function.update_self]
  · rw [headerWritten, Function.update_self]
    rfl

private theorem headerWritten_unchanged (positive : 0 < slots)
    (unchanged : ∀ a, (∀ region ∈ chunks, a ≠ region.1) →
      linkedMem a = (heap.makeBlock mem storage (slots * slotSize)).2 a) {a : Nat}
    (notHeader : ∀ region ∈ chunks, a ≠ region.1)
    (notStorage : a < storage ∨ storage + slots * slotSize ≤ a) :
    headerWritten linkedMem storage (slots * slotSize) a = mem a := by
  have large : slotSize ≤ slots * slotSize := Nat.le_mul_of_pos_left slotSize positive
  rw [headerWritten_outside (by omega), unchanged a notHeader, makeBlock_outside notStorage]

private theorem headerWritten_slot (fresh : heap.Fresh storage (slots * slotSize))
    (positive : 0 < slots) (layout : heap.Layout mem) (free : heap.FreeChunks mem chunks)
    (unchanged : ∀ a, (∀ region ∈ chunks, a ≠ region.1) →
      linkedMem a = (heap.makeBlock mem storage (slots * slotSize)).2 a) :
    ∀ b ∈ heap.tree.inorder, ∀ s, s < slotCount heap.blocks b →
      heap.bit b s .allocated = true → ∀ a, InSlot b s a →
        headerWritten linkedMem storage (slots * slotSize) a = mem a := by
  intro b inTree s inBlock isAllocated a inside
  have limit := (layout.aligned b inTree).1
  have apart := fresh.apart b inTree
  simp only [InSlot, slotSize] at inside
  simp only [slotSize] at limit apart
  apply headerWritten_unchanged positive unchanged
  · intro region member
    have slotApart :=
      (free.run region member).apart_slot layout.ordered layout.aligned inTree inBlock
        isAllocated
    have large := (chunk_outside fresh layout free region member).1
    simp only [Region.Apart, slotSize] at slotApart large
    omega
  · simp only [slotSize]
    omega

private theorem notOwned_withBlock (fresh : heap.Fresh storage (slots * slotSize))
    (positive : 0 < slots) (layout : heap.Layout mem) {a : Nat}
    (notOwned : ∀ block ∈ heap.tree.inorder, a < block ∨ (heap.blocks block).limit ≤ a)
    (notStorage : a < storage ∨ storage + slots * slotSize ≤ a) :
    ∀ b ∈ (heap.tree.insert storage).inorder,
      a < b ∨ (withBlock heap.blocks storage slots b).limit ≤ a := by
  intro b inMiddle
  rcases BlockTree.mem_inorder_insert.mp inMiddle with isNew | inTree
  · rw [isNew, withBlock_same]
    exact notStorage
  · rw [withBlock_other heap.blocks (ne_storage fresh positive layout inTree)]
    exact notOwned b inTree

private theorem ne_header (fresh : heap.Fresh storage (slots * slotSize))
    (layout : heap.Layout mem) (free : heap.FreeChunks mem chunks) {a : Nat}
    (notOwned : ∀ block ∈ heap.tree.inorder, a < block ∨ (heap.blocks block).limit ≤ a) :
    ∀ region ∈ chunks, a ≠ region.1 := by
  intro region member
  obtain ⟨b, inTree, above, below⟩ := (free.run region member).inside layout.aligned
  have large := (chunk_outside fresh layout free region member).1
  have apart := notOwned b inTree
  simp only [slotSize] at large
  omega

private theorem covering_withBlock (fresh : heap.Fresh storage (slots * slotSize))
    (positive : 0 < slots) (layout : heap.Layout mem) (covering : heap.Covering chunks)
    (size : Nat) :
    Covering
      { heap with
        tree := heap.tree.insert storage
        blocks := withBlock heap.blocks storage slots
        freeListHead := head
        nextBlockSize := size } (chunks ++ [(storage, slots * slotSize)]) := by
  intro b inMiddle s inBlock isFree
  rcases BlockTree.mem_inorder_insert.mp inMiddle with isNew | inTree
  · refine ⟨_, List.mem_append_right _ List.mem_cons_self, ?_⟩
    have isLimit : (withBlock heap.blocks storage slots b).limit = b + slots * slotSize := by
      rw [isNew, withBlock_same]
    rw [limit_eq_of_count isLimit] at inBlock
    simp only [Region.HasSlot, isNew, slotSize]
    omega
  · have sameBlock : withBlock heap.blocks storage slots b = heap.blocks b :=
      withBlock_other heap.blocks (ne_storage fresh positive layout inTree)
    simp only [bit, slotCount, sameBlock] at inBlock isFree
    obtain ⟨region, member, hasSlot⟩ := covering b inTree s inBlock isFree
    exact ⟨region, List.mem_append_left _ member, hasSlot⟩

private theorem find_withBlock (fresh : heap.Fresh storage (slots * slotSize))
    (positive : 0 < slots) (layout : heap.Layout mem) :
    (heap.tree.insert storage).find (withBlock heap.blocks storage slots) storage =
      some storage := by
  rw [BlockTree.find_eq_some_iff (ordered_withBlock fresh positive layout)]
  refine ⟨BlockTree.mem_inorder_insert.mpr (Or.inl rfl), le_rfl, ?_⟩
  rw [withBlock_same]
  simp only [slotSize]
  omega

private theorem blocks_withBlock {after : Heap}
    (isTree : after.tree = heap.tree.insert storage)
    (limits : ∀ b, (after.blocks b).limit = (withBlock heap.blocks storage slots b).limit) :
    ∀ block ∈ after.tree.inorder,
      block ∈ heap.tree.inorder ∨
        (block = storage ∧ (after.blocks block).limit = storage + slots * slotSize) := by
  intro b inAfter
  rw [isTree] at inAfter
  rcases BlockTree.mem_inorder_insert.mp inAfter with isNew | old
  · right
    rw [limits, isNew, withBlock_same]
    exact ⟨rfl, rfl⟩
  · exact Or.inl old

/-- The part of `allocate` behind the search, when no chunk is large enough. -/
private theorem takeNewBlock_spec (layout : heap.Layout mem) (free : heap.FreeChunks mem chunks)
    {count : Nat} (positive : 0 < count)
    (fresh : heap.Fresh storage (heap.newBlockSize (count * slotSize))) :
    ∃ address after afterMem block slot,
      (let blockSize := heap.newBlockSize (count * slotSize)
       let (heap, mem) := heap.makeBlock mem storage blockSize
       let (heap, mem) := heap.setLink mem storage (linkBehind chunks)
       let mem := Function.update mem (storage + wordSize) blockSize
       let mem := Function.update mem storage 0
       takeChunk { heap with nextBlockSize := blockSize * 2 } mem (linkBehind chunks) storage
        (count * slotSize) (some storage)) = .ok (address, after, afterMem) ∧
        after.Layout afterMem ∧
        Allocation heap mem address (count * slotSize) after afterMem block slot count ∧
        Allocates heap mem storage (heap.newBlockSize (count * slotSize)) address
          (count * slotSize) after afterMem := by
  obtain ⟨slots, isSize, enough⟩ := newBlockSize_eq layout count
  rw [isSize] at fresh ⊢
  have slotsPositive : 0 < slots := by omega
  have outside := chunk_outside fresh layout free
  -- the block is linked behind the last chunk
  obtain ⟨head, linkedMem, link, segment, unchanged⟩ :=
    setLink_spec storage (segment_makeBlock outside free.segment) free.apart
      (fun region member => (outside region member).1)
  have freeMiddle :=
    freeChunks_withBlock fresh slotsPositive layout free
      (segment_headerWritten fresh slotsPositive outside segment) (slots * slotSize * 2)
  obtain ⟨after, afterMem, block, slot, run, layoutAfter, allocation, taking⟩ :=
    takeChunk_exact (some storage) (ordered_withBlock fresh slotsPositive layout)
      (aligned_withBlock fresh slotsPositive layout)
      ⟨slots * 2, by simp only [slotSize]; omega⟩ freeMiddle positive
      (Nat.mul_le_mul_right slotSize enough)
      (Or.inr (find_withBlock fresh slotsPositive layout).symm)
  refine ⟨storage, after, afterMem, block, slot, ?_, layoutAfter,
    allocation_of_withBlock fresh slotsPositive layout allocation rfl rfl ⟨rfl, rfl⟩
      (headerWritten_slot fresh slotsPositive layout free unchanged),
    taking.allocatedSize, taking.zeroed, ?_, blocks_withBlock taking.tree taking.limit, ?_⟩
  · simp only [link]
    rw [← run]
    simp only [makeBlock, alignUp_mul, withBlock, headerWritten]
  · intro a notOwned notStorage
    rw [taking.frame a
      (notOwned_withBlock fresh slotsPositive layout notOwned notStorage)]
    exact headerWritten_unchanged slotsPositive unchanged
      (ne_header fresh layout free notOwned) notStorage
  · rintro ⟨others, otherFree, covering⟩
    have same : others = chunks := FreeSegment.unique otherFree.segment free.segment
    subst same
    exact taking.covering (covering_withBlock fresh slotsPositive layout covering _)

end TakeNewBlock

/-- `allocate` returns an object from unallocated slots and keeps the layout. -/
theorem allocate_exact
    {heap : Heap} {mem : Memory} (layout : heap.Layout mem) {storage size : Nat}
    (positive : 0 < size)
    (fresh : heap.Fresh storage (heap.newBlockSize (roundedSize size))) :
    ∃ address after afterMem block slot count,
      Outcome.Returns (fun depth => allocate depth storage size heap mem)
          (address, after, afterMem) ∧
        after.Layout afterMem ∧
        Allocation heap mem address (roundedSize size) after afterMem block slot count ∧
        Allocates heap mem storage (heap.newBlockSize (roundedSize size)) address
          (roundedSize size) after afterMem := by
  obtain ⟨count, isRounded, _, countPositive⟩ := roundedSize_eq size
  have countPositive := countPositive positive
  have isAligned : alignUp size slotSize = count * slotSize := isRounded
  obtain ⟨chunks, free⟩ := layout.free
  obtain ⟨skipped, rest, found, whole, search, result⟩ :=
    findChunk_spec (count * slotSize) [] free.segment
  have search :
      ∀ depth, chunks.length < depth →
        findChunk mem (count * slotSize) depth none heap.freeListHead =
          .ok (linkBehind skipped, found) := search
  rw [isRounded] at fresh ⊢
  rcases result with ⟨isEnd, isNull⟩ | ⟨csize, tail, isRest, large, notNull⟩
  · rw [isEnd, List.append_nil] at whole
    subst whole
    obtain ⟨address, after, afterMem, block, slot, run, spec⟩ :=
      takeNewBlock_spec layout free countPositive fresh
    refine ⟨address, after, afterMem, block, slot, count, ⟨chunks.length + 1, ?_⟩, spec⟩
    intro depth enough
    simp only [allocate, if_neg (Nat.ne_of_gt positive), isAligned, search depth enough,
      Outcome.ok_bind, isNull, if_true]
    exact run
  · rw [isRest] at whole
    subst whole
    obtain ⟨after, afterMem, block, slot, run, layoutAfter, allocation, taking⟩ :=
      takeChunk_exact none layout.ordered layout.aligned layout.blockSize free countPositive large
        (Or.inl rfl)
    refine ⟨found, after, afterMem, block, slot, count,
      ⟨(skipped ++ (found, csize) :: tail).length + 1, ?_⟩, layoutAfter, allocation,
      taking.allocatedSize, taking.zeroed, fun a notOwned _ => taking.frame a notOwned, ?_, ?_⟩
    · intro depth enough
      simp only [allocate, if_neg (Nat.ne_of_gt positive), isAligned, search depth enough,
        Outcome.ok_bind, if_neg notNull]
      exact run
    · intro b inAfter
      rw [taking.tree] at inAfter
      exact Or.inl inAfter
    · intro ⟨others, otherFree, covering⟩
      have same : others = _ := FreeSegment.unique otherFree.segment free.segment
      exact taking.covering (same ▸ covering)

theorem allocate_spec
    {heap : Heap} {mem : Memory} (layout : heap.Layout mem) {storage size : Nat}
    (positive : 0 < size)
    (fresh : heap.Fresh storage (heap.newBlockSize (roundedSize size))) :
    ∃ address after afterMem block slot count,
      Outcome.Returns (fun depth => allocate depth storage size heap mem)
          (address, after, afterMem) ∧
        after.Layout afterMem ∧
        Allocation heap mem address (roundedSize size) after afterMem block slot count := by
  obtain ⟨address, after, afterMem, block, slot, count, returns, layoutAfter, allocation, _⟩ :=
    allocate_exact layout positive fresh
  exact ⟨address, after, afterMem, block, slot, count, returns, layoutAfter, allocation⟩

/-! ## What allocations keep -/

def Clean (heap : Heap) : Prop :=
  ∀ block ∈ heap.tree.inorder, (heap.blocks block).marked = false ∧
    ∀ slot, heap.bit block slot .mark = false ∧ heap.bit block slot .scanned = false

/-- Every allocated slot lies behind the first slot of an object. -/
def Headed (heap : Heap) : Prop :=
  ∀ block ∈ heap.tree.inorder, ∀ slot, heap.bit block slot .allocated = true →
    ∃ first ≤ slot, heap.bit block first .object = true

/-- The slots of the object are allocated and the first one carries `OBJECT`. -/
def HoldsObject (heap : Heap) (object : Region) : Prop :=
  ∃ block slot count,
    block ∈ heap.tree.inorder ∧ object.1 = block + slot * slotSize ∧
      roundedSize object.2 = count * slotSize ∧ 0 < count ∧
      slot + count ≤ slotCount heap.blocks block ∧
      heap.bit block slot .object = true ∧
      ∀ s, slot ≤ s → s < slot + count → heap.bit block s .allocated = true

end Heap

namespace Allocation

variable {heap after : Heap} {mem afterMem : Memory} {address size block slot count : Nat}
  (allocation : Allocation heap mem address size after afterMem block slot count)

include allocation

theorem keeps_bit {b s : Nat} {flag : Flag} (inTree : b ∈ heap.tree.inorder)
    (has : heap.bit b s flag = true) : after.bit b s flag = true :=
  (allocation.bits b (allocation.grows b inTree).1 s flag).mpr (Or.inl ⟨inTree, has⟩)

theorem clean (clean : heap.Clean) : after.Clean := by
  intro b inAfter
  have noMark : ∀ s flag, flag = .mark ∨ flag = .scanned → after.bit b s flag = false := by
    intro s flag isMark
    rw [Bool.eq_false_iff]
    intro has
    rcases (allocation.bits b inAfter s flag).mp has with ⟨inTree, old⟩ | ⟨_, new⟩
    · have isClean := (clean b inTree).2 s
      rcases isMark with isMark | isMark
      · rw [isMark, isClean.1] at old
        cases old
      · rw [isMark, isClean.2] at old
        cases old
    · grind
  refine ⟨?_, fun s => ⟨noMark s _ (Or.inl rfl), noMark s _ (Or.inr rfl)⟩⟩
  rw [Bool.eq_false_iff]
  intro isMarked
  obtain ⟨inTree, marked⟩ := allocation.marked b inAfter isMarked
  rw [(clean b inTree).1] at marked
  cases marked

theorem headed (headed : heap.Headed) : after.Headed := by
  intro b inAfter s isAllocated
  rcases (allocation.bits b inAfter s .allocated).mp isAllocated with ⟨inTree, old⟩ | ⟨same, new⟩
  · obtain ⟨first, before, isObject⟩ := headed b inTree s old
    exact ⟨first, before, allocation.keeps_bit inTree isObject⟩
  · refine ⟨slot, by simp at new; omega, ?_⟩
    exact (allocation.bits b inAfter slot .object).mpr (Or.inr ⟨same, Or.inl ⟨rfl, rfl⟩⟩)

theorem holdsObject {object : Region} (holds : heap.HoldsObject object) :
    after.HoldsObject object := by
  obtain ⟨b, first, number, inTree, place, isSize, positive, inBlock, isObject, isAllocated⟩ :=
    holds
  obtain ⟨inAfter, limit⟩ := allocation.grows b inTree
  refine ⟨b, first, number, inAfter, place, isSize, positive, ?_,
    allocation.keeps_bit inTree isObject, ?_⟩
  · rw [slotCount_congr limit]
    exact inBlock
  · intro s atLeast below
    exact allocation.keeps_bit inTree (isAllocated s atLeast below)

theorem holdsNew {requested : Nat} (rounded : roundedSize requested = size) :
    after.HoldsObject (address, requested) := by
  have bits := allocation.bits block allocation.member
  refine ⟨block, slot, count, allocation.member, allocation.place,
    rounded.trans allocation.isSize, allocation.positive, allocation.inBlock, ?_, ?_⟩
  · exact (bits slot .object).mpr (Or.inr ⟨rfl, Or.inl ⟨rfl, rfl⟩⟩)
  · intro s atLeast below
    exact (bits s .allocated).mpr (Or.inr ⟨rfl, Or.inr ⟨rfl, atLeast, below⟩⟩)

theorem apart (layout : after.Layout afterMem) {object : Region}
    (holds : heap.HoldsObject object) : Region.Apart (address, size) object := by
  obtain ⟨b, first, number, inTree, place, isSize, positive, inBlock, _, isAllocated⟩ := holds
  obtain ⟨inAfter, limit⟩ := allocation.grows b inTree
  obtain ⟨_, _, enough, _⟩ := roundedSize_eq object.2
  have objectEnd : object.2 ≤ number * slotSize := isSize ▸ enough
  have bLimit := (layout.aligned b inAfter).1
  rw [slotCount_congr limit] at bLimit
  have newLimit := (layout.aligned block allocation.member).1
  have newInBlock := allocation.inBlock
  simp only [Region.Apart, allocation.place, allocation.isSize, place]
  rcases layout.ordered.eq_or_apart allocation.member inAfter with same | blocksApart
  · subst same
    have disjoint : slot + count ≤ first ∨ first + number ≤ slot := by
      by_contra overlap
      have inNew := allocation.wasFree inTree (max slot first) (by omega)
        (by have := allocation.positive; omega)
      rw [isAllocated (max slot first) (by omega)
        (by have := allocation.positive; omega)] at inNew
      cases inNew
    simp only [slotSize] at *
    omega
  · simp only [slotSize] at *
    omega

end Allocation

/-! ## Histories -/

/-- What a program does with a heap between two collections, with the objects
that it allocates.  An allocation of size 0 returns `NULL` and has no effect. -/
inductive Uses (start : Heap) (startMem : Memory) : List Region → Heap → Memory → Prop
  | start : Uses start startMem [] start startMem
  | allocate {objects heap mem storage size address after afterMem} :
      Uses start startMem objects heap mem →
      0 < size →
      heap.Fresh storage (heap.newBlockSize (roundedSize size)) →
      Outcome.Returns (fun depth => Heap.allocate depth storage size heap mem)
          (address, after, afterMem) →
        Uses start startMem ((address, size) :: objects) after afterMem
  /-- stores of any words, except into slots that are not allocated -/
  | store {objects heap mem other} :
      Uses start startMem objects heap mem →
      (∀ block ∈ heap.tree.inorder, ∀ slot, slot < slotCount heap.blocks block →
        heap.bit block slot .allocated = false →
          ∀ a, InSlot block slot a → other a = mem a) →
        Uses start startMem objects heap other
  /-- `insert_child` -/
  | insertChild {objects heap mem} :
      Uses start startMem objects heap mem →
        Uses start startMem objects { heap with nextCollectionSize := 0 } mem

/-- The heaps that the constructors and the allocations build, with their
objects. -/
inductive Built : List Region → Heap → Memory → Prop
  | external {rootBegin size mem objects heap afterMem} :
      Uses (Heap.external rootBegin size) mem objects heap afterMem →
        Built objects heap afterMem
  | internal {storage size mem root rootMem objects heap afterMem} :
      0 < size →
      (Heap.external 0 0).Fresh storage (roundedSize size) →
      Outcome.Returns (fun depth => Heap.internal depth storage size mem) (root, rootMem) →
      Uses root rootMem objects heap afterMem →
        Built (objects ++ [(root.rootBegin, size)]) heap afterMem

/-- What a history keeps of the heap at its start. -/
theorem Uses.spec
    {start heap : Heap} {startMem mem : Memory} {objects : List Region}
    (uses : Uses start startMem objects heap mem) (layout : start.Layout startMem) :
    heap.Layout mem ∧ (start.Clean → heap.Clean) ∧ (start.Headed → heap.Headed) ∧
      (∀ object ∈ objects, heap.HoldsObject object) ∧
      ∀ object, start.HoldsObject object →
        heap.HoldsObject object ∧ ∀ new ∈ objects, Region.Apart new object := by
  induction uses with
  | start =>
      refine ⟨layout, id, id, ?_, ?_⟩
      · intro object member
        exact absurd member List.not_mem_nil
      · intro object holds
        exact ⟨holds, fun new member => absurd member List.not_mem_nil⟩
  | @allocate objects heap mem storage size address after afterMem _ positive fresh returns
      inductionHypothesis =>
      obtain ⟨heapLayout, clean, headed, held, kept⟩ := inductionHypothesis
      obtain ⟨specAddress, specAfter, specMem, block, slot, count, specReturns, afterLayout,
        allocation⟩ := Heap.allocate_spec heapLayout positive fresh
      have same := returns.unique specReturns
      simp only [Prod.mk.injEq] at same
      obtain ⟨isAddress, isAfter, isMem⟩ := same
      subst isAddress isAfter isMem
      refine ⟨afterLayout, fun isClean => allocation.clean (clean isClean),
        fun isHeaded => allocation.headed (headed isHeaded), ?_, ?_⟩
      · intro object member
        rcases List.mem_cons.mp member with isNew | old
        · rw [isNew]
          exact allocation.holdsNew rfl
        · exact allocation.holdsObject (held object old)
      · intro object holds
        obtain ⟨heldBefore, apart⟩ := kept object holds
        refine ⟨allocation.holdsObject heldBefore, ?_⟩
        intro new member
        rcases List.mem_cons.mp member with isNew | old
        · rw [isNew]
          have newApart := allocation.apart afterLayout heldBefore
          obtain ⟨_, _, enough, _⟩ := roundedSize_eq size
          simp only [Region.Apart] at newApart ⊢
          omega
        · exact apart new old
  | @store objects heap mem other _ unchanged inductionHypothesis =>
      obtain ⟨heapLayout, rest⟩ := inductionHypothesis
      refine ⟨?_, rest⟩
      obtain ⟨ordered, aligned, blockSize, chunks, free⟩ := heapLayout
      refine ⟨ordered, aligned, blockSize, chunks, ?_, free.run, free.apart⟩
      apply free.segment.congr
      intro region member
      obtain ⟨block, inTree, slot, inBlock, isFree, first, second⟩ :=
        (free.run region member).header
      have same := unchanged block inTree slot inBlock isFree
      exact ⟨same _ first, same _ second⟩
  | @insertChild objects heap mem _ inductionHypothesis =>
      obtain ⟨⟨ordered, aligned, blockSize, chunks, free⟩, rest⟩ := inductionHypothesis
      exact ⟨⟨ordered, aligned, blockSize, chunks, free.segment, free.run, free.apart⟩, rest⟩

private theorem external_spec (rootBegin size : Nat) (mem : Memory) :
    (Heap.external rootBegin size).Layout mem ∧ (Heap.external rootBegin size).Clean ∧
      (Heap.external rootBegin size).Headed := by
  refine ⟨⟨⟨List.Pairwise.nil, ?_⟩, ?_, ⟨0, rfl⟩, [], rfl, ?_, List.Pairwise.nil⟩, ?_, ?_⟩
  all_goals
    intro a member
    exact absurd member List.not_mem_nil

theorem Built.spec
    {objects : List Region} {heap : Heap} {mem : Memory} (built : Built objects heap mem) :
    heap.Layout mem ∧ heap.Clean ∧ heap.Headed ∧
      ∀ object ∈ objects, heap.HoldsObject object := by
  cases built with
  | @external rootBegin size startMem _ _ _ uses =>
      obtain ⟨layout, clean, headed⟩ := external_spec rootBegin size startMem
      obtain ⟨heapLayout, keepsClean, keepsHeaded, held, _⟩ := uses.spec layout
      exact ⟨heapLayout, keepsClean clean, keepsHeaded headed, held⟩
  | @internal storage size startMem root rootMem objects _ _ positive fresh returns uses =>
      obtain ⟨layout, clean, headed⟩ := external_spec 0 0 startMem
      have isSize :
          (Heap.external 0 0).newBlockSize (roundedSize size) = roundedSize size := by
        obtain ⟨count, isRounded, _, countPositive⟩ := roundedSize_eq size
        have := countPositive positive
        rw [Heap.newBlockSize, if_pos]
        rw [isRounded]
        exact Nat.mul_pos this (by decide)
      obtain ⟨address, after, afterMem, block, slot, count, allocated, afterLayout,
        allocation⟩ := Heap.allocate_spec layout positive (isSize ▸ fresh)
      have constructed :
          Outcome.Returns (fun depth => Heap.internal depth storage size startMem)
            ({ after with rootBegin := address, rootEnd := address + size }, afterMem) :=
        allocated.bind (Outcome.Returns.of_forall fun _ => rfl)
      have same := returns.unique constructed
      rw [Prod.mk.injEq] at same
      obtain ⟨isRoot, isMem⟩ := same
      subst isRoot isMem
      obtain ⟨ordered, aligned, blockSize, chunks, free⟩ := afterLayout
      obtain ⟨heapLayout, keepsClean, keepsHeaded, held, kept⟩ :=
        uses.spec ⟨ordered, aligned, blockSize, chunks, free.segment, free.run, free.apart⟩
      refine ⟨heapLayout, keepsClean (allocation.clean clean),
        keepsHeaded (allocation.headed headed), ?_⟩
      intro object member
      rcases List.mem_append.mp member with inUses | isRoot
      · exact held object inUses
      · rw [List.mem_singleton.mp isRoot]
        exact (kept _ (allocation.holdsNew rfl)).1

end Rcgo.Storage
