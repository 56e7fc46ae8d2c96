import Rcgo.Storage.Collector

/-!
# The layout of a heap

The blocks are ordered and apart, and the free list runs through chunks that
are disjoint runs of unallocated slots.  Allocation keeps the layout and takes
its object from unallocated slots.
-/

namespace Rcgo.Storage

open Rcgo.Foundation

/-- A region of memory: its first address and its size. -/
abbrev Region := Nat × Nat

def Region.Apart (c d : Region) : Prop :=
  c.1 + c.2 ≤ d.1 ∨ d.1 + d.2 ≤ c.1

theorem Region.Apart.symm {c d : Region} (apart : Region.Apart c d) : Region.Apart d c :=
  Or.symm apart

def Region.HasSlot (region : Region) (block slot : Nat) : Prop :=
  region.1 ≤ block + slot * slotSize ∧ block + (slot + 1) * slotSize ≤ region.1 + region.2

/-- The chunks on the list from `chunk` to `target`, with their sizes. -/
def FreeSegment (mem : Memory) : Nat → List Region → Nat → Prop
  | chunk, [], target => chunk = target
  | chunk, region :: rest, target =>
      region.1 = chunk ∧ chunk ≠ 0 ∧ region.2 = mem (chunk + wordSize) ∧
        FreeSegment mem (mem chunk) rest target

theorem FreeSegment.cons
    {mem : Memory} {chunk size next target : Nat} {rest : List Region}
    (notNull : chunk ≠ 0) (isSize : mem (chunk + wordSize) = size) (isNext : mem chunk = next)
    (tail : FreeSegment mem next rest target) :
    FreeSegment mem chunk ((chunk, size) :: rest) target :=
  ⟨rfl, notNull, isSize.symm, isNext ▸ tail⟩

theorem FreeSegment.append_iff
    {mem : Memory} {target : Nat} :
    ∀ {first second : List Region} {chunk : Nat},
      FreeSegment mem chunk (first ++ second) target ↔
        ∃ middle, FreeSegment mem chunk first middle ∧
          FreeSegment mem middle second target
  | [], second, chunk => by simp [FreeSegment]
  | region :: rest, second, chunk => by
      simp only [List.cons_append, FreeSegment, FreeSegment.append_iff]
      grind

theorem FreeSegment.unique
    {mem : Memory} :
    ∀ {first second : List Region} {chunk : Nat},
      FreeSegment mem chunk first 0 → FreeSegment mem chunk second 0 → first = second
  | [], [], _, _, _ => rfl
  | [], _ :: _, _, isNull, ⟨_, notNull, _⟩ => absurd isNull notNull
  | _ :: _, [], _, ⟨_, notNull, _⟩, isNull => absurd isNull notNull
  | region :: rest, other :: otherRest, chunk, first, second => by
      obtain ⟨isChunk, _, isSize, tail⟩ := first
      obtain ⟨otherChunk, _, otherSize, otherTail⟩ := second
      rw [FreeSegment.unique tail otherTail,
        Prod.ext (isChunk.trans otherChunk.symm) (isSize.trans otherSize.symm)]

theorem FreeSegment.congr
    {mem other : Memory} {target : Nat} :
    ∀ {regions : List Region} {chunk : Nat},
      FreeSegment mem chunk regions target →
      (∀ region ∈ regions,
        other region.1 = mem region.1 ∧
          other (region.1 + wordSize) = mem (region.1 + wordSize)) →
        FreeSegment other chunk regions target
  | [], _, segment, _ => segment
  | region :: rest, chunk, segment, same => by
      obtain ⟨isFirst, notNull, size, tail⟩ := segment
      have here := same region List.mem_cons_self
      rw [isFirst] at here
      refine ⟨isFirst, notNull, ?_, ?_⟩
      · rw [here.2]
        exact size
      · rw [here.1]
        exact tail.congr fun other member => same other (List.mem_cons_of_mem _ member)

/-- The chunk is a run of unallocated slots of one block. -/
def FreeRun (tree : BlockTree) (blocks : Blocks) (region : Region) : Prop :=
  ∃ block first last,
    block ∈ tree.inorder ∧ region = (block + first * slotSize, (last - first) * slotSize) ∧
      first < last ∧ last ≤ slotCount blocks block ∧
        ∀ slot, first ≤ slot → slot < last →
          (blocks block).bits.has slot .allocated = false

def InSlot (block slot address : Nat) : Prop :=
  block + slot * slotSize ≤ address ∧ address < block + (slot + 1) * slotSize

theorem InSlot.inside {blocks : Blocks} {block slot address : Nat}
    (inside : InSlot block slot address) (inBlock : slot < slotCount blocks block) :
    block ≤ address ∧ address < (blocks block).limit := by
  simp only [slotCount, slotSize] at inBlock
  simp only [InSlot, slotSize] at inside
  omega

namespace Heap

/-- Every block is a number of slots at a proper address. -/
def Aligned (tree : BlockTree) (blocks : Blocks) : Prop :=
  ∀ block ∈ tree.inorder,
    (blocks block).limit = block + slotCount blocks block * slotSize ∧
      0 < block ∧ wordSize ∣ block

/-- The free list of the heap consists of these chunks. -/
structure FreeChunks (heap : Heap) (mem : Memory) (chunks : List Region) : Prop where
  segment : FreeSegment mem heap.freeListHead chunks 0
  run : ∀ chunk ∈ chunks, FreeRun heap.tree heap.blocks chunk
  apart : chunks.Pairwise Region.Apart

/-- The representation invariant of the storage of a heap. -/
structure Layout (heap : Heap) (mem : Memory) : Prop where
  ordered : BlockTree.Ordered heap.blocks heap.tree.inorder
  aligned : Aligned heap.tree heap.blocks
  blockSize : ∃ slots, heap.nextBlockSize = slots * slotSize
  free : ∃ chunks, heap.FreeChunks mem chunks

def bit (heap : Heap) (block slot : Nat) (flag : Flag) : Bool :=
  (heap.blocks block).bits.has slot flag

end Heap

theorem slotCount_congr
    {blocks other : Blocks} {block : Nat} (same : (other block).limit = (blocks block).limit) :
    slotCount other block = slotCount blocks block := by
  rw [slotCount, slotCount, same]

theorem limit_eq_of_count
    {blocks : Blocks} {block count : Nat}
    (limit : (blocks block).limit = block + count * slotSize) :
    slotCount blocks block = count := by
  rw [slotCount, limit]
  simp only [slotSize]
  omega

theorem FreeRun.congr
    {tree other : BlockTree} {blocks otherBlocks : Blocks} {region : Region}
    (run : FreeRun tree blocks region)
    (same :
      ∀ block ∈ tree.inorder, block ∈ other.inorder ∧
        slotCount otherBlocks block = slotCount blocks block)
    (unallocated :
      ∀ block ∈ tree.inorder, ∀ slot,
        region.1 ≤ block + slot * slotSize →
        block + slot * slotSize < region.1 + region.2 →
        (blocks block).bits.has slot .allocated = false →
          (otherBlocks block).bits.has slot .allocated = false) :
    FreeRun other otherBlocks region := by
  obtain ⟨block, first, last, member, isRegion, nonempty, inBlock, free⟩ := run
  subst isRegion
  refine ⟨block, first, last, (same block member).1, rfl, nonempty, ?_, ?_⟩
  · rw [(same block member).2]
    exact inBlock
  · intro slot atLeast below
    apply unallocated block member slot _ _ (free slot atLeast below)
    · simp only [slotSize]
      omega
    · simp only [slotSize]
      omega

theorem FreeRun.size_pos
    {tree : BlockTree} {blocks : Blocks} {region : Region}
    (run : FreeRun tree blocks region) :
    ∃ slots, 0 < slots ∧ region.2 = slots * slotSize := by
  obtain ⟨block, first, last, _, isRegion, nonempty, _, _⟩ := run
  refine ⟨last - first, by omega, ?_⟩
  rw [isRegion]

theorem FreeRun.inside
    {tree : BlockTree} {blocks : Blocks} {region : Region}
    (run : FreeRun tree blocks region) (aligned : Heap.Aligned tree blocks) :
    ∃ block ∈ tree.inorder, block ≤ region.1 ∧
      region.1 + region.2 ≤ (blocks block).limit := by
  obtain ⟨block, first, last, inTree, isRegion, nonempty, inBlock, _⟩ := run
  refine ⟨block, inTree, ?_, ?_⟩
  · rw [isRegion]
    exact Nat.le_add_right _ _
  · rw [(aligned block inTree).1, isRegion, Nat.add_assoc, ← Nat.add_mul]
    have : first + (last - first) ≤ slotCount blocks block := by
      omega
    simp only [slotSize]
    omega

theorem FreeRun.header
    {tree : BlockTree} {blocks : Blocks} {region : Region}
    (run : FreeRun tree blocks region) :
    ∃ block ∈ tree.inorder, ∃ slot, slot < slotCount blocks block ∧
      (blocks block).bits.has slot .allocated = false ∧
        InSlot block slot region.1 ∧ InSlot block slot (region.1 + wordSize) := by
  obtain ⟨block, first, last, inTree, isRegion, nonempty, inBlock, unallocated⟩ := run
  refine ⟨block, inTree, first, by omega, unallocated first le_rfl nonempty, ?_⟩
  simp only [isRegion, InSlot, slotSize, wordSize]
  omega

theorem BlockTree.Ordered.eq_or_apart
    {blocks : Blocks} {list : List Nat} (ordered : BlockTree.Ordered blocks list) {a b : Nat}
    (memberA : a ∈ list) (memberB : b ∈ list) :
    a = b ∨ (blocks a).limit ≤ b ∨ (blocks b).limit ≤ a := by
  induction list with
  | nil => exact absurd memberA List.not_mem_nil
  | cons head rest inductionHypothesis =>
      have headBelow := (List.pairwise_cons.mp ordered.separate).1
      have restOrdered := ordered.sublist (List.sublist_cons_self head rest)
      rcases List.mem_cons.mp memberA with isHeadA | inRestA
      · rcases List.mem_cons.mp memberB with isHeadB | inRestB
        · exact Or.inl (isHeadA.trans isHeadB.symm)
        · rw [isHeadA]
          exact Or.inr (Or.inl (headBelow b inRestB))
      · rcases List.mem_cons.mp memberB with isHeadB | inRestB
        · rw [isHeadB]
          exact Or.inr (Or.inr (headBelow a inRestA))
        · exact inductionHypothesis restOrdered inRestA inRestB

theorem FreeRun.apart_slot
    {tree : BlockTree} {blocks : Blocks} {region : Region}
    (run : FreeRun tree blocks region)
    (ordered : BlockTree.Ordered blocks tree.inorder)
    (aligned : Heap.Aligned tree blocks)
    {block slot : Nat} (member : block ∈ tree.inorder)
    (inBlock : slot < slotCount blocks block)
    (isAllocated : (blocks block).bits.has slot .allocated = true) :
    Region.Apart region (block + slot * slotSize, slotSize) := by
  obtain ⟨other, first, last, otherMember, isRegion, nonempty, below, free⟩ := run
  have limit := (aligned block member).1
  have otherLimit := (aligned other otherMember).1
  subst isRegion
  simp only [Region.Apart]
  simp only [slotSize] at *
  rcases ordered.eq_or_apart otherMember member with same | apart
  · subst same
    by_cases before : slot < first
    · omega
    · by_cases inside : slot < last
      · rw [free slot (by omega) inside] at isAllocated
        cases isAllocated
      · omega
  · omega

/-! ## The search for a chunk -/

def linkBehind (chunks : List Region) : Option Nat :=
  chunks.getLast?.map Prod.fst

theorem linkBehind_append_singleton (chunks : List Region) (region : Region) :
    linkBehind (chunks ++ [region]) = some region.1 := by
  simp [linkBehind]

theorem findChunk_spec
    {mem : Memory} (size : Nat) :
    ∀ (before : List Region) {after : List Region} {chunk : Nat},
      FreeSegment mem chunk after 0 →
        ∃ skipped rest found,
          after = skipped ++ rest ∧
            (∀ depth, after.length < depth →
              Heap.findChunk mem size depth (linkBehind before) chunk =
                .ok (linkBehind (before ++ skipped), found)) ∧
            ((rest = [] ∧ found = 0) ∨
              ∃ csize tail, rest = (found, csize) :: tail ∧ size ≤ csize ∧ found ≠ 0)
  | before, [], chunk, segment => by
      have isNull : chunk = 0 := segment
      subst isNull
      refine ⟨[], [], 0, rfl, ?_, Or.inl ⟨rfl, rfl⟩⟩
      intro depth enough
      cases depth with
      | zero => exact absurd enough (Nat.not_lt_zero _)
      | succ depth => simp [Heap.findChunk]
  | before, region :: after, chunk, segment => by
      obtain ⟨isFirst, notNull, sizeIs, tail⟩ := segment
      by_cases small : mem (chunk + wordSize) < size
      · have extended : linkBehind (before ++ [region]) = some chunk := by
          rw [linkBehind_append_singleton, isFirst]
        obtain ⟨skipped, rest, found, whole, run, cases⟩ :=
          findChunk_spec size (before ++ [region]) tail
        refine ⟨region :: skipped, rest, found, ?_, ?_, cases⟩
        · rw [whole, List.cons_append]
        · intro depth enough
          cases depth with
          | zero => exact absurd enough (Nat.not_lt_zero _)
          | succ depth =>
              have shorter : after.length < depth := by
                simpa using enough
              rw [Heap.findChunk, if_pos ⟨notNull, small⟩, ← extended, run depth shorter]
              simp
      · refine ⟨[], region :: after, chunk, rfl, ?_, Or.inr ⟨region.2, after, ?_, ?_, notNull⟩⟩
        · intro depth enough
          cases depth with
          | zero => exact absurd enough (Nat.not_lt_zero _)
          | succ depth =>
              rw [Heap.findChunk, if_neg (fun both => small both.2), List.append_nil]
        · rw [← isFirst]
        · rw [sizeIs]
          omega

/-! ## Taking a chunk -/

theorem setLink_spec
    {heap : Heap} {mem : Memory} {before : List Region} {middle : Nat} (v : Nat)
    (segment : FreeSegment mem heap.freeListHead before middle)
    (apart : before.Pairwise Region.Apart)
    (large : ∀ region ∈ before, slotSize ≤ region.2) :
    ∃ head other,
      heap.setLink mem v (linkBehind before) =
          ({ heap with freeListHead := head }, other) ∧
        FreeSegment other head before v ∧
        ∀ a, (∀ region ∈ before, a ≠ region.1) → other a = mem a := by
  rcases List.eq_nil_or_concat' before with isEmpty | ⟨front, last, shape⟩
  · subst isEmpty
    exact ⟨v, mem, rfl, rfl, fun _ _ => rfl⟩
  · subst shape
    refine ⟨heap.freeListHead, Function.update mem last.1 v, ?_, ?_, ?_⟩
    · rw [linkBehind_append_singleton]
      rfl
    · obtain ⟨join, frontSegment, isFirst, notNull, size, _⟩ :=
        FreeSegment.append_iff.mp segment
      have frontApart := (List.pairwise_append.mp apart).2.2
      refine FreeSegment.append_iff.mpr ⟨join, ?_, isFirst, notNull, ?_, ?_⟩
      · apply frontSegment.congr
        intro region member
        have lastApart := frontApart region member last (List.mem_singleton_self last)
        have regionLarge := large region (List.mem_append_left _ member)
        have lastLarge := large last (List.mem_append_right _ (List.mem_singleton_self last))
        simp only [Region.Apart] at lastApart
        simp only [slotSize] at regionLarge lastLarge
        constructor
        · exact Function.update_of_ne (by omega) _ _
        · exact Function.update_of_ne (by simp only [wordSize]; omega) _ _
      · rw [size]
        exact (Function.update_of_ne (by simp only [wordSize]; omega) _ _).symm
      · rw [← isFirst, Function.update_self]
        rfl
    · intro a different
      exact
        Function.update_of_ne
          (different last (List.mem_append_right _ (List.mem_singleton_self last))) _ _

/-- What an allocation does: it takes unallocated slots of a block and leaves
everything allocated as it was. -/
structure Allocation (heap : Heap) (mem : Memory) (address size : Nat) (after : Heap)
    (afterMem : Memory) (block slot count : Nat) : Prop where
  place : address = block + slot * slotSize
  positive : 0 < count
  isSize : size = count * slotSize
  member : block ∈ after.tree.inorder
  inBlock : slot + count ≤ slotCount after.blocks block
  wasFree :
    block ∈ heap.tree.inorder →
      ∀ s, slot ≤ s → s < slot + count → heap.bit block s .allocated = false
  bits :
    ∀ b ∈ after.tree.inorder, ∀ s flag,
      after.bit b s flag = true ↔
        (b ∈ heap.tree.inorder ∧ heap.bit b s flag = true) ∨
          (b = block ∧ ((flag = .object ∧ s = slot) ∨
            (flag = .allocated ∧ slot ≤ s ∧ s < slot + count)))
  marked :
    ∀ b ∈ after.tree.inorder, (after.blocks b).marked = true →
      b ∈ heap.tree.inorder ∧ (heap.blocks b).marked = true
  grows :
    ∀ b ∈ heap.tree.inorder,
      b ∈ after.tree.inorder ∧ (after.blocks b).limit = (heap.blocks b).limit
  memory :
    ∀ b ∈ heap.tree.inorder, ∀ s, s < slotCount heap.blocks b →
      heap.bit b s .allocated = true → ∀ a, InSlot b s a → afterMem a = mem a
  root : after.rootBegin = heap.rootBegin ∧ after.rootEnd = heap.rootEnd

/-- Every unallocated slot lies in one of the chunks. -/
def Heap.Covering (heap : Heap) (chunks : List Region) : Prop :=
  ∀ block ∈ heap.tree.inorder, ∀ slot, slot < slotCount heap.blocks block →
    heap.bit block slot .allocated = false →
      ∃ chunk ∈ chunks, Region.HasSlot chunk block slot

/-- What else an allocation from these chunks does: the new object is zeroed,
memory outside of the blocks is not touched, and no unallocated slot is lost. -/
structure Taking (heap : Heap) (mem : Memory) (chunks : List Region) (address size : Nat)
    (after : Heap) (afterMem : Memory) : Prop where
  tree : after.tree = heap.tree
  limit : ∀ block, (after.blocks block).limit = (heap.blocks block).limit
  allocatedSize : after.allocatedSize = heap.allocatedSize + size
  zeroed : ∀ a, address ≤ a → a < address + size → afterMem a = 0
  frame :
    ∀ a, (∀ block ∈ heap.tree.inorder, a < block ∨ (heap.blocks block).limit ≤ a) →
      afterMem a = mem a
  covering :
    heap.Covering chunks →
      ∃ others, after.FreeChunks afterMem others ∧ after.Covering others

private theorem free_after_take
    {mem other : Memory} {head chunk csize : Nat} {before rest : List Region}
    (segment : FreeSegment other head before (mem chunk))
    (restSegment : FreeSegment mem (mem chunk) rest 0)
    (unchanged : ∀ a, (∀ region ∈ before, a ≠ region.1) → other a = mem a)
    (apart : (before ++ (chunk, csize) :: rest).Pairwise Region.Apart)
    (large : ∀ region ∈ before ++ (chunk, csize) :: rest, slotSize ≤ region.2) :
    FreeSegment other head (before ++ rest) 0 := by
  refine FreeSegment.append_iff.mpr ⟨mem chunk, segment, ?_⟩
  apply restSegment.congr
  intro region member
  have inTail : region ∈ (chunk, csize) :: rest := List.mem_cons_of_mem _ member
  have regionLarge := large region (List.mem_append_right _ inTail)
  have beforeApart := (List.pairwise_append.mp apart).2.2
  simp only [slotSize] at regionLarge
  have notHeader : ∀ a, region.1 ≤ a → a < region.1 + region.2 →
      ∀ earlier ∈ before, a ≠ earlier.1 := by
    intro a atLeast below earlier earlierMember
    have earlierApart := beforeApart earlier earlierMember region inTail
    have earlierLarge := large earlier (List.mem_append_left _ earlierMember)
    simp only [Region.Apart] at earlierApart
    simp only [slotSize] at earlierLarge
    omega
  constructor
  · exact unchanged _ (notHeader _ (by omega) (by omega))
  · exact unchanged _ (notHeader _ (by omega) (by simp only [wordSize]; omega))

/-- What is left of the chunk comes to the front of the free list. -/
private theorem split_spec
    (heap : Heap) {mem : Memory} {chunk size csize : Nat} {others : List Region}
    (segment : FreeSegment mem heap.freeListHead others 0)
    (isSize : csize = mem (chunk + wordSize)) (positive : 0 < size)
    (rounded : ∃ slots, csize - size = slots * slotSize)
    (outside :
      ∀ region ∈ others, slotSize ≤ region.2 ∧ Region.Apart (chunk, csize) region) :
    ∃ head other left,
      (if mem (chunk + wordSize) - size > 0 then
          ({ heap with freeListHead := chunk + size },
            Function.update
              (Function.update mem (chunk + size + wordSize)
                (mem (chunk + wordSize) - size))
              (chunk + size) heap.freeListHead)
        else (heap, mem)) = ({ heap with freeListHead := head }, other) ∧
      FreeSegment other head (left ++ others) 0 ∧
      ((left = [] ∧ csize ≤ size) ∨
        (left = [(chunk + size, csize - size)] ∧ size < csize)) ∧
      ∀ a, a < chunk + size ∨ chunk + csize ≤ a → other a = mem a := by
  rw [← isSize]
  by_cases remains : csize - size > 0
  · rw [if_pos remains]
    obtain ⟨slots, isSlots⟩ := rounded
    have room : slotSize ≤ csize - size := by
      rw [isSlots] at remains ⊢
      simp only [slotSize] at remains ⊢
      omega
    simp only [slotSize] at room
    refine ⟨_, _, [(chunk + size, csize - size)], rfl, ?_, Or.inr ⟨rfl, by omega⟩, ?_⟩
    · refine ⟨rfl, by omega, ?_, ?_⟩
      · rw [Function.update_of_ne (by simp only [wordSize]; omega), Function.update_self]
      · rw [Function.update_self]
        apply segment.congr
        intro region member
        obtain ⟨large, apart⟩ := outside region member
        simp only [Region.Apart] at apart
        simp only [slotSize] at large
        constructor
        · rw [Function.update_of_ne (by omega),
            Function.update_of_ne (by simp only [wordSize]; omega)]
        · rw [Function.update_of_ne (by simp only [wordSize]; omega),
            Function.update_of_ne (by simp only [wordSize]; omega)]
    · intro a outsideChunk
      rw [Function.update_of_ne (by omega),
        Function.update_of_ne (by simp only [wordSize]; omega)]
  · rw [if_neg remains]
    exact ⟨heap.freeListHead, mem, [], rfl, segment, Or.inl ⟨rfl, by omega⟩, fun _ _ => rfl⟩

section TakeChunk

variable {heap : Heap} {mem : Memory} {chunk csize : Nat} {before rest : List Region}
  (free : heap.FreeChunks mem (before ++ (chunk, csize) :: rest))

include free

private theorem chunks_large :
    ∀ region ∈ before ++ (chunk, csize) :: rest, slotSize ≤ region.2 := by
  intro region member
  obtain ⟨slots, positive, isSlots⟩ := (free.run region member).size_pos
  rw [isSlots]
  simp only [slotSize]
  omega

omit free in
private theorem mem_of_others {region : Region} (member : region ∈ before ++ rest) :
    region ∈ before ++ (chunk, csize) :: rest := by
  rcases List.mem_append.mp member with inBefore | inRest
  · exact List.mem_append_left _ inBefore
  · exact List.mem_append_right _ (List.mem_cons_of_mem _ inRest)

private theorem others_apart :
    ∀ region ∈ before ++ rest,
      slotSize ≤ region.2 ∧ Region.Apart (chunk, csize) region := by
  have pairwise := List.pairwise_append.mp free.apart
  intro region member
  refine ⟨chunks_large free region (mem_of_others member), ?_⟩
  rcases List.mem_append.mp member with inBefore | inRest
  · exact (pairwise.2.2 region inBefore _ List.mem_cons_self).symm
  · exact (List.pairwise_cons.mp pairwise.2.1).1 region inRest

private theorem apart_after {left : List Region}
    (leftIn : ∀ region ∈ left, chunk ≤ region.1 ∧ region.1 + region.2 ≤ chunk + csize)
    (leftApart : left.Pairwise Region.Apart) :
    (left ++ (before ++ rest)).Pairwise Region.Apart := by
  have pairwise := List.pairwise_append.mp free.apart
  refine List.pairwise_append.mpr ⟨leftApart, List.pairwise_append.mpr
    ⟨pairwise.1, (List.pairwise_cons.mp pairwise.2.1).2, ?_⟩, ?_⟩
  · intro region inBefore other inRest
    exact pairwise.2.2 region inBefore other (List.mem_cons_of_mem _ inRest)
  · intro region inLeft other inOthers
    have inside := leftIn region inLeft
    have apart := (others_apart free other inOthers).2
    simp only [Region.Apart] at apart ⊢
    omega

private theorem run_after {block first count : Nat} {marked : Bool} {bits : BitArray}
    (place : chunk = block + first * slotSize) (fits : count * slotSize ≤ csize)
    (bitsAre :
      ∀ slot, bits.has slot .allocated = true →
        (heap.blocks block).bits.has slot .allocated = true ∨
          (first ≤ slot ∧ slot < first + count))
    {region : Region} (member : region ∈ before ++ rest) :
    FreeRun heap.tree (heap.blocks.assign block marked bits) region := by
  apply (free.run region (mem_of_others member)).congr
  · intro b inTree
    exact ⟨inTree, Blocks.slotCount_assign b⟩
  · intro b inTree slot atLeast below isFree
    by_cases same : b = block
    · subst same
      rw [Blocks.assign_same, Bool.eq_false_iff]
      intro isAllocated
      rcases bitsAre slot isAllocated with old | new
      · rw [isFree] at old
        cases old
      · have apart := (others_apart free region member).2
        simp only [Region.Apart] at apart
        simp only [slotSize] at *
        omega
    · rw [Blocks.assign_other same]
      exact isFree

private theorem slot_unchanged {other last : Memory}
    (ordered : BlockTree.Ordered heap.blocks heap.tree.inorder)
    (aligned : Heap.Aligned heap.tree heap.blocks)
    (unchanged : ∀ a, (∀ region ∈ before, a ≠ region.1) → other a = mem a)
    (outside : ∀ a, a < chunk ∨ chunk + csize ≤ a → last a = other a)
    {b slot : Nat} (inTree : b ∈ heap.tree.inorder) (below : slot < slotCount heap.blocks b)
    (isAllocated : heap.bit b slot .allocated = true) {a : Nat} (inside : InSlot b slot a) :
    last a = mem a := by
  have slotApart :
      ∀ region ∈ before ++ (chunk, csize) :: rest,
        Region.Apart region (b + slot * slotSize, slotSize) := by
    intro region member
    exact (free.run region member).apart_slot ordered aligned inTree below isAllocated
  have chunkApart := slotApart _ (List.mem_append_right _ List.mem_cons_self)
  simp only [Region.Apart] at chunkApart
  simp only [InSlot, Nat.add_mul, Nat.one_mul] at inside
  rw [outside a (by omega), unchanged]
  intro region inBefore
  have apart := slotApart region (List.mem_append_left _ inBefore)
  have large := chunks_large free region (List.mem_append_left _ inBefore)
  simp only [Region.Apart] at apart
  simp only [slotSize] at *
  omega

end TakeChunk

/-- The chunk is a run of unallocated slots of a block, the first of which are taken. -/
private structure ChunkRun (heap : Heap) (chunk csize count block first last : Nat) : Prop where
  inTree : block ∈ heap.tree.inorder
  place : chunk = block + first * slotSize
  size : csize = (last - first) * slotSize
  inBlock : last ≤ slotCount heap.blocks block
  unallocated :
    ∀ slot, first ≤ slot → slot < last → (heap.blocks block).bits.has slot .allocated = false
  fits : first + count ≤ last

/-- The bits of a block in which an object has been allocated. -/
private def BitsTaken (bits after : BitArray) (first count : Nat) : Prop :=
  ∀ slot flag, after.has slot flag = true ↔
    bits.has slot flag = true ∨ (flag = .object ∧ slot = first) ∨
      (flag = .allocated ∧ first ≤ slot ∧ slot < first + count)

/-- What is left of a chunk from which a size has been taken. -/
private def LeftOver (chunk csize size : Nat) (left : List Region) : Prop :=
  (left = [] ∧ csize ≤ size) ∨ (left = [(chunk + size, csize - size)] ∧ size < csize)

private def Heap.taken (heap : Heap) (head block size : Nat) (bits : BitArray) : Heap :=
  { heap with
    freeListHead := head
    blocks := heap.blocks.assign block (heap.blocks block).marked bits
    allocatedSize := heap.allocatedSize + size }

section Taken

variable {heap : Heap} {mem : Memory} {chunk csize count block first last head : Nat}
  {before rest left : List Region} {bits : BitArray}

private theorem exists_chunkRun (free : heap.FreeChunks mem (before ++ (chunk, csize) :: rest))
    (enough : count * slotSize ≤ csize) :
    ∃ block first last, ChunkRun heap chunk csize count block first last := by
  obtain ⟨block, first, last, inTree, isRegion, nonempty, inBlock, unallocated⟩ :=
    free.run (chunk, csize) (List.mem_append_right _ List.mem_cons_self)
  rw [Prod.mk.injEq] at isRegion
  obtain ⟨place, sizePlace⟩ := isRegion
  refine ⟨block, first, last, inTree, place, sizePlace, inBlock, unallocated, ?_⟩
  rw [sizePlace] at enough
  simp only [slotSize] at enough
  omega

private theorem ChunkRun.find (run : ChunkRun heap chunk csize count block first last)
    (ordered : BlockTree.Ordered heap.blocks heap.tree.inorder)
    (aligned : Heap.Aligned heap.tree heap.blocks) (positive : 0 < count) :
    heap.tree.find heap.blocks chunk = some block := by
  have limit := (aligned block run.inTree).1
  have inBlock := run.inBlock
  have fits := run.fits
  have place := run.place
  rw [BlockTree.find_eq_some_iff ordered]
  refine ⟨run.inTree, by omega, ?_⟩
  rw [limit, place]
  simp only [slotSize]
  omega

private theorem ChunkRun.inside (run : ChunkRun heap chunk csize count block first last)
    (aligned : Heap.Aligned heap.tree heap.blocks) :
    block ≤ chunk ∧ chunk + csize ≤ (heap.blocks block).limit := by
  have limit := (aligned block run.inTree).1
  have inBlock := run.inBlock
  have fits := run.fits
  rw [limit, run.place, run.size]
  simp only [slotSize]
  omega

private theorem ChunkRun.left_free (run : ChunkRun heap chunk csize count block first last)
    (taken : BitsTaken (heap.blocks block).bits bits first count)
    (leftOver : LeftOver chunk csize (count * slotSize) left) :
    ∀ region ∈ left, chunk + count * slotSize ≤ region.1 ∧
      region.1 + region.2 ≤ chunk + csize ∧
        FreeRun heap.tree (heap.blocks.assign block (heap.blocks block).marked bits) region := by
  have place := run.place
  have sizePlace := run.size
  intro region inLeft
  rcases leftOver with ⟨isEmpty, _⟩ | ⟨isRest, remains⟩
  · rw [isEmpty] at inLeft
    exact absurd inLeft List.not_mem_nil
  · rw [isRest] at inLeft
    rw [List.mem_singleton.mp inLeft]
    refine ⟨le_rfl, by omega, block, first + count, last, run.inTree, ?_, ?_, ?_, ?_⟩
    · rw [place, sizePlace, Nat.add_mul, Nat.add_assoc, ← Nat.sub_mul, Nat.sub_sub]
    · rw [sizePlace] at remains
      have := Nat.lt_of_mul_lt_mul_right remains
      omega
    · rw [Blocks.slotCount_assign]
      exact run.inBlock
    · intro slot atLeast below
      rw [Blocks.assign_same, Bool.eq_false_iff]
      intro isAllocated
      rcases (taken slot .allocated).mp isAllocated with old | new
      · rw [run.unallocated slot (by omega) below] at old
        cases old
      · simp at new
        omega

private theorem ChunkRun.freeChunks (run : ChunkRun heap chunk csize count block first last)
    (free : heap.FreeChunks mem (before ++ (chunk, csize) :: rest))
    (enough : count * slotSize ≤ csize)
    (taken : BitsTaken (heap.blocks block).bits bits first count)
    (leftOver : LeftOver chunk csize (count * slotSize) left) {other : Memory}
    (segment : FreeSegment other head (left ++ (before ++ rest)) 0) :
    (heap.taken head block (count * slotSize) bits).FreeChunks
      (clearMemory other chunk (count * slotSize)) (left ++ (before ++ rest)) := by
  have leftIn := run.left_free taken leftOver
  refine ⟨?_, ?_, ?_⟩
  · apply segment.congr
    intro region member
    have apartHeader :
        region.1 + wordSize < chunk ∨ chunk + count * slotSize ≤ region.1 := by
      rcases List.mem_append.mp member with inLeft | inOthers
      · exact Or.inr (leftIn region inLeft).1
      · obtain ⟨regionLarge, apart⟩ := others_apart free region inOthers
        simp only [Region.Apart] at apart
        simp only [slotSize] at regionLarge
        simp only [wordSize]
        omega
    constructor
    · rw [clearMemory, if_neg (by omega)]
    · rw [clearMemory, if_neg (by omega)]
  · intro region member
    rcases List.mem_append.mp member with inLeft | inOthers
    · exact (leftIn region inLeft).2.2
    · apply run_after free run.place enough _ inOthers
      intro slot isAllocated
      simpa using (taken slot .allocated).mp isAllocated
  · apply apart_after free
    · intro region inLeft
      have inside := leftIn region inLeft
      omega
    · rcases leftOver with ⟨isEmpty, _⟩ | ⟨isRest, _⟩
      · rw [isEmpty]
        exact List.Pairwise.nil
      · rw [isRest]
        exact List.pairwise_singleton _ _

private theorem ChunkRun.allocation (run : ChunkRun heap chunk csize count block first last)
    (positive : 0 < count) (taken : BitsTaken (heap.blocks block).bits bits first count)
    {afterMem : Memory}
    (unchanged : ∀ b ∈ heap.tree.inorder, ∀ slot, slot < slotCount heap.blocks b →
      heap.bit b slot .allocated = true → ∀ a, InSlot b slot a → afterMem a = mem a) :
    Allocation heap mem chunk (count * slotSize)
      (heap.taken head block (count * slotSize) bits) afterMem block first count := by
  have inBlock := run.inBlock
  have fits := run.fits
  refine ⟨run.place, positive, rfl, run.inTree, ?_, ?_, ?_, ?_, ?_, unchanged, rfl, rfl⟩
  · rw [Heap.taken, Blocks.slotCount_assign]
    omega
  · intro _ slot atLeast below
    exact run.unallocated slot atLeast (by omega)
  · intro b isBlock slot flag
    have isBlock : b ∈ heap.tree.inorder := isBlock
    simp only [Heap.bit, Heap.taken, isBlock, true_and]
    by_cases same : b = block
    · subst same
      rw [Blocks.assign_same, taken]
      simp
    · rw [Blocks.assign_other same]
      simp [same]
  · intro b isBlock isMarked
    refine ⟨isBlock, ?_⟩
    rw [Heap.taken] at isMarked
    by_cases same : b = block
    · subst same
      simpa using isMarked
    · simpa [Blocks.assign_other same] using isMarked
  · intro b isBlock
    exact ⟨isBlock, Blocks.limit_assign b⟩

private theorem ChunkRun.hasSlot_left (run : ChunkRun heap chunk csize count block first last)
    (ordered : BlockTree.Ordered heap.blocks heap.tree.inorder)
    (aligned : Heap.Aligned heap.tree heap.blocks)
    (taken : BitsTaken (heap.blocks block).bits bits first count)
    (leftOver : LeftOver chunk csize (count * slotSize) left) {b slot : Nat}
    (inHeap : b ∈ heap.tree.inorder) (inBlock : slot < slotCount heap.blocks b)
    (isFree : (heap.taken head block (count * slotSize) bits).bit b slot .allocated = false)
    (hasSlot : Region.HasSlot (chunk, csize) b slot) :
    ∃ region ∈ left, Region.HasSlot region b slot := by
  have limit := (aligned block run.inTree).1
  have lastInBlock := run.inBlock
  have fits := run.fits
  have place := run.place
  have sizePlace := run.size
  have sameBlock : b = block := by
    have bLimit := (aligned b inHeap).1
    rcases ordered.eq_or_apart inHeap run.inTree with same | apartBlocks
    · exact same
    · simp only [Region.HasSlot, place, sizePlace, slotSize] at hasSlot
      simp only [slotSize] at limit bLimit
      omega
  subst sameBlock
  have behind : first + count ≤ slot := by
    by_contra before
    simp only [Heap.bit, Heap.taken] at isFree
    rw [Blocks.assign_same, Bool.eq_false_iff] at isFree
    apply isFree
    apply (taken slot .allocated).mpr
    refine Or.inr (Or.inr ⟨rfl, ?_, by omega⟩)
    simp only [Region.HasSlot, place, slotSize] at hasSlot
    omega
  rcases leftOver with ⟨_, small⟩ | ⟨isRest, _⟩
  · simp only [Region.HasSlot, place, slotSize] at hasSlot small
    omega
  · refine ⟨_, isRest ▸ List.mem_singleton_self _, ?_⟩
    simp only [Region.HasSlot, place, slotSize] at hasSlot ⊢
    omega

private theorem ChunkRun.covering (run : ChunkRun heap chunk csize count block first last)
    (ordered : BlockTree.Ordered heap.blocks heap.tree.inorder)
    (aligned : Heap.Aligned heap.tree heap.blocks)
    (taken : BitsTaken (heap.blocks block).bits bits first count)
    (leftOver : LeftOver chunk csize (count * slotSize) left)
    (covering : heap.Covering (before ++ (chunk, csize) :: rest)) :
    (heap.taken head block (count * slotSize) bits).Covering (left ++ (before ++ rest)) := by
  intro b inAfter slot inBlockAfter isFree
  have inHeap : b ∈ heap.tree.inorder := inAfter
  have sameCount :
      slotCount (heap.blocks.assign block (heap.blocks block).marked bits) b =
        slotCount heap.blocks b := Blocks.slotCount_assign b
  have inBlockBefore : slot < slotCount heap.blocks b := sameCount ▸ inBlockAfter
  have wasFree : heap.bit b slot .allocated = false := by
    rw [Bool.eq_false_iff]
    intro isAllocated
    simp only [Heap.bit, Heap.taken] at isFree isAllocated
    by_cases same : b = block
    · subst same
      rw [Blocks.assign_same, Bool.eq_false_iff] at isFree
      exact isFree ((taken slot .allocated).mpr (Or.inl isAllocated))
    · rw [Blocks.assign_other same, isAllocated] at isFree
      cases isFree
  obtain ⟨region, member, hasSlot⟩ := covering b inHeap slot inBlockBefore wasFree
  rcases List.mem_append.mp member with inBefore | inTail
  · exact ⟨region, List.mem_append_right _ (List.mem_append_left _ inBefore), hasSlot⟩
  · rcases List.mem_cons.mp inTail with isChunk | inRest
    · subst isChunk
      obtain ⟨remaining, inLeft, hasSlot⟩ :=
        run.hasSlot_left ordered aligned taken leftOver inHeap inBlockBefore isFree hasSlot
      exact ⟨remaining, List.mem_append_left _ inLeft, hasSlot⟩
    · exact ⟨region, List.mem_append_right _ (List.mem_append_right _ inRest), hasSlot⟩

end Taken

private theorem size_unchanged {heap : Heap} {mem other : Memory} {chunk csize : Nat}
    {before rest : List Region} (free : heap.FreeChunks mem (before ++ (chunk, csize) :: rest))
    (isSize : csize = mem (chunk + wordSize))
    (unchanged : ∀ a, (∀ region ∈ before, a ≠ region.1) → other a = mem a) :
    csize = other (chunk + wordSize) := by
  rw [unchanged, isSize]
  intro region inBefore
  have apart := (others_apart free region (List.mem_append_left _ inBefore)).2
  have large := chunks_large free (chunk, csize) (List.mem_append_right _ List.mem_cons_self)
  simp only [Region.Apart] at apart
  simp only [slotSize] at large
  simp only [wordSize]
  omega

private theorem header_owned {heap : Heap} {mem : Memory} {chunk csize a : Nat}
    {before rest : List Region} (free : heap.FreeChunks mem (before ++ (chunk, csize) :: rest))
    (aligned : Heap.Aligned heap.tree heap.blocks)
    (notOwned : ∀ block ∈ heap.tree.inorder, a < block ∨ (heap.blocks block).limit ≤ a) :
    ∀ region ∈ before, a ≠ region.1 := by
  intro region inBefore isHeader
  obtain ⟨b, inHeap, above, below⟩ :=
    (free.run region (List.mem_append_left _ inBefore)).inside aligned
  have large := chunks_large free region (List.mem_append_left _ inBefore)
  have apartOther := notOwned b inHeap
  simp only [slotSize] at large
  omega

/-- The allocation of the chunk behind a link. -/
theorem takeChunk_exact
    {heap : Heap} {mem : Memory} {chunk csize count : Nat} {before rest : List Region}
    (newBlock : Option Nat)
    (ordered : BlockTree.Ordered heap.blocks heap.tree.inorder)
    (aligned : Heap.Aligned heap.tree heap.blocks)
    (blockSize : ∃ slots, heap.nextBlockSize = slots * slotSize)
    (free : heap.FreeChunks mem (before ++ (chunk, csize) :: rest))
    (positive : 0 < count) (enough : count * slotSize ≤ csize)
    (given : newBlock = none ∨ newBlock = heap.tree.find heap.blocks chunk) :
    ∃ after afterMem block slot,
      Heap.takeChunk heap mem (linkBehind before) chunk (count * slotSize) newBlock =
          .ok (chunk, after, afterMem) ∧
        after.Layout afterMem ∧
        Allocation heap mem chunk (count * slotSize) after afterMem block slot count ∧
        Taking heap mem (before ++ (chunk, csize) :: rest) chunk (count * slotSize) after
          afterMem := by
  obtain ⟨block, first, last, chunkRun⟩ := exists_chunkRun free enough
  have found := chunkRun.find ordered aligned positive
  obtain ⟨middle, beforeSegment, isFirst, _, sizeIs, restSegment⟩ :=
    FreeSegment.append_iff.mp free.segment
  have isMiddle : middle = chunk := isFirst.symm
  subst isMiddle
  have isSize : csize = mem (middle + wordSize) := sizeIs
  -- the link to the chunk now leads to the chunk behind it
  obtain ⟨head1, mem1, link, segment1, unchanged1⟩ :=
    setLink_spec (mem middle) beforeSegment (List.pairwise_append.mp free.apart).1
      (fun region inBefore => chunks_large free region (List.mem_append_left _ inBefore))
  have freeOthers :=
    free_after_take segment1 restSegment unchanged1 free.apart (chunks_large free)
  -- what is left of the chunk is the new head
  have rounded : ∃ slots, csize - count * slotSize = slots * slotSize := by
    refine ⟨last - first - count, ?_⟩
    rw [chunkRun.size, Nat.sub_mul (last - first)]
  have positiveSize : 0 < count * slotSize := Nat.mul_pos positive (by decide)
  obtain ⟨head2, mem2, left, split, segment2, leftOver, unchanged2⟩ :=
    split_spec { heap with freeListHead := head1 } freeOthers
      (size_unchanged free isSize unchanged1) positiveSize rounded (others_apart free)
  have isBlock : newBlock.or (heap.tree.find heap.blocks middle) = some block := by
    rcases given with isNone | isFound
    · rw [isNone, found]
      rfl
    · rw [isFound, found]
      rfl
  have isSlot : (middle - block) / slotSize = first := by
    rw [chunkRun.place]
    simp only [slotSize]
    omega
  have run :
      Heap.takeChunk heap mem (linkBehind before) middle (count * slotSize) newBlock =
        .ok (middle,
          heap.taken head2 block (count * slotSize)
            ((heap.blocks block).bits.allocate first (count * slotSize)),
          clearMemory mem2 middle (count * slotSize)) := by
    unfold Heap.takeChunk
    rw [link]
    simp only [split, isBlock, isSlot]
    rfl
  have taken : BitsTaken (heap.blocks block).bits
      ((heap.blocks block).bits.allocate first (count * slotSize)) first count := by
    intro slot flag
    rw [BitArray.has_allocate, Nat.mul_div_cancel count (by decide)]
  have freeAfter := chunkRun.freeChunks free enough taken leftOver segment2
  refine ⟨_, _, block, first, run, ⟨?_, ?_, blockSize, _, freeAfter⟩, ?_, rfl,
    Blocks.limit_assign, rfl, ?_, ?_, ?_⟩
  · exact ordered.congr fun a _ => Blocks.limit_assign a
  · intro b inTree
    rw [Heap.taken, Blocks.slotCount_assign, Blocks.limit_assign]
    exact aligned b inTree
  · apply chunkRun.allocation positive taken
    intro b isBlock slot below isAllocated a inside
    refine slot_unchanged free ordered aligned unchanged1 ?_ isBlock below isAllocated inside
    intro a outsideChunk
    rw [clearMemory, if_neg (by omega)]
    exact unchanged2 a (by omega)
  · intro a atLeast below
    exact if_pos ⟨atLeast, below⟩
  · intro a notOwned
    have apartBlock := notOwned block chunkRun.inTree
    have inside := chunkRun.inside aligned
    rw [clearMemory, if_neg (by omega), unchanged2 a (by omega), unchanged1]
    exact header_owned free aligned notOwned
  · intro covering
    exact ⟨_, freeAfter, chunkRun.covering ordered aligned taken leftOver covering⟩

end Rcgo.Storage
