import Rcgo.Storage.Merging
import Rcgo.Storage.Reclamation

/-!
# The storage of merged heaps

The free list of one heap is appended to that of the other, and the blocks of
both form one tree.
-/

namespace Rcgo.Storage

open Rcgo.Foundation

namespace BlockTree

theorem mem_inorder_merge {root tree : BlockTree} {a : Nat} :
    a ∈ (root.merge tree).inorder ↔ a ∈ root.inorder ∨ a ∈ tree.inorder := by
  induction tree generalizing root with
  | nil => simp [merge, inorder]
  | node block left right leftHypothesis rightHypothesis =>
      rw [merge, mem_inorder_insert, rightHypothesis, leftHypothesis]
      simp only [inorder, List.mem_append, List.mem_cons]
      grind

theorem Ordered.merge {blocks : Blocks} {root tree : BlockTree}
    (ordered : Ordered blocks root.inorder) (other : Ordered blocks tree.inorder)
    (apart :
      ∀ a ∈ root.inorder, ∀ b ∈ tree.inorder,
        (blocks a).limit ≤ b ∨ (blocks b).limit ≤ a) :
    Ordered blocks (root.merge tree).inorder := by
  induction tree generalizing root with
  | nil => exact ordered
  | node block left right leftHypothesis rightHypothesis =>
      obtain ⟨leftOrdered, rightOrdered, leftBelow, rightAbove, nonempty⟩ := other.append
      have inLeft : ∀ b ∈ left.inorder, b ∈ (BlockTree.node block left right).inorder := by
        intro b member
        simp [inorder, member]
      have inRight : ∀ b ∈ right.inorder, b ∈ (BlockTree.node block left right).inorder := by
        intro b member
        simp [inorder, member]
      have withLeft :=
        leftHypothesis ordered leftOrdered
          (fun a memberA b memberB => apart a memberA b (inLeft b memberB))
      have withRight := rightHypothesis withLeft rightOrdered (by
        intro a memberA b memberB
        rcases mem_inorder_merge.mp memberA with inRoot | isLeft
        · exact apart a inRoot b (inRight b memberB)
        · have := leftBelow a isLeft
          have := rightAbove b memberB
          omega)
      rw [BlockTree.merge]
      apply withRight.insert nonempty
      intro a member
      rcases mem_inorder_merge.mp member with withoutRight | isRight
      · rcases mem_inorder_merge.mp withoutRight with inRoot | isLeft
        · exact apart a inRoot block (by simp [inorder])
        · exact Or.inl (leftBelow a isLeft)
      · exact Or.inr (rightAbove a isRight)

end BlockTree

namespace Heap

theorem findLastChunk_spec {mem : Memory} :
    ∀ {depth chunk : Nat} (before : List Region) {after : List Region} {link : Option Nat},
      FreeSegment mem chunk after 0 →
        findLastChunk mem depth (linkBehind before) chunk = .ok link →
          link = linkBehind (before ++ after)
  | 0, chunk, before, after, link, _, run => by cases run
  | depth + 1, chunk, before, [], link, isNull, run => by
      have isNull : chunk = 0 := isNull
      rw [findLastChunk, if_neg (not_not.mpr isNull), Outcome.ok.injEq] at run
      rw [List.append_nil, run]
  | depth + 1, chunk, before, region :: after, link, segment, run => by
      obtain ⟨isFirst, notNull, _, tail⟩ := segment
      rw [findLastChunk, if_pos notNull, ← isFirst,
        ← linkBehind_append_singleton before region, isFirst] at run
      rw [findLastChunk_spec (before ++ [region]) tail run, List.append_assoc,
        List.singleton_append]

def Separate (heap other : Heap) : Prop :=
  ∀ a ∈ heap.tree.inorder, ∀ b ∈ other.tree.inorder,
    (heap.blocks a).limit ≤ b ∨ (other.blocks b).limit ≤ a

theorem Separate.symm {heap other : Heap} (separate : heap.Separate other) :
    other.Separate heap :=
  fun a memberA b memberB => (separate b memberB a memberA).symm

theorem Separate.not_owns {heap other : Heap} (separate : heap.Separate other) {a : Nat}
    (owns : heap.Owns a) : ¬ other.Owns a := by
  intro otherOwns
  obtain ⟨block, member, above, below⟩ := owns
  obtain ⟨otherBlock, otherMember, otherAbove, otherBelow⟩ := otherOwns
  have apart := separate block member otherBlock otherMember
  omega

theorem Separate.apart {heap other : Heap} (separate : heap.Separate other)
    {mem : Memory} {objects otherObjects : Objects} (partitioned : heap.Partitioned mem objects)
    (otherPartitioned : other.Partitioned mem otherObjects) {object otherObject : Region}
    (isObject : object ∈ objects) (isOther : otherObject ∈ otherObjects) :
    Region.Apart object otherObject := by
  have inside : ∀ {heap : Heap} {objects : Objects} {object : Region},
      heap.Partitioned mem objects → object ∈ objects →
        ∃ block ∈ heap.tree.inorder, block ≤ object.1 ∧
          object.1 + object.2 ≤ (heap.blocks block).limit := by
    intro heap objects object partitioned isObject
    obtain ⟨block, slot, count, occupies⟩ := partitioned.held object isObject
    obtain ⟨_, _, enough, _⟩ := roundedSize_eq object.2
    have limit := (partitioned.layout.aligned block occupies.member).1
    have place := occupies.place
    have isSize := occupies.isSize
    have inBlock := occupies.inBlock
    simp only [slotSize] at limit place isSize
    exact ⟨block, occupies.member, by omega, by omega⟩
  obtain ⟨block, member, above, below⟩ := inside partitioned isObject
  obtain ⟨otherBlock, otherMember, otherAbove, otherBelow⟩ := inside otherPartitioned isOther
  have apart := separate block member otherBlock otherMember
  simp only [Region.Apart]
  omega

/-- The blocks of the heap are blocks of the other heap. -/
def Within (heap after : Heap) : Prop :=
  ∀ block ∈ heap.tree.inorder,
    block ∈ after.tree.inorder ∧ after.blocks block = heap.blocks block

namespace Within

variable {heap after : Heap} (within : heap.Within after)

include within

theorem bit {block : Nat} (member : block ∈ heap.tree.inorder) (slot : Nat) (flag : Flag) :
    after.bit block slot flag = heap.bit block slot flag := by
  rw [Heap.bit, Heap.bit, (within block member).2]

theorem slotCount {block : Nat} (member : block ∈ heap.tree.inorder) :
    Storage.slotCount after.blocks block = Storage.slotCount heap.blocks block := by
  rw [Storage.slotCount, Storage.slotCount, (within block member).2]

theorem occupies {object : Region} {block slot count : Nat}
    (occupies : heap.Occupies object block slot count) :
    after.Occupies object block slot count := by
  obtain ⟨inAfter, same⟩ := within block occupies.member
  apply occupies.congr inAfter (by rw [same])
  intro s _ _
  rw [within.bit occupies.member, within.bit occupies.member]
  exact ⟨rfl, id⟩

theorem freeRun {region : Region} (run : FreeRun heap.tree heap.blocks region) :
    FreeRun after.tree after.blocks region := by
  apply run.congr
  · intro block member
    exact ⟨(within block member).1, within.slotCount member⟩
  · intro block member slot _ _ isFree
    rw [(within block member).2]
    exact isFree

end Within

/-- The heap has the blocks of both heaps and the sum of their sizes. -/
structure Union (heap other after : Heap) : Prop where
  mem_tree :
    ∀ block ∈ after.tree.inorder, block ∈ heap.tree.inorder ∨ block ∈ other.tree.inorder
  ofThis : heap.Within after
  ofOther : other.Within after
  ordered : BlockTree.Ordered after.blocks after.tree.inorder
  allocatedSize : after.allocatedSize = heap.allocatedSize + other.allocatedSize
  nextBlockSize : after.nextBlockSize = heap.nextBlockSize
  root : after.rootBegin = heap.rootBegin ∧ after.rootEnd = heap.rootEnd

/-- The blocks as `mergeStorage` merges them. -/
theorem union_of_merge {heap other after : Heap}
    (ordered : BlockTree.Ordered heap.blocks heap.tree.inorder)
    (otherOrdered : BlockTree.Ordered other.blocks other.tree.inorder)
    (separate : heap.Separate other) (tree : after.tree = heap.tree.merge other.tree)
    (blocks : after.blocks = heap.mergeBlocks other)
    (allocatedSize : after.allocatedSize = heap.allocatedSize + other.allocatedSize)
    (nextBlockSize : after.nextBlockSize = heap.nextBlockSize)
    (root : after.rootBegin = heap.rootBegin ∧ after.rootEnd = heap.rootEnd) :
    Union heap other after := by
  have ofThis : ∀ block ∈ heap.tree.inorder, after.blocks block = heap.blocks block := by
    intro block member
    rw [blocks]
    apply if_neg
    intro otherMember
    have apart := separate block member block otherMember
    have nonempty := ordered.nonempty block member
    have otherNonempty := otherOrdered.nonempty block otherMember
    omega
  have ofOther : ∀ block ∈ other.tree.inorder, after.blocks block = other.blocks block := by
    intro block member
    rw [blocks]
    exact if_pos member
  have mem_tree : ∀ block, block ∈ after.tree.inorder ↔
      block ∈ heap.tree.inorder ∨ block ∈ other.tree.inorder := by
    intro block
    rw [tree]
    exact BlockTree.mem_inorder_merge
  refine ⟨fun block => (mem_tree block).mp,
    fun block member => ⟨(mem_tree block).mpr (Or.inl member), ofThis block member⟩,
    fun block member => ⟨(mem_tree block).mpr (Or.inr member), ofOther block member⟩, ?_,
    allocatedSize, nextBlockSize, root⟩
  rw [tree]
  apply BlockTree.Ordered.merge
  · apply ordered.congr
    intro a member
    rw [ofThis a member]
  · apply otherOrdered.congr
    intro a member
    rw [ofOther a member]
  · intro a memberA b memberB
    rw [ofThis a memberA, ofOther b memberB]
    exact separate a memberA b memberB

namespace Union

variable {heap other after : Heap} {mem afterMem : Memory} {objects otherObjects : Objects}
  (union : Union heap other after) (separate : heap.Separate other)
  (partitioned : heap.Partitioned mem objects)
  (otherPartitioned : other.Partitioned mem otherObjects)

include union

theorem owns_of_after {a : Nat} (owns : after.Owns a) : heap.Owns a ∨ other.Owns a := by
  obtain ⟨block, member, above, below⟩ := owns
  rcases union.mem_tree block member with here | there
  · rw [(union.ofThis block here).2] at below
    exact Or.inl ⟨block, here, above, below⟩
  · rw [(union.ofOther block there).2] at below
    exact Or.inr ⟨block, there, above, below⟩

include separate partitioned otherPartitioned

theorem card_allocatedSlots :
    after.allocatedSlots.card = heap.allocatedSlots.card + other.allocatedSlots.card := by
  have isUnion : after.allocatedSlots = heap.allocatedSlots ∪ other.allocatedSlots := by
    ext ⟨block, slot⟩
    rw [Finset.mem_union, mem_allocatedSlots, mem_allocatedSlots, mem_allocatedSlots]
    constructor
    · intro ⟨member, inBlock, isAllocated⟩
      rcases union.mem_tree block member with here | there
      · rw [union.ofThis.slotCount here] at inBlock
        rw [union.ofThis.bit here] at isAllocated
        exact Or.inl ⟨here, inBlock, isAllocated⟩
      · rw [union.ofOther.slotCount there] at inBlock
        rw [union.ofOther.bit there] at isAllocated
        exact Or.inr ⟨there, inBlock, isAllocated⟩
    · intro either
      rcases either with ⟨here, inBlock, isAllocated⟩ | ⟨there, inBlock, isAllocated⟩
      · rw [union.ofThis.slotCount here, union.ofThis.bit here]
        exact ⟨(union.ofThis block here).1, inBlock, isAllocated⟩
      · rw [union.ofOther.slotCount there, union.ofOther.bit there]
        exact ⟨(union.ofOther block there).1, inBlock, isAllocated⟩
  rw [isUnion, Finset.card_union_of_disjoint]
  rw [Finset.disjoint_left]
  intro ⟨block, slot⟩ isHere isThere
  have here := (mem_allocatedSlots.mp isHere).1
  have there := (mem_allocatedSlots.mp isThere).1
  have apart := separate block here block there
  have nonempty := partitioned.layout.ordered.nonempty block here
  have otherNonempty := otherPartitioned.layout.ordered.nonempty block there
  omega

theorem freeChunks {chunks otherChunks : List Region} (free : heap.FreeChunks mem chunks)
    (otherFree : other.FreeChunks mem otherChunks)
    (segment : FreeSegment afterMem after.freeListHead (chunks ++ otherChunks) 0) :
    after.FreeChunks afterMem (chunks ++ otherChunks) := by
  refine ⟨segment, ?_, ?_⟩
  · intro region member
    rcases List.mem_append.mp member with here | there
    · exact union.ofThis.freeRun (free.run region here)
    · exact union.ofOther.freeRun (otherFree.run region there)
  · refine List.pairwise_append.mpr ⟨free.apart, otherFree.apart, ?_⟩
    intro region here otherRegion there
    obtain ⟨block, inTree, above, below⟩ :=
      (free.run region here).inside partitioned.layout.aligned
    obtain ⟨otherBlock, otherInTree, otherAbove, otherBelow⟩ :=
      (otherFree.run otherRegion there).inside otherPartitioned.layout.aligned
    have apart := separate block inTree otherBlock otherInTree
    simp only [Region.Apart]
    omega

omit separate partitioned otherPartitioned in
theorem covering {chunks otherChunks : List Region} (covering : heap.Covering chunks)
    (otherCovering : other.Covering otherChunks) : after.Covering (chunks ++ otherChunks) := by
  intro block member slot inBlock isFree
  rcases union.mem_tree block member with here | there
  · rw [union.ofThis.slotCount here] at inBlock
    rw [union.ofThis.bit here] at isFree
    obtain ⟨chunk, inChunks, hasSlot⟩ := covering block here slot inBlock isFree
    exact ⟨chunk, List.mem_append_left _ inChunks, hasSlot⟩
  · rw [union.ofOther.slotCount there] at inBlock
    rw [union.ofOther.bit there] at isFree
    obtain ⟨chunk, inChunks, hasSlot⟩ := otherCovering block there slot inBlock isFree
    exact ⟨chunk, List.mem_append_right _ inChunks, hasSlot⟩

omit union in
theorem address_ne {object otherObject : Region} (isObject : object ∈ objects)
    (isOther : otherObject ∈ otherObjects) : object.1 ≠ otherObject.1 := by
  intro same
  obtain ⟨block, slot, count, occupies⟩ := partitioned.held object isObject
  obtain ⟨otherBlock, otherSlot, otherCount, otherOccupies⟩ :=
    otherPartitioned.held otherObject isOther
  have apart := separate block occupies.member otherBlock otherOccupies.member
  have limit := (partitioned.layout.aligned block occupies.member).1
  have otherLimit := (otherPartitioned.layout.aligned otherBlock otherOccupies.member).1
  have place := occupies.place
  have otherPlace := otherOccupies.place
  have inBlock := occupies.inBlock
  have otherInBlock := otherOccupies.inBlock
  have positive := occupies.positive
  have otherPositive := otherOccupies.positive
  simp only [slotSize] at limit otherLimit place otherPlace
  omega

/-- The merged heap is partitioned into the objects and the chunks of both. -/
theorem mergedPartition {chunks otherChunks : List Region} (free : heap.FreeChunks mem chunks)
    (otherFree : other.FreeChunks mem otherChunks) (covering : heap.Covering chunks)
    (otherCovering : other.Covering otherChunks)
    (segment : FreeSegment afterMem after.freeListHead (chunks ++ otherChunks) 0) :
    after.Partitioned afterMem (objects ∪ otherObjects) := by
  have isFree :=
    union.freeChunks separate partitioned otherPartitioned free otherFree segment
  have different : ∀ object ∈ objects, ∀ other ∈ otherObjects, object.1 ≠ other.1 :=
    fun object isObject other isOther =>
      address_ne separate partitioned otherPartitioned isObject isOther
  refine ⟨⟨union.ordered, ?_, ?_, _, isFree⟩, ?_,
    ⟨_, isFree, union.covering covering otherCovering⟩, ?_, ?_, ?_, ?_, ?_⟩
  · intro block member
    rcases union.mem_tree block member with here | there
    · rw [union.ofThis.slotCount here, (union.ofThis block here).2]
      exact partitioned.layout.aligned block here
    · rw [union.ofOther.slotCount there, (union.ofOther block there).2]
      exact otherPartitioned.layout.aligned block there
  · rw [union.nextBlockSize]
    exact partitioned.layout.blockSize
  · intro block member
    rcases union.mem_tree block member with here | there
    · rw [(union.ofThis block here).2]
      simp only [union.ofThis.bit here]
      exact partitioned.clean block here
    · rw [(union.ofOther block there).2]
      simp only [union.ofOther.bit there]
      exact otherPartitioned.clean block there
  · intro object isObject
    rcases isObject with here | there
    · obtain ⟨block, slot, count, occupies⟩ := partitioned.held object here
      exact ⟨block, slot, count, union.ofThis.occupies occupies⟩
    · obtain ⟨block, slot, count, occupies⟩ := otherPartitioned.held object there
      exact ⟨block, slot, count, union.ofOther.occupies occupies⟩
  · intro object isObject second isSecond same
    rcases isObject with here | there <;> rcases isSecond with secondHere | secondThere
    · exact partitioned.single object here second secondHere same
    · exact absurd same (different object here second secondThere)
    · exact absurd same.symm (different second secondHere object there)
    · exact otherPartitioned.single object there second secondThere same
  · intro block member slot isAllocated
    rcases union.mem_tree block member with here | there
    · rw [union.ofThis.bit here] at isAllocated
      obtain ⟨object, isObject, first, count, occupies, range⟩ :=
        partitioned.owned block here slot isAllocated
      exact ⟨object, Or.inl isObject, first, count, union.ofThis.occupies occupies, range⟩
    · rw [union.ofOther.bit there] at isAllocated
      obtain ⟨object, isObject, first, count, occupies, range⟩ :=
        otherPartitioned.owned block there slot isAllocated
      exact ⟨object, Or.inr isObject, first, count, union.ofOther.occupies occupies, range⟩
  · intro block member slot isObject
    rcases union.mem_tree block member with here | there
    · rw [union.ofThis.bit here] at isObject ⊢
      exact partitioned.flagged block here slot isObject
    · rw [union.ofOther.bit there] at isObject ⊢
      exact otherPartitioned.flagged block there slot isObject
  · rw [union.allocatedSize, union.card_allocatedSlots separate partitioned otherPartitioned,
      partitioned.size, otherPartitioned.size, Nat.add_mul]

end Union

/-- `mergeStorage` redirects the end of the free list. -/
theorem mergeStorage_run {heap other after : Heap} {mem afterMem : Memory}
    {chunks : List Region} {depth : Nat} (free : heap.FreeChunks mem chunks)
    (run : heap.mergeStorage depth other mem = .ok (after, afterMem)) :
    FreeSegment afterMem after.freeListHead chunks other.freeListHead ∧
      (∀ a, ¬ heap.Owns a → afterMem a = mem a) ∧
      after =
        { heap with
          tree := heap.tree.merge other.tree
          blocks := heap.mergeBlocks other
          freeListHead := after.freeListHead
          allocatedSize := heap.allocatedSize + other.allocatedSize } := by
  have large : ∀ region ∈ chunks, slotSize ≤ region.2 := by
    intro region member
    obtain ⟨slots, positive, isSize⟩ := (free.run region member).size_pos
    rw [isSize]
    exact Nat.le_mul_of_pos_left slotSize positive
  obtain ⟨link, search, run⟩ := Outcome.bind_eq_ok.mp run
  have isLink : link = linkBehind ([] ++ chunks) :=
    findLastChunk_spec [] free.segment search
  rw [List.nil_append] at isLink
  have isSegment :
      FreeSegment mem
        { heap with tree := heap.tree.merge other.tree, blocks := heap.mergeBlocks other
          }.freeListHead chunks 0 :=
    free.segment
  obtain ⟨head, linked, isSet, segment, unchanged⟩ :=
    setLink_spec other.freeListHead isSegment free.apart large
  rw [isLink, isSet] at run
  simp only [Outcome.pure_eq, Outcome.ok.injEq, Prod.mk.injEq] at run
  obtain ⟨isAfter, isMem⟩ := run
  subst isMem
  rw [← isAfter]
  refine ⟨segment, ?_, rfl⟩
  intro a notOwned
  apply unchanged
  intro region member same
  obtain ⟨block, inTree, slot, inBlock, _, first, _⟩ := (free.run region member).header
  exact notOwned (same ▸ ⟨block, inTree, first.inside inBlock⟩)

/-- What `mergeStorage` does to two heaps that have no storage in common. -/
theorem mergeStorage_spec {heap other after : Heap} {mem afterMem : Memory}
    {objects otherObjects : Objects} {depth : Nat} (separate : heap.Separate other)
    (partitioned : heap.Partitioned mem objects)
    (otherPartitioned : other.Partitioned mem otherObjects)
    (run : heap.mergeStorage depth other mem = .ok (after, afterMem)) :
    Union heap other after ∧ after.Partitioned afterMem (objects ∪ otherObjects) ∧
      ∀ a, ¬ heap.Owns a → afterMem a = mem a := by
  obtain ⟨chunks, free, covering⟩ := partitioned.exact
  obtain ⟨otherChunks, otherFree, otherCovering⟩ := otherPartitioned.exact
  obtain ⟨segment, frame, isAfter⟩ := mergeStorage_run free run
  have union : Union heap other after :=
    union_of_merge partitioned.layout.ordered otherPartitioned.layout.ordered separate
      (by rw [isAfter]) (by rw [isAfter]) (by rw [isAfter]) (by rw [isAfter])
      (by rw [isAfter]; exact ⟨rfl, rfl⟩)
  have otherSegment : FreeSegment afterMem other.freeListHead otherChunks 0 := by
    apply otherFree.segment.congr
    intro region member
    obtain ⟨block, inTree, slot, inBlock, _, first, second⟩ :=
      (otherFree.run region member).header
    have outside : ∀ a, InSlot block slot a → afterMem a = mem a := by
      intro a inside
      exact frame a (separate.symm.not_owns ⟨block, inTree, inside.inside inBlock⟩)
    exact ⟨outside _ first, outside _ second⟩
  refine ⟨union, ?_, frame⟩
  apply union.mergedPartition separate partitioned otherPartitioned free otherFree covering
    otherCovering
  exact FreeSegment.append_iff.mpr ⟨_, segment, otherSegment⟩

end Heap

end Rcgo.Storage
