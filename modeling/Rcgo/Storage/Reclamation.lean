import Rcgo.Storage.Partition

/-!
# Reclaiming whole objects

When every stored word is `NULL`, lies outside of the heap or is the first
address of an object, a collection frees an object as a whole or not at all.
-/

namespace Rcgo.Storage

open Rcgo.Foundation

namespace Heap

/-- The word is `NULL`, an address outside of the heap or the first address of
an object. -/
def Proper (heap : Heap) (objects : Objects) (value : Nat) : Prop :=
  value = 0 ∨ ¬ heap.Owns value ∨ ∃ object ∈ objects, object.1 = value

/-- The words that are stored in the root and in the objects of the heap. -/
structure Disciplined (heap : Heap) (mem : Memory) (objects : Objects) : Prop where
  root : ∀ a, heap.rootRegion.HasWord a → heap.Proper objects (mem a)
  stored :
    ∀ block ∈ heap.tree.inorder, ∀ slot, heap.bit block slot .allocated = true →
      ∀ a, (slotRegion block slot).HasWord a → heap.Proper objects (mem a)

/-- The address of the root or an address in the root. -/
def RootAddress (heap : Heap) (a : Nat) : Prop :=
  a = heap.rootBegin ∨ (heap.rootBegin ≤ a ∧ a < heap.rootEnd)

/-- The root is an object of the heap or lies outside of its blocks. -/
def Rooted (heap : Heap) (objects : Objects) : Prop :=
  heap.rootRegion ∈ objects ∨ ∀ a, heap.RootAddress a → ¬ heap.Owns a

def stillHeld (heap : Heap) (objects : Objects) : Objects :=
  {object ∈ objects | heap.HoldsObject object}

theorem mem_stillHeld {heap : Heap} {objects : Objects} {object : Region} :
    object ∈ heap.stillHeld objects ↔ object ∈ objects ∧ heap.HoldsObject object :=
  Iff.rfl

theorem HoldsObject.exists_slot {heap : Heap} {object : Region} (holds : heap.HoldsObject object) :
    ∃ block slot, block ∈ heap.tree.inorder ∧ object.1 = block + slot * slotSize ∧
      slot < slotCount heap.blocks block ∧ heap.bit block slot .allocated = true := by
  obtain ⟨block, slot, count, member, place, _, positive, inBlock, _, isAllocated⟩ := holds
  exact ⟨block, slot, member, place, by omega, isAllocated slot le_rfl (by omega)⟩

section Covered

variable {heap : Heap} {mem : Memory} {objects : Objects}
  (partitioned : heap.Partitioned mem objects)

include partitioned

theorem Partitioned.stillHeld_self : heap.stillHeld objects = objects := by
  ext object
  rw [mem_stillHeld]
  constructor
  · exact And.left
  · intro isObject
    obtain ⟨block, slot, count, occupies⟩ := partitioned.held object isObject
    exact ⟨isObject, occupies.holdsObject⟩

theorem target_of_proper {value block target : Nat} (proper : heap.Proper objects value)
    (isTarget : heap.Target value block target) :
    ∃ object ∈ objects, ∃ count, object.1 = value ∧ heap.Occupies object block target count := by
  obtain ⟨found, isSlot, _⟩ := isTarget
  obtain ⟨member, above, below⟩ :=
    (BlockTree.find_eq_some_iff partitioned.layout.ordered).mp found
  rcases proper with isNull | notOwned | ⟨object, isObject, isFirst⟩
  · have positive := (partitioned.layout.aligned block member).2.1
    omega
  · exact absurd ⟨block, member, above, below⟩ notOwned
  · obtain ⟨other, first, count, occupies⟩ := partitioned.held object isObject
    have place := occupies.place
    have positive := occupies.positive
    have inBlock := occupies.inBlock
    have limit := (partitioned.layout.aligned other occupies.member).1
    have sameBlock : other = block := by
      rcases partitioned.layout.ordered.eq_or_apart occupies.member member with same | apart
      · exact same
      · simp only [slotSize] at place limit
        omega
    subst sameBlock
    have sameSlot : first = target := by
      simp only [slotSize] at place isSlot
      omega
    subst sameSlot
    exact ⟨object, isObject, count, isFirst, occupies⟩

omit partitioned in
theorem run_of_covers {object : Region} {block target count slot : Nat}
    (occupies : heap.Occupies object block target count) (covers : heap.Covers block target slot) :
    target ≤ slot ∧ slot < slotCount heap.blocks block ∧
      ∀ s, target ≤ s → s ≤ slot → heap.bit block s .allocated = true := by
  rcases covers with ⟨atMost, noObject⟩ | run
  · have isHead := noObject target atMost le_rfl
    rw [occupies.head] at isHead
    cases isHead
  · exact run

variable (rooted : heap.Rooted objects) (disciplined : heap.Disciplined mem objects)

include rooted disciplined

omit partitioned in
theorem rootValue_proper {value : Nat} (isRoot : heap.RootValue mem value) :
    heap.Proper objects value := by
  rcases isRoot with isBegin | ⟨a, inRoot, isWord⟩
  · rw [isBegin]
    rcases rooted with isObject | outside
    · exact Or.inr (Or.inr ⟨heap.rootRegion, isObject, rfl⟩)
    · exact Or.inr (Or.inl (outside _ (Or.inl rfl)))
  · rw [isWord]
    exact disciplined.root a inRoot

theorem covered_run {block slot : Nat} (covered : heap.Covered mem block slot) :
    ∃ value target count object, object.1 = value ∧ object ∈ objects ∧
      heap.Occupies object block target count ∧ target ≤ slot ∧
        (∀ s, target ≤ s → s ≤ slot → heap.bit block s .allocated = true) ∧
          ∀ s, heap.Covers block target s → heap.Covered mem block s := by
  induction covered with
  | @root value block target slot isRoot isTarget covers =>
      have proper := rootValue_proper rooted disciplined isRoot
      obtain ⟨object, isObject, count, isFirst, occupies⟩ :=
        target_of_proper partitioned proper isTarget
      obtain ⟨atMost, _, run⟩ := run_of_covers occupies covers
      exact
        ⟨value, target, count, object, isFirst, isObject, occupies, atMost, run,
         fun s coversToo => Covered.root isRoot isTarget coversToo⟩
  | @slot source sourceSlot a block target slot sourceCovered isWord isTarget covers
      inductionHypothesis =>
      obtain ⟨_, first, _, _, _, _, sourceOccupies, below, sourceRun, _⟩ := inductionHypothesis
      have proper :=
        disciplined.stored source sourceOccupies.member sourceSlot
          (sourceRun sourceSlot below le_rfl) a isWord
      obtain ⟨object, isObject, count, isFirst, occupies⟩ :=
        target_of_proper partitioned proper isTarget
      obtain ⟨atMost, _, run⟩ := run_of_covers occupies covers
      exact
        ⟨mem a, target, count, object, isFirst, isObject, occupies, atMost, run,
         fun s coversToo => Covered.slot sourceCovered isWord isTarget coversToo⟩

theorem covered_allocated {block slot : Nat} (covered : heap.Covered mem block slot) :
    block ∈ heap.tree.inorder ∧ heap.bit block slot .allocated = true := by
  obtain ⟨_, _, _, _, _, _, occupies, below, run, _⟩ :=
    covered_run partitioned rooted disciplined covered
  exact ⟨occupies.member, run slot below le_rfl⟩

theorem covered_object {object : Region} {block first count slot : Nat}
    (occupies : heap.Occupies object block first count) (covered : heap.Covered mem block slot)
    (atLeast : first ≤ slot) (below : slot < first + count) {s : Nat} (sAtLeast : first ≤ s)
    (sBelow : s < first + count) : heap.Covered mem block s := by
  obtain ⟨_, target, _, _, _, _, isHead, beforeSlot, run, covers⟩ :=
    covered_run partitioned rooted disciplined covered
  have notInside : target ≤ first := by
    by_contra inside
    have isInner := occupies.inner target (by omega) (by omega)
    rw [isHead.head] at isInner
    cases isInner
  have inBlock := occupies.inBlock
  apply covers
  refine Or.inr ⟨by omega, by omega, ?_⟩
  intro u uAtLeast uAtMost
  by_cases inRun : u ≤ slot
  · exact run u uAtLeast inRun
  · exact occupies.allocated u (by omega) (by omega)

end Covered

section Sweep

variable {heap : Heap} {mem : Memory} {objects : Objects} {addresses : List Nat}
  {s : MarkState} {r : SweepState} {new : List Region} {tree : BlockTree}
  (collected : MarkedAndSwept heap mem addresses s r new (heap.afterSweep tree r))

include collected

/-- The sweep adds no `OBJECT` or `ALLOCATED` bits. -/
theorem bit_of_swept {block slot : Nat} {flag : Flag} (kept : KeptFlag flag)
    (member : block ∈ tree.inorder) (has : (heap.afterSweep tree r).bit block slot flag = true) :
    block ∈ heap.tree.inorder ∧ heap.bit block slot flag = true := by
  obtain ⟨inHeap, _⟩ := collected.mem_tree.mp member
  have marked := ((collected.bit_iff member).mp has).1
  rw [collected.marked.keeps block slot flag kept] at marked
  exact ⟨inHeap, marked⟩

theorem holdsObject_of_swept {object : Region}
    (holds : (heap.afterSweep tree r).HoldsObject object) : heap.HoldsObject object := by
  obtain ⟨block, slot, count, member, place, isSize, positive, inBlock, isObject, isAllocated⟩ :=
    holds
  obtain ⟨inHeap, wasObject⟩ := bit_of_swept collected (Or.inl rfl) member isObject
  refine ⟨block, slot, count, inHeap, place, isSize, positive, ?_, wasObject, ?_⟩
  · rw [← slotCount_congr (collected.limit block)]
    exact inBlock
  · intro u atLeast below
    exact (bit_of_swept collected (Or.inr rfl) member (isAllocated u atLeast below)).2

theorem owns_of_swept {a : Nat} (owns : (heap.afterSweep tree r).Owns a) : heap.Owns a := by
  obtain ⟨block, member, above, below⟩ := owns
  rw [collected.limit] at below
  exact ⟨block, (collected.mem_tree.mp member).1, above, below⟩

variable (partitioned : heap.Partitioned mem objects) (rooted : heap.Rooted objects)
  (disciplined : heap.Disciplined mem objects)

include partitioned rooted disciplined

theorem allocated_iff_covered {block slot : Nat} (member : block ∈ tree.inorder) :
    (heap.afterSweep tree r).bit block slot .allocated = true ↔ heap.Covered mem block slot := by
  obtain ⟨inHeap, _⟩ := collected.mem_tree.mp member
  have bits := fun (inBlock : slot < slotCount heap.blocks block) =>
    collected.bits member inBlock
  constructor
  · intro isAllocated
    have wasAllocated := (bit_of_swept collected (Or.inr rfl) member isAllocated).2
    have inBlock := partitioned.allocated_inBlock inHeap wasAllocated
    exact (collected.marked.covered block inHeap slot).mp ((bits inBlock .allocated).mp isAllocated).2.1
  · intro covered
    have wasAllocated := (covered_allocated partitioned rooted disciplined covered).2
    have inBlock := partitioned.allocated_inBlock inHeap wasAllocated
    rw [bits inBlock, collected.marked.keeps block slot _ (Or.inr rfl)]
    exact ⟨wasAllocated, (collected.marked.covered block inHeap slot).mpr covered, Or.inr rfl⟩

theorem mem_of_covered {block slot : Nat} (covered : heap.Covered mem block slot) :
    block ∈ tree.inorder := by
  obtain ⟨inHeap, _⟩ := covered_allocated partitioned rooted disciplined covered
  have isMarked := (collected.marked.covered block inHeap slot).mpr covered
  exact collected.mem_tree.mpr ⟨inHeap, collected.marked.flagged block inHeap slot isMarked⟩

theorem occupies_of_covered {object : Region} {block first count slot : Nat}
    (occupies : heap.Occupies object block first count) (covered : heap.Covered mem block slot)
    (atLeast : first ≤ slot) (below : slot < first + count) :
    (heap.afterSweep tree r).Occupies object block first count := by
  have member := mem_of_covered collected partitioned rooted disciplined covered
  apply occupies.congr member (collected.limit block)
  intro u uAtLeast uBelow
  have inBlock := occupies.inBlock
  have uCovered :=
    covered_object partitioned rooted disciplined occupies covered atLeast below uAtLeast uBelow
  have isMarked := (collected.marked.covered block occupies.member u).mpr uCovered
  constructor
  · rw [Bool.eq_iff_iff, collected.bits member (by omega),
      collected.marked.keeps block u _ (Or.inl rfl)]
    simp [isMarked, KeptFlag]
  · intro _
    exact (allocated_iff_covered collected partitioned rooted disciplined member).mpr uCovered

theorem occupies_of_held {object : Region} {block first count : Nat}
    (occupies : heap.Occupies object block first count)
    (holds : (heap.afterSweep tree r).HoldsObject object) :
    heap.Covered mem block first ∧
      (heap.afterSweep tree r).Occupies object block first count := by
  obtain ⟨other, slot, member, place, inBlock, isAllocated⟩ := holds.exists_slot
  rw [slotCount_congr (collected.limit other)] at inBlock
  have positive := occupies.positive
  have oldInBlock := occupies.inBlock
  obtain ⟨sameBlock, sameSlot⟩ :=
    slot_unique partitioned.layout occupies.member (collected.mem_tree.mp member).1 (by omega)
      inBlock (occupies.place.symm.trans place)
  subst sameBlock sameSlot
  have covered :=
    (allocated_iff_covered collected partitioned rooted disciplined member).mp isAllocated
  exact
    ⟨covered,
     occupies_of_covered collected partitioned rooted disciplined occupies covered le_rfl (by omega)⟩

theorem allocatedSlots_of_swept :
    (heap.afterSweep tree r).allocatedSlots = markedSlots s.blocks heap.tree.inorder := by
  ext ⟨block, slot⟩
  rw [mem_allocatedSlots, mem_markedSlots, collected.sameCount,
    slotCount_congr (collected.limit block)]
  constructor
  · intro ⟨member, inBlock, isAllocated⟩
    obtain ⟨inHeap, isMarked⟩ := collected.mem_tree.mp member
    exact ⟨inHeap, inBlock, isMarked, ((collected.bits member inBlock .allocated).mp isAllocated).2.1⟩
  · intro ⟨inHeap, inBlock, blockMarked, isMarked⟩
    have member := collected.mem_tree.mpr ⟨inHeap, blockMarked⟩
    have covered := (collected.marked.covered block inHeap slot).mp isMarked
    exact
      ⟨member, inBlock,
       (allocated_iff_covered collected partitioned rooted disciplined member).mpr covered⟩

/-- A sweep keeps the partition, with the objects that are still held. -/
theorem Partitioned.swept :
    (heap.afterSweep tree r).Partitioned r.memory
      ((heap.afterSweep tree r).stillHeld objects) := by
  have full := collected.fullCollection partitioned.ready ⟨r.retval, rfl⟩
  refine ⟨full.layout, ?_, ⟨new, collected.freeChunks, ?_⟩, ?_, ?_, ?_, ?_, ?_⟩
  · intro block member
    obtain ⟨inHeap, isMarked⟩ := collected.mem_tree.mp member
    refine ⟨?_, ?_⟩
    · rw [collected.blocks]
      exact (collected.swept.bits block inHeap isMarked).1
    · intro slot
      have unmarked : ∀ flag, ¬ KeptFlag flag → (flag = .scanned ∨ flag = .mark) →
          (heap.afterSweep tree r).bit block slot flag = false := by
        intro flag notKept isFlag
        rw [Bool.eq_false_iff]
        intro has
        obtain ⟨before, inside⟩ := (collected.bit_iff member).mp has
        have hasMark : s.bit block slot .mark = true := by
          rcases isFlag with isScanned | isMark
          · exact collected.marked.scanned block inHeap slot (isScanned ▸ before)
          · exact isMark ▸ before
        have covered := (collected.marked.covered block inHeap slot).mp hasMark
        have isAllocated := (covered_allocated partitioned rooted disciplined covered).2
        exact notKept (inside (partitioned.allocated_inBlock inHeap isAllocated)).2
      exact
        ⟨unmarked .mark (by simp [KeptFlag]) (Or.inr rfl),
         unmarked .scanned (by simp [KeptFlag]) (Or.inl rfl)⟩
  · intro block member slot inBlock isFree
    obtain ⟨inHeap, isMarked⟩ := collected.mem_tree.mp member
    rw [slotCount_congr (collected.limit block)] at inBlock
    apply collected.swept.covers block inHeap isMarked slot (by rw [collected.sameCount]; exact inBlock)
    rw [Bool.eq_false_iff]
    intro hasMark
    have covered := (collected.marked.covered block inHeap slot).mp hasMark
    rw [(allocated_iff_covered collected partitioned rooted disciplined member).mpr covered] at isFree
    cases isFree
  · intro object isObject
    obtain ⟨wasObject, holds⟩ := mem_stillHeld.mp isObject
    obtain ⟨block, first, count, occupies⟩ := partitioned.held object wasObject
    exact
      ⟨block, first, count,
       (occupies_of_held collected partitioned rooted disciplined occupies holds).2⟩
  · intro object isObject other isOther
    exact partitioned.single object isObject.1 other isOther.1
  · intro block member slot isAllocated
    have inHeap := (collected.mem_tree.mp member).1
    have covered :=
      (allocated_iff_covered collected partitioned rooted disciplined member).mp isAllocated
    obtain ⟨object, isObject, first, count, occupies, atLeast, below⟩ :=
      partitioned.owned block inHeap slot
        (covered_allocated partitioned rooted disciplined covered).2
    have kept :=
      occupies_of_covered collected partitioned rooted disciplined occupies covered atLeast below
    exact ⟨object, ⟨isObject, kept.holdsObject⟩, first, count, kept, atLeast, below⟩
  · intro block member slot isObject
    obtain ⟨inHeap, wasObject⟩ := bit_of_swept collected (Or.inl rfl) member isObject
    have inBlock :=
      partitioned.allocated_inBlock inHeap (partitioned.flagged block inHeap slot wasObject)
    have hasMark := ((collected.bits member inBlock .object).mp isObject).2.1
    have covered := (collected.marked.covered block inHeap slot).mp hasMark
    exact (allocated_iff_covered collected partitioned rooted disciplined member).mpr covered
  · rw [allocatedSlots_of_swept collected partitioned rooted disciplined]
    have count := collected.swept.count
    simp only [Nat.zero_add] at count
    rw [← count]
    rfl

private theorem held_of_covers {object : Region} (isObject : object ∈ objects)
    (covers :
      ∀ block target slot, heap.Target object.1 block target → heap.Covers block target slot →
        heap.Covered mem block slot) :
    object ∈ (heap.afterSweep tree r).stillHeld objects := by
  obtain ⟨block, first, count, occupies⟩ := partitioned.held object isObject
  have positive := occupies.positive
  have inBlock := occupies.inBlock
  have limit := (partitioned.layout.aligned block occupies.member).1
  have place := occupies.place
  have isTarget : heap.Target object.1 block first := by
    refine ⟨?_, ?_, occupies.head_allocated⟩
    · rw [BlockTree.find_eq_some_iff partitioned.layout.ordered, place]
      refine ⟨occupies.member, by omega, ?_⟩
      simp only [slotSize] at limit ⊢
      omega
    · rw [place]
      simp only [slotSize]
      omega
  have coversHead : heap.Covers block first first := by
    refine Or.inr ⟨le_rfl, by omega, ?_⟩
    intro u uAtLeast uAtMost
    exact occupies.allocated u uAtLeast (by omega)
  have covered := covers block first first isTarget coversHead
  have kept :=
    occupies_of_covered collected partitioned rooted disciplined occupies covered le_rfl (by omega)
  exact ⟨isObject, kept.holdsObject⟩

private theorem proper_of_covers {value : Nat} (proper : heap.Proper objects value)
    (covers :
      ∀ block target slot, heap.Target value block target → heap.Covers block target slot →
        heap.Covered mem block slot) :
    (heap.afterSweep tree r).Proper ((heap.afterSweep tree r).stillHeld objects) value := by
  rcases proper with isNull | notOwned | ⟨object, isObject, isFirst⟩
  · exact Or.inl isNull
  · exact Or.inr (Or.inl fun owns => notOwned (owns_of_swept collected owns))
  · rw [← isFirst] at covers ⊢
    have held := held_of_covers collected partitioned rooted disciplined isObject covers
    exact Or.inr (Or.inr ⟨object, held, rfl⟩)

theorem Rooted.swept :
    (heap.afterSweep tree r).Rooted ((heap.afterSweep tree r).stillHeld objects) := by
  rcases rooted with isObject | outside
  · apply Or.inl
    apply held_of_covers collected partitioned (Or.inl isObject) disciplined isObject
    intro block target slot isTarget covers
    exact Covered.root (Or.inl rfl) isTarget covers
  · exact Or.inr fun a isRoot owns => outside a isRoot (owns_of_swept collected owns)

theorem root_unchanged {a : Nat} (isRoot : heap.rootRegion.HasWord a) : r.memory a = mem a := by
  have full := collected.fullCollection partitioned.ready ⟨r.retval, rfl⟩
  obtain ⟨_, above, below⟩ := isRoot
  rcases rooted with isObject | outside
  · have still :=
      held_of_covers collected partitioned (Or.inl isObject) disciplined isObject
        (fun block target slot isTarget covers => Covered.root (Or.inl rfl) isTarget covers)
    obtain ⟨block, first, count, occupies⟩ := partitioned.held _ isObject
    obtain ⟨covered, _⟩ :=
      occupies_of_held collected partitioned (Or.inl isObject) disciplined occupies still.2
    obtain ⟨slot, atLeast, inObject, inSlot⟩ :=
      inSlot_of_object occupies.place occupies.isSize above below
    have inBlock := occupies.inBlock
    have slotCovered :=
      covered_object partitioned (Or.inl isObject) disciplined occupies covered le_rfl
        (by omega) atLeast inObject
    exact (full.keeps block occupies.member slot (by omega) slotCovered).2.2 a inSlot
  · apply full.frame
    apply outside
    simp only [rootRegion] at above below
    exact Or.inr ⟨above, by omega⟩

theorem Disciplined.swept :
    (heap.afterSweep tree r).Disciplined r.memory
      ((heap.afterSweep tree r).stillHeld objects) := by
  have full := collected.fullCollection partitioned.ready ⟨r.retval, rfl⟩
  constructor
  · intro a isRoot
    have isOldRoot : heap.rootRegion.HasWord a := isRoot
    rw [root_unchanged collected partitioned rooted disciplined isOldRoot]
    apply proper_of_covers collected partitioned rooted disciplined (disciplined.root a isOldRoot)
    intro block target slot isTarget covers
    exact Covered.root (Or.inr ⟨a, isOldRoot, rfl⟩) isTarget covers
  · intro block member slot isAllocated a isWord
    have covered :=
      (allocated_iff_covered collected partitioned rooted disciplined member).mp isAllocated
    obtain ⟨inHeap, wasAllocated⟩ := covered_allocated partitioned rooted disciplined covered
    have inSlot : InSlot block slot a := by
      obtain ⟨_, above, below⟩ := isWord
      simp only [slotRegion, slotSize] at above below
      simp only [InSlot, slotSize]
      omega
    rw [(full.keeps block inHeap slot (partitioned.allocated_inBlock inHeap wasAllocated)
      covered).2.2 a inSlot]
    apply proper_of_covers collected partitioned rooted disciplined
      (disciplined.stored block inHeap slot wasAllocated a isWord)
    intro other target u isTarget covers
    exact Covered.slot covered isWord isTarget covers

end Sweep

end Heap

end Rcgo.Storage
