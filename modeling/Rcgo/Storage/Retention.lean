import Rcgo.Storage.Sweeping

/-!
# Retention

A collection keeps the objects that are reachable from the root, provided that
their first slots are covered.
-/

namespace Rcgo.Storage

open Rcgo.Foundation

/-! ## The storage of a heap -/

namespace Heap

def Owns (heap : Heap) (address : Nat) : Prop :=
  ∃ block ∈ heap.tree.inorder, block ≤ address ∧ address < (heap.blocks block).limit

theorem Layout.congr {heap : Heap} {mem other : Memory} (layout : heap.Layout mem)
    (same : ∀ a, heap.Owns a → other a = mem a) : heap.Layout other := by
  obtain ⟨ordered, aligned, blockSize, chunks, free⟩ := layout
  refine ⟨ordered, aligned, blockSize, chunks, ?_, free.run, free.apart⟩
  apply free.segment.congr
  intro region member
  obtain ⟨block, inTree, slot, inBlock, _, first, second⟩ := (free.run region member).header
  exact
    ⟨same _ ⟨block, inTree, first.inside inBlock⟩,
     same _ ⟨block, inTree, second.inside inBlock⟩⟩

theorem HoldsObject.owns {heap : Heap} {object : Region} (holds : heap.HoldsObject object)
    {address : Nat} (above : object.1 ≤ address) (below : address < object.1 + object.2) :
    heap.Owns address := by
  obtain ⟨block, slot, count, inTree, place, isSize, _, inBlock, _⟩ := holds
  obtain ⟨_, _, enough, _⟩ := roundedSize_eq object.2
  refine ⟨block, inTree, by omega, ?_⟩
  rw [isSize] at enough
  simp only [slotCount, slotSize] at *
  omega

end Heap

namespace HeapList

/-- The address lies in a block of one of the heaps. -/
def Owns : HeapList → Nat → Prop
  | nil, _ => False
  | cons _ heap child next, address =>
      heap.Owns address ∨ child.Owns address ∨ next.Owns address

def Ready : HeapList → Prop
  | nil => True
  | cons _ heap child next => heap.Ready ∧ child.Ready ∧ next.Ready

/-- All the heaps have been built by constructors and allocations. -/
def Built (mem : Memory) : HeapList → Prop
  | nil => True
  | cons _ heap child next =>
      (∃ objects, Storage.Built objects heap mem) ∧ child.Built mem ∧ next.Built mem

end HeapList

theorem Built.ready {objects : List Region} {heap : Heap} {mem : Memory}
    (built : Built objects heap mem) : heap.Ready := by
  obtain ⟨layout, clean, headed, _⟩ := built.spec
  exact ⟨layout.ordered, layout.aligned, clean, headed⟩

theorem HeapList.Built.ready {mem : Memory} :
    ∀ {list : HeapList}, list.Built mem → list.Ready
  | .nil, _ => trivial
  | .cons _ _ _ _, built => by
      obtain ⟨⟨objects, heapBuilt⟩, child, next⟩ := built
      exact ⟨heapBuilt.ready, child.ready, next.ready⟩

/-! ## The collection of one heap -/

namespace Heap

def Due (force : Bool) (heap : Heap) : Prop :=
  force = true ∨ heap.allocatedSize > heap.nextCollectionSize

/-- What a full collection has done to the heap itself, when the memory is `mem`
before and `sweptMem` after the sweep. -/
structure FullCollection (heap : Heap) (mem : Memory) (addresses reachable : List Nat)
    (after : Heap) (sweptMem : Memory) : Prop where
  layout : after.Layout sweptMem
  blocks :
    ∀ block ∈ after.tree.inorder, block ∈ heap.tree.inorder ∧
      (after.blocks block).limit = (heap.blocks block).limit
  keeps :
    ∀ block ∈ heap.tree.inorder, ∀ slot, slot < slotCount heap.blocks block →
      heap.Covered mem block slot →
        block ∈ after.tree.inorder ∧
          (∀ flag, KeptFlag flag → after.bit block slot flag = heap.bit block slot flag) ∧
          ∀ a, InSlot block slot a → sweptMem a = mem a
  clears :
    ∀ block ∈ after.tree.inorder, ∀ slot, slot < slotCount heap.blocks block →
      ¬ heap.Covered mem block slot → after.bit block slot .allocated = false
  frame : ∀ a, ¬ heap.Owns a → sweptMem a = mem a
  children :
    ∀ value ∈ addresses, ¬ heap.Owns value →
      ((∃ a, heap.rootRegion.HasWord a ∧ value = mem a) ∨
        ∃ block slot a, heap.Covered mem block slot ∧ (slotRegion block slot).HasWord a ∧
          value = mem a) →
        value ∈ reachable

/-- The heap has been marked and its blocks have been swept. -/
structure MarkedAndSwept (heap : Heap) (mem : Memory) (addresses : List Nat) (s : MarkState)
    (r : SweepState) (new : List Region) (after : Heap) : Prop where
  marked : Marked heap mem addresses s
  swept : Swept heap.tree.inorder ⟨s.blocks, mem, 0, 0⟩ r new
  tree :
    after.tree.inorder = heap.tree.inorder.filter (fun block => (s.blocks block).marked)
  blocks : after.blocks = r.blocks
  freeListHead : after.freeListHead = r.freeListHead

namespace MarkedAndSwept

variable {heap after : Heap} {mem : Memory} {addresses : List Nat} {s : MarkState}
  {r : SweepState} {new : List Region}
  (collected : MarkedAndSwept heap mem addresses s r new after)

include collected

theorem limit (block : Nat) : (after.blocks block).limit = (heap.blocks block).limit := by
  rw [collected.blocks, collected.swept.limit]
  exact collected.marked.limit block

theorem mem_tree {block : Nat} :
    block ∈ after.tree.inorder ↔
      block ∈ heap.tree.inorder ∧ (s.blocks block).marked = true := by
  rw [collected.tree, List.mem_filter]

theorem sameCount (block : Nat) : slotCount s.blocks block = slotCount heap.blocks block :=
  slotCount_congr (collected.marked.limit block)

theorem bit_iff {block slot : Nat} {flag : Flag} (member : block ∈ after.tree.inorder) :
    after.bit block slot flag = true ↔
      s.bit block slot flag = true ∧
        (slot < slotCount heap.blocks block →
          s.bit block slot .mark = true ∧ KeptFlag flag) := by
  obtain ⟨inHeap, isMarked⟩ := collected.mem_tree.mp member
  have spec := (collected.swept.bits block inHeap isMarked).2 slot flag
  simp only [collected.sameCount] at spec
  rw [bit, collected.blocks]
  exact spec

theorem bits {block slot : Nat} (member : block ∈ after.tree.inorder)
    (inBlock : slot < slotCount heap.blocks block) (flag : Flag) :
    after.bit block slot flag = true ↔
      s.bit block slot flag = true ∧ s.bit block slot .mark = true ∧ KeptFlag flag := by
  rw [collected.bit_iff member]
  simp only [inBlock, forall_const]

theorem freeChunks : after.FreeChunks r.memory new := by
  refine ⟨?_, ?_, collected.swept.apart⟩
  · rw [collected.freeListHead, ← List.append_nil new]
    exact collected.swept.segment [] rfl fun region member => absurd member List.not_mem_nil
  · intro region member
    obtain ⟨block, inHeap, isMarked, first, last, isRegion, _, nonempty, inBlock, unmarked⟩ :=
      collected.swept.runs region member
    simp only [collected.sameCount] at inBlock
    have inAfter := collected.mem_tree.mpr ⟨inHeap, isMarked⟩
    refine ⟨block, first, last, inAfter, isRegion, nonempty, ?_, ?_⟩
    · rw [slotCount_congr (collected.limit block)]
      exact inBlock
    · intro slot atLeast below
      rw [Bool.eq_false_iff]
      intro isAllocated
      have kept := (collected.bits inAfter (by omega) .allocated).mp isAllocated
      have isUnmarked : s.bit block slot .mark = false := unmarked slot atLeast below
      rw [isUnmarked] at kept
      exact absurd kept.2.1 (by decide)

/-- Marking and sweeping. -/
theorem fullCollection (ready : heap.Ready)
    (blockSize : ∃ slots, after.nextBlockSize = slots * slotSize) :
    FullCollection heap mem addresses s.reachable after r.memory := by
  have marked := collected.marked
  have notFreed :
      ∀ a, Freed s.blocks heap.tree.inorder a →
        ∃ block ∈ heap.tree.inorder, ∃ slot, slot < slotCount heap.blocks block ∧
          ¬ heap.Covered mem block slot ∧ InSlot block slot a := by
    intro a freed
    obtain ⟨block, member, _, slot, inBlock, unmarked, inSlot⟩ := freed
    rw [collected.sameCount] at inBlock
    refine ⟨block, member, slot, inBlock, ?_, inSlot⟩
    rw [← marked.covered block member slot]
    exact Bool.eq_false_iff.mp unmarked
  refine ⟨?_, ?_, ?_, ?_, ?_, ?_⟩
  · refine ⟨?_, ?_, blockSize, new, collected.freeChunks⟩
    · rw [collected.tree]
      exact (ready.ordered.sublist List.filter_sublist).congr fun block _ => collected.limit block
    · intro block member
      rw [slotCount_congr (collected.limit block), collected.limit block]
      exact ready.aligned block (collected.mem_tree.mp member).1
  · intro block member
    exact ⟨(collected.mem_tree.mp member).1, collected.limit block⟩
  · intro block member slot inBlock covered
    have isMarked := (marked.covered block member slot).mpr covered
    have inAfter := collected.mem_tree.mpr ⟨member, marked.flagged block member slot isMarked⟩
    refine ⟨inAfter, ?_, ?_⟩
    · intro flag kept
      rw [Bool.eq_iff_iff, collected.bits inAfter inBlock, marked.keeps block slot flag kept]
      simp [isMarked, kept]
    · intro a inSlot
      apply collected.swept.memory a
      intro freed
      obtain ⟨other, otherMember, otherSlot, otherInBlock, notCovered, otherInSlot⟩ :=
        notFreed a freed
      have here := inSlot.inside inBlock
      have there := otherInSlot.inside otherInBlock
      rcases ready.ordered.eq_or_apart member otherMember with same | apart
      · subst same
        simp only [InSlot, slotSize] at inSlot otherInSlot
        have sameSlot : slot = otherSlot := by omega
        rw [← sameSlot] at notCovered
        exact notCovered covered
      · omega
  · intro block member slot inBlock notCovered
    have inHeap := (collected.mem_tree.mp member).1
    rw [Bool.eq_false_iff, Ne, collected.bits member inBlock, marked.covered block inHeap slot]
    exact fun all => notCovered all.2.1
  · intro a notOwned
    apply collected.swept.memory a
    intro freed
    obtain ⟨block, member, above, below⟩ := freed.inside
    simp only [marked.limit] at below
    exact notOwned ⟨block, member, above, below⟩
  · intro value isChild notOwned held
    apply marked.reachable value isChild _ held
    cases found : heap.tree.find heap.blocks value with
    | none => rfl
    | some block =>
        obtain ⟨member, inside⟩ := (BlockTree.find_eq_some_iff ready.ordered).mp found
        exact absurd ⟨block, member, inside⟩ notOwned

end MarkedAndSwept

theorem sweep_marked {heap : Heap} {mem : Memory} {addresses : List Nat} {s : MarkState}
    (ready : heap.Ready) (marked : Marked heap mem addresses s) :
    ∃ new,
      MarkedAndSwept heap mem addresses s (sweep heap.tree ⟨s.blocks, mem, 0, 0⟩).2 new
        (heap.afterSweep (sweep heap.tree ⟨s.blocks, mem, 0, 0⟩).1
          (sweep heap.tree ⟨s.blocks, mem, 0, 0⟩).2) := by
  have limit : ∀ block ∈ heap.tree.inorder,
      (s.blocks block).limit = (heap.blocks block).limit :=
    fun block _ => marked.limit block
  obtain ⟨new, isTree, swept⟩ :=
    sweep_spec heap.tree ⟨s.blocks, mem, 0, 0⟩ (ready.ordered.congr limit)
      (fun block member => (ready.aligned block member).2.1)
  exact ⟨new, marked, swept, isTree, rfl, rfl⟩

section CollectHeap

variable {heap : Heap} (mem : Memory) {force : Bool} (addresses : List Nat)
  {children :
    Nat → Option (List Nat) → Memory → Outcome HeapFault (HeapList × Memory × Bool)}
  (returns :
    ∀ keep mem, ∃ r, Outcome.Returns (fun depth => children depth keep mem) r)

include returns

theorem collectHeap_swept (ready : heap.Ready) (due : Due force heap) :
    ∃ s new tree r result collected,
      Outcome.Returns
          (fun depth => collectHeap depth force heap addresses (children depth) mem) result ∧
        Outcome.Returns (fun depth => children depth (some s.reachable) r.memory)
          (result.child, result.memory, collected) ∧
        result.heap = heap.afterSweep tree r ∧
          MarkedAndSwept heap mem addresses s r new (heap.afterSweep tree r) := by
  obtain ⟨s, marks, marked⟩ := mark_spec ready mem addresses
  obtain ⟨new, swept⟩ := sweep_marked ready marked
  obtain ⟨⟨tree, r⟩, isSwept⟩ : ∃ p, p = sweep heap.tree ⟨s.blocks, mem, 0, 0⟩ := ⟨_, rfl⟩
  rw [← isSwept] at swept
  obtain ⟨⟨child, childMem, collected⟩, childReturns⟩ := returns (some s.reachable) r.memory
  refine ⟨s, new, tree, r, ⟨heap.afterSweep tree r, child, childMem, true⟩, collected, ?_,
    childReturns, rfl, swept⟩
  have isDue : force = true ∨ heap.allocatedSize > heap.nextCollectionSize := due
  simp only [collectHeap, if_pos isDue]
  apply marks.bind
  simp only [← isSwept]
  apply childReturns.bind
  exact Outcome.Returns.of_forall fun _ => rfl

theorem collectHeap_due (ready : heap.Ready) (due : Due force heap) :
    ∃ reachable sweptMem result collected,
      Outcome.Returns
          (fun depth => collectHeap depth force heap addresses (children depth) mem) result ∧
        Outcome.Returns (fun depth => children depth (some reachable) sweptMem)
          (result.child, result.memory, collected) ∧
        FullCollection heap mem addresses reachable result.heap sweptMem := by
  obtain ⟨s, new, tree, r, result, collected, heapReturns, childReturns, isHeap, swept⟩ :=
    collectHeap_swept mem addresses returns ready due
  refine ⟨s.reachable, r.memory, result, collected, heapReturns, childReturns, ?_⟩
  rw [isHeap]
  exact swept.fullCollection ready ⟨r.retval, rfl⟩

omit returns in
theorem collectHeap_notDue (notDue : ¬ Due force heap) {child : HeapList} {childMem : Memory}
    {collected : Bool}
    (childReturns :
      Outcome.Returns (fun depth => children depth none mem) (child, childMem, collected)) :
    Outcome.Returns (fun depth => collectHeap depth force heap addresses (children depth) mem)
      ⟨heap, child, childMem, collected⟩ := by
  have isNotDue : ¬ (force = true ∨ heap.allocatedSize > heap.nextCollectionSize) := notDue
  simp only [collectHeap, if_neg isNotDue]
  apply childReturns.bind
  exact Outcome.Returns.of_forall fun _ => rfl

end CollectHeap

/-- What a collection does to memory outside of the heaps, and which children
it keeps. -/
structure ChildrenCollected (list : HeapList) (keep : Option (List Nat)) (mem : Memory)
    (r : HeapList × Memory × Bool) : Prop where
  frame : ∀ a, ¬ list.Owns a → r.2.1 a = mem a
  keeps :
    ∀ address ∈ list.addresses,
      (∀ reachable, keep = some reachable → address ∈ reachable) → address ∈ r.1.addresses

theorem collectHeap_frame {heap : Heap} (force : Bool) {child : HeapList} (ready : heap.Ready)
    (childCollected :
      ∀ keep mem, ∃ r, Outcome.Returns (fun depth => collectChildren depth child keep mem) r ∧
        ChildrenCollected child keep mem r) (mem : Memory) :
    ∃ result,
      Outcome.Returns
          (fun depth =>
            collectHeap depth force heap child.addresses (collectChildren depth child) mem)
          result ∧
        ∀ a, ¬ heap.Owns a → ¬ child.Owns a → result.memory a = mem a := by
  have returns :
      ∀ keep mem, ∃ r, Outcome.Returns (fun depth => collectChildren depth child keep mem) r := by
    intro keep mem
    obtain ⟨r, childReturns, _⟩ := childCollected keep mem
    exact ⟨r, childReturns⟩
  by_cases due : Due force heap
  · obtain ⟨reachable, sweptMem, result, collected, heapReturns, childReturns, full⟩ :=
      collectHeap_due mem child.addresses returns ready due
    obtain ⟨r, rReturns, spec⟩ := childCollected (some reachable) sweptMem
    have same := rReturns.unique childReturns
    refine ⟨result, heapReturns, ?_⟩
    intro a notOwned notChild
    have unchanged := spec.frame a notChild
    rw [same] at unchanged
    exact unchanged.trans (full.frame a notOwned)
  · obtain ⟨⟨list, childMem, collected⟩, childReturns, spec⟩ := childCollected none mem
    refine ⟨_, collectHeap_notDue mem child.addresses due childReturns, ?_⟩
    intro a _ notChild
    exact spec.frame a notChild

/-- The collection of the children returns. -/
theorem collectChildren_spec :
    ∀ (list : HeapList), list.Ready → ∀ keep mem,
      ∃ r, Outcome.Returns (fun depth => collectChildren depth list keep mem) r ∧
        ChildrenCollected list keep mem r
  | .nil, _, keep, mem => by
      refine ⟨(.nil, mem, false), Outcome.Returns.of_forall fun _ => rfl, fun _ _ => rfl, ?_⟩
      intro address member
      exact absurd member List.not_mem_nil
  | .cons address heap child next, ready, keep, mem => by
      obtain ⟨heapReady, childReady, nextReady⟩ := ready
      have childSpec := collectChildren_spec child childReady
      have nextSpec := collectChildren_spec next nextReady keep
      by_cases isKept : (keep.all fun reachable => decide (address ∈ reachable)) = true
      · obtain ⟨here, hereReturns, hereFrame⟩ :=
          collectHeap_frame false heapReady childSpec mem
        obtain ⟨⟨rest, restMem, collected⟩, restReturns, restSpec⟩ := nextSpec here.memory
        refine ⟨(.cons address here.heap here.child rest, restMem, here.retval || collected),
          ?_, ?_, ?_⟩
        · simp only [collectChildren, if_pos isKept]
          apply hereReturns.bind
          apply restReturns.bind
          exact Outcome.Returns.of_forall fun _ => rfl
        · intro a notOwned
          simp only [HeapList.Owns, not_or] at notOwned
          exact
            (restSpec.frame a notOwned.2.2).trans (hereFrame a notOwned.1 notOwned.2.1)
        · intro value member kept
          rcases List.mem_cons.mp member with isHere | inRest
          · rw [isHere]
            exact List.mem_cons_self
          · exact List.mem_cons_of_mem _ (restSpec.keeps value inRest kept)
      · obtain ⟨r, restReturns, restSpec⟩ := nextSpec mem
        refine ⟨r, ?_, ?_, ?_⟩
        · simp only [collectChildren, if_neg isKept]
          exact restReturns
        · intro a notOwned
          simp only [HeapList.Owns, not_or] at notOwned
          exact restSpec.frame a notOwned.2.2
        · intro value member kept
          rcases List.mem_cons.mp member with isHere | inRest
          · exfalso
            apply isKept
            cases keep with
            | none => rfl
            | some reachable =>
                have isReachable := kept reachable rfl
                rw [isHere] at isReachable
                exact decide_eq_true isReachable
          · exact restSpec.keeps value inRest kept

end Heap

/-! ## Reachable objects -/

namespace Heap

/-- The objects that are reachable from the root: some word of the root or of
a reachable object holds an address in them.  The address of the root itself
counts as well. -/
inductive Reachable (heap : Heap) (objects : List Region) (mem : Memory) : Region → Prop
  | root {object value} :
      object ∈ objects → heap.RootValue mem value → object.1 ≤ value →
        value < object.1 + object.2 → Reachable heap objects mem object
  | object {source object a} :
      Reachable heap objects mem source → source.HasWord a → object ∈ objects →
        object.1 ≤ mem a → mem a < object.1 + object.2 → Reachable heap objects mem object

/-- The value is in a word of the root or of a reachable object. -/
def Held (heap : Heap) (objects : List Region) (mem : Memory) (value : Nat) : Prop :=
  (∃ a, heap.rootRegion.HasWord a ∧ value = mem a) ∨
    ∃ object a, heap.Reachable objects mem object ∧ object.HasWord a ∧ value = mem a

def HeadCovered (heap : Heap) (mem : Memory) (object : Region) : Prop :=
  ∃ block slot, block ∈ heap.tree.inorder ∧ object.1 = block + slot * slotSize ∧
    heap.Covered mem block slot

end Heap

/-- The object is kept whole by a collection that leaves the heap `after`. -/
structure Retained (mem : Memory) (object : Region) (after : Heap) (afterMem : Memory) :
    Prop where
  /-- its slots are allocated and the first one carries `OBJECT` -/
  held : after.HoldsObject object
  contents :
    ∀ a, object.1 ≤ a → a < object.1 + object.2 → afterMem a = mem a
  notFree :
    ∀ chunks, FreeSegment afterMem after.freeListHead chunks 0 →
      ∀ chunk ∈ chunks, Region.Apart chunk object
  /-- no later allocation overlaps it -/
  later :
    ∀ objects last lastMem, Uses after afterMem objects last lastMem →
      ∀ new ∈ objects, Region.Apart new object

/-- A collection retains everything that is reachable: the objects and the
child heaps. -/
def Retains (heap : Heap) (objects : List Region) (child : HeapList) (mem : Memory)
    (result : Heap.Collected) : Prop :=
  (∀ object, heap.Reachable objects mem object →
    Retained mem object result.heap result.memory) ∧
    ∀ address ∈ child.addresses, heap.Held objects mem address →
      address ∈ result.child.addresses

theorem FreeRun.apart_object
    {heap : Heap} {region object : Region} (run : FreeRun heap.tree heap.blocks region)
    (ordered : BlockTree.Ordered heap.blocks heap.tree.inorder)
    (holds : heap.HoldsObject object) : Region.Apart region object := by
  obtain ⟨other, first, last, otherInTree, isRegion, nonempty, otherInBlock, free⟩ := run
  obtain ⟨block, slot, count, inTree, place, isSize, positive, inBlock, _, isAllocated⟩ := holds
  obtain ⟨_, _, enough, _⟩ := roundedSize_eq object.2
  rw [isSize] at enough
  simp only [Region.Apart, isRegion, place]
  rcases ordered.eq_or_apart otherInTree inTree with same | apart
  · subst same
    have disjoint : last ≤ slot ∨ slot + count ≤ first := by
      by_contra overlap
      have isFree := free (max slot first) (by omega) (by omega)
      have inObject := isAllocated (max slot first) (by omega) (by omega)
      rw [Heap.bit, isFree] at inObject
      cases inObject
    simp only [slotSize] at *
    omega
  · simp only [slotCount, slotSize] at *
    omega

theorem retained_of_layout
    {mem afterMem : Memory} {object : Region} {after : Heap}
    (layout : after.Layout afterMem) (held : after.HoldsObject object)
    (contents : ∀ a, object.1 ≤ a → a < object.1 + object.2 → afterMem a = mem a) :
    Retained mem object after afterMem := by
  refine ⟨held, contents, ?_, ?_⟩
  · intro chunks segment chunk member
    obtain ⟨listed, free⟩ := layout.free
    rw [segment.unique free.segment] at member
    exact (free.run chunk member).apart_object layout.ordered held
  · intro objects last lastMem uses
    exact ((uses.spec layout).2.2.2.2 object held).2

namespace Heap

variable {heap : Heap} {mem : Memory}

theorem Covered.covers {block target slot : Nat} (covered : heap.Covered mem block target)
    (covers : heap.Covers block target slot) : heap.Covered mem block slot := by
  cases covered with
  | root isRoot isTarget before => exact Covered.root isRoot isTarget (before.trans covers)
  | slot isCovered isWord isTarget before =>
      exact Covered.slot isCovered isWord isTarget (before.trans covers)

theorem HoldsObject.covered {object : Region} (ready : heap.Ready)
    (holds : heap.HoldsObject object) (headCovered : heap.HeadCovered mem object) :
    ∃ block slot count,
      block ∈ heap.tree.inorder ∧ object.1 = block + slot * slotSize ∧
        roundedSize object.2 = count * slotSize ∧ 0 < count ∧
        slot + count ≤ slotCount heap.blocks block ∧
        heap.bit block slot .object = true ∧
        ∀ s, slot ≤ s → s < slot + count →
          heap.bit block s .allocated = true ∧ heap.Covered mem block s := by
  obtain ⟨block, slot, count, inTree, place, isSize, positive, inBlock, isObject,
    isAllocated⟩ := holds
  obtain ⟨other, otherSlot, otherInTree, otherPlace, covered⟩ := headCovered
  have otherInBlock := (covered.inBlock ready).2
  have sameBlock : other = block := by
    rcases ready.ordered.eq_or_apart otherInTree inTree with same | apart
    · exact same
    · simp only [slotCount, slotSize] at *
      omega
  subst sameBlock
  have sameSlot : otherSlot = slot := by
    simp only [slotSize] at *
    omega
  subst sameSlot
  refine ⟨other, otherSlot, count, inTree, place, isSize, positive, inBlock, isObject, ?_⟩
  intro s atLeast below
  refine ⟨isAllocated s atLeast below, covered.covers (Or.inr ⟨atLeast, by omega, ?_⟩)⟩
  exact fun u above atMost => isAllocated u above (by omega)

theorem inSlot_of_object
    {object : Region} {block slot count a : Nat} (place : object.1 = block + slot * slotSize)
    (isSize : roundedSize object.2 = count * slotSize) (above : object.1 ≤ a)
    (below : a < object.1 + object.2) :
    ∃ s, slot ≤ s ∧ s < slot + count ∧ InSlot block s a := by
  obtain ⟨_, _, enough, _⟩ := roundedSize_eq object.2
  rw [isSize] at enough
  refine ⟨(a - block) / slotSize, ?_⟩
  simp only [InSlot, slotSize] at *
  omega

end Heap

/-- The child heaps have storage of their own. -/
structure Separate (heap : Heap) (child : HeapList) : Prop where
  storage : ∀ a, heap.Owns a → ¬ child.Owns a
  addresses : ∀ address ∈ child.addresses, ¬ heap.Owns address

theorem Heap.Reachable.mem {heap : Heap} {objects : List Region} {mem : Memory}
    {object : Region} (reachable : heap.Reachable objects mem object) : object ∈ objects := by
  cases reachable with
  | root member => exact member
  | object _ _ member => exact member

section Collection

variable {objects : List Region} {heap : Heap} {mem : Memory} {child : HeapList} {force : Bool}
  (built : Built objects heap mem) (childBuilt : child.Built mem)
  (separate : Separate heap child)

include built separate

private theorem retains_of_notDue {result : Heap.Collected} (isHeap : result.heap = heap)
    (spec : Heap.ChildrenCollected child none mem (result.child, result.memory, result.retval)) :
    Retains heap objects child mem result := by
  obtain ⟨layout, _, _, held⟩ := built.spec
  have unchanged : ∀ a, heap.Owns a → result.memory a = mem a :=
    fun a owned => spec.frame a (separate.storage a owned)
  constructor
  · intro object reachable
    have holds := held object reachable.mem
    rw [isHeap]
    apply retained_of_layout (layout.congr unchanged) holds
    exact fun a above below => unchanged a (holds.owns above below)
  · intro address member _
    apply spec.keeps address member
    intro reachable impossible
    cases impossible

/-- A full collection retains everything reachable if the first slots of the
reachable objects are covered. -/
private theorem retains_of_headCovered {reachable : List Nat} {sweptMem : Memory}
    {result : Heap.Collected} {collected : Bool}
    (full : heap.FullCollection mem child.addresses reachable result.heap sweptMem)
    (spec :
      Heap.ChildrenCollected child (some reachable) sweptMem
        (result.child, result.memory, collected))
    (covered : ∀ object, heap.Reachable objects mem object → heap.HeadCovered mem object) :
    Retains heap objects child mem result := by
  obtain ⟨_, _, _, held⟩ := built.spec
  have ready := built.ready
  have unchanged : ∀ a, heap.Owns a → result.memory a = sweptMem a :=
    fun a owned => spec.frame a (separate.storage a owned)
  have layout : result.heap.Layout result.memory := by
    apply full.layout.congr
    intro a owned
    obtain ⟨block, inAfter, above, below⟩ := owned
    obtain ⟨inTree, limit⟩ := full.blocks block inAfter
    exact unchanged a ⟨block, inTree, above, limit ▸ below⟩
  constructor
  · intro object isReachable
    have holds := held object isReachable.mem
    obtain ⟨block, slot, count, inTree, place, isSize, positive, inBlock, isObject, slots⟩ :=
      holds.covered ready (covered object isReachable)
    have kept :
        ∀ s, slot ≤ s → s < slot + count → _ :=
      fun s atLeast below => full.keeps block inTree s (by omega) (slots s atLeast below).2
    have head := kept slot le_rfl (by omega)
    apply retained_of_layout layout
    · refine ⟨block, slot, count, head.1, place, isSize, positive, ?_, ?_, ?_⟩
      · rw [slotCount_congr (full.blocks block head.1).2]
        exact inBlock
      · rw [head.2.1 .object (Or.inl rfl)]
        exact isObject
      · intro s atLeast below
        rw [(kept s atLeast below).2.1 .allocated (Or.inr rfl)]
        exact (slots s atLeast below).1
    · intro a above below
      obtain ⟨s, atLeast, beforeEnd, inSlot⟩ := Heap.inSlot_of_object place isSize above below
      rw [unchanged a (holds.owns above below)]
      exact (kept s atLeast beforeEnd).2.2 a inSlot
  · intro address member isHeld
    apply spec.keeps address member
    intro list isList
    rw [Option.some.injEq] at isList
    subst isList
    apply full.children address member (separate.addresses address member)
    rcases isHeld with inRoot | ⟨object, a, isReachable, isWord, isValue⟩
    · exact Or.inl inRoot
    · obtain ⟨block, slot, count, _, place, isSize, _, _, _, slots⟩ :=
        (held object isReachable.mem).covered ready (covered object isReachable)
      obtain ⟨s, atLeast, beforeEnd, inSlot⟩ :=
        Heap.inSlot_of_object place isSize isWord.2.1 isWord.2.2
      refine Or.inr ⟨block, s, a, (slots s atLeast beforeEnd).2, ⟨isWord.1, inSlot.1, ?_⟩, isValue⟩
      have below := inSlot.2
      simp only [slotRegion, slotSize] at below ⊢
      omega

omit built separate in
private theorem headCovered_of_held {reachable : List Nat} {sweptMem : Memory} {after : Heap}
    {addresses : List Nat} {object : Region}
    (full : heap.FullCollection mem addresses reachable after sweptMem)
    (holds : after.HoldsObject object) : heap.HeadCovered mem object := by
  obtain ⟨block, slot, count, inAfter, place, _, positive, inBlock, _, isAllocated⟩ := holds
  obtain ⟨inTree, limit⟩ := full.blocks block inAfter
  rw [slotCount_congr limit] at inBlock
  refine ⟨block, slot, inTree, place, ?_⟩
  by_contra notCovered
  have cleared := full.clears block inAfter slot (by omega) notCovered
  rw [isAllocated slot le_rfl (by omega)] at cleared
  cases cleared

include childBuilt

/-- A collection returns, and it retains everything that is reachable if and
only if it is not a full one or the first slot of every reachable object is
covered. -/
theorem collectGarbage_retains_iff :
    ∃ result,
      Outcome.Returns (fun depth => Heap.collectGarbage depth force heap child mem) result ∧
        (Retains heap objects child mem result ↔
          ¬ Heap.Due force heap ∨
            ∀ object, heap.Reachable objects mem object → heap.HeadCovered mem object) := by
  have childSpec := Heap.collectChildren_spec child childBuilt.ready
  by_cases due : Heap.Due force heap
  · obtain ⟨reachable, sweptMem, result, collected, returns, childReturns, full⟩ :=
      Heap.collectHeap_due mem child.addresses
        (fun keep mem => (childSpec keep mem).imp fun _ => And.left) built.ready due
    obtain ⟨r, rReturns, spec⟩ := childSpec (some reachable) sweptMem
    rw [rReturns.unique childReturns] at spec
    refine ⟨result, returns, ?_, ?_⟩
    · intro retains
      right
      intro object isReachable
      exact headCovered_of_held full (retains.1 object isReachable).held
    · intro either
      rcases either with notDue | covered
      · exact absurd due notDue
      · exact retains_of_headCovered built separate full spec covered
  · obtain ⟨⟨list, childMem, collected⟩, childReturns, spec⟩ := childSpec none mem
    refine ⟨⟨heap, list, childMem, collected⟩, Heap.collectHeap_notDue mem child.addresses due childReturns, ?_⟩
    exact
      ⟨fun _ => Or.inl due, fun _ => retains_of_notDue built separate rfl spec⟩

end Collection

/-- The first allocation for a root of one word at address 64: an object of
five slots at address 1024. -/
def fiveSlots : Nat × Heap × Memory :=
  match Heap.allocate 1 1024 80 (Heap.external 64 8) (fun _ => 0) with
  | .ok allocated => allocated
  | _ => (0, Heap.external 64 8, fun _ => 0)

/-- The root holds an address in the third slot of the object. -/
def interiorRoot : Memory :=
  Function.update fiveSlots.2.2 64 1056

private theorem fiveSlots_built : Built [(1024, 80)] fiveSlots.2.1 interiorRoot := by
  have fresh : (Heap.external 64 8).Fresh 1024 80 := by
    refine ⟨by decide, by decide, ?_⟩
    intro block member
    exact absurd member List.not_mem_nil
  have returns :
      Outcome.Returns
        (fun depth => Heap.allocate depth 1024 80 (Heap.external 64 8) (fun _ => 0))
        fiveSlots := by
    refine ⟨1, ?_⟩
    intro depth enough
    cases depth with
    | zero => exact absurd enough (by decide)
    | succ depth => rfl
  have allocated :
      Uses (Heap.external 64 8) (fun _ => 0) [(1024, 80)] fiveSlots.2.1 fiveSlots.2.2 :=
    Uses.allocate Uses.start (by decide) fresh returns
  apply Built.external
  apply allocated.store
  intro block inTree slot _ _ a inside
  have isBlock : block = 1024 := List.mem_singleton.mp inTree
  apply Function.update_of_ne
  simp only [InSlot, isBlock] at inside
  omega

private theorem fiveSlots_separate : Separate fiveSlots.2.1 .nil :=
  ⟨fun _ _ owned => owned, fun _ member => absurd member List.not_mem_nil⟩

theorem collectGarbage_retains_fiveSlots :
    ∃ result,
      Outcome.Returns
          (fun depth => Heap.collectGarbage depth true fiveSlots.2.1 .nil interiorRoot) result ∧
        (Retains fiveSlots.2.1 [(1024, 80)] .nil interiorRoot result ↔
          ¬ Heap.Due true fiveSlots.2.1 ∨
            ∀ object, fiveSlots.2.1.Reachable [(1024, 80)] interiorRoot object →
              fiveSlots.2.1.HeadCovered interiorRoot object) :=
  collectGarbage_retains_iff fiveSlots_built trivial fiveSlots_separate

/-- `Block::mark` stops in front of the first slot of the object, and the sweep
frees it although the object is reachable. -/
theorem interiorRoot_not_retained :
    Built [(1024, 80)] fiveSlots.2.1 interiorRoot ∧
      ∃ result,
        Heap.collectGarbage 4 true fiveSlots.2.1 .nil interiorRoot = .ok result ∧
          ¬ Retains fiveSlots.2.1 [(1024, 80)] .nil interiorRoot result := by
  refine ⟨fiveSlots_built, ?_⟩
  have outcome :
      (Heap.collectGarbage 4 true fiveSlots.2.1 .nil interiorRoot).satisfies
        (fun result =>
          result.heap.tree.inorder == [1024] && !result.heap.bit 1024 0 .allocated) = true := by
    decide
  obtain ⟨result, run, test⟩ := Outcome.satisfies_iff.mp outcome
  rw [Bool.and_eq_true, beq_iff_eq, Bool.not_eq_true'] at test
  obtain ⟨isTree, isFree⟩ := test
  refine ⟨result, run, ?_⟩
  intro retains
  have reachable : fiveSlots.2.1.Reachable [(1024, 80)] interiorRoot (1024, 80) := by
    have inRoot : fiveSlots.2.1.RootValue interiorRoot 1056 :=
      Or.inr ⟨64, ⟨by decide, by decide, by decide⟩, by decide⟩
    exact Heap.Reachable.root List.mem_cons_self inRoot (by decide) (by decide)
  obtain ⟨block, slot, count, inTree, place, _, positive, _, _, isAllocated⟩ :=
    (retains.1 _ reachable).held
  rw [isTree] at inTree
  rw [List.mem_singleton.mp inTree] at place isAllocated
  have isFirst : slot = 0 := by
    simp only [slotSize] at place
    omega
  rw [isFirst] at isAllocated
  have allocated := isAllocated 0 le_rfl (by omega)
  rw [isFree] at allocated
  cases allocated

end Rcgo.Storage
