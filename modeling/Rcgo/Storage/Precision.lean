import Rcgo.Storage.MarkPhase
import Mathlib.Algebra.BigOperators.Ring.Finset

/-!
# The precision of a collection

The forward loop of `Block::mark` ends at the first slot that is not allocated,
not at the end of the object.  A collection therefore keeps an object that lies
directly behind one that it keeps, whether or not it is reachable.
-/

namespace Rcgo.Storage

open Rcgo.Foundation

def Region.slots (object : Region) : Region :=
  (object.1, roundedSize object.2)

namespace Heap

/-- The objects whose first addresses are stored in the root or in objects that
are reachable themselves, and the root if it is an object. -/
inductive ReachableObject (heap : Heap) (objects : Objects) (mem : Memory) : Region → Prop
  | root {object} :
      object ∈ objects → heap.RootValue mem object.1 → ReachableObject heap objects mem object
  | object {source object a} :
      ReachableObject heap objects mem source → source.slots.HasWord a → object ∈ objects →
        object.1 = mem a → ReachableObject heap objects mem object

/-- The other object begins where the object ends, in the same block. -/
def Behind (heap : Heap) (object other : Region) : Prop :=
  ∃ block slot count otherCount,
    heap.Occupies object block slot count ∧ heap.Occupies other block (slot + count) otherCount

/-- The objects that marking comes to. -/
inductive KeptObject (heap : Heap) (objects : Objects) (mem : Memory) : Region → Prop
  | root {object} :
      object ∈ objects → heap.RootValue mem object.1 → KeptObject heap objects mem object
  | object {source object a} :
      KeptObject heap objects mem source → source.slots.HasWord a → object ∈ objects →
        object.1 = mem a → KeptObject heap objects mem object
  | behind {object other} :
      KeptObject heap objects mem object → other ∈ objects → heap.Behind object other →
        KeptObject heap objects mem other

/-- An object directly behind a reachable one is reachable, too. -/
def NoneBehind (heap : Heap) (objects : Objects) (mem : Memory) : Prop :=
  ∀ object other, heap.ReachableObject objects mem object → other ∈ objects →
    heap.Behind object other → heap.ReachableObject objects mem other

variable {heap : Heap} {mem : Memory} {objects : Objects}

theorem ReachableObject.isObject {object : Region}
    (reachable : heap.ReachableObject objects mem object) : object ∈ objects := by
  cases reachable with
  | root isObject _ => exact isObject
  | object _ _ isObject _ => exact isObject

theorem ReachableObject.kept {object : Region}
    (reachable : heap.ReachableObject objects mem object) : heap.KeptObject objects mem object := by
  induction reachable with
  | root isObject isRoot => exact .root isObject isRoot
  | object _ isWord isObject isFirst inductionHypothesis =>
      exact .object inductionHypothesis isWord isObject isFirst

theorem KeptObject.isObject {object : Region} (kept : heap.KeptObject objects mem object) :
    object ∈ objects := by
  cases kept with
  | root isObject _ => exact isObject
  | object _ _ isObject _ => exact isObject
  | behind _ isObject _ => exact isObject

theorem KeptObject.reachable (noneBehind : heap.NoneBehind objects mem) {object : Region}
    (kept : heap.KeptObject objects mem object) : heap.ReachableObject objects mem object := by
  induction kept with
  | root isObject isRoot => exact .root isObject isRoot
  | object _ isWord isObject isFirst inductionHypothesis =>
      exact .object inductionHypothesis isWord isObject isFirst
  | behind _ isObject isBehind inductionHypothesis =>
      exact noneBehind _ _ inductionHypothesis isObject isBehind

/-! ## The covered slots are those of the kept objects -/

section Covered

variable (partitioned : heap.Partitioned mem objects)

include partitioned

theorem exists_behind {object : Region} {block first count : Nat} (isObject : object ∈ objects)
    (occupies : heap.Occupies object block first count)
    (isAllocated : heap.bit block (first + count) .allocated = true) :
    ∃ other ∈ objects, ∃ otherCount, heap.Occupies other block (first + count) otherCount := by
  have positive := occupies.positive
  obtain ⟨other, isOther, otherFirst, otherCount, otherOccupies, atLeast, below⟩ :=
    partitioned.owned block occupies.member (first + count) isAllocated
  have isFirst : otherFirst = first + count := by
    by_contra different
    have same :=
      partitioned.object_unique isObject isOther occupies otherOccupies
        (s := first + count - 1) ⟨by omega, by omega⟩ ⟨by omega, by omega⟩
    rw [← same] at otherOccupies
    obtain ⟨_, sameFirst, sameCount⟩ := occupies.unique partitioned.layout otherOccupies
    omega
  rw [isFirst] at otherOccupies
  exact ⟨other, isOther, otherCount, otherOccupies⟩

theorem KeptObject.along (bound : Nat) :
    ∀ {object other : Region} {block first count otherFirst otherCount slot : Nat},
      heap.KeptObject objects mem object → heap.Occupies object block first count →
        other ∈ objects → heap.Occupies other block otherFirst otherCount →
          first ≤ slot → slot < first + bound →
            (∀ s, first ≤ s → s ≤ slot → heap.bit block s .allocated = true) →
              otherFirst ≤ slot → slot < otherFirst + otherCount →
                heap.KeptObject objects mem other := by
  induction bound with
  | zero =>
      intro object other block first count otherFirst otherCount slot _ _ _ _ atLeast below
      omega
  | succ bound inductionHypothesis =>
      intro object other block first count otherFirst otherCount slot kept occupies isOther
        otherOccupies atLeast below run otherAtLeast otherBelow
      have positive := occupies.positive
      by_cases inside : slot < first + count
      · have same :=
          partitioned.object_unique kept.isObject isOther occupies otherOccupies
            ⟨atLeast, inside⟩ ⟨otherAtLeast, otherBelow⟩
        rw [← same]
        exact kept
      · obtain ⟨next, isNext, nextCount, nextOccupies⟩ :=
          exists_behind partitioned kept.isObject occupies (run (first + count) (by omega) (by omega))
        have nextKept : heap.KeptObject objects mem next :=
          .behind kept isNext ⟨block, first, count, nextCount, occupies, nextOccupies⟩
        exact
          inductionHypothesis nextKept nextOccupies isOther otherOccupies (by omega) (by omega)
            (fun s above atMost => run s (by omega) atMost) otherAtLeast otherBelow

variable (rooted : heap.Rooted objects) (disciplined : heap.Disciplined mem objects)

include rooted disciplined

theorem Covered.kept {block slot : Nat} (covered : heap.Covered mem block slot) :
    ∀ {object : Region} {first count : Nat}, object ∈ objects →
      heap.Occupies object block first count → first ≤ slot → slot < first + count →
        heap.KeptObject objects mem object := by
  induction covered with
  | @root value block target slot isRoot isTarget covers =>
      intro object first count isObject occupies atLeast below
      obtain ⟨source, isSource, sourceCount, isFirst, sourceOccupies⟩ :=
        target_of_proper partitioned (rootValue_proper rooted disciplined isRoot) isTarget
      rw [← isFirst] at isRoot
      obtain ⟨targetAtMost, _, run⟩ := run_of_covers sourceOccupies covers
      exact
        KeptObject.along partitioned (slot + 1) (.root isSource isRoot) sourceOccupies isObject
          occupies targetAtMost (by omega) run atLeast below
  | @slot holder holderSlot a block target slot holderCovered isWord isTarget covers
      inductionHypothesis =>
      intro object first count isObject occupies atLeast below
      obtain ⟨member, isAllocated⟩ := holderCovered.allocated partitioned
      obtain ⟨container, isContainer, containerFirst, containerCount, containerOccupies,
        inside, before⟩ := partitioned.owned holder member holderSlot isAllocated
      have containerKept := inductionHypothesis isContainer containerOccupies inside before
      have inContainer : container.slots.HasWord a := by
        obtain ⟨aligned, above, beneath⟩ := isWord
        simp only [slotRegion] at above beneath
        refine ⟨aligned, ?_, ?_⟩
        · simp only [Region.slots, containerOccupies.place, slotSize] at above ⊢
          omega
        · simp only [Region.slots, containerOccupies.place, containerOccupies.isSize,
            slotSize] at beneath ⊢
          omega
      obtain ⟨source, isSource, sourceCount, isFirst, sourceOccupies⟩ :=
        target_of_proper partitioned (disciplined.stored holder member holderSlot isAllocated a isWord)
          isTarget
      obtain ⟨targetAtMost, _, run⟩ := run_of_covers sourceOccupies covers
      exact
        KeptObject.along partitioned (slot + 1)
          (.object containerKept inContainer isSource isFirst) sourceOccupies isObject
          occupies targetAtMost (by omega) run atLeast below

/-- The first slot of a kept object is covered. -/
theorem KeptObject.covered {object : Region} (kept : heap.KeptObject objects mem object) :
    ∀ {block first count : Nat}, heap.Occupies object block first count →
      heap.Covered mem block first := by
  induction kept with
  | root isObject isRoot =>
      intro block first count occupies
      have positive := occupies.positive
      exact
        .root isRoot (occupies.target partitioned) (occupies.covers le_rfl (by omega))
  | @object source object a sourceKept isWord isObject isFirst inductionHypothesis =>
      intro block first count occupies
      have positive := occupies.positive
      obtain ⟨holder, holderFirst, holderCount, holderOccupies⟩ :=
        partitioned.held source sourceKept.isObject
      have place := holderOccupies.place
      have isSize := holderOccupies.isSize
      obtain ⟨_, _, wordAligned⟩ := partitioned.layout.aligned holder holderOccupies.member
      obtain ⟨aligned, above, below⟩ := isWord
      simp only [Region.slots, place, isSize, slotSize, wordSize] at above below aligned wordAligned
      have slotCovered : heap.Covered mem holder ((a - holder) / slotSize) := by
        apply covered_object partitioned rooted disciplined holderOccupies
          (inductionHypothesis holderOccupies) le_rfl (by omega)
        · simp only [slotSize]
          omega
        · simp only [slotSize]
          omega
      have inSlot : (slotRegion holder ((a - holder) / slotSize)).HasWord a := by
        refine ⟨aligned, ?_, ?_⟩
        · simp only [slotRegion, slotSize]
          omega
        · simp only [slotRegion, slotSize]
          omega
      have isTarget := occupies.target partitioned
      rw [isFirst] at isTarget
      exact .slot slotCovered inSlot isTarget (occupies.covers le_rfl (by omega))
  | @behind object other kept isOther isBehind inductionHypothesis =>
      intro block first count occupies
      obtain ⟨home, slot, objectCount, otherCount, objectOccupies, otherOccupies⟩ := isBehind
      obtain ⟨sameBlock, sameFirst, _⟩ := otherOccupies.unique partitioned.layout occupies
      subst sameBlock sameFirst
      have positive := objectOccupies.positive
      have otherPositive := otherOccupies.positive
      have otherInBlock := otherOccupies.inBlock
      have lastCovered :=
        covered_object partitioned rooted disciplined objectOccupies
          (inductionHypothesis objectOccupies) le_rfl (by omega)
          (s := slot + objectCount - 1) (by omega) (by omega)
      obtain ⟨_, target, _, _, _, _, _, atMost, run, covers⟩ :=
        covered_run partitioned rooted disciplined lastCovered
      apply covers
      refine Or.inr ⟨by omega, by omega, ?_⟩
      intro s above below
      by_cases isLast : s = slot + objectCount
      · rw [isLast]
        exact otherOccupies.head_allocated
      · exact run s above (by omega)

end Covered

/-! ## The size of the objects -/

/-- The allocated slots are those of the objects. -/
theorem Partitioned.allocatedSize_eq (partitioned : heap.Partitioned mem objects) :
    ∃ list : List Region, list.Nodup ∧ (∀ object, object ∈ list ↔ object ∈ objects) ∧
      heap.allocatedSize = (list.map fun object => roundedSize object.2).sum := by
  have each : ∀ p ∈ heap.allocatedSlots, ∃ object ∈ objects, ∃ first count,
      heap.Occupies object p.1 first count ∧ first ≤ p.2 ∧ p.2 < first + count := by
    rintro ⟨block, slot⟩ member
    obtain ⟨inHeap, _, isAllocated⟩ := mem_allocatedSlots.mp member
    exact partitioned.owned block inHeap slot isAllocated
  choose! objectOf isObject first count occupies atLeast below using each
  have unique : ∀ p ∈ heap.allocatedSlots, ∀ {object slot number}, object ∈ objects →
      heap.Occupies object p.1 slot number → slot ≤ p.2 → p.2 < slot + number →
        objectOf p = object := by
    intro p member object slot number isOther otherOccupies above beneath
    exact
      partitioned.object_unique (isObject p member) isOther (occupies p member) otherOccupies
        ⟨atLeast p member, below p member⟩ ⟨above, beneath⟩
  have slotsOf : ∀ {object block slot number}, object ∈ objects →
      heap.Occupies object block slot number →
        (heap.allocatedSlots.filter fun p => objectOf p = object) =
          (Finset.Ico slot (slot + number)).image fun s => (block, s) := by
    intro object block slot number isOther otherOccupies
    have inBlock := otherOccupies.inBlock
    ext ⟨other, s⟩
    rw [Finset.mem_filter, Finset.mem_image]
    constructor
    · rintro ⟨member, isOf⟩
      have here := occupies _ member
      rw [isOf] at here
      obtain ⟨sameBlock, sameFirst, sameCount⟩ := otherOccupies.unique partitioned.layout here
      refine ⟨s, ?_, by rw [sameBlock]⟩
      rw [Finset.mem_Ico, sameFirst, sameCount]
      exact ⟨atLeast _ member, below _ member⟩
    · rintro ⟨u, inRange, isPair⟩
      obtain ⟨above, beneath⟩ := Finset.mem_Ico.mp inRange
      rw [Prod.mk.injEq] at isPair
      obtain ⟨rfl, rfl⟩ := isPair
      have member : (block, u) ∈ heap.allocatedSlots :=
        mem_allocatedSlots.mpr
          ⟨otherOccupies.member, by omega, otherOccupies.allocated u above beneath⟩
      exact ⟨member, unique _ member isOther otherOccupies above beneath⟩
  refine ⟨(heap.allocatedSlots.image objectOf).toList, Finset.nodup_toList _, ?_, ?_⟩
  · intro object
    rw [Finset.mem_toList, Finset.mem_image]
    constructor
    · rintro ⟨p, member, rfl⟩
      exact isObject p member
    · intro isOther
      obtain ⟨block, slot, number, otherOccupies⟩ := partitioned.held object isOther
      have positive := otherOccupies.positive
      have inBlock := otherOccupies.inBlock
      have member : (block, slot) ∈ heap.allocatedSlots :=
        mem_allocatedSlots.mpr ⟨otherOccupies.member, by omega, otherOccupies.head_allocated⟩
      exact ⟨_, member, unique _ member isOther otherOccupies le_rfl (by simp only; omega)⟩
  · rw [partitioned.size, Finset.sum_map_toList, Finset.card_eq_sum_card_image objectOf,
      Finset.sum_mul]
    apply Finset.sum_congr rfl
    intro object member
    obtain ⟨p, isSlot, rfl⟩ := Finset.mem_image.mp member
    rw [slotsOf (isObject p isSlot) (occupies p isSlot), (occupies p isSlot).isSize,
      Finset.card_image_of_injective _ (Prod.mk_right_injective p.1), Nat.card_Ico,
      Nat.add_sub_cancel_left]

/-! ## What a collection keeps -/

section Collected

variable {addresses : List Nat} {s : MarkState} {r : SweepState} {new : List Region}
  {tree : BlockTree} (collected : MarkedAndSwept heap mem addresses s r new (heap.afterSweep tree r))
  (partitioned : heap.Partitioned mem objects) (rooted : heap.Rooted objects)
  (disciplined : heap.Disciplined mem objects)

include collected partitioned rooted disciplined

theorem holdsObject_iff_kept {object : Region} (isObject : object ∈ objects) :
    (heap.afterSweep tree r).HoldsObject object ↔ heap.KeptObject objects mem object := by
  obtain ⟨block, first, count, occupies⟩ := partitioned.held object isObject
  have positive := occupies.positive
  constructor
  · intro holds
    have covered :=
      (occupies_of_held collected partitioned rooted disciplined occupies holds).1
    exact covered.kept partitioned rooted disciplined isObject occupies le_rfl (by omega)
  · intro kept
    have covered := kept.covered partitioned rooted disciplined occupies
    exact
      (occupies_of_covered collected partitioned rooted disciplined occupies covered le_rfl
        (by omega)).holdsObject

theorem object_of_swept {object other : Region} {block first count slot : Nat}
    (isObject : object ∈ objects) (isOther : other ∈ objects)
    (occupies : (heap.afterSweep tree r).Occupies other block first count)
    (inside : first ≤ slot ∧ slot < first + count)
    (inBlock : slot < slotCount (heap.afterSweep tree r).blocks block)
    (takes : object.TakesSlot block slot) : other = object := by
  have full := collected.fullCollection partitioned.ready ⟨r.retval, rfl⟩
  have member := (collected.mem_tree.mp occupies.member).1
  rw [slotCount_congr (collected.limit block)] at inBlock
  obtain ⟨otherBlock, otherFirst, otherCount, otherOccupies⟩ := partitioned.held other isOther
  have still :=
    (occupies_of_held collected partitioned rooted disciplined otherOccupies
      occupies.holdsObject).2
  obtain ⟨sameBlock, sameFirst, sameCount⟩ := still.unique full.layout occupies
  subst sameBlock sameFirst sameCount
  obtain ⟨home, slotFirst, number, homeOccupies⟩ := partitioned.held object isObject
  obtain ⟨sameHome, range⟩ := (partitioned.takesSlot_iff homeOccupies member inBlock).mp takes
  subst sameHome
  exact partitioned.object_unique isOther isObject otherOccupies homeOccupies inside range

end Collected

end Heap

/-- A collection keeps exactly the reachable objects. -/
structure Precise (heap : Heap) (mem : Memory) (objects : Objects) (result : Heap.Collected) :
    Prop where
  survivors :
    ∀ object ∈ objects,
      result.heap.HoldsObject object ↔ heap.ReachableObject objects mem object
  /-- The slots of the others are free and in a chunk of the free list, unless
  their block has been deleted. -/
  free :
    ∀ object ∈ objects, ¬ heap.ReachableObject objects mem object →
      ∀ block ∈ result.heap.tree.inorder, ∀ slot, slot < slotCount result.heap.blocks block →
        object.TakesSlot block slot →
          result.heap.bit block slot .allocated = false ∧
            ∃ chunks, FreeSegment result.memory result.heap.freeListHead chunks 0 ∧
              ∃ chunk ∈ chunks, chunk.HasSlot block slot
  allocatedSize :
    ∃ list : List Region, list.Nodup ∧
      (∀ object, object ∈ list ↔ heap.ReachableObject objects mem object) ∧
        result.heap.allocatedSize = (list.map fun object => roundedSize object.2).sum

/-- The heaps on the list and below them are heaps of the state, without `h`. -/
def HeapList.Drawn (s : Store) (h : Nat) : HeapList → Prop
  | .nil => True
  | .cons address heap child next =>
      address ≠ h ∧ s.heaps address = some heap ∧ child.Drawn s h ∧ next.Drawn s h

section Drawn

variable {s : Store} {objects : Nat → Objects} (sound : s.Sound objects) {h : Nat}

include sound

theorem HeapList.Drawn.ready : ∀ {list : HeapList}, list.Drawn s h → list.Ready
  | .nil, _ => trivial
  | .cons _ _ _ _, drawn => by
      obtain ⟨_, isHeap, child, next⟩ := drawn
      exact ⟨(sound.partitioned _ _ isHeap).ready, child.ready, next.ready⟩

theorem HeapList.Drawn.apart {heap : Heap} (isHeap : s.heaps h = some heap) {a : Nat}
    (owns : heap.Owns a) : ∀ {list : HeapList}, list.Drawn s h → ¬ list.Owns a
  | .nil, _ => id
  | .cons address other _ _, drawn => by
      obtain ⟨different, isOther, child, next⟩ := drawn
      have separate := sound.separate h address heap other (Ne.symm different) isHeap isOther
      rintro (here | below | behind)
      · exact separate.symm.not_owns here owns
      · exact child.apart isHeap owns below
      · exact next.apart isHeap owns behind

end Drawn

namespace Family

/-- In every state of a run in which the stored words of a heap are proper, a
forced collection returns, and it is precise if and only if no object that is
not reachable lies directly behind a reachable one. -/
theorem StorageRun.precise_iff {f : Family} {objects : Nat → Objects}
    (run : StorageRun f objects) {h : Nat} {node : HeapNode} (isNode : f.heaps h = some node)
    (disciplined : node.storage.Disciplined f.memory (objects h)) {child : HeapList}
    (drawn : child.Drawn f.store h) :
    ∃ result,
      Outcome.Returns
          (fun depth => Heap.collectGarbage depth true node.storage child f.memory) result ∧
        (Precise node.storage f.memory (objects h) result ↔
          node.storage.NoneBehind (objects h) f.memory) := by
  have sound := run.sound
  have isHeap := store_heaps isNode
  have partitioned := sound.partitioned h node.storage isHeap
  have rooted := sound.rooted h node.storage isHeap
  have childSpec := Heap.collectChildren_spec child (HeapList.Drawn.ready sound drawn)
  obtain ⟨s, new, tree, r, result, collectedAny, returns, childReturns, isAfter, collected⟩ :=
    Heap.collectHeap_swept f.memory child.addresses
      (fun keep mem => (childSpec keep mem).imp fun _ => And.left) partitioned.ready
      (Or.inl (rfl : true = true))
  have kept : ∀ object ∈ objects h, result.heap.HoldsObject object ↔
      node.storage.KeptObject (objects h) f.memory object := by
    intro object isObject
    rw [isAfter]
    exact Heap.holdsObject_iff_kept collected partitioned rooted disciplined isObject
  refine ⟨result, returns, ?_, ?_⟩
  · intro precise object other reachable isOther isBehind
    rw [← precise.survivors other isOther, kept other isOther]
    exact .behind reachable.kept isOther isBehind
  · intro noneBehind
    have survivors : ∀ object ∈ objects h, result.heap.HoldsObject object ↔
        node.storage.ReachableObject (objects h) f.memory object := by
      intro object isObject
      rw [kept object isObject]
      exact ⟨fun isKept => isKept.reachable noneBehind, fun reachable => reachable.kept⟩
    have stillHeld : ∀ object, object ∈ result.heap.stillHeld (objects h) ↔
        node.storage.ReachableObject (objects h) f.memory object := by
      intro object
      rw [Heap.mem_stillHeld]
      constructor
      · exact fun isHeld => (survivors object isHeld.1).mp isHeld.2
      · exact fun reachable =>
          ⟨reachable.isObject, (survivors object reachable.isObject).mpr reachable⟩
    have after : result.heap.Partitioned result.memory (result.heap.stillHeld (objects h)) := by
      have swept := Heap.Partitioned.swept collected partitioned rooted disciplined
      rw [← isAfter] at swept
      apply swept.frame
      intro a owns
      rw [isAfter] at owns
      obtain ⟨ends, endsReturn, spec⟩ := childSpec (some s.reachable) r.memory
      have same := endsReturn.unique childReturns
      have frame := spec.frame a (HeapList.Drawn.apart sound isHeap (Heap.owns_of_swept collected owns) drawn)
      rw [same] at frame
      exact frame
    refine ⟨survivors, ?_, ?_⟩
    · intro object isObject notReachable block member slot inBlock takes
      have isFree : result.heap.bit block slot .allocated = false := by
        rw [Bool.eq_false_iff]
        intro isAllocated
        obtain ⟨other, isOther, first, count, occupies, atLeast, below⟩ :=
          after.owned block member slot isAllocated
        have same : other = object :=
          Heap.object_of_swept collected partitioned rooted disciplined isObject isOther.1
            (isAfter ▸ occupies) ⟨atLeast, below⟩ (isAfter ▸ inBlock) takes
        rw [same] at isOther
        exact notReachable ((stillHeld object).mp isOther)
      obtain ⟨chunks, free, covering⟩ := after.exact
      obtain ⟨chunk, isChunk, _⟩ := Heap.Partitioned.chunk_of_free free covering member inBlock isFree
      exact ⟨isFree, chunks, free.segment, chunk, isChunk⟩
    · obtain ⟨list, nodup, isList, isSize⟩ := after.allocatedSize_eq
      refine ⟨list, nodup, ?_, isSize⟩
      intro object
      rw [isList, stillHeld]

theorem precise_iff_rootedFamily :
    ∃ result,
      Outcome.Returns
          (fun depth =>
            Heap.collectGarbage depth true allocated.2.1 .nil rootedFamily.memory)
          result ∧
        (Precise allocated.2.1 rootedFamily.memory (rootedObjects 1) result ↔
          allocated.2.1.NoneBehind (rootedObjects 1) rootedFamily.memory) :=
  @StorageRun.precise_iff _ _ rootedFamily_run 1 ⟨allocated.2.1, 0, 0, 0, false⟩ rfl
    (rootedFamily_disciplined 1 allocated.2.1 rfl) .nil trivial

/-! ### Two objects in one block -/

def alone (storage : Heap) (memory : Memory) : Family :=
  ⟨Function.update (fun _ => none) 1 (some ⟨storage, 0, 0, 0, false⟩), memory⟩

def aloneObjects (objects : Objects) : Nat → Objects :=
  Function.update (fun _ => ∅) 1 objects

theorem alone_heaps {storage other : Heap} {memory : Memory} {k : Nat}
    (isHeap : (alone storage memory).store.heaps k = some other) : other = storage := by
  simp only [alone, store] at isHeap
  by_cases here : k = 1
  · rw [here, Function.update_self, Option.map_some, Option.some.injEq] at isHeap
    exact isHeap.symm
  · rw [Function.update_of_ne here] at isHeap
    cases isHeap

theorem alone_allocate {storage after : Heap} {memory afterMemory : Memory} {objects : Objects}
    {size address : Nat} (place : Nat)
    (run : StorageRun (alone storage memory) (aloneObjects objects)) (positive : 0 < size)
    (fresh : storage.Fresh place (storage.newBlockSize (roundedSize size)))
    (root : storage.rootBegin = 64 ∧ storage.rootEnd = 72 ∧ 72 ≤ place)
    (returns : ∀ depth,
      Heap.allocate (depth + 1) place size storage memory = .ok (address, after, afterMemory)) :
    StorageRun (alone after afterMemory) (aloneObjects (insert (address, size) objects)) := by
  have isNode : (alone storage memory).heaps 1 = some ⟨storage, 0, 0, 0, false⟩ := rfl
  have freshStorage :
      (alone storage memory).store.Fresh place (storage.newBlockSize (roundedSize size)) := by
    refine ⟨fresh.positive, fresh.aligned, ?_, ?_⟩
    · intro k other isHeap
      rw [alone_heaps isHeap]
      exact fresh.apart
    · intro k other isHeap a isRoot
      rw [alone_heaps isHeap, Heap.RootAddress, root.1, root.2.1] at isRoot
      omega
  have enoughDepth :
      Outcome.Returns (fun depth => Heap.allocate depth place size storage memory)
        (address, after, afterMemory) := by
    refine ⟨1, ?_⟩
    intro depth enough
    cases depth with
    | zero => exact absurd enough (by decide)
    | succ depth => exact returns depth
  have step := run.step (StorageStep.allocate isNode positive freshStorage enoughDepth)
  simp only [aloneObjects, Function.update_idem, Function.update_self] at step
  simp only [Family.set, alone, Function.update_idem] at step
  exact step

def oneSlot (place : Nat) (before : Nat × Heap × Memory) : Nat × Heap × Memory :=
  (Heap.allocate 1 place 16 before.2.1 before.2.2).getD before

/-- Three objects of one slot, the last two in one block. -/
def firstSlot : Nat × Heap × Memory :=
  oneSlot 1024 (0, Heap.external 64 8, fun _ => 0)

def secondSlot : Nat × Heap × Memory :=
  oneSlot 2048 firstSlot

def thirdSlot : Nat × Heap × Memory :=
  oneSlot 4096 secondSlot

def slotObjects : Objects :=
  insert (2064, 16) (insert (2048, 16) (insert (1024, 16) ∅))

/-- The root refers to the first object of the block. -/
def slotMemory : Memory :=
  Function.update thirdSlot.2.2 64 2048

theorem thirdSlot_run : StorageRun (alone thirdSlot.2.1 slotMemory) (aloneObjects slotObjects) := by
  have made : StorageRun (alone (Heap.external 64 8) fun _ => 0) (aloneObjects ∅) := by
    apply StorageRun.step StorageRun.start
    apply StorageStep.makeExternal
    · intro ⟨node, isNode⟩
      cases isNode
    · intro k other isOther
      cases isOther
  have first : StorageRun (alone firstSlot.2.1 firstSlot.2.2)
      (aloneObjects (insert (1024, 16) ∅)) := by
    apply alone_allocate 1024 made (by decide) ⟨by decide, by decide, ?_⟩ ⟨rfl, rfl, by decide⟩
    · exact fun depth => rfl
    · exact fun block member => absurd member List.not_mem_nil
  have second : StorageRun (alone secondSlot.2.1 secondSlot.2.2)
      (aloneObjects (insert (2048, 16) (insert (1024, 16) ∅))) := by
    apply alone_allocate 2048 first (by decide) ⟨by decide, by decide, ?_⟩ ⟨rfl, rfl, by decide⟩
    · exact fun depth => rfl
    · decide
  have third : StorageRun (alone thirdSlot.2.1 thirdSlot.2.2)
      (aloneObjects slotObjects) := by
    apply alone_allocate 4096 second (by decide) ⟨by decide, by decide, ?_⟩ ⟨rfl, rfl, by decide⟩
    · exact fun depth => rfl
    · decide
  apply third.step
  apply StorageStep.store
  intro k other isOther block member slot _ _ a inside
  apply Function.update_of_ne
  rw [alone_heaps isOther] at member
  have inBlocks : block ∈ [1024, 2048] := member
  have above : 1024 ≤ block := by
    rcases List.mem_cons.mp inBlocks with isFirst | inRest
    · omega
    · have isSecond := List.mem_singleton.mp inRest
      omega
  simp only [InSlot] at inside
  omega

/-- The words of the three objects are `NULL`. -/
theorem slotMemory_null {a : Nat} (aligned : wordSize ∣ a)
    (inside : (1024 ≤ a ∧ a < 1040) ∨ (2048 ≤ a ∧ a < 2080)) : slotMemory a = 0 := by
  have isWord : a ∈ [1024, 1032, 2048, 2056, 2064, 2072] := by
    simp only [wordSize] at aligned
    simp only [List.mem_cons, List.not_mem_nil, or_false]
    omega
  have allNull : ∀ b ∈ [1024, 1032, 2048, 2056, 2064, 2072], slotMemory b = 0 := by decide
  exact allNull a isWord

theorem thirdSlot_rootWord {a : Nat} (isWord : thirdSlot.2.1.rootRegion.HasWord a) : a = 64 := by
  obtain ⟨aligned, above, below⟩ := isWord
  have isRegion : thirdSlot.2.1.rootRegion = (64, 8) := by decide
  rw [isRegion] at above below
  simp only [wordSize] at aligned
  omega

theorem thirdSlot_disciplined : thirdSlot.2.1.Disciplined slotMemory slotObjects := by
  have partitioned :=
    thirdSlot_run.sound.partitioned 1 thirdSlot.2.1 rfl
  constructor
  · intro a isWord
    refine Or.inr (Or.inr ⟨(2048, 16), Or.inr (Or.inl rfl), ?_⟩)
    rw [thirdSlot_rootWord isWord]
    decide
  · intro block member slot isAllocated a isWord
    have inBlock := partitioned.allocated_inBlock member isAllocated
    obtain ⟨aligned, above, below⟩ := isWord
    apply Or.inl
    apply slotMemory_null aligned
    have inBlocks : block ∈ [1024, 2048] := member
    simp only [slotRegion, slotSize] at above below
    rcases List.mem_cons.mp inBlocks with isFirst | inRest
    · subst isFirst
      have isCount : slotCount thirdSlot.2.1.blocks 1024 = 1 := by decide
      omega
    · have isSecond := List.mem_singleton.mp inRest
      subst isSecond
      have isCount : slotCount thirdSlot.2.1.blocks 2048 = 2 := by decide
      omega

theorem slotMemory_reachable {object : Region}
    (reachable : thirdSlot.2.1.ReachableObject slotObjects slotMemory object) :
    object = (2048, 16) := by
  have isFirst : ∀ {other : Region}, other ∈ slotObjects → other.1 = 2048 → other = (2048, 16) := by
    rintro other (rfl | rfl | rfl | impossible) isPlace
    · cases isPlace
    · rfl
    · cases isPlace
    · exact absurd impossible (Set.notMem_empty other)
  have notFirst : ∀ {other : Region}, other ∈ slotObjects → other.1 ≠ 64 ∧ other.1 ≠ 0 := by
    rintro other (rfl | rfl | rfl | impossible)
    · decide
    · decide
    · decide
    · exact absurd impossible (Set.notMem_empty other)
  induction reachable with
  | root isObject isRoot =>
      rcases isRoot with isBegin | ⟨a, isWord, isValue⟩
      · exact absurd isBegin (notFirst isObject).1
      · rw [thirdSlot_rootWord isWord] at isValue
        exact isFirst isObject isValue
  | @object source object a _ isWord isObject isStored inductionHypothesis =>
      rw [inductionHypothesis] at isWord
      obtain ⟨aligned, above, below⟩ := isWord
      have isSlots : Region.slots (2048, 16) = (2048, 16) := by decide
      rw [isSlots] at above below
      rw [slotMemory_null aligned (Or.inr ⟨above, by omega⟩)] at isStored
      exact absurd isStored (notFirst isObject).2

/-- The object behind the reachable one survives the collection. -/
theorem slotMemory_not_precise :
    StorageRun (alone thirdSlot.2.1 slotMemory) (aloneObjects slotObjects) ∧
      thirdSlot.2.1.Disciplined slotMemory slotObjects ∧
        ∃ result,
          Heap.collectGarbage 9 true thirdSlot.2.1 .nil slotMemory = .ok result ∧
            ¬ Precise thirdSlot.2.1 slotMemory slotObjects result := by
  have outcome :
      (Heap.collectGarbage 9 true thirdSlot.2.1 .nil slotMemory).satisfies
        (fun result =>
          result.heap.tree.inorder == [2048] && slotCount result.heap.blocks 2048 == 2 &&
            result.heap.bit 2048 1 .object && result.heap.bit 2048 1 .allocated) = true := by
    decide
  obtain ⟨result, run, test⟩ := Outcome.satisfies_iff.mp outcome
  simp only [Bool.and_eq_true, beq_iff_eq] at test
  obtain ⟨⟨⟨isTree, isCount⟩, isObject⟩, isAllocated⟩ := test
  refine ⟨thirdSlot_run, thirdSlot_disciplined, result, run, ?_⟩
  intro precise
  have holds : result.heap.HoldsObject (2064, 16) := by
    refine ⟨2048, 1, 1, ?_, by decide, by decide, by decide, by omega, isObject, ?_⟩
    · rw [isTree]
      exact List.mem_singleton_self 2048
    · intro s atLeast below
      have isOne : s = 1 := by omega
      rw [isOne]
      exact isAllocated
  have reachable := (precise.survivors (2064, 16) (Or.inl rfl)).mp holds
  have same := slotMemory_reachable reachable
  cases same

end Family

end Rcgo.Storage
