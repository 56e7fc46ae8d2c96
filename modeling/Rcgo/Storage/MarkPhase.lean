import Rcgo.Storage.Lifetime
import Rcgo.Storage.WorkList

/-!
# The mark phase

Marking ends with the links of all blocks reset.  What the root addresses is
marked, and what is marked is allocated and closed under the words that are
stored in it.
-/

namespace Rcgo.Storage

open Rcgo.Foundation

namespace Heap

section Partitioned

variable {heap : Heap} {mem : Memory} {objects : Objects}
  (partitioned : heap.Partitioned mem objects)

include partitioned

theorem allocated_of_covers {block target slot : Nat} (member : block ∈ heap.tree.inorder)
    (isAllocated : heap.bit block target .allocated = true)
    (covers : heap.Covers block target slot) : heap.bit block slot .allocated = true := by
  rcases covers with ⟨atMost, noObject⟩ | ⟨atLeast, _, run⟩
  · obtain ⟨object, _, first, count, occupies, inside, below⟩ :=
      partitioned.owned block member target isAllocated
    have behindFirst : first < slot := by
      by_contra notBehind
      have isHead := noObject first (by omega) inside
      rw [occupies.head] at isHead
      cases isHead
    exact occupies.allocated slot (by omega) (by omega)
  · exact run slot atLeast le_rfl

theorem Covered.allocated {block slot : Nat} (covered : heap.Covered mem block slot) :
    block ∈ heap.tree.inorder ∧ heap.bit block slot .allocated = true := by
  have targeted : ∀ {value block target slot}, heap.Target value block target →
      heap.Covers block target slot →
        block ∈ heap.tree.inorder ∧ heap.bit block slot .allocated = true := by
    intro value block target slot isTarget covers
    have member := BlockTree.mem_of_find isTarget.1
    exact ⟨member, allocated_of_covers partitioned member isTarget.2.2 covers⟩
  cases covered with
  | root _ isTarget covers => exact targeted isTarget covers
  | slot _ _ isTarget covers => exact targeted isTarget covers

theorem Occupies.target {object : Region} {block first count : Nat}
    (occupies : heap.Occupies object block first count) : heap.Target object.1 block first := by
  have positive := occupies.positive
  have inBlock := occupies.inBlock
  have limit := (partitioned.layout.aligned block occupies.member).1
  have place := occupies.place
  refine ⟨?_, ?_, occupies.head_allocated⟩
  · rw [BlockTree.find_eq_some_iff partitioned.layout.ordered, place]
    refine ⟨occupies.member, by omega, ?_⟩
    simp only [slotSize] at limit ⊢
    omega
  · rw [place]
    simp only [slotSize]
    omega

omit partitioned in
theorem Occupies.covers {object : Region} {block first count slot : Nat}
    (occupies : heap.Occupies object block first count) (atLeast : first ≤ slot)
    (below : slot < first + count) : heap.Covers block first slot := by
  have inBlock := occupies.inBlock
  refine Or.inr ⟨atLeast, by omega, ?_⟩
  intro s sAtLeast sAtMost
  exact occupies.allocated s sAtLeast (by omega)

theorem first_of_proper {object : Region} (isObject : object ∈ objects) {value : Nat}
    (proper : heap.Proper objects value) (above : object.1 ≤ value)
    (below : value < object.1 + roundedSize object.2) : object.1 = value := by
  obtain ⟨block, first, count, occupies⟩ := partitioned.held object isObject
  have place := occupies.place
  have isSize := occupies.isSize
  have inBlock := occupies.inBlock
  obtain ⟨limit, positive, _⟩ := partitioned.layout.aligned block occupies.member
  simp only [slotSize] at place isSize limit
  rcases proper with isNull | notOwned | ⟨other, isOther, isFirst⟩
  · omega
  · exact absurd ⟨block, occupies.member, by omega, by omega⟩ notOwned
  · obtain ⟨otherBlock, otherFirst, otherCount, otherOccupies⟩ := partitioned.held other isOther
    have otherPlace := otherOccupies.place
    have otherPositive := otherOccupies.positive
    have otherInBlock := otherOccupies.inBlock
    have otherLimit := (partitioned.layout.aligned otherBlock otherOccupies.member).1
    simp only [slotSize] at otherPlace otherLimit
    have sameBlock : otherBlock = block := by
      rcases partitioned.layout.ordered.eq_or_apart otherOccupies.member occupies.member with
        same | apart
      · exact same
      · omega
    subst sameBlock
    have sameFirst :=
      occupies.same_first otherOccupies (s := otherFirst) ⟨by omega, by omega⟩ ⟨le_rfl, by omega⟩
    rw [← isFirst, occupies.place, otherOccupies.place, sameFirst]

end Partitioned

/-- The work list is empty when `scan_worklist` returns. -/
theorem scanWorkList_workList {tree : BlockTree} {children : List Nat} {mem : Memory}
    {depth : Nat} :
    ∀ {s t : MarkState}, scanWorkList tree children mem depth s = .ok t → t.workList = [] := by
  induction depth with
  | zero =>
      intro s t run
      cases run
  | succ depth inductionHypothesis =>
      intro s t run
      rw [scanWorkList] at run
      cases isList : s.workList with
      | nil =>
          rw [isList] at run
          rw [← Outcome.ok.inj run]
          exact isList
      | cons block rest =>
          rw [isList] at run
          obtain ⟨middle, _, run⟩ := Outcome.bind_eq_ok.mp run
          exact inductionHypothesis run

end Heap

/-- What the mark phase leaves, when the objects of the heap are given. -/
structure MarkPhase (heap : Heap) (mem : Memory) (objects : Objects) (t : LinkedMark) : Prop where
  /-- The objects whose addresses marking starts from are marked. -/
  rooted :
    ∀ object ∈ objects, heap.RootValue mem object.1 →
      ∀ block ∈ heap.tree.inorder, ∀ slot, slot < slotCount heap.blocks block →
        object.TakesSlot block slot → t.bit block slot .mark = true
  /-- With a word in a marked slot, the object that it addresses is marked. -/
  closed :
    ∀ block ∈ heap.tree.inorder, ∀ slot, t.bit block slot .mark = true →
      ∀ a, (slotRegion block slot).HasWord a → ∀ object ∈ objects,
        object.1 ≤ mem a → mem a < object.1 + roundedSize object.2 →
          ∀ other ∈ heap.tree.inorder, ∀ s, s < slotCount heap.blocks other →
            object.TakesSlot other s → t.bit other s .mark = true
  marked :
    ∀ block ∈ heap.tree.inorder, ∀ slot, t.bit block slot .mark = true →
      heap.bit block slot .allocated = true
  scanned :
    ∀ block ∈ heap.tree.inorder, ∀ slot, t.bit block slot .scanned = true →
      heap.bit block slot .allocated = true
  /-- All links are off the list. -/
  links : ∀ block, t.next block = 0

/-- Marking returns with a closed set of marks, for any root. -/
theorem Heap.Partitioned.markPhase {heap : Heap} {mem : Memory} {objects : Objects}
    (partitioned : heap.Partitioned mem objects)
    (proper :
      ∀ block ∈ heap.tree.inorder, ∀ slot, heap.bit block slot .allocated = true →
        ∀ a, (slotRegion block slot).HasWord a → heap.Proper objects (mem a))
    (children : List Nat) :
    ∃ t, Outcome.Returns (fun depth => LinkedMark.mark depth heap children mem fun _ => 0) t ∧
      MarkPhase heap mem objects t := by
  obtain ⟨s, ⟨depth, returns⟩, marked⟩ := Heap.mark_spec partitioned.ready mem children
  have isWord : ∀ block ∈ heap.tree.inorder, 1 < block := by
    intro block member
    obtain ⟨_, positive, aligned⟩ := partitioned.layout.aligned block member
    simp only [wordSize] at aligned
    omega
  obtain ⟨t, run, same⟩ :=
    (LinkedMark.mark_related isWord children mem depth).exists_ok (returns depth le_rfl)
  have sameBit : ∀ block slot flag, t.bit block slot flag = s.bit block slot flag := by
    intro block slot flag
    rw [LinkedMark.bit, same.blocks, Heap.MarkState.bit]
  have covered : ∀ block ∈ heap.tree.inorder, ∀ slot,
      t.bit block slot .mark = true ↔ heap.Covered mem block slot := by
    intro block member slot
    rw [sameBit]
    exact marked.covered block member slot
  refine ⟨t, LinkedMark.mark_returns run, ?_, ?_, ?_, ?_, ?_⟩
  · intro object isObject isRoot block member slot inBlock takes
    obtain ⟨home, first, count, occupies⟩ := partitioned.held object isObject
    obtain ⟨same, atLeast, below⟩ := (partitioned.takesSlot_iff occupies member inBlock).mp takes
    subst same
    rw [covered home member]
    exact .root isRoot (occupies.target partitioned) (occupies.covers atLeast below)
  · intro block member slot isMarked a inSlot object isObject above below other otherMember u
      inBlock takes
    have isCovered := (covered block member slot).mp isMarked
    have isAllocated := (isCovered.allocated partitioned).2
    have isFirst :=
      Heap.first_of_proper partitioned isObject
        (proper block member slot isAllocated a inSlot) above below
    obtain ⟨home, first, count, occupies⟩ := partitioned.held object isObject
    have isTarget := occupies.target partitioned
    rw [isFirst] at isTarget
    obtain ⟨same, atLeast, below⟩ :=
      (partitioned.takesSlot_iff occupies otherMember inBlock).mp takes
    subst same
    rw [covered home otherMember]
    exact .slot isCovered inSlot isTarget (occupies.covers atLeast below)
  · intro block member slot isMarked
    exact (((covered block member slot).mp isMarked).allocated partitioned).2
  · intro block member slot isScanned
    rw [sameBit] at isScanned
    have isMarked := marked.scanned block member slot isScanned
    exact (((marked.covered block member slot).mp isMarked).allocated partitioned).2
  · intro block
    apply same.links.off
    have run := returns depth le_rfl
    simp only [Heap.mark] at run
    obtain ⟨_, _, run⟩ := Outcome.bind_eq_ok.mp run
    obtain ⟨_, _, run⟩ := Outcome.bind_eq_ok.mp run
    rw [Heap.scanWorkList_workList run]
    exact List.not_mem_nil

namespace Family

/-- In every state of a run in which the stored words of a heap are proper, the
mark phase is correct for every root. -/
theorem StorageRun.markPhase_correct {f : Family} {objects : Nat → Objects}
    (run : StorageRun f objects) {h : Nat} {node : HeapNode} (isNode : f.heaps h = some node)
    (proper :
      ∀ block ∈ node.storage.tree.inorder, ∀ slot,
        node.storage.bit block slot .allocated = true →
          ∀ a, (slotRegion block slot).HasWord a →
            node.storage.Proper (objects h) (f.memory a))
    (children : List Nat) (rootBegin rootEnd : Nat) :
    ∃ t,
      Outcome.Returns
          (fun depth =>
            LinkedMark.mark depth
              { node.storage with rootBegin := rootBegin, rootEnd := rootEnd } children f.memory
              fun _ => 0)
          t ∧
        MarkPhase { node.storage with rootBegin := rootBegin, rootEnd := rootEnd } f.memory
          (objects h) t := by
  have partitioned := run.sound.partitioned h node.storage (store_heaps isNode)
  have anyRoot :
      Heap.Partitioned { node.storage with rootBegin := rootBegin, rootEnd := rootEnd }
        f.memory (objects h) :=
    partitioned.congr rfl
  exact anyRoot.markPhase proper children

theorem markPhase_correct_rootedFamily :
    ∃ t,
      Outcome.Returns
          (fun depth =>
            LinkedMark.mark depth
              { allocated.2.1 with rootBegin := 64, rootEnd := 72 } [] rootedFamily.memory
              fun _ => 0)
          t ∧
        MarkPhase { allocated.2.1 with rootBegin := 64, rootEnd := 72 } rootedFamily.memory
          (rootedObjects 1) t :=
  @StorageRun.markPhase_correct _ _ rootedFamily_run 1 ⟨allocated.2.1, 0, 0, 0, false⟩ rfl
    (rootedFamily_disciplined 1 allocated.2.1 rfl).stored [] 64 72

end Family

end Rcgo.Storage
