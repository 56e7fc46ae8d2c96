import Rcgo.Storage.Upkeep

/-!
# The representation of all heaps

The heaps have no storage in common, and the slots of each heap are divided
among its objects and the chunks of its free list.  Every operation keeps this.
-/

namespace Rcgo.Storage

open Rcgo.Foundation Relation

namespace Heap

/-- A change of the root or of `next_collection_size_` does not concern the
slots. -/
theorem Partitioned.congr {heap other : Heap} {mem : Memory} {objects : Objects}
    (partitioned : heap.Partitioned mem objects) {rootBegin rootEnd nextCollectionSize : Nat}
    (same :
      other =
        { heap with
          rootBegin := rootBegin
          rootEnd := rootEnd
          nextCollectionSize := nextCollectionSize }) :
    other.Partitioned mem objects := by
  subst same
  obtain ⟨⟨ordered, aligned, blockSize, chunks, free⟩, clean, ⟨others, otherFree, covering⟩,
    held, single, owned, flagged, size⟩ := partitioned
  have within :
      heap.Within
        { heap with
          rootBegin := rootBegin
          rootEnd := rootEnd
          nextCollectionSize := nextCollectionSize } :=
    fun block member => ⟨member, rfl⟩
  refine
    ⟨⟨ordered, aligned, blockSize, chunks, free.segment, free.run, free.apart⟩, clean,
     ⟨others, ⟨otherFree.segment, otherFree.run, otherFree.apart⟩, covering⟩, ?_, single, ?_,
     flagged, size⟩
  · intro object isObject
    obtain ⟨block, slot, count, occupies⟩ := held object isObject
    exact ⟨block, slot, count, within.occupies occupies⟩
  · intro block member slot isAllocated
    obtain ⟨object, isObject, first, count, occupies, range⟩ :=
      owned block member slot isAllocated
    exact ⟨object, isObject, first, count, within.occupies occupies, range⟩

theorem external_partitioned (rootBegin size : Nat) (mem : Memory) :
    (external rootBegin size).Partitioned mem ∅ := by
  have noBlocks : ∀ block, block ∉ (external rootBegin size).tree.inorder :=
    fun block => List.not_mem_nil
  have free : (external rootBegin size).FreeChunks mem [] :=
    ⟨rfl, fun region member => absurd member List.not_mem_nil, List.Pairwise.nil⟩
  refine ⟨⟨⟨List.Pairwise.nil, ?_⟩, ?_, ⟨0, rfl⟩, [], free⟩, ?_, ⟨[], free, ?_⟩, ?_, ?_, ?_, ?_,
    rfl⟩
  · exact fun block member => absurd member (noBlocks block)
  · exact fun block member => absurd member (noBlocks block)
  · exact fun block member => absurd member (noBlocks block)
  · exact fun block member => absurd member (noBlocks block)
  · exact fun object isObject => absurd isObject (Set.notMem_empty object)
  · exact fun object isObject => absurd isObject (Set.notMem_empty object)
  · exact fun block member => absurd member (noBlocks block)
  · exact fun block member => absurd member (noBlocks block)

theorem rootAddress_of_hasWord {heap : Heap} {a : Nat} (isWord : heap.rootRegion.HasWord a) :
    heap.RootAddress a := by
  obtain ⟨_, above, below⟩ := isWord
  simp only [rootRegion] at above below
  exact Or.inr ⟨above, by omega⟩

theorem Disciplined.congr_memory {heap : Heap} {mem other : Memory} {objects : Objects}
    (disciplined : heap.Disciplined mem objects) (partitioned : heap.Partitioned mem objects)
    (same : ∀ a, heap.RootAddress a ∨ heap.Owns a → other a = mem a) :
    heap.Disciplined other objects := by
  constructor
  · intro a isWord
    rw [same a (Or.inl (rootAddress_of_hasWord isWord))]
    exact disciplined.root a isWord
  · intro block member slot isAllocated a isWord
    have inBlock := partitioned.allocated_inBlock member isAllocated
    have inSlot : InSlot block slot a := by
      obtain ⟨_, above, below⟩ := isWord
      simp only [slotRegion, slotSize] at above below
      simp only [InSlot, slotSize]
      omega
    rw [same a (Or.inr ⟨block, member, inSlot.inside inBlock⟩)]
    exact disciplined.stored block member slot isAllocated a isWord

end Heap

namespace Store

/-- The invariant of all heaps, with the objects of each. -/
structure Sound (s : Store) (objects : Nat → Objects) : Prop where
  partitioned :
    ∀ h heap, s.heaps h = some heap → heap.Partitioned s.memory (objects h)
  rooted : ∀ h heap, s.heaps h = some heap → heap.Rooted (objects h)
  separate :
    ∀ h k heap other, h ≠ k → s.heaps h = some heap → s.heaps k = some other →
      heap.Separate other
  roots :
    ∀ h k heap other, h ≠ k → s.heaps h = some heap → s.heaps k = some other →
      ∀ a, heap.RootAddress a → ¬ other.Owns a

def Disciplined (s : Store) (objects : Nat → Objects) : Prop :=
  ∀ h heap, s.heaps h = some heap → heap.Disciplined s.memory (objects h)

def stillHeld (s : Store) (objects : Nat → Objects) (h : Nat) : Objects :=
  {object ∈ objects h | ∃ heap, s.heaps h = some heap ∧ heap.HoldsObject object}

variable {s s' : Store} {objects : Nat → Objects} {h : Nat} {heap : Heap}

theorem stillHeld_eq (objects : Nat → Objects) (isHeap : s.heaps h = some heap) :
    s.stillHeld objects h = heap.stillHeld (objects h) := by
  ext object
  constructor
  · intro ⟨isObject, other, isOther, holds⟩
    rw [isHeap, Option.some.injEq] at isOther
    exact ⟨isObject, isOther ▸ holds⟩
  · intro ⟨isObject, holds⟩
    exact ⟨isObject, heap, isHeap, holds⟩

theorem update_eq_some {heaps : Nat → Option Heap} {after other : Heap} {k : Nat} :
    Function.update heaps h (some after) k = some other ↔
      (k = h ∧ other = after) ∨ (k ≠ h ∧ heaps k = some other) := by
  by_cases here : k = h
  · rw [here, Function.update_self, Option.some.injEq]
    simp [eq_comm]
  · rw [Function.update_of_ne here]
    simp [here]

theorem update_none_eq_some {heaps : Nat → Option Heap} {other : Heap} {k : Nat} :
    Function.update heaps h none k = some other ↔ k ≠ h ∧ heaps k = some other := by
  by_cases here : k = h
  · rw [here, Function.update_self]
    simp
  · rw [Function.update_of_ne here]
    simp [here]

namespace Sound

variable (sound : s.Sound objects)

include sound

theorem congr_objects {others : Nat → Objects}
    (same : ∀ h heap, s.heaps h = some heap → others h = objects h) : s.Sound others := by
  refine ⟨?_, ?_, sound.separate, sound.roots⟩
  · intro h heap isHeap
    rw [same h heap isHeap]
    exact sound.partitioned h heap isHeap
  · intro h heap isHeap
    rw [same h heap isHeap]
    exact sound.rooted h heap isHeap

theorem stillHeld_self (isHeap : s.heaps h = some heap) : s.stillHeld objects h = objects h := by
  rw [stillHeld_eq objects isHeap]
  exact (sound.partitioned h heap isHeap).stillHeld_self

theorem restrict {heaps : Nat → Option Heap} {mem : Memory}
    (shrinks : ∀ k other, heaps k = some other → s.heaps k = some other)
    (frame : ∀ k other, heaps k = some other → ∀ a, other.Owns a → mem a = s.memory a) :
    Sound ⟨heaps, mem⟩ objects := by
  refine ⟨?_, ?_, ?_, ?_⟩
  · intro k other isHeap
    exact (sound.partitioned k other (shrinks k other isHeap)).frame (frame k other isHeap)
  · intro k other isHeap
    exact sound.rooted k other (shrinks k other isHeap)
  · intro k l other second different isHeap isSecond
    exact
      sound.separate k l other second different (shrinks k other isHeap)
        (shrinks l second isSecond)
  · intro k l other second different isHeap isSecond
    exact
      sound.roots k l other second different (shrinks k other isHeap) (shrinks l second isSecond)

theorem update {after : Heap} {mem : Memory} {added : Objects}
    (partitioned : after.Partitioned mem added) (rooted : after.Rooted added)
    (apart :
      ∀ k other, k ≠ h → s.heaps k = some other →
        after.Separate other ∧ (∀ a, after.RootAddress a → ¬ other.Owns a) ∧
          (∀ a, other.RootAddress a → ¬ after.Owns a) ∧
          ∀ a, other.Owns a → mem a = s.memory a) :
    Sound ⟨Function.update s.heaps h (some after), mem⟩ (Function.update objects h added) := by
  refine ⟨?_, ?_, ?_, ?_⟩
  · intro k other isHeap
    rcases update_eq_some.mp isHeap with ⟨here, isAfter⟩ | ⟨elsewhere, isOld⟩
    · rw [here, isAfter, Function.update_self]
      exact partitioned
    · rw [Function.update_of_ne elsewhere]
      exact (sound.partitioned k other isOld).frame (apart k other elsewhere isOld).2.2.2
  · intro k other isHeap
    rcases update_eq_some.mp isHeap with ⟨here, isAfter⟩ | ⟨elsewhere, isOld⟩
    · rw [here, isAfter, Function.update_self]
      exact rooted
    · rw [Function.update_of_ne elsewhere]
      exact sound.rooted k other isOld
  · intro k l other second different isHeap isSecond
    rcases update_eq_some.mp isHeap with ⟨here, isAfter⟩ | ⟨elsewhere, isOld⟩ <;>
      rcases update_eq_some.mp isSecond with ⟨secondHere, isSecondAfter⟩ | ⟨secondElse, isSecondOld⟩
    · exact absurd (here.trans secondHere.symm) different
    · rw [isAfter]
      exact (apart l second secondElse isSecondOld).1
    · rw [isSecondAfter]
      exact (apart k other elsewhere isOld).1.symm
    · exact sound.separate k l other second different isOld isSecondOld
  · intro k l other second different isHeap isSecond
    rcases update_eq_some.mp isHeap with ⟨here, isAfter⟩ | ⟨elsewhere, isOld⟩ <;>
      rcases update_eq_some.mp isSecond with ⟨secondHere, isSecondAfter⟩ | ⟨secondElse, isSecondOld⟩
    · exact absurd (here.trans secondHere.symm) different
    · rw [isAfter]
      exact (apart l second secondElse isSecondOld).2.1
    · rw [isSecondAfter]
      exact (apart k other elsewhere isOld).2.2.1
    · exact sound.roots k l other second different isOld isSecondOld

/-- `next_collection_size_ = 0`. -/
theorem force (h : Nat) : (s.force h).Sound objects := by
  have cases : ∀ k other, (s.force h).heaps k = some other →
      ∃ old size, s.heaps k = some old ∧ other = { old with nextCollectionSize := size } := by
    intro k other isHeap
    simp only [Store.force] at isHeap
    by_cases here : k = h
    · rw [if_pos here] at isHeap
      obtain ⟨old, isOld, same⟩ := Option.map_eq_some_iff.mp isHeap
      exact ⟨old, 0, isOld, same.symm⟩
    · rw [if_neg here] at isHeap
      exact ⟨other, other.nextCollectionSize, isHeap, rfl⟩
  refine ⟨?_, ?_, ?_, ?_⟩
  · intro k other isHeap
    obtain ⟨old, size, isOld, same⟩ := cases k other isHeap
    exact (sound.partitioned k old isOld).congr same
  · intro k other isHeap
    obtain ⟨old, size, isOld, same⟩ := cases k other isHeap
    have rooted := sound.rooted k old isOld
    rw [same]
    exact rooted
  · intro k l other second different isHeap isSecond
    obtain ⟨old, size, isOld, same⟩ := cases k other isHeap
    obtain ⟨oldSecond, secondSize, isOldSecond, sameSecond⟩ := cases l second isSecond
    have separate := sound.separate k l old oldSecond different isOld isOldSecond
    rw [same, sameSecond]
    exact separate
  · intro k l other second different isHeap isSecond
    obtain ⟨old, size, isOld, same⟩ := cases k other isHeap
    obtain ⟨oldSecond, secondSize, isOldSecond, sameSecond⟩ := cases l second isSecond
    have roots := sound.roots k l old oldSecond different isOld isOldSecond
    rw [same, sameSecond]
    exact roots

end Sound

/-! ## Collections -/

/-- The state after one step keeps the invariant, with the objects that are
still held, and no heap holds new objects. -/
structure Kept (s : Store) (objects : Nat → Objects) (s' : Store) : Prop where
  sound : s'.Sound (s'.stillHeld objects)
  disciplined : s'.Disciplined (s'.stillHeld objects)
  old :
    ∀ h heap, s'.heaps h = some heap → ∃ old, s.heaps h = some old ∧
      ∀ object, heap.HoldsObject object → old.HoldsObject object

theorem kept_of_delete (sound : s.Sound objects) (disciplined : s.Disciplined objects) (h : Nat) :
    s.Kept objects { s with heaps := Function.update s.heaps h none } := by
  have shrinks : ∀ k other, Function.update s.heaps h none k = some other →
      s.heaps k = some other :=
    fun k other isHeap => (update_none_eq_some.mp isHeap).2
  have restricted : Sound { s with heaps := Function.update s.heaps h none } objects :=
    sound.restrict shrinks fun _ _ _ _ _ => rfl
  refine ⟨?_, ?_, fun k other isHeap => ⟨other, shrinks k other isHeap, fun _ => id⟩⟩
  · apply restricted.congr_objects
    intro k other isHeap
    exact restricted.stillHeld_self isHeap
  · intro k other isHeap
    rw [restricted.stillHeld_self isHeap]
    exact disciplined k other (shrinks k other isHeap)

theorem kept_of_sweep (sound : s.Sound objects) (disciplined : s.Disciplined objects)
    (isHeap : s.heaps h = some heap) {children : List Nat} {marked : Heap.MarkState}
    {r : Heap.SweepState} {new : List Region} {tree : BlockTree}
    (collected :
      heap.MarkedAndSwept s.memory children marked r new (heap.afterSweep tree r)) :
    s.Kept objects ⟨Function.update s.heaps h (some (heap.afterSweep tree r)), r.memory⟩ := by
  have partitioned := sound.partitioned h heap isHeap
  have rooted := sound.rooted h heap isHeap
  have words := disciplined h heap isHeap
  have full := collected.fullCollection partitioned.ready ⟨r.retval, rfl⟩
  have updated :=
    sound.update (partitioned.swept collected rooted words)
      (rooted.swept collected partitioned words) (by
        intro k other elsewhere isOther
        have separate := sound.separate h k heap other (Ne.symm elsewhere) isHeap isOther
        refine ⟨?_, ?_, ?_, ?_⟩
        · intro block member otherBlock otherMember
          rw [collected.limit]
          exact separate block (collected.mem_tree.mp member).1 otherBlock otherMember
        · exact sound.roots h k heap other (Ne.symm elsewhere) isHeap isOther
        · intro a isRoot isOwned
          exact
            sound.roots k h other heap elsewhere isOther isHeap a isRoot
              (Heap.owns_of_swept collected isOwned)
        · intro a isOwned
          exact full.frame a (separate.symm.not_owns isOwned))
  have sameObjects : ∀ k other,
      Function.update s.heaps h (some (heap.afterSweep tree r)) k = some other →
        stillHeld ⟨Function.update s.heaps h (some (heap.afterSweep tree r)), r.memory⟩
            objects k =
          Function.update objects h ((heap.afterSweep tree r).stillHeld (objects h)) k := by
    intro k other isOther
    rw [stillHeld_eq objects isOther]
    rcases update_eq_some.mp isOther with ⟨here, isAfter⟩ | ⟨elsewhere, isOld⟩
    · rw [here, Function.update_self, isAfter]
    · rw [Function.update_of_ne elsewhere]
      exact (sound.partitioned k other isOld).stillHeld_self
  refine ⟨updated.congr_objects sameObjects, ?_, ?_⟩
  · intro k other isOther
    rw [sameObjects k other isOther]
    rcases update_eq_some.mp isOther with ⟨here, isAfter⟩ | ⟨elsewhere, isOld⟩
    · rw [isAfter, here, Function.update_self]
      exact words.swept collected partitioned rooted
    · rw [Function.update_of_ne elsewhere]
      apply (disciplined k other isOld).congr_memory (sound.partitioned k other isOld)
      intro a either
      apply full.frame
      rcases either with isRoot | isOwned
      · exact sound.roots k h other heap elsewhere isOld isHeap a isRoot
      · exact (sound.separate k h other heap elsewhere isOld isHeap).not_owns isOwned
  · intro k other isOther
    rcases update_eq_some.mp isOther with ⟨here, isAfter⟩ | ⟨elsewhere, isOld⟩
    · rw [here, isAfter]
      exact ⟨heap, isHeap, fun object => Heap.holdsObject_of_swept collected⟩
    · exact ⟨other, isOld, fun _ => id⟩

theorem Upkeep.kept (upkeep : s.Upkeep s') (sound : s.Sound objects)
    (disciplined : s.Disciplined objects) : s.Kept objects s' := by
  cases upkeep with
  | delete h => exact kept_of_delete sound disciplined h
  | @sweep h heap children depth marked isHeap marks =>
      have partitioned := sound.partitioned h heap isHeap
      obtain ⟨other, returns, isMarked⟩ := Heap.mark_spec partitioned.ready s.memory children
      rw [returns.unique (Heap.mark_returns marks)] at isMarked
      obtain ⟨new, collected⟩ := Heap.sweep_marked partitioned.ready isMarked
      exact kept_of_sweep sound disciplined isHeap collected

theorem sound_of_upkeep (sound : s.Sound objects) (disciplined : s.Disciplined objects)
    (upkeep : ReflTransGen Upkeep s s') :
    s'.Sound (s'.stillHeld objects) ∧ s'.Disciplined (s'.stillHeld objects) := by
  induction upkeep with
  | refl =>
      constructor
      · apply sound.congr_objects
        intro h heap isHeap
        exact sound.stillHeld_self isHeap
      · intro h heap isHeap
        rw [sound.stillHeld_self isHeap]
        exact disciplined h heap isHeap
  | @tail middle last _ step inductionHypothesis =>
      obtain ⟨middleSound, middleDisciplined⟩ := inductionHypothesis
      obtain ⟨lastSound, lastDisciplined, shrinks⟩ := step.kept middleSound middleDisciplined
      have same : ∀ h heap, last.heaps h = some heap →
          last.stillHeld objects h = last.stillHeld (middle.stillHeld objects) h := by
        intro h heap isHeap
        obtain ⟨old, isOld, held⟩ := shrinks h heap isHeap
        rw [stillHeld_eq objects isHeap, stillHeld_eq _ isHeap, stillHeld_eq objects isOld]
        ext object
        constructor
        · intro ⟨isObject, holds⟩
          exact ⟨⟨isObject, held object holds⟩, holds⟩
        · intro ⟨⟨isObject, _⟩, holds⟩
          exact ⟨isObject, holds⟩
      constructor
      · exact lastSound.congr_objects same
      · intro h heap isHeap
        rw [same h heap isHeap]
        exact lastDisciplined h heap isHeap

/-! ## Allocations -/

/-- What `operator new` guarantees of storage for a block: it is apart from all
storage in use. -/
structure Fresh (s : Store) (storage size : Nat) : Prop where
  positive : 0 < storage
  aligned : slotSize ∣ storage
  blocks :
    ∀ h heap, s.heaps h = some heap → ∀ block ∈ heap.tree.inorder,
      (heap.blocks block).limit ≤ storage ∨ storage + size ≤ block
  root :
    ∀ h heap, s.heaps h = some heap → ∀ a, heap.RootAddress a →
      a < storage ∨ storage + size ≤ a

theorem Fresh.ofHeap {storage size : Nat} (fresh : s.Fresh storage size)
    (isHeap : s.heaps h = some heap) : heap.Fresh storage size :=
  ⟨fresh.positive, fresh.aligned, fresh.blocks h heap isHeap⟩

section Allocate

variable {after : Heap} {mem afterMem : Memory} {storage size address block slot count : Nat}
  (allocation :
    Allocation heap mem address (roundedSize size) after afterMem block slot count)
  {blockSize : Nat}
  (allocates :
    Heap.Allocates heap mem storage blockSize address (roundedSize size) after afterMem)

include allocation allocates

theorem block_of_allocates {b : Nat} (member : b ∈ after.tree.inorder) :
    (b ∈ heap.tree.inorder ∧ (after.blocks b).limit = (heap.blocks b).limit) ∨
      (b = storage ∧ (after.blocks b).limit = storage + blockSize) := by
  rcases allocates.blocks b member with old | ⟨isNew, limit⟩
  · exact Or.inl ⟨old, (allocation.grows b old).2⟩
  · exact Or.inr ⟨isNew, limit⟩

theorem owns_of_allocates {a : Nat} (owns : after.Owns a) :
    heap.Owns a ∨ (storage ≤ a ∧ a < storage + blockSize) := by
  obtain ⟨b, member, above, below⟩ := owns
  rcases block_of_allocates allocation allocates member with ⟨old, limit⟩ | ⟨isNew, limit⟩
  · exact Or.inl ⟨b, old, above, limit ▸ below⟩
  · exact Or.inr ⟨isNew ▸ above, limit ▸ below⟩

theorem separate_of_allocates {other : Heap} (separate : heap.Separate other)
    (fresh :
      ∀ b ∈ other.tree.inorder, (other.blocks b).limit ≤ storage ∨ storage + blockSize ≤ b) :
    after.Separate other := by
  intro b member otherBlock otherMember
  rcases block_of_allocates allocation allocates member with ⟨old, limit⟩ | ⟨isNew, limit⟩
  · rw [limit]
    exact separate b old otherBlock otherMember
  · rw [limit, isNew]
    exact (fresh otherBlock otherMember).symm

omit allocation in
theorem frame_of_allocates {other : Heap} (separate : heap.Separate other)
    (fresh :
      ∀ b ∈ other.tree.inorder, (other.blocks b).limit ≤ storage ∨ storage + blockSize ≤ b)
    {a : Nat} (owns : other.Owns a) : afterMem a = mem a := by
  apply allocates.frame
  · intro b member
    obtain ⟨otherBlock, otherMember, above, below⟩ := owns
    have apart := separate b member otherBlock otherMember
    omega
  · obtain ⟨otherBlock, otherMember, above, below⟩ := owns
    have apart := fresh otherBlock otherMember
    omega

end Allocate

/-- `allocate` in one of the heaps returns a zeroed object, apart from all
objects of all heaps. -/
theorem Sound.allocate (sound : s.Sound objects) (isHeap : s.heaps h = some heap)
    {storage size : Nat} (positive : 0 < size)
    (fresh : s.Fresh storage (heap.newBlockSize (roundedSize size))) :
    ∃ address after mem,
      Outcome.Returns (fun depth => Heap.allocate depth storage size heap s.memory)
          (address, after, mem) ∧
        Sound ⟨Function.update s.heaps h (some after), mem⟩
          (Function.update objects h (insert (address, size) (objects h))) ∧
        after.HoldsObject (address, size) ∧
        (∀ a, address ≤ a → a < address + size → mem a = 0) ∧
        ∀ object ∈ objects h, Region.Apart (address, size) object := by
  have partitioned := sound.partitioned h heap isHeap
  obtain ⟨address, after, mem, block, slot, count, returns, layout, allocation, allocates⟩ :=
    Heap.allocate_exact partitioned.layout positive (fresh.ofHeap isHeap)
  obtain ⟨_, _, enough, _⟩ := roundedSize_eq size
  refine ⟨address, after, mem, returns, ?_, allocation.holdsNew rfl, ?_, ?_⟩
  · apply sound.update (partitioned.allocate allocation layout allocates)
    · rcases sound.rooted h heap isHeap with isObject | outside
      · refine Or.inl (Set.mem_insert_of_mem _ ?_)
        rw [Heap.rootRegion, allocation.root.1, allocation.root.2]
        exact isObject
      · right
        intro a isRoot isOwned
        rw [Heap.RootAddress, allocation.root.1, allocation.root.2] at isRoot
        rcases owns_of_allocates allocation allocates isOwned with old | new
        · exact outside a isRoot old
        · have := fresh.root h heap isHeap a isRoot
          omega
    · intro k other elsewhere isOther
      have separate := sound.separate h k heap other (Ne.symm elsewhere) isHeap isOther
      have otherFresh := fresh.blocks k other isOther
      refine ⟨separate_of_allocates allocation allocates separate otherFresh, ?_, ?_,
        fun a => frame_of_allocates allocates separate otherFresh⟩
      · intro a isRoot
        rw [Heap.RootAddress, allocation.root.1, allocation.root.2] at isRoot
        exact sound.roots h k heap other (Ne.symm elsewhere) isHeap isOther a isRoot
      · intro a isRoot isOwned
        rcases owns_of_allocates allocation allocates isOwned with old | new
        · exact sound.roots k h other heap elsewhere isOther isHeap a isRoot old
        · have := fresh.root k other isOther a isRoot
          omega
  · intro a above below
    exact allocates.zeroed a above (by omega)
  · intro object isObject
    obtain ⟨b, first, number, occupies⟩ := partitioned.held object isObject
    have apart := allocation.apart layout occupies.holdsObject
    simp only [Region.Apart] at apart ⊢
    omega

theorem Sound.makeExternal (sound : s.Sound objects) (h : Nat) {rootBegin size : Nat}
    (outside :
      ∀ k other, s.heaps k = some other → ∀ a,
        (Heap.external rootBegin size).RootAddress a → ¬ other.Owns a) :
    Sound ⟨Function.update s.heaps h (some (Heap.external rootBegin size)), s.memory⟩
      (Function.update objects h ∅) := by
  have owns : ∀ a, ¬ (Heap.external rootBegin size).Owns a := by
    intro a ⟨block, member, _⟩
    exact absurd member List.not_mem_nil
  apply sound.update (Heap.external_partitioned rootBegin size s.memory)
  · exact Or.inr fun a _ => owns a
  · intro k other _ isOther
    refine ⟨?_, outside k other isOther, fun a _ => owns a, fun _ _ => rfl⟩
    intro block member
    exact absurd member List.not_mem_nil

/-- A heap with an internal root. -/
theorem Sound.makeInternal (sound : s.Sound objects) (h : Nat) {storage size : Nat}
    (positive : 0 < size) (fresh : s.Fresh storage (roundedSize size)) :
    ∃ root mem,
      Outcome.Returns (fun depth => Heap.internal depth storage size s.memory) (root, mem) ∧
        Sound ⟨Function.update s.heaps h (some root), mem⟩
          (Function.update objects h {(root.rootBegin, size)}) := by
  have partitioned := Heap.external_partitioned 0 0 s.memory
  obtain ⟨number, isRounded, enough, isPositive⟩ := roundedSize_eq size
  have isSize : (Heap.external 0 0).newBlockSize (roundedSize size) = roundedSize size := by
    rw [Heap.newBlockSize, if_pos]
    exact Nat.lt_of_lt_of_le positive enough
  have noBlocks : ∀ block, block ∉ (Heap.external 0 0).tree.inorder :=
    fun block => List.not_mem_nil
  have isFresh :
      (Heap.external 0 0).Fresh storage
        ((Heap.external 0 0).newBlockSize (roundedSize size)) :=
    ⟨fresh.positive, fresh.aligned, fun block member => absurd member (noBlocks block)⟩
  obtain ⟨address, after, mem, block, slot, count, returns, layout, allocation, allocates⟩ :=
    Heap.allocate_exact partitioned.layout positive isFresh
  rw [isSize] at allocates
  have added := partitioned.allocate allocation layout allocates
  rw [insert_empty_eq] at added
  refine ⟨{ after with rootBegin := address, rootEnd := address + size }, mem,
    returns.bind (Outcome.Returns.of_forall fun _ => rfl), ?_⟩
  have isRoot : ∀ a,
      Heap.RootAddress { after with rootBegin := address, rootEnd := address + size } a →
        after.Owns a := by
    intro a isRoot
    simp only [Heap.RootAddress] at isRoot
    exact (allocation.holdsNew rfl).owns (by simp only; omega) (by simp only; omega)
  have inStorage : ∀ a, after.Owns a → storage ≤ a ∧ a < storage + roundedSize size := by
    intro a owns
    rcases owns_of_allocates allocation allocates owns with ⟨b, member, _⟩ | new
    · exact absurd member (noBlocks b)
    · exact new
  apply sound.update (added.congr rfl)
  · left
    simp only [Heap.rootRegion, Nat.add_sub_cancel_left, Set.mem_singleton_iff]
  · intro k other elsewhere isOther
    have separate : (Heap.external 0 0).Separate other :=
      fun b member => absurd member (noBlocks b)
    have otherFresh := fresh.blocks k other isOther
    have apart := separate_of_allocates allocation allocates separate otherFresh
    refine ⟨apart, ?_, ?_, fun a => frame_of_allocates allocates separate otherFresh⟩
    · intro a isRootAddress
      exact apart.not_owns (isRoot a isRootAddress)
    · intro a isOtherRoot isOwned
      have := inStorage a isOwned
      have := fresh.root k other isOther a isOtherRoot
      omega

/-! ## Stores and merges -/

theorem Sound.store (sound : s.Sound objects) {mem : Memory}
    (same :
      ∀ h heap, s.heaps h = some heap → ∀ block ∈ heap.tree.inorder, ∀ slot,
        slot < slotCount heap.blocks block → heap.bit block slot .allocated = false →
          ∀ a, InSlot block slot a → mem a = s.memory a) :
    Sound { s with memory := mem } objects := by
  refine ⟨?_, sound.rooted, sound.separate, sound.roots⟩
  intro h heap isHeap
  exact (sound.partitioned h heap isHeap).store (same h heap isHeap)

/-- `merge` moves the objects of one heap to the other. -/
theorem Sound.merge (sound : s.Sound objects) {x depth : Nat} {other after : Heap} {mem : Memory}
    (isHeap : s.heaps h = some heap) (isOther : s.heaps x = some other)
    (run : heap.mergeStorage depth other s.memory = .ok (after, mem)) :
    Sound ⟨Function.update (Function.update s.heaps h (some after)) x none, mem⟩
      (Function.update (Function.update objects h (objects h ∪ objects x)) x ∅) := by
  have partitioned := sound.partitioned h heap isHeap
  obtain ⟨chunks, free, _⟩ := partitioned.exact
  obtain ⟨_, frame, _⟩ := Heap.mergeStorage_run free run
  have frameOther : ∀ k second, k ≠ h → s.heaps k = some second →
      ∀ a, second.Owns a → mem a = s.memory a := by
    intro k second elsewhere isSecond a isOwned
    exact frame a ((sound.separate k h second heap elsewhere isSecond isHeap).not_owns isOwned)
  by_cases same : h = x
  · subst same
    -- the heap is deleted with all it owns
    rw [Function.update_idem]
    have restricted : Sound ⟨Function.update s.heaps h none, mem⟩ objects := by
      apply sound.restrict
      · intro k second isSecond
        exact (update_none_eq_some.mp isSecond).2
      · intro k second isSecond
        obtain ⟨elsewhere, isOld⟩ := update_none_eq_some.mp isSecond
        exact frameOther k second elsewhere isOld
    apply restricted.congr_objects
    intro k second isSecond
    have elsewhere := (update_none_eq_some.mp isSecond).1
    rw [Function.update_of_ne elsewhere, Function.update_of_ne elsewhere]
  · have separate := sound.separate h x heap other same isHeap isOther
    obtain ⟨union, merged, _⟩ :=
      Heap.mergeStorage_spec separate partitioned (sound.partitioned x other isOther) run
    have restricted : Sound ⟨Function.update s.heaps x none, s.memory⟩ objects :=
      sound.restrict (fun k second isSecond => (update_none_eq_some.mp isSecond).2)
        (fun _ _ _ _ _ => rfl)
    have rootAddress : ∀ a, after.RootAddress a → heap.RootAddress a := by
      intro a isRoot
      rw [Heap.RootAddress, union.root.1, union.root.2] at isRoot
      exact isRoot
    have updated :
        Sound ⟨Function.update (Function.update s.heaps x none) h (some after), mem⟩
          (Function.update objects h (objects h ∪ objects x)) := by
      apply restricted.update merged
      · rcases sound.rooted h heap isHeap with isObject | outside
        · left
          rw [Heap.rootRegion, union.root.1, union.root.2]
          exact Or.inl isObject
        · right
          intro a isRoot isOwned
          rcases union.owns_of_after isOwned with here | there
          · exact outside a (rootAddress a isRoot) here
          · exact sound.roots h x heap other same isHeap isOther a (rootAddress a isRoot) there
      · intro k second elsewhere isSecond
        obtain ⟨notDeleted, isOld⟩ := update_none_eq_some.mp isSecond
        refine ⟨?_, ?_, ?_, frameOther k second elsewhere isOld⟩
        · intro block member secondBlock secondMember
          rcases union.mem_tree block member with here | there
          · rw [(union.ofThis block here).2]
            exact
              sound.separate h k heap second (Ne.symm elsewhere) isHeap isOld block here
                secondBlock secondMember
          · rw [(union.ofOther block there).2]
            exact
              sound.separate x k other second (Ne.symm notDeleted) isOther isOld block there
                secondBlock secondMember
        · intro a isRoot
          exact
            sound.roots h k heap second (Ne.symm elsewhere) isHeap isOld a (rootAddress a isRoot)
        · intro a isRoot isOwned
          rcases union.owns_of_after isOwned with here | there
          · exact sound.roots k h second heap elsewhere isOld isHeap a isRoot here
          · exact sound.roots k x second other notDeleted isOld isOther a isRoot there
    rw [Function.update_comm (Ne.symm same)] at updated
    apply updated.congr_objects
    intro k second isSecond
    rw [Function.update_of_ne (update_none_eq_some.mp isSecond).1]

end Store

end Rcgo.Storage
