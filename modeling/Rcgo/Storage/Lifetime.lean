import Rcgo.Storage.Representation

/-!
# The lifetime of heaps

In every run of allocations, stores, collections and merges the slots of each
heap are divided among its objects and the chunks of its free list.
-/

namespace Rcgo.Storage

open Rcgo.Foundation

namespace Family

/-! ## Runs -/

/-- A step of a program and the objects of the heaps before and after it.  An
allocation of size 0 returns `NULL` and is no step. -/
inductive StorageStep (f : Family) (objects : Nat → Objects) :
    Family → (Nat → Objects) → Prop
  /-- the constructor for an external root -/
  | makeExternal {this rootBegin size} :
      ¬ f.Live this →
      (∀ k other, f.store.heaps k = some other → ∀ a,
        (Heap.external rootBegin size).RootAddress a → ¬ other.Owns a) →
        StorageStep f objects (f.make this (Heap.external rootBegin size))
          (Function.update objects this ∅)
  /-- the constructor for an internal root -/
  | makeInternal {this storage size root memory} :
      ¬ f.Live this → 0 < size → f.store.Fresh storage (roundedSize size) →
      Outcome.Returns (fun depth => Heap.internal depth storage size f.memory) (root, memory) →
        StorageStep f objects { f.make this root with memory := memory }
          (Function.update objects this {(root.rootBegin, size)})
  | allocate {this node storage size address after memory} :
      f.heaps this = some node → 0 < size →
      f.store.Fresh storage (node.storage.newBlockSize (roundedSize size)) →
      Outcome.Returns (fun depth => Heap.allocate depth storage size node.storage f.memory)
          (address, after, memory) →
        StorageStep f objects
          { f.set this { node with storage := after } with memory := memory }
          (Function.update objects this (insert (address, size) (objects this)))
  /-- stores of any words, except into slots that are not allocated -/
  | store {memory} :
      (∀ h heap, f.store.heaps h = some heap → ∀ block ∈ heap.tree.inorder, ∀ slot,
        slot < slotCount heap.blocks block → heap.bit block slot .allocated = false →
          ∀ a, InSlot block slot a → memory a = f.memory a) →
        StorageStep f objects { f with memory := memory } objects
  | insertChild {this child f'} :
      Family.insertChild this child f = .ok f' → StorageStep f objects f' objects
  | removeFromParent {depth this f'} :
      Family.removeFromParent depth this f = .ok f' → StorageStep f objects f' objects
  | merge {depth this x f'} :
      Family.merge depth this x f = .ok f' →
        StorageStep f objects f'
          (Function.update (Function.update objects this (objects this ∪ objects x)) x ∅)
  /-- every stored word is `NULL`, outside of its heap or the first address of
  an object when a collection begins -/
  | collectGarbage {depth force this f' retval} :
      f.store.Disciplined objects →
      Family.collectGarbage depth force this f = .ok (f', retval) →
        StorageStep f objects f' (f'.store.stillHeld objects)

/-- The states of the runs, with the objects that have been allocated and not
been freed. -/
inductive StorageRun : Family → (Nat → Objects) → Prop
  | start {memory} : StorageRun ⟨fun _ => none, memory⟩ fun _ => ∅
  | step {f objects f' objects'} :
      StorageRun f objects → StorageStep f objects f' objects' → StorageRun f' objects'

theorem StorageStep.sound {f f' : Family} {objects objects' : Nat → Objects}
    (step : StorageStep f objects f' objects') (sound : f.store.Sound objects) :
    f'.store.Sound objects' := by
  cases step with
  | @makeExternal this rootBegin size _ outside =>
      rw [Family.make, store_set]
      exact sound.makeExternal this outside
  | @makeInternal this storage size root memory _ positive fresh returns =>
      obtain ⟨specRoot, mem, specReturns, made⟩ := sound.makeInternal this positive fresh
      have same := returns.unique specReturns
      rw [Prod.mk.injEq] at same
      rw [store_withMemory, Family.make, store_set, same.1, same.2]
      exact made
  | @allocate this node storage size address after memory isNode positive fresh returns =>
      obtain ⟨specAddress, specAfter, mem, specReturns, allocated, _⟩ :=
        sound.allocate (store_heaps isNode) positive fresh
      have same := returns.unique specReturns
      simp only [Prod.mk.injEq] at same
      rw [store_withMemory, store_set, same.1, same.2.1, same.2.2]
      exact allocated
  | @store memory unchanged =>
      rw [store_withMemory]
      exact sound.store unchanged
  | insertChild run =>
      rw [insertChild_store run]
      exact sound.force _
  | removeFromParent run =>
      rcases removeFromParent_store run with same | ⟨parent, forced⟩
      · rw [same]
        exact sound
      · rw [forced]
        exact sound.force parent
  | merge run =>
      obtain ⟨heap, other, storage, memory, isHeap, isOther, merged, same⟩ := merge_store run
      rw [same]
      exact sound.merge isHeap isOther merged
  | collectGarbage disciplined run =>
      exact (Store.sound_of_upkeep sound disciplined (collectGarbage_maintained run)).1

theorem StorageRun.sound {f : Family} {objects : Nat → Objects} (run : StorageRun f objects) :
    f.store.Sound objects := by
  induction run with
  | start =>
      refine ⟨?_, ?_, ?_, ?_⟩
      · intro h heap isHeap
        cases isHeap
      · intro h heap isHeap
        cases isHeap
      · intro h k heap other _ isHeap
        cases isHeap
      · intro h k heap other _ isHeap
        cases isHeap
  | step _ step inductionHypothesis => exact step.sound inductionHypothesis

/-! ## The representation in every state -/

/-- What `allocate` returns: zeroed memory of the requested size in a block of
the heap, apart from all objects of all heaps. -/
structure Provides (f : Family) (objects : Nat → Objects) (size address : Nat) (after : Heap)
    (memory : Memory) : Prop where
  holds : after.HoldsObject (address, size)
  zeroed : ∀ a, address ≤ a → a < address + size → memory a = 0
  apart :
    ∀ k, f.Live k → ∀ object ∈ objects k, Region.Apart (address, size) object

/-- In every state of a run the objects and the chunks of each heap share its
slots, and an allocation succeeds. -/
theorem storageRun_divided {f : Family} {objects : Nat → Objects} (run : StorageRun f objects)
    {h : Nat} {node : HeapNode} (isNode : f.heaps h = some node) :
    node.storage.Divided f.memory (objects h) ∧
      ∀ storage size, 0 < size →
        f.store.Fresh storage (node.storage.newBlockSize (roundedSize size)) →
          ∃ address after memory,
            Outcome.Returns (fun depth => Heap.allocate depth storage size node.storage f.memory)
                (address, after, memory) ∧
              Provides f objects size address after memory := by
  have sound := run.sound
  have isHeap := store_heaps isNode
  refine ⟨(sound.partitioned h node.storage isHeap).divided, ?_⟩
  intro storage size positive fresh
  obtain ⟨address, after, memory, returns, allocated, holds, zeroed, apart⟩ :=
    sound.allocate isHeap positive fresh
  refine ⟨address, after, memory, returns, holds, zeroed, ?_⟩
  intro k ⟨other, isOther⟩ object isObject
  by_cases here : k = h
  · rw [here] at isObject
    exact apart object isObject
  · have isAfter : (Function.update f.store.heaps h (some after)) h = some after :=
      Function.update_self _ _ _
    have isSecond : (Function.update f.store.heaps h (some after)) k = some other.storage := by
      rw [Function.update_of_ne here]
      exact store_heaps isOther
    have separate := allocated.separate h k after other.storage (Ne.symm here) isAfter isSecond
    apply separate.apart (allocated.partitioned h after isAfter)
      (allocated.partitioned k other.storage isSecond)
    · rw [Function.update_self]
      exact Set.mem_insert _ _
    · rw [Function.update_of_ne here]
      exact isObject

/-! ### A collected heap -/

def madeFamily : Family :=
  Family.make ⟨fun _ => none, fun _ => 0⟩ 1 (Heap.external 64 8)

def allocated : Nat × Heap × Memory :=
  (Heap.allocate 1 1024 20 (Heap.external 64 8) (fun _ => 0)).getD
    (0, Heap.external 64 8, fun _ => 0)

def rootedFamily : Family :=
  { heaps := (madeFamily.set 1 ⟨allocated.2.1, 0, 0, 0, false⟩).heaps
    memory := Function.update allocated.2.2 64 1024 }

def rootedObjects : Nat → Objects :=
  Function.update (Function.update (fun _ => ∅) 1 ∅) 1 {(1024, 20)}

private def collectedFamily : Family :=
  ((Family.collectGarbage 3 true 1 rootedFamily).getD (rootedFamily, false)).1

theorem rootedFamily_run : StorageRun rootedFamily rootedObjects := by
  have made : StorageRun madeFamily (Function.update (fun _ => ∅) 1 ∅) := by
    apply StorageRun.step StorageRun.start
    apply StorageStep.makeExternal
    · intro ⟨node, isNode⟩
      cases isNode
    · intro k other isOther
      cases isOther
  have onlyHeap : ∀ k other, madeFamily.store.heaps k = some other →
      other = Heap.external 64 8 := by
    intro k other isOther
    rw [madeFamily, Family.make, store_set] at isOther
    rcases Store.update_eq_some.mp isOther with ⟨_, isMade⟩ | ⟨_, isOld⟩
    · exact isMade
    · cases isOld
  have fresh : madeFamily.store.Fresh 1024 32 := by
    refine ⟨by decide, by decide, ?_, ?_⟩
    · intro k other isOther block member
      rw [onlyHeap k other isOther] at member
      exact absurd member List.not_mem_nil
    · intro k other isOther a isRoot
      rw [onlyHeap k other isOther] at isRoot
      simp only [Heap.RootAddress, Heap.external] at isRoot
      omega
  have returns :
      Outcome.Returns
        (fun depth => Heap.allocate depth 1024 20 (Heap.external 64 8) (fun _ => 0))
        allocated := by
    refine ⟨1, ?_⟩
    intro depth enough
    cases depth with
    | zero => exact absurd enough (by decide)
    | succ depth => rfl
  have allocates :
      StorageStep madeFamily (Function.update (fun _ => ∅) 1 ∅)
        { madeFamily.set 1 ⟨allocated.2.1, 0, 0, 0, false⟩ with memory := allocated.2.2 }
        (Function.update (Function.update (fun _ => ∅) 1 ∅) 1
          (insert (allocated.1, 20) (Function.update (fun _ => (∅ : Objects)) 1 ∅ 1))) := by
    have isNode : madeFamily.heaps 1 = some ⟨Heap.external 64 8, 0, 0, 0, false⟩ :=
      set_same _ _ _
    exact StorageStep.allocate isNode (by decide) fresh returns
  have filled := StorageRun.step made allocates
  have isObjects :
      rootedObjects =
        Function.update (Function.update (fun _ => ∅) 1 ∅) 1
          (insert (allocated.1, 20) (Function.update (fun _ => (∅ : Objects)) 1 ∅ 1)) := by
    rw [Function.update_self, insert_empty_eq]
    rfl
  rw [isObjects]
  apply StorageRun.step filled
  apply StorageStep.store
  intro k other isOther block member slot _ _ a inside
  apply Function.update_of_ne
  rw [store_withMemory, store_set] at isOther
  rcases Store.update_eq_some.mp isOther with ⟨_, isHeap⟩ | ⟨_, isOld⟩
  · rw [isHeap] at member
    have isBlock : block = 1024 := List.mem_singleton.mp member
    simp only [InSlot, isBlock] at inside
    omega
  · rw [onlyHeap k other isOld] at member
    exact absurd member List.not_mem_nil

/-- Every word in memory is `NULL` or the address of the object. -/
theorem rootedFamily_disciplined : rootedFamily.store.Disciplined rootedObjects := by
  have zeroOrObject : ∀ a, rootedFamily.memory a = 0 ∨ rootedFamily.memory a = 1024 := by
    intro a
    have isMemory :
        allocated.2.2 =
          clearMemory
            (Function.update
              (Function.update (clearMemory (fun _ => 0) 1024 32) (1024 + wordSize) 32) 1024 0)
            1024 32 :=
      rfl
    simp only [rootedFamily, isMemory, clearMemory, Function.update_apply, wordSize]
    split
    · exact Or.inr rfl
    · left
      split
      · rfl
      · split
        · rfl
        · split
          · omega
          · rfl
  have isProper : ∀ {h heap} a, rootedFamily.store.heaps h = some heap →
      heap.Proper (rootedObjects h) (rootedFamily.memory a) := by
    intro h heap a isHeap
    rcases zeroOrObject a with isZero | isObject
    · exact Or.inl isZero
    · have isOne : h = 1 := by
        by_contra other
        have isNone : rootedFamily.store.heaps h = none := by
          simp only [store, rootedFamily, madeFamily, Family.make, Family.set,
            Function.update_of_ne other, Option.map_none]
        rw [isNone] at isHeap
        cases isHeap
      rw [isOne, isObject]
      exact Or.inr (Or.inr ⟨(1024, 20), by
        rw [rootedObjects, Function.update_self]
        exact Set.mem_singleton _, rfl⟩)
  intro h heap isHeap
  exact ⟨fun a _ => isProper a isHeap, fun _ _ _ _ a _ => isProper a isHeap⟩

theorem storageRun_divided_collected :
    ∃ f objects node, StorageRun f objects ∧ f.heaps 1 = some node ∧
      node.storage.tree.inorder = [1024] ∧
        (node.storage.Divided f.memory (objects 1) ∧
          ∀ storage size, 0 < size →
            f.store.Fresh storage (node.storage.newBlockSize (roundedSize size)) →
              ∃ address after memory,
                Outcome.Returns
                    (fun depth => Heap.allocate depth storage size node.storage f.memory)
                    (address, after, memory) ∧
                  Provides f objects size address after memory) := by
  have collected :
      Family.collectGarbage 3 true 1 rootedFamily = .ok (collectedFamily, true) := rfl
  have run :=
    StorageRun.step rootedFamily_run
      (StorageStep.collectGarbage rootedFamily_disciplined collected)
  exact ⟨_, _, _, run, rfl, rfl, storageRun_divided run rfl⟩

end Family

end Rcgo.Storage
