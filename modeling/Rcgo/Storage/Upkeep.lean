import Rcgo.Storage.Forest
import Rcgo.Storage.Splicing

/-!
# The storage of a family of heaps

A collection sweeps some heaps and deletes others, one after the other.  The
pointers between the heaps decide which, but do not matter for the storage.
-/

namespace Rcgo.Storage

open Rcgo.Foundation Relation

/-- The storage of the heaps that have not been deleted, and the memory. -/
structure Store where
  heaps : Nat → Option Heap
  memory : Memory

namespace Store

/-- What a collection does to one heap at a time. -/
inductive Upkeep (s : Store) : Store → Prop
  | delete (h : Nat) : Upkeep s { s with heaps := Function.update s.heaps h none }
  | sweep {h heap children depth marked} :
      s.heaps h = some heap →
      heap.mark depth children s.memory = .ok marked →
        Upkeep s
          { heaps :=
              Function.update s.heaps h
                (some (heap.afterSweep
                  (Heap.sweep heap.tree ⟨marked.blocks, s.memory, 0, 0⟩).1
                  (Heap.sweep heap.tree ⟨marked.blocks, s.memory, 0, 0⟩).2))
            memory := (Heap.sweep heap.tree ⟨marked.blocks, s.memory, 0, 0⟩).2.memory }

/-- The assignment `next_collection_size_ = 0`. -/
def force (s : Store) (h : Nat) : Store :=
  { s with
    heaps := fun k =>
      if k = h then
        (s.heaps k).map fun heap => { heap with nextCollectionSize := 0 }
      else
        s.heaps k }

end Store

namespace Family

/-- The storage without the pointers between heaps. -/
def store (f : Family) : Store :=
  ⟨fun h => (f.heaps h).map HeapNode.storage, f.memory⟩

variable {f f' : Family} {h : Nat} {node : HeapNode}

theorem store_heaps (isNode : f.heaps h = some node) : f.store.heaps h = some node.storage :=
  Option.map_eq_some_iff.mpr ⟨node, isNode, rfl⟩

theorem store_set (f : Family) (h : Nat) (node : HeapNode) :
    (f.set h node).store =
      { f.store with heaps := Function.update f.store.heaps h (some node.storage) } := by
  simp only [store, set, Store.mk.injEq, and_true]
  funext k
  by_cases here : k = h
  · rw [here, Function.update_self, Function.update_self, Option.map_some]
  · rw [Function.update_of_ne here, Function.update_of_ne here]

theorem store_withMemory (f : Family) (memory : Memory) :
    store { f with memory := memory } = { f.store with memory := memory } :=
  rfl

theorem store_release (f : Family) (h : Nat) :
    (f.release h).store = { f.store with heaps := Function.update f.store.heaps h none } := by
  simp only [store, release, Store.mk.injEq, and_true]
  funext k
  by_cases here : k = h
  · rw [here, Function.update_self, Function.update_self, Option.map_none]
  · rw [Function.update_of_ne here, Function.update_of_ne here]

theorem store_modify {change : HeapNode → HeapNode} (run : f.modify h change = .ok f')
    (keeps : ∀ node, (change node).storage = node.storage) : f'.store = f.store := by
  obtain ⟨node, isNode, result⟩ := modify_eq_ok.mp run
  rw [result, store_set, keeps, ← store_heaps isNode, Function.update_eq_self]

theorem store_write {value : Nat} {link : Link} (run : f.write value link = .ok f') :
    f'.store = f.store := by
  cases link with
  | child h => exact store_modify run fun _ => rfl
  | next h => exact store_modify run fun _ => rfl

theorem store_forceCollection (run : f.forceCollection h = .ok f') :
    f'.store = f.store.force h := by
  obtain ⟨node, isNode, result⟩ := modify_eq_ok.mp run
  rw [result, store_set, Store.force, Store.mk.injEq]
  refine ⟨?_, rfl⟩
  funext k
  by_cases here : k = h
  · rw [here, Function.update_self, if_pos rfl, store_heaps isNode, Option.map_some]
  · rw [Function.update_of_ne here, if_neg here]

theorem insertChild_store {this child : Nat} (run : insertChild this child f = .ok f') :
    f'.store = f.store.force this := by
  obtain ⟨f₁, first, run⟩ := Outcome.bind_eq_ok.mp run
  obtain ⟨parent, _, run⟩ := Outcome.bind_eq_ok.mp run
  obtain ⟨f₂, second, run⟩ := Outcome.bind_eq_ok.mp run
  obtain ⟨f₃, third, run⟩ := Outcome.bind_eq_ok.mp run
  rw [store_forceCollection run, store_write third, store_modify second fun _ => rfl,
    store_modify first fun _ => rfl]

theorem removeFromParent_store {depth this : Nat} (run : removeFromParent depth this f = .ok f') :
    f'.store = f.store ∨ ∃ parent, f'.store = f.store.force parent := by
  obtain ⟨node, _, run⟩ := Outcome.bind_eq_ok.mp run
  by_cases isRoot : node.parent ≠ 0
  · rw [if_pos isRoot] at run
    obtain ⟨link, _, run⟩ := Outcome.bind_eq_ok.mp run
    obtain ⟨f₁, first, run⟩ := Outcome.bind_eq_ok.mp run
    obtain ⟨f₂, second, run⟩ := Outcome.bind_eq_ok.mp run
    refine Or.inr ⟨node.parent, ?_⟩
    rw [store_forceCollection run, store_modify second fun _ => rfl, store_write first]
  · rw [if_neg isRoot, Outcome.pure_eq, Outcome.ok.injEq] at run
    rw [run]
    exact Or.inl rfl

/-! ## Deletion and collection -/

/-- The storage of the second family comes from that of the first one by
sweeps and deletions. -/
def Maintained (f f' : Family) : Prop :=
  ReflTransGen Store.Upkeep f.store f'.store

theorem Maintained.of_store {f'' : Family} (same : f'.store = f.store)
    (rest : Maintained f' f'') : Maintained f f'' := by
  rw [Maintained, same] at rest
  exact rest

theorem destroyChildren_maintained {delete : Nat → Family → Outcome FamilyFault Family}
    (deletes : ∀ {child f f'}, delete child f = .ok f' → Maintained f f') {this : Nat} :
    ∀ {depth : Nat} {f f' : Family}, destroyChildren delete this depth f = .ok f' →
      Maintained f f' := by
  intro depth
  induction depth with
  | zero =>
      intro f f' run
      cases run
  | succ depth inductionHypothesis =>
      intro f f' run
      obtain ⟨node, _, run⟩ := Outcome.bind_eq_ok.mp run
      by_cases hasChild : node.child ≠ 0
      · rw [if_pos hasChild] at run
        obtain ⟨child, _, run⟩ := Outcome.bind_eq_ok.mp run
        obtain ⟨f₁, written, run⟩ := Outcome.bind_eq_ok.mp run
        obtain ⟨f₂, deleted, run⟩ := Outcome.bind_eq_ok.mp run
        apply Maintained.of_store (store_write written)
        exact (deletes deleted).trans (inductionHypothesis run)
      · rw [if_neg hasChild, Outcome.pure_eq, Outcome.ok.injEq] at run
        rw [run]
        exact ReflTransGen.refl

theorem destroy_maintained {depth : Nat} :
    ∀ {this : Nat} {f f' : Family}, destroy depth this f = .ok f' → Maintained f f' := by
  induction depth with
  | zero =>
      intro this f f' run
      cases run
  | succ depth inductionHypothesis =>
      intro this f f' run
      obtain ⟨f₁, children, run⟩ := Outcome.bind_eq_ok.mp run
      rw [Outcome.pure_eq, Outcome.ok.injEq] at run
      apply (destroyChildren_maintained inductionHypothesis children).tail
      rw [← run, store_release]
      exact Store.Upkeep.delete this

theorem setReachable_store :
    ∀ (list : List Nat) {f f' : Family}, f.setReachable list = .ok f' → f'.store = f.store
  | [], f, f', run => by
      rw [setReachable, Outcome.pure_eq, Outcome.ok.injEq] at run
      rw [run]
  | c :: rest, f, f', run => by
      rw [setReachable] at run
      obtain ⟨f₁, first, run⟩ := Outcome.bind_eq_ok.mp run
      rw [setReachable_store rest run, store_modify first fun _ => rfl]

theorem collectStorage_maintained {depth this : Nat}
    (run : f.collectStorage depth this = .ok f') : Maintained f f' := by
  rw [collectStorage] at run
  obtain ⟨node, gotNode, run⟩ := Outcome.bind_eq_ok.mp run
  obtain ⟨list, _, run⟩ := Outcome.bind_eq_ok.mp run
  obtain ⟨marked, marks, run⟩ := Outcome.bind_eq_ok.mp run
  obtain ⟨f₁, flags, run⟩ := Outcome.bind_eq_ok.mp run
  obtain ⟨f₂, swept, run⟩ := Outcome.bind_eq_ok.mp run
  rw [Outcome.pure_eq, Outcome.ok.injEq] at run
  have isHeap := store_heaps (get_eq_ok.mp gotNode)
  have sameStore := setReachable_store _ flags
  have sameMemory : f₁.memory = f.memory := congrArg Store.memory sameStore
  obtain ⟨node₁, isNode₁, isSwept⟩ := modify_eq_ok.mp swept
  have sameStorage : node₁.storage = node.storage := by
    have here := store_heaps isNode₁
    rw [sameStore, isHeap, Option.some.injEq] at here
    exact here.symm
  have isAfter :
      f'.store =
        { heaps :=
            Function.update f.store.heaps this
              (some (node.storage.afterSweep
                (Heap.sweep node.storage.tree ⟨marked.blocks, f.memory, 0, 0⟩).1
                (Heap.sweep node.storage.tree ⟨marked.blocks, f.memory, 0, 0⟩).2))
          memory :=
            (Heap.sweep node.storage.tree ⟨marked.blocks, f.memory, 0, 0⟩).2.memory } := by
    rw [← run, store_withMemory, isSwept, store_set, sameStore, sameMemory, sameStorage]
  apply ReflTransGen.single
  rw [isAfter]
  exact Store.Upkeep.sweep isHeap (Outcome.mapError_eq_ok.mp marks)

theorem keepReachable_maintained
    {collect : Nat → Family → Outcome FamilyFault (Family × Bool)}
    {delete : Nat → Family → Outcome FamilyFault Family}
    (collects : ∀ {child f r}, collect child f = .ok r → Maintained f r.1)
    (deletes : ∀ {child f f'}, delete child f = .ok f' → Maintained f f') {depth : Nat} :
    ∀ {link : Link} {f f' : Family}, keepReachable collect delete depth link f = .ok f' →
      Maintained f f' := by
  induction depth with
  | zero =>
      intro link f f' run
      cases run
  | succ depth inductionHypothesis =>
      intro link f f' run
      obtain ⟨child, _, run⟩ := Outcome.bind_eq_ok.mp run
      by_cases isChild : child ≠ 0
      · rw [if_pos isChild] at run
        obtain ⟨node, _, run⟩ := Outcome.bind_eq_ok.mp run
        by_cases isReachable : node.reachable = true
        · rw [if_pos isReachable] at run
          obtain ⟨r, collected, run⟩ := Outcome.bind_eq_ok.mp run
          obtain ⟨f₂, reset, run⟩ := Outcome.bind_eq_ok.mp run
          apply (collects collected).trans
          exact Maintained.of_store (store_modify reset fun _ => rfl) (inductionHypothesis run)
        · rw [if_neg isReachable] at run
          obtain ⟨f₁, written, run⟩ := Outcome.bind_eq_ok.mp run
          obtain ⟨f₂, deleted, run⟩ := Outcome.bind_eq_ok.mp run
          apply Maintained.of_store (store_write written)
          exact (deletes deleted).trans (inductionHypothesis run)
      · rw [if_neg isChild, Outcome.pure_eq, Outcome.ok.injEq] at run
        rw [run]
        exact ReflTransGen.refl

theorem collectChildren_maintained
    {collect : Nat → Family → Outcome FamilyFault (Family × Bool)}
    (collects : ∀ {child f r}, collect child f = .ok r → Maintained f r.1) {depth : Nat} :
    ∀ {child : Nat} {f : Family} {retval : Bool} {r : Family × Bool},
      collectChildren collect depth child f retval = .ok r → Maintained f r.1 := by
  induction depth with
  | zero =>
      intro child f retval r run
      cases run
  | succ depth inductionHypothesis =>
      intro child f retval r run
      rw [collectChildren] at run
      by_cases isChild : child ≠ 0
      · rw [if_pos isChild] at run
        obtain ⟨here, collected, run⟩ := Outcome.bind_eq_ok.mp run
        obtain ⟨node, _, run⟩ := Outcome.bind_eq_ok.mp run
        exact (collects collected).trans (inductionHypothesis run)
      · rw [if_neg isChild, Outcome.pure_eq, Outcome.ok.injEq] at run
        rw [← run]
        exact ReflTransGen.refl

theorem collectGarbage_maintained {depth : Nat} :
    ∀ {force : Bool} {this : Nat} {f : Family} {r : Family × Bool},
      collectGarbage depth force this f = .ok r → Maintained f r.1 := by
  induction depth with
  | zero =>
      intro force this f r run
      cases run
  | succ depth inductionHypothesis =>
      intro force this f r run
      rw [collectGarbage] at run
      obtain ⟨node, _, run⟩ := Outcome.bind_eq_ok.mp run
      by_cases isDue : force ∨ node.storage.allocatedSize > node.storage.nextCollectionSize
      · rw [if_pos isDue] at run
        obtain ⟨f₁, stored, run⟩ := Outcome.bind_eq_ok.mp run
        obtain ⟨f₂, kept, run⟩ := Outcome.bind_eq_ok.mp run
        rw [Outcome.pure_eq, Outcome.ok.injEq] at run
        rw [← run]
        apply (collectStorage_maintained stored).trans
        exact keepReachable_maintained inductionHypothesis destroy_maintained kept
      · rw [if_neg isDue] at run
        exact collectChildren_maintained inductionHypothesis run

/-! ## Merging -/

/-- After a merge the heap has the storage of both, and the other is gone. -/
theorem merge_store {depth this x : Nat} (run : merge depth this x f = .ok f') :
    ∃ heap other storage memory,
      f.store.heaps this = some heap ∧ f.store.heaps x = some other ∧
        heap.mergeStorage depth other f.memory = .ok (storage, memory) ∧
        f'.store =
          { heaps := Function.update (Function.update f.store.heaps this (some storage)) x none
            memory := memory } := by
  obtain ⟨f₀, stored, run⟩ := Outcome.bind_eq_ok.mp run
  obtain ⟨link, _, run⟩ := Outcome.bind_eq_ok.mp run
  obtain ⟨_, _, run⟩ := Outcome.bind_eq_ok.mp run
  obtain ⟨f₁, firstWrite, run⟩ := Outcome.bind_eq_ok.mp run
  obtain ⟨f₂, secondWrite, run⟩ := Outcome.bind_eq_ok.mp run
  rw [mergeStorage] at stored
  obtain ⟨node, gotNode, stored⟩ := Outcome.bind_eq_ok.mp stored
  obtain ⟨other, gotOther, stored⟩ := Outcome.bind_eq_ok.mp stored
  obtain ⟨⟨storage, memory⟩, merged, stored⟩ := Outcome.bind_eq_ok.mp stored
  obtain ⟨f₃, first, stored⟩ := Outcome.bind_eq_ok.mp stored
  obtain ⟨f₄, second, stored⟩ := Outcome.bind_eq_ok.mp stored
  rw [Outcome.pure_eq, Outcome.ok.injEq] at stored
  refine ⟨node.storage, other.storage, storage, memory, store_heaps (get_eq_ok.mp gotNode),
    store_heaps (get_eq_ok.mp gotOther), Outcome.mapError_eq_ok.mp merged, ?_⟩
  -- the heap that is deleted has no children any more
  have isReleased : f' = f₂.release x := by
    obtain ⟨sourceNode, _, isSecond⟩ := modify_eq_ok.mp secondWrite
    cases depth with
    | zero => cases run
    | succ depth =>
        obtain ⟨f₅, children, run⟩ := Outcome.bind_eq_ok.mp run
        rw [Outcome.pure_eq, Outcome.ok.injEq] at run
        have same : f₅ = f₂ := by
          cases depth with
          | zero => cases children
          | succ depth =>
              have isNode : f₂.get x = .ok { sourceNode with child := 0 } := by
                rw [get_eq_ok, isSecond, set_same]
              rw [destroyChildren, isNode, Outcome.ok_bind] at children
              simp only [ne_eq, not_true_eq_false, if_false, Outcome.pure_eq,
                Outcome.ok.injEq] at children
              exact children.symm
        rw [← run, same]
  obtain ⟨node₁, _, isFirst⟩ := modify_eq_ok.mp first
  obtain ⟨node₂, _, isSecond⟩ := modify_eq_ok.mp second
  have sameMemory : f₂.store.memory = memory := by
    rw [store_write secondWrite, store_write firstWrite, ← stored]
    rfl
  have sameHeaps :
      f₂.store.heaps =
        Function.update (Function.update f.store.heaps this (some storage)) x
          (some { node₂.storage with tree := .nil }) := by
    rw [store_write secondWrite, store_write firstWrite, ← stored]
    rw [store_withMemory, isSecond, store_set, isFirst, store_set]
  rw [isReleased, store_release]
  simp only [sameHeaps, sameMemory, Function.update_idem]

end Family

end Rcgo.Storage
