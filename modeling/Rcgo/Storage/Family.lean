import Rcgo.Storage.Merging

/-!
# Heaps that point to heaps

A heap knows its parent, the first of its children and the next child of its
parent.  This is the code that follows and changes these pointers.  A heap is
named by its address, and `NULL` is 0.
-/

namespace Rcgo.Storage

open Rcgo.Foundation

/-- How the code can go wrong. -/
inductive FamilyFault where
  /-- a member of `NULL` or of a deleted heap is used -/
  | dangling
  /-- the collector fails in the blocks of a heap -/
  | storage (fault : HeapFault)
  deriving DecidableEq, Repr

/-- A heap: its blocks and its pointers to other heaps. -/
structure HeapNode where
  storage : Heap
  /-- `child_` -/
  child : Nat
  /-- `next_` -/
  next : Nat
  /-- `parent_` -/
  parent : Nat
  /-- `reachable_` -/
  reachable : Bool

/-- The heaps that have not been deleted, and the memory. -/
structure Family where
  heaps : Nat → Option HeapNode
  memory : Memory

/-- The member in which the pointer to a heap is stored: a `Heap**`. -/
inductive Link where
  /-- `child_` of the heap -/
  | child (heap : Nat)
  /-- `next_` of the heap -/
  | next (heap : Nat)
  deriving DecidableEq, Repr

namespace Family

/-! ## Members of heaps -/

def Live (f : Family) (h : Nat) : Prop :=
  ∃ node, f.heaps h = some node

/-- The `next_` of the heaps. -/
def next (f : Family) (h : Nat) : Option Nat :=
  (f.heaps h).map HeapNode.next

def get (f : Family) (h : Nat) : Outcome FamilyFault HeapNode :=
  match f.heaps h with
  | some node => .ok node
  | none => .error .dangling

def set (f : Family) (h : Nat) (node : HeapNode) : Family :=
  { f with heaps := Function.update f.heaps h (some node) }

def modify (f : Family) (h : Nat) (change : HeapNode → HeapNode) :
    Outcome FamilyFault Family := do
  let node ← f.get h
  pure (f.set h (change node))

def release (f : Family) (h : Nat) : Family :=
  { f with heaps := Function.update f.heaps h none }

/-- `*link`. -/
def read (f : Family) : Link → Outcome FamilyFault Nat
  | .child h => do
      let node ← f.get h
      pure node.child
  | .next h => do
      let node ← f.get h
      pure node.next

/-- `*link = value`. -/
def write (f : Family) (value : Nat) : Link → Outcome FamilyFault Family
  | .child h => f.modify h fun node => { node with child := value }
  | .next h => f.modify h fun node => { node with next := value }

/-- `next_collection_size_ = 0`. -/
def forceCollection (f : Family) (h : Nat) : Outcome FamilyFault Family :=
  f.modify h fun node =>
    { node with storage := { node.storage with nextCollectionSize := 0 } }

/-! ## Child lists -/

/-- A new heap; both constructors make it without parent and children. -/
def make (f : Family) (h : Nat) (storage : Heap) : Family :=
  f.set h ⟨storage, 0, 0, 0, false⟩

/-- `Heap::insert_child`. -/
def insertChild (this child : Nat) (f : Family) : Outcome FamilyFault Family := do
  let f ← f.modify child fun node => { node with parent := this }
  let parent ← f.get this
  let f ← f.modify child fun node => { node with next := parent.child }
  let f ← f.write child (.child this)
  f.forceCollection this

/-- The loop of `remove_from_parent`. -/
def findLink (this : Nat) (f : Family) : Nat → Link → Outcome FamilyFault Link
  | 0, _ => .outOfFuel
  | depth + 1, link => do
      let child ← f.read link
      if child ≠ this then
        findLink this f depth (.next child)
      else
        pure link

/-- `Heap::remove_from_parent`. -/
def removeFromParent (depth this : Nat) (f : Family) : Outcome FamilyFault Family := do
  let node ← f.get this
  if node.parent ≠ 0 then do
    let link ← findLink this f depth (.child node.parent)
    let f ← f.write node.next link
    let f ← f.modify this fun node => { node with parent := 0 }
    f.forceCollection node.parent
  else
    pure f

/-! ## Deletion -/

/-- The loop over the children in `~Heap`. -/
def destroyChildren (delete : Nat → Family → Outcome FamilyFault Family) (this : Nat) :
    Nat → Family → Outcome FamilyFault Family
  | 0, _ => .outOfFuel
  | depth + 1, f => do
      let node ← f.get this
      if node.child ≠ 0 then do
        let child ← f.get node.child
        let f ← f.write child.next (.child this)
        let f ← delete node.child f
        destroyChildren delete this depth f
      else
        pure f

/-- `delete` of a heap, with its destructor.  The blocks are released with the
heap. -/
def destroy : Nat → Nat → Family → Outcome FamilyFault Family
  | 0, _, _ => .outOfFuel
  | depth + 1, this, f => do
      let f ← destroyChildren (destroy depth) this depth f
      pure (f.release this)

/-! ## Merging -/

/-- The search for the end of the child list in `merge`. -/
def findLastLink (f : Family) : Nat → Link → Outcome FamilyFault Link
  | 0, _ => .outOfFuel
  | depth + 1, link => do
      let child ← f.read link
      if child ≠ 0 then
        findLastLink f depth (.next child)
      else
        pure link

/-- The blocks, the free list and the size of `x` in `Heap::merge`. -/
def mergeStorage (depth this x : Nat) (f : Family) : Outcome FamilyFault Family := do
  let node ← f.get this
  let other ← f.get x
  let (storage, memory) ←
    (node.storage.mergeStorage depth other.storage f.memory).mapError .storage
  let f ← f.modify this fun node => { node with storage := storage }
  let f ← f.modify x fun node => { node with storage := { node.storage with tree := .nil } }
  pure { f with memory := memory }

/-- `Heap::merge`. -/
def merge (depth this x : Nat) (f : Family) : Outcome FamilyFault Family := do
  let f ← f.mergeStorage depth this x
  let link ← f.findLastLink depth (.child this)
  let other ← f.get x
  let f ← f.write other.child link
  let f ← f.write 0 (.child x)
  destroy depth x f

/-! ## Collection -/

/-- The child list from this child on, which `mark_slot_for_address` searches. -/
def childAddresses (f : Family) : Nat → Nat → Outcome FamilyFault (List Nat)
  | 0, _ => .outOfFuel
  | depth + 1, child =>
      if child ≠ 0 then do
        let node ← f.get child
        let rest ← f.childAddresses depth node.next
        pure (child :: rest)
      else
        pure []

/-- `reachable_ = true` for the children that marking has found. -/
def setReachable (f : Family) : List Nat → Outcome FamilyFault Family
  | [] => pure f
  | child :: rest => do
      let f ← f.modify child fun node => { node with reachable := true }
      f.setReachable rest

/-- The part of a full collection before the loop over the children: marking
and sweeping. -/
def collectStorage (depth this : Nat) (f : Family) : Outcome FamilyFault Family := do
  let node ← f.get this
  let children ← f.childAddresses depth node.child
  let marked ← (node.storage.mark depth children f.memory).mapError .storage
  let f ← f.setReachable marked.reachable
  let (tree, swept) := Heap.sweep node.storage.tree ⟨marked.blocks, f.memory, 0, 0⟩
  let f ← f.modify this fun node =>
    { node with storage := node.storage.afterSweep tree swept }
  pure { f with memory := swept.memory }

/-- The loop over the children after a full collection. -/
def keepReachable (collect : Nat → Family → Outcome FamilyFault (Family × Bool))
    (delete : Nat → Family → Outcome FamilyFault Family) :
    Nat → Link → Family → Outcome FamilyFault Family
  | 0, _, _ => .outOfFuel
  | depth + 1, link, f => do
      let child ← f.read link
      if child ≠ 0 then do
        let node ← f.get child
        if node.reachable then do
          let (f, _) ← collect child f
          let f ← f.modify child fun node => { node with reachable := false }
          keepReachable collect delete depth (.next child) f
        else do
          let f ← f.write node.next link
          let f ← delete child f
          keepReachable collect delete depth link f
      else
        pure f

/-- The loop over the children when no full collection is due. -/
def collectChildren (collect : Nat → Family → Outcome FamilyFault (Family × Bool)) :
    Nat → Nat → Family → Bool → Outcome FamilyFault (Family × Bool)
  | 0, _, _, _ => .outOfFuel
  | depth + 1, child, f, retval =>
      if child ≠ 0 then do
        let (f, collected) ← collect child f
        let node ← f.get child
        collectChildren collect depth node.next f (retval || collected)
      else
        pure (f, retval)

/-- `Heap::collect_garbage`. -/
def collectGarbage : Nat → Bool → Nat → Family → Outcome FamilyFault (Family × Bool)
  | 0, _, _, _ => .outOfFuel
  | depth + 1, force, this, f => do
      let node ← f.get this
      if force ∨ node.storage.allocatedSize > node.storage.nextCollectionSize then do
        let f ← f.collectStorage depth this
        let f ← keepReachable (collectGarbage depth false) (destroy depth) depth (.child this) f
        pure (f, true)
      else
        collectChildren (collectGarbage depth false) depth node.child f false

end Family

end Rcgo.Storage
