import Rcgo.Storage.Sweeping

/-!
# Merging the storage of two heaps

The blocks and the free list of one heap are added to those of another.
-/

namespace Rcgo.Storage

open Rcgo.Foundation

namespace BlockTree

/-- `Block::merge`: the blocks of a tree are inserted one by one. -/
def merge (root : BlockTree) : BlockTree → BlockTree
  | nil => root
  | node block left right => ((root.merge left).merge right).insert block

end BlockTree

namespace Heap

/-- The search for the end of the free list in `Heap::merge`.  As in
`findChunk`, the link is `free_list_head_` or the member `next` of a chunk. -/
def findLastChunk (mem : Memory) : Nat → Option Nat → Nat → Outcome HeapFault (Option Nat)
  | 0, _, _ => .outOfFuel
  | depth + 1, link, chunk =>
      if chunk ≠ 0 then
        findLastChunk mem depth (some chunk) (mem chunk)
      else
        .ok link

def mergeBlocks (heap other : Heap) : Blocks :=
  fun block => if block ∈ other.tree.inorder then other.blocks block else heap.blocks block

/-- The part of `Heap::merge` that concerns blocks, free list and size. -/
def mergeStorage (depth : Nat) (heap other : Heap) (mem : Memory) :
    Outcome HeapFault (Heap × Memory) := do
  let merged :=
    { heap with tree := heap.tree.merge other.tree, blocks := heap.mergeBlocks other }
  let link ← findLastChunk mem depth none merged.freeListHead
  let (merged, mem) := merged.setLink mem other.freeListHead link
  pure ({ merged with allocatedSize := merged.allocatedSize + other.allocatedSize }, mem)

end Heap

end Rcgo.Storage
