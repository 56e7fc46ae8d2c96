import Rcgo.Foundation.Outcome
import Rcgo.Storage.Block
import Mathlib.Data.List.Range

/-!
# Allocation and garbage collection

A heap takes its storage from blocks.  Free slots are coalesced into chunks,
which are linked through the storage itself.  A collection marks the slots
that the root can reach, sweeps all blocks and then turns to the child heaps.
-/

namespace Rcgo.Storage

open Rcgo.Foundation

/-- How the collector can go wrong. -/
inductive HeapFault where
  /-- the backward loop of `mark` leaves the block -/
  | outOfBlock
  /-- a chunk lies in no block of the heap -/
  | noBlock
  deriving DecidableEq, Repr

abbrev Memory := Nat → Nat

/-- `util::align_up`. -/
def alignUp (value alignment : Nat) : Nat :=
  (value + (alignment - 1)) / alignment * alignment

/-- `memset` to zero. -/
def clearMemory (mem : Memory) (address size : Nat) : Memory :=
  fun a => if address ≤ a ∧ a < address + size then 0 else mem a

/-- The members of a heap that do not concern other heaps. -/
structure Heap where
  /-- `block_` -/
  tree : BlockTree
  blocks : Blocks
  freeListHead : Nat
  allocatedSize : Nat
  nextBlockSize : Nat
  nextCollectionSize : Nat
  /-- `begin_` -/
  rootBegin : Nat
  /-- `end_` -/
  rootEnd : Nat

namespace Heap

/-- The constructor for an external root. -/
def external (rootBegin size : Nat) : Heap where
  tree := .nil
  blocks := fun _ => ⟨0, false, BitArray.empty⟩
  freeListHead := 0
  allocatedSize := 0
  nextBlockSize := 0
  nextCollectionSize := 0
  rootBegin := rootBegin
  rootEnd := rootBegin + size

/-! ## Allocation -/

/-- The search in `allocate` for a chunk that is large enough.  The link is
`free_list_head_` or the member `next` of the chunk at this address. -/
def findChunk (mem : Memory) (size : Nat) :
    Nat → Option Nat → Nat → Outcome HeapFault (Option Nat × Nat)
  | 0, _, _ => .outOfFuel
  | depth + 1, link, chunk =>
      if chunk ≠ 0 ∧ mem (chunk + wordSize) < size then
        findChunk mem size depth (some chunk) (mem chunk)
      else
        .ok (link, chunk)

/-- The assignment `*chunk = value`. -/
def setLink (heap : Heap) (mem : Memory) (value : Nat) : Option Nat → Heap × Memory
  | none => ({ heap with freeListHead := value }, mem)
  | some chunk => (heap, Function.update mem chunk value)

/-- The size of the block that `allocate` makes when no chunk suffices. -/
def newBlockSize (heap : Heap) (size : Nat) : Nat :=
  if size > heap.nextBlockSize then size else heap.nextBlockSize

/-- `Block::make` with storage from `operator new`, then `Block::insert`. -/
def makeBlock (heap : Heap) (mem : Memory) (storage size : Nat) : Heap × Memory :=
  ({ heap with
      tree := heap.tree.insert storage
      blocks :=
        Function.update heap.blocks storage
          ⟨storage + alignUp size slotSize, false, BitArray.empty⟩ },
    clearMemory mem storage (alignUp size slotSize))

/-- The end of `allocate`: take the chunk behind the link, give back what is
left of it and set the bits of the new object.  The block is given when it
has just been made. -/
def takeChunk (heap : Heap) (mem : Memory) (link : Option Nat) (chunk size : Nat)
    (newBlock : Option Nat) : Outcome HeapFault (Nat × Heap × Memory) :=
  let (heap, mem) := heap.setLink mem (mem chunk) link
  let (heap, mem) :=
    if mem (chunk + wordSize) - size > 0 then
      let rest := chunk + size
      let mem := Function.update mem (rest + wordSize) (mem (chunk + wordSize) - size)
      ({ heap with freeListHead := rest }, Function.update mem rest heap.freeListHead)
    else
      (heap, mem)
  match newBlock.or (heap.tree.find heap.blocks chunk) with
  | none => .error .noBlock
  | some block =>
      let members := heap.blocks block
      let bits := members.bits.allocate ((chunk - block) / slotSize) size
      .ok
        (chunk,
          { heap with
            blocks := heap.blocks.assign block members.marked bits
            allocatedSize := heap.allocatedSize + size },
          clearMemory mem chunk size)

/-- `Heap::allocate`.  The depth bounds the walk through the free list and
`storage` is what `operator new` returns for a new block. -/
def allocate (depth storage size : Nat) (heap : Heap) (mem : Memory) :
    Outcome HeapFault (Nat × Heap × Memory) :=
  if size = 0 then
    .ok (0, heap, mem)
  else do
    let size := alignUp size slotSize
    let (link, chunk) ← findChunk mem size depth none heap.freeListHead
    if chunk = 0 then
      let blockSize := heap.newBlockSize size
      let (heap, mem) := heap.makeBlock mem storage blockSize
      let (heap, mem) := heap.setLink mem storage link
      let mem := Function.update mem (storage + wordSize) blockSize
      let mem := Function.update mem storage 0
      takeChunk { heap with nextBlockSize := blockSize * 2 } mem link storage size
        (some storage)
    else
      takeChunk heap mem link chunk size none

def internal (depth storage size : Nat) (mem : Memory) :
    Outcome HeapFault (Heap × Memory) := do
  let (root, heap, mem) ← allocate depth storage size (external 0 0) mem
  pure ({ heap with rootBegin := root, rootEnd := root + size }, mem)

/-! ## Marking -/

/-- What marking changes: the blocks, the list of blocks to be scanned, which
runs through `next_`, and the children whose `reachable_` is set. -/
structure MarkState where
  blocks : Blocks
  workList : List Nat
  reachable : List Nat

/-- `Block::mark`. -/
def markBlock (block address : Nat) (s : MarkState) : Outcome HeapFault MarkState :=
  let members := s.blocks block
  let slot := (address - block) / slotSize
  if members.bits.has slot .mark then
    .ok s
  else if members.bits.has slot .allocated = false then
    .ok s
  else
    match members.bits.markBackward slot with
    | none => .error .outOfBlock
    | some bits =>
        let bits := bits.markForward (slotCount s.blocks block - slot) slot
        .ok
          { s with
            blocks := s.blocks.assign block true bits
            workList := if block ∈ s.workList then s.workList else block :: s.workList }

/-- `Heap::mark_slot_for_address`. -/
def markSlotForAddress (tree : BlockTree) (children : List Nat) (s : MarkState)
    (address : Nat) : Outcome HeapFault MarkState :=
  match tree.find s.blocks address with
  | some block => markBlock block address s
  | none =>
      if address ∈ children then
        .ok { s with reachable := address :: s.reachable }
      else
        .ok s

/-- The words that the loop of `Heap::scan` visits. -/
def wordAddresses (first last : Nat) : List Nat :=
  (List.range ((last - alignUp first wordSize + (wordSize - 1)) / wordSize)).map
    fun k => alignUp first wordSize + k * wordSize

/-- `Heap::scan`. -/
def scan (tree : BlockTree) (children : List Nat) (mem : Memory) (first last : Nat)
    (s : MarkState) : Outcome HeapFault MarkState :=
  (wordAddresses first last).foldlM
    (fun s a => markSlotForAddress tree children s (mem a)) s

/-- One iteration of `Block::scan`. -/
def scanSlot (tree : BlockTree) (children : List Nat) (mem : Memory) (block : Nat)
    (s : MarkState) (slot : Nat) : Outcome HeapFault MarkState :=
  let members := s.blocks block
  if members.bits.has slot .mark ∧ members.bits.has slot .scanned = false then
    scan tree children mem (block + slot * slotSize) (block + (slot + 1) * slotSize)
      { s with
        blocks :=
          s.blocks.assign block members.marked
            (members.bits.setBits slot Flag.scanned.mask) }
  else
    .ok s

/-- `Block::scan`. -/
def scanBlock (tree : BlockTree) (children : List Nat) (mem : Memory) (block : Nat)
    (s : MarkState) : Outcome HeapFault MarkState :=
  (List.range (slotCount s.blocks block)).foldlM (scanSlot tree children mem block) s

/-- `Block::scan_worklist`. -/
def scanWorkList (tree : BlockTree) (children : List Nat) (mem : Memory) :
    Nat → MarkState → Outcome HeapFault MarkState
  | 0, _ => .outOfFuel
  | depth + 1, s =>
      match s.workList with
      | [] => .ok s
      | block :: rest => do
          let s ← scanBlock tree children mem block { s with workList := rest }
          scanWorkList tree children mem depth s

/-- The start of `Heap::collect_garbage`: mark the root if it is in a block. -/
def markRoot (heap : Heap) (s : MarkState) : Outcome HeapFault MarkState :=
  match heap.tree.find s.blocks heap.rootBegin with
  | some block => markBlock block heap.rootBegin s
  | none => .ok s

/-- The marking part of `Heap::collect_garbage`. -/
def mark (depth : Nat) (heap : Heap) (children : List Nat) (mem : Memory) :
    Outcome HeapFault MarkState := do
  let s ← markRoot heap ⟨heap.blocks, [], []⟩
  let s ← scan heap.tree children mem heap.rootBegin heap.rootEnd s
  scanWorkList heap.tree children mem depth s

/-! ## Sweeping -/

/-- What sweeping one block changes. -/
structure SlotSweep where
  bits : BitArray
  memory : Memory
  freeListHead : Nat
  /-- the number of allocated slots -/
  retval : Nat

/-- The inner loop of `Block::sweep` over at most `count` slots; it also
returns the first slot behind the run. -/
def clearRun : Nat → Nat → BitArray → BitArray × Nat
  | 0, slot, bits => (bits, slot)
  | count + 1, slot, bits =>
      if bits.has slot .mark then
        (bits, slot)
      else
        clearRun count (slot + 1) (bits.clearBits slot)

/-- The outer loop of `Block::sweep` in a marked block.  Every iteration
advances the slot, so `maxSlot` iterations are enough. -/
def sweepSlots (block maxSlot : Nat) : Nat → Nat → SlotSweep → SlotSweep
  | 0, _, s => s
  | count + 1, slot, s =>
      if slot = maxSlot then
        s
      else if s.bits.has slot .mark then
        sweepSlots block maxSlot count (slot + 1)
          { s with
            bits := s.bits.resetBits slot (Flag.scanned.mask ||| Flag.mark.mask)
            retval := s.retval + 1 }
      else
        let (bits, after) := clearRun (maxSlot - slot) slot s.bits
        let chunk := block + slot * slotSize
        let mem := Function.update s.memory (chunk + wordSize) ((after - slot) * slotSize)
        let mem := Function.update mem chunk s.freeListHead
        sweepSlots block maxSlot count after ⟨bits, mem, chunk, s.retval⟩

/-- What sweeping a tree changes. -/
structure SweepState where
  blocks : Blocks
  memory : Memory
  freeListHead : Nat
  retval : Nat

/-- `Block::sweep`: a block without marked slots is deleted, the others give
their unmarked slots to the free list. -/
def sweep : BlockTree → SweepState → BlockTree × SweepState
  | .nil, s => (.nil, s)
  | .node block left right, s =>
      let (left, s) := sweep left s
      let (right, s) := sweep right s
      if (s.blocks block).marked then
        let members := s.blocks block
        let maxSlot := slotCount s.blocks block
        let swept :=
          sweepSlots block maxSlot maxSlot 0
            ⟨members.bits, s.memory, s.freeListHead, s.retval⟩
        (.node block left right,
          ⟨s.blocks.assign block false swept.bits, swept.memory, swept.freeListHead,
            swept.retval⟩)
      else
        (BlockTree.deleteRoot left right, s)

end Heap

/-! ## Collection -/

/-- The heaps on a child list, from `child_` through `next_`, each with its
own children. -/
inductive HeapList where
  | nil
  | cons (address : Nat) (heap : Heap) (child next : HeapList)

namespace HeapList

def addresses : HeapList → List Nat
  | nil => []
  | cons address _ _ next => address :: next.addresses

end HeapList

namespace Heap

/-- The result of a collection: the heap, its children and the memory. -/
structure Collected where
  heap : Heap
  child : HeapList
  memory : Memory
  /-- whether a collection was performed -/
  retval : Bool

/-- What `Heap::collect_garbage` assigns after the sweep. -/
def afterSweep (heap : Heap) (tree : BlockTree) (swept : SweepState) : Heap :=
  let allocatedSize := swept.retval * slotSize
  { heap with
    tree := tree
    blocks := swept.blocks
    freeListHead := swept.freeListHead
    allocatedSize := allocatedSize
    nextCollectionSize := allocatedSize * 2
    nextBlockSize := allocatedSize }

/-- `Heap::collect_garbage` of one heap; `children` collects the heaps of its
child list, keeping those that are given. -/
def collectHeap (depth : Nat) (force : Bool) (heap : Heap) (addresses : List Nat)
    (children :
      Option (List Nat) → Memory → Outcome HeapFault (HeapList × Memory × Bool))
    (mem : Memory) : Outcome HeapFault Collected :=
  if force ∨ heap.allocatedSize > heap.nextCollectionSize then do
    let marked ← mark depth heap addresses mem
    let (tree, swept) := sweep heap.tree ⟨marked.blocks, mem, 0, 0⟩
    let (child, mem, _) ← children (some marked.reachable) swept.memory
    pure ⟨heap.afterSweep tree swept, child, mem, true⟩
  else do
    let (child, mem, collected) ← children none mem
    pure ⟨heap, child, mem, collected⟩

/-- The loops over the child list in `collect_garbage`.  After a collection
of the parent only the reachable children are kept. -/
def collectChildren (depth : Nat) :
    HeapList → Option (List Nat) → Memory → Outcome HeapFault (HeapList × Memory × Bool)
  | .nil, _, mem => .ok (.nil, mem, false)
  | .cons address heap child next, keep, mem =>
      if keep.all fun reachable => decide (address ∈ reachable) then do
        let here ← collectHeap depth false heap child.addresses
          (fun keep mem => collectChildren depth child keep mem) mem
        let (next, mem, collected) ← collectChildren depth next keep here.memory
        pure (.cons address here.heap here.child next, mem, here.retval || collected)
      else
        collectChildren depth next keep mem

/-- `Heap::collect_garbage` of a heap with its children. -/
def collectGarbage (depth : Nat) (force : Bool) (heap : Heap) (child : HeapList)
    (mem : Memory) : Outcome HeapFault Collected :=
  collectHeap depth force heap child.addresses (collectChildren depth child) mem

end Heap

end Rcgo.Storage
