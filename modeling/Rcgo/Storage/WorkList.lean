import Rcgo.Foundation.Chain
import Rcgo.Foundation.Simulation
import Rcgo.Storage.Collector

/-!
# The work list in memory

The work list runs through the member `next_` of the blocks.  `NULL` in `next_`
means that the block is not on the list, and the last block of the list has 1
there.  This is the code of marking with these links; `MarkState` has the list
itself.
-/

namespace Rcgo.Storage

open Rcgo.Foundation

/-- The members of the blocks that marking changes, with the variable
`work_list`, and the children whose `reachable_` is set. -/
structure LinkedMark where
  blocks : Blocks
  /-- `next_`, by block -/
  next : Nat → Nat
  workList : Nat
  reachable : List Nat

namespace LinkedMark

/-! ## The code -/

/-- Put the block on the work list if it is not there. -/
def enlist (block : Nat) (s : LinkedMark) : LinkedMark :=
  if s.next block = 0 then
    { s with
      next := Function.update s.next block (if s.workList = 0 then 1 else s.workList)
      workList := block }
  else
    s

/-- `Block::mark`. -/
def markBlock (block address : Nat) (s : LinkedMark) : Outcome HeapFault LinkedMark :=
  let members := s.blocks block
  let slot := (address - block) / slotSize
  if members.bits.has slot .mark then
    .ok s
  else if members.bits.has slot .allocated = false then
    .ok s
  else
    let s := s.enlist block
    match members.bits.markBackward slot with
    | none => .error .outOfBlock
    | some bits =>
        let bits := bits.markForward (slotCount s.blocks block - slot) slot
        .ok { s with blocks := s.blocks.assign block true bits }

/-- `Heap::mark_slot_for_address`. -/
def markSlotForAddress (tree : BlockTree) (children : List Nat) (s : LinkedMark)
    (address : Nat) : Outcome HeapFault LinkedMark :=
  match tree.find s.blocks address with
  | some block => markBlock block address s
  | none =>
      if address ∈ children then
        .ok { s with reachable := address :: s.reachable }
      else
        .ok s

/-- `Heap::scan`. -/
def scan (tree : BlockTree) (children : List Nat) (mem : Memory) (first last : Nat)
    (s : LinkedMark) : Outcome HeapFault LinkedMark :=
  (Heap.wordAddresses first last).foldlM
    (fun s a => markSlotForAddress tree children s (mem a)) s

/-- One iteration of `Block::scan`. -/
def scanSlot (tree : BlockTree) (children : List Nat) (mem : Memory) (block : Nat)
    (s : LinkedMark) (slot : Nat) : Outcome HeapFault LinkedMark :=
  let members := s.blocks block
  if members.bits.has slot .mark ∧ members.bits.has slot .scanned = false then
    scan tree children mem (block + slot * slotSize) (block + (slot + 1) * slotSize)
      { s with
        blocks :=
          s.blocks.assign block members.marked
            (members.bits.setBits slot Flag.scanned.mask) }
  else
    .ok s

/-- `Block::scan`. -/
def scanBlock (tree : BlockTree) (children : List Nat) (mem : Memory) (block : Nat)
    (s : LinkedMark) : Outcome HeapFault LinkedMark :=
  (List.range (slotCount s.blocks block)).foldlM (scanSlot tree children mem block) s

/-- `Block::scan_worklist`. -/
def scanWorkList (tree : BlockTree) (children : List Nat) (mem : Memory) :
    Nat → LinkedMark → Outcome HeapFault LinkedMark
  | 0, _ => .outOfFuel
  | depth + 1, s =>
      if s.workList ≠ 0 ∧ s.workList ≠ 1 then do
        let block := s.workList
        let s ←
          scanBlock tree children mem block
            { s with workList := s.next block, next := Function.update s.next block 0 }
        scanWorkList tree children mem depth s
      else
        .ok s

/-- The start of `Heap::collect_garbage`: mark the root if it is in a block. -/
def markRoot (heap : Heap) (s : LinkedMark) : Outcome HeapFault LinkedMark :=
  match heap.tree.find s.blocks heap.rootBegin with
  | some block => markBlock block heap.rootBegin s
  | none => .ok s

/-- The marking part of `Heap::collect_garbage`, with the links that the blocks
have before it. -/
def mark (depth : Nat) (heap : Heap) (children : List Nat) (mem : Memory) (next : Nat → Nat) :
    Outcome HeapFault LinkedMark := do
  let s ← markRoot heap ⟨heap.blocks, next, 0, []⟩
  let s ← scan heap.tree children mem heap.rootBegin heap.rootEnd s
  scanWorkList heap.tree children mem depth s

def bit (s : LinkedMark) (block slot : Nat) (flag : Flag) : Bool :=
  (s.blocks block).bits.has slot flag

/-! ## The list of the links -/

def link (next : Nat → Nat) (block : Nat) : Option Nat :=
  if next block = 0 then none else some (next block)

/-- The links lead through these blocks, and the others are off the list. -/
structure Links (next : Nat → Nat) (first : Nat) (list : List Nat) : Prop where
  chain : (list = [] ∧ first = 0) ∨ Chain (link next) first list 1
  nodup : list.Nodup
  off : ∀ block, block ∉ list → next block = 0
  proper : ∀ block ∈ list, 1 < block

namespace Links

variable {next : Nat → Nat} {first block : Nat} {list rest : List Nat}

theorem mem_iff (links : Links next first list) : block ∈ list ↔ next block ≠ 0 := by
  constructor
  · intro member isOff
    rcases links.chain with ⟨isEmpty, _⟩ | chain
    · rw [isEmpty] at member
      exact absurd member List.not_mem_nil
    · obtain ⟨successor, isNext⟩ := chain.exists_next member
      rw [link, if_pos isOff] at isNext
      cases isNext
  · exact fun isOn => by_contra fun notMember => isOn (links.off block notMember)

/-- The loop of `scan_worklist` ends with the list. -/
theorem nonempty_iff (links : Links next first list) :
    (first ≠ 0 ∧ first ≠ 1) ↔ list ≠ [] := by
  rcases links.chain with ⟨isEmpty, isNull⟩ | chain
  · exact iff_of_false (fun proper => proper.1 isNull) fun nonempty => nonempty isEmpty
  · cases list with
    | nil =>
        have isLast : first = 1 := chain
        exact iff_of_false (fun proper => proper.2 isLast) fun nonempty => nonempty rfl
    | cons block rest =>
        have isFirst : first = block := chain.1
        have proper := links.proper block List.mem_cons_self
        exact iff_of_true (by omega) (List.cons_ne_nil block rest)

theorem push (links : Links next first list) (isOff : next block = 0) (proper : 1 < block) :
    Links (Function.update next block (if first = 0 then 1 else first)) block (block :: list) := by
  have notMember : block ∉ list := fun member => links.mem_iff.mp member isOff
  have behind : ∀ successor, ∀ other ∈ list,
      link (Function.update next block successor) other = link next other := by
    intro successor other member
    have different : other ≠ block := fun same => notMember (same ▸ member)
    rw [link, link, Function.update_of_ne different]
  refine ⟨Or.inr ⟨rfl, if first = 0 then 1 else first, ?_, ?_⟩, ?_, ?_, ?_⟩
  · rw [link, Function.update_self, if_neg]
    split
    · decide
    · assumption
  · rcases links.chain with ⟨isEmpty, isNull⟩ | chain
    · rw [isEmpty, if_pos isNull]
      rfl
    · have notNull : first ≠ 0 := by
        cases list with
        | nil =>
            have isLast : first = 1 := chain
            omega
        | cons other rest =>
            have isFirst : first = other := chain.1
            have proper := links.proper other List.mem_cons_self
            omega
      rw [if_neg notNull]
      exact chain.congr (behind first)
  · exact List.nodup_cons.mpr ⟨notMember, links.nodup⟩
  · intro other notOther
    rw [List.mem_cons, not_or] at notOther
    rw [Function.update_of_ne notOther.1]
    exact links.off other notOther.2
  · intro other member
    rcases List.mem_cons.mp member with isBlock | inList
    · rw [isBlock]
      exact proper
    · exact links.proper other inList

theorem pop (links : Links next first (block :: rest)) :
    first = block ∧ Links (Function.update next block 0) (next block) rest := by
  rcases links.chain with ⟨impossible, _⟩ | chain
  · cases impossible
  · obtain ⟨isFirst, successor, isNext, tail⟩ := chain
    obtain ⟨notMember, nodup⟩ := List.nodup_cons.mp links.nodup
    have isSuccessor : next block = successor := by
      rw [link] at isNext
      split at isNext
      · cases isNext
      · exact Option.some.inj isNext
    refine ⟨isFirst, Or.inr ?_, nodup, ?_, ?_⟩
    · rw [isSuccessor]
      apply tail.congr
      intro other member
      have different : other ≠ block := fun same => notMember (same ▸ member)
      rw [link, link, Function.update_of_ne different]
    · intro other notOther
      by_cases isBlock : other = block
      · rw [isBlock, Function.update_self]
      · rw [Function.update_of_ne isBlock]
        apply links.off
        rw [List.mem_cons, not_or]
        exact ⟨isBlock, notOther⟩
    · exact fun other member => links.proper other (List.mem_cons_of_mem _ member)

end Links

/-! ## Marking with a list -/

/-- The same state, with the links and with the list. -/
structure Corresponds (l : LinkedMark) (s : Heap.MarkState) : Prop where
  blocks : l.blocks = s.blocks
  reachable : l.reachable = s.reachable
  links : Links l.next l.workList s.workList

variable {l : LinkedMark} {s : Heap.MarkState}

theorem Corresponds.enlist (same : Corresponds l s) {block : Nat} (proper : 1 < block) :
    Links (l.enlist block).next (l.enlist block).workList
      (if block ∈ s.workList then s.workList else block :: s.workList) := by
  rw [LinkedMark.enlist]
  by_cases isOff : l.next block = 0
  · have notMember : block ∉ s.workList := fun member => same.links.mem_iff.mp member isOff
    rw [if_pos isOff, if_neg notMember]
    exact same.links.push isOff proper
  · rw [if_neg isOff, if_pos (same.links.mem_iff.mpr isOff)]
    exact same.links

theorem enlist_blocks (block : Nat) (l : LinkedMark) : (l.enlist block).blocks = l.blocks := by
  rw [enlist]
  split
  · rfl
  · rfl

theorem enlist_reachable (block : Nat) (l : LinkedMark) :
    (l.enlist block).reachable = l.reachable := by
  rw [enlist]
  split
  · rfl
  · rfl

theorem markBlock_related (same : Corresponds l s) {block : Nat} (proper : 1 < block)
    (address : Nat) :
    Outcome.Related Corresponds (markBlock block address l) (Heap.markBlock block address s) := by
  simp only [markBlock, Heap.markBlock, enlist_blocks, same.blocks]
  split
  · exact .ok same
  · split
    · exact .ok same
    · cases (s.blocks block).bits.markBackward ((address - block) / slotSize) with
      | none => exact .error _
      | some bits =>
          apply Outcome.Related.ok
          constructor
          · rfl
          · exact (enlist_reachable block l).trans same.reachable
          · exact same.enlist proper

theorem markSlotForAddress_related {tree : BlockTree}
    (proper : ∀ block ∈ tree.inorder, 1 < block) (children : List Nat) (same : Corresponds l s)
    (address : Nat) :
    Outcome.Related Corresponds (markSlotForAddress tree children l address)
      (Heap.markSlotForAddress tree children s address) := by
  rw [markSlotForAddress, Heap.markSlotForAddress, same.blocks]
  cases found : tree.find s.blocks address with
  | some block => exact markBlock_related same (proper block (BlockTree.mem_of_find found)) address
  | none =>
      dsimp only
      split
      · apply Outcome.Related.ok
        refine ⟨rfl, ?_, same.links⟩
        rw [same.reachable]
      · exact .ok same

section Tree

variable {tree : BlockTree} (proper : ∀ block ∈ tree.inorder, 1 < block) (children : List Nat)
  (mem : Memory)

include proper

theorem scan_related (same : Corresponds l s) (first last : Nat) :
    Outcome.Related Corresponds (scan tree children mem first last l)
      (Heap.scan tree children mem first last s) := by
  apply Outcome.Related.foldlM _ same
  intro a _ l s same
  exact markSlotForAddress_related proper children same (mem a)

theorem scanSlot_related (same : Corresponds l s) (block slot : Nat) :
    Outcome.Related Corresponds (scanSlot tree children mem block l slot)
      (Heap.scanSlot tree children mem block s slot) := by
  simp only [scanSlot, Heap.scanSlot, same.blocks]
  split
  · apply scan_related proper children mem
    exact ⟨rfl, same.reachable, same.links⟩
  · exact .ok same

theorem scanBlock_related (same : Corresponds l s) (block : Nat) :
    Outcome.Related Corresponds (scanBlock tree children mem block l)
      (Heap.scanBlock tree children mem block s) := by
  rw [scanBlock, Heap.scanBlock, same.blocks]
  apply Outcome.Related.foldlM _ same
  intro slot _ l s same
  exact scanSlot_related proper children mem same block slot

theorem scanWorkList_related (depth : Nat) :
    ∀ {l : LinkedMark} {s : Heap.MarkState}, Corresponds l s →
      Outcome.Related Corresponds (scanWorkList tree children mem depth l)
        (Heap.scanWorkList tree children mem depth s) := by
  induction depth with
  | zero => exact fun _ => .outOfFuel
  | succ depth inductionHypothesis =>
      intro l s same
      rw [scanWorkList, Heap.scanWorkList]
      cases isList : s.workList with
      | nil =>
          have isEnd : ¬ (l.workList ≠ 0 ∧ l.workList ≠ 1) :=
            fun proper => same.links.nonempty_iff.mp proper isList
          rw [if_neg isEnd]
          exact .ok same
      | cons block rest =>
          have goesOn : l.workList ≠ 0 ∧ l.workList ≠ 1 := by
            rw [same.links.nonempty_iff, isList]
            exact List.cons_ne_nil block rest
          have links := same.links
          rw [isList] at links
          obtain ⟨isFirst, popped⟩ := links.pop
          rw [if_pos goesOn, isFirst]
          apply Outcome.Related.bind
          · apply scanBlock_related proper children mem
            exact ⟨same.blocks, same.reachable, popped⟩
          · exact fun l s same => inductionHypothesis same

end Tree

theorem mark_related {heap : Heap} (proper : ∀ block ∈ heap.tree.inorder, 1 < block)
    (children : List Nat) (mem : Memory) (depth : Nat) :
    Outcome.Related Corresponds (mark depth heap children mem fun _ => 0)
      (Heap.mark depth heap children mem) := by
  have start : Corresponds ⟨heap.blocks, fun _ => 0, 0, []⟩ ⟨heap.blocks, [], []⟩ :=
    ⟨rfl, rfl, Or.inl ⟨rfl, rfl⟩, List.nodup_nil, fun _ _ => rfl,
     fun block member => absurd member List.not_mem_nil⟩
  rw [mark, Heap.mark]
  apply Outcome.Related.bind
  · rw [markRoot, Heap.markRoot]
    cases found : heap.tree.find heap.blocks heap.rootBegin with
    | some block =>
        exact markBlock_related start (proper block (BlockTree.mem_of_find found)) heap.rootBegin
    | none => exact .ok start
  · intro l s same
    apply (scan_related proper children mem same heap.rootBegin heap.rootEnd).bind
    intro l s same
    exact scanWorkList_related proper children mem depth same

/-! ## The depth of marking -/

theorem scanWorkList_mono {tree : BlockTree} {children : List Nat} {mem : Memory} {depth : Nat} :
    ∀ {more : Nat} {s t : LinkedMark}, depth ≤ more →
      scanWorkList tree children mem depth s = .ok t →
        scanWorkList tree children mem more s = .ok t := by
  induction depth with
  | zero =>
      intro more s t _ run
      cases run
  | succ depth inductionHypothesis =>
      intro more s t enough run
      cases more with
      | zero => exact absurd enough (Nat.not_succ_le_zero depth)
      | succ more =>
          rw [scanWorkList] at run ⊢
          split at run
          · next goesOn =>
              rw [if_pos goesOn]
              obtain ⟨middle, step, run⟩ := Outcome.bind_eq_ok.mp run
              dsimp only
              rw [step, Outcome.ok_bind]
              exact inductionHypothesis (Nat.le_of_succ_le_succ enough) run
          · next isEnd =>
              rw [if_neg isEnd]
              exact run

theorem mark_returns {heap : Heap} {children : List Nat} {mem : Memory} {next : Nat → Nat}
    {depth : Nat} {t : LinkedMark} (run : mark depth heap children mem next = .ok t) :
    Outcome.Returns (fun depth => mark depth heap children mem next) t := by
  refine ⟨depth, ?_⟩
  intro more enough
  simp only [mark] at run ⊢
  obtain ⟨root, rootRun, run⟩ := Outcome.bind_eq_ok.mp run
  obtain ⟨scanned, scanRun, run⟩ := Outcome.bind_eq_ok.mp run
  rw [rootRun, Outcome.ok_bind, scanRun, Outcome.ok_bind]
  exact scanWorkList_mono enough run

end LinkedMark

end Rcgo.Storage
