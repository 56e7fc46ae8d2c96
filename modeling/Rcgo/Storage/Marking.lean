import Rcgo.Storage.History
import Mathlib.Data.Finset.Card

/-!
# Marking

The marked slots are the slots that are covered by the words of the root and
of covered slots.
-/

namespace Rcgo.Storage

open Rcgo.Foundation

def Region.HasWord (region : Region) (address : Nat) : Prop :=
  wordSize ∣ address ∧ region.1 ≤ address ∧ address < region.1 + region.2

def slotRegion (block slot : Nat) : Region :=
  (block + slot * slotSize, slotSize)

namespace Heap

def Target (heap : Heap) (value block slot : Nat) : Prop :=
  heap.tree.find heap.blocks value = some block ∧ slot = (value - block) / slotSize ∧
    heap.bit block slot .allocated = true

/-- The slots that `Block::mark` marks for an address in the slot `target`:
those between it and the first slot of its object, without the first slot, and
the run of allocated slots from it on. -/
def Covers (heap : Heap) (block target slot : Nat) : Prop :=
  (slot ≤ target ∧ ∀ s, slot ≤ s → s ≤ target → heap.bit block s .object = false) ∨
    (target ≤ slot ∧ slot < slotCount heap.blocks block ∧
      ∀ s, target ≤ s → s ≤ slot → heap.bit block s .allocated = true)

theorem Covers.trans
    {heap : Heap} {block first second third : Nat}
    (left : heap.Covers block first second) (right : heap.Covers block second third) :
    heap.Covers block first third := by
  rcases left with ⟨below, inner⟩ | ⟨above, _, run⟩ <;>
    rcases right with ⟨belowNext, innerNext⟩ | ⟨aboveNext, inBlock, runNext⟩
  · left
    refine ⟨by omega, ?_⟩
    intro s atLeast atMost
    by_cases atSecond : s ≤ second
    · exact innerNext s atLeast atSecond
    · exact inner s (by omega) atMost
  · by_cases order : third ≤ first
    · exact Or.inl ⟨order, fun s atLeast atMost => inner s (by omega) atMost⟩
    · refine Or.inr ⟨by omega, inBlock, ?_⟩
      exact fun s atLeast atMost => runNext s (by omega) atMost
  · by_cases order : third ≤ first
    · exact Or.inl ⟨order, fun s atLeast atMost => innerNext s atLeast (by omega)⟩
    · refine Or.inr ⟨by omega, by omega, ?_⟩
      exact fun s atLeast atMost => run s atLeast (by omega)
  · right
    refine ⟨by omega, inBlock, ?_⟩
    intro s atLeast atMost
    by_cases atSecond : s ≤ second
    · exact run s atLeast atSecond
    · exact runNext s (by omega) atMost

def rootRegion (heap : Heap) : Region :=
  (heap.rootBegin, heap.rootEnd - heap.rootBegin)

/-- The addresses from which marking starts: that of the root and those in the
words of the root. -/
def RootValue (heap : Heap) (mem : Memory) (value : Nat) : Prop :=
  value = heap.rootBegin ∨ ∃ a, heap.rootRegion.HasWord a ∧ value = mem a

/-- The slots to which a chain of addresses leads from the root, where every
address covers what `Block::mark` marks for it. -/
inductive Covered (heap : Heap) (mem : Memory) : Nat → Nat → Prop
  | root {value block target slot} :
      heap.RootValue mem value → heap.Target value block target →
        heap.Covers block target slot → Covered heap mem block slot
  | slot {source sourceSlot a block target slot} :
      Covered heap mem source sourceSlot → (slotRegion source sourceSlot).HasWord a →
        heap.Target (mem a) block target → heap.Covers block target slot →
          Covered heap mem block slot

namespace MarkState

def bit (s : MarkState) (block slot : Nat) (flag : Flag) : Bool :=
  (s.blocks block).bits.has slot flag

def slots (heap : Heap) : Finset (Nat × Nat) :=
  (heap.tree.inorder.flatMap fun block =>
    (List.range (slotCount heap.blocks block)).map fun slot => (block, slot)).toFinset

theorem mem_slots {heap : Heap} {block slot : Nat} :
    (block, slot) ∈ slots heap ↔
      block ∈ heap.tree.inorder ∧ slot < slotCount heap.blocks block := by
  simp [slots]

def unmarked (heap : Heap) (s : MarkState) : Finset (Nat × Nat) :=
  (slots heap).filter fun p => s.bit p.1 p.2 .mark = false

/-- What bounds the iterations of `scan_worklist`. -/
def work (heap : Heap) (s : MarkState) : Nat :=
  s.workList.length + (unmarked heap s).card

/-- The state while marking: the marks are sound, and with a slot all that it
covers is marked. -/
structure Marking (heap : Heap) (mem : Memory) (s : MarkState) : Prop where
  limit : ∀ block, (s.blocks block).limit = (heap.blocks block).limit
  keeps :
    ∀ block slot flag, flag = .object ∨ flag = .allocated →
      s.bit block slot flag = heap.bit block slot flag
  covered :
    ∀ block ∈ heap.tree.inorder, ∀ slot, s.bit block slot .mark = true →
      heap.Covered mem block slot
  closed :
    ∀ block ∈ heap.tree.inorder, ∀ target slot, s.bit block target .mark = true →
      heap.Covers block target slot → s.bit block slot .mark = true
  flagged :
    ∀ block ∈ heap.tree.inorder, ∀ slot, s.bit block slot .mark = true →
      (s.blocks block).marked = true
  workList : ∀ block ∈ s.workList, block ∈ heap.tree.inorder

/-- Marks are only added, and no work. -/
structure Extends (heap : Heap) (s t : MarkState) : Prop where
  marks : ∀ block slot, s.bit block slot .mark = true → t.bit block slot .mark = true
  reachable : ∀ child ∈ s.reachable, child ∈ t.reachable
  work : t.work heap ≤ s.work heap

/-- What the marking of addresses does in addition: blocks with new marks come
onto the work list. -/
structure Marks (heap : Heap) (s t : MarkState) : Prop extends Extends heap s t where
  scanned : ∀ block slot, t.bit block slot .scanned = s.bit block slot .scanned
  workList : ∀ block ∈ s.workList, block ∈ t.workList
  new :
    ∀ block slot, t.bit block slot .mark = true →
      s.bit block slot .mark = true ∨ block ∈ t.workList

theorem Extends.refl (heap : Heap) (s : MarkState) : Extends heap s s :=
  ⟨fun _ _ => id, fun _ => id, le_rfl⟩

theorem Extends.trans {heap : Heap} {s t u : MarkState} (first : Extends heap s t)
    (second : Extends heap t u) : Extends heap s u :=
  ⟨fun block slot marked => second.marks block slot (first.marks block slot marked),
   fun child member => second.reachable child (first.reachable child member),
   second.work.trans first.work⟩

theorem Marks.refl (heap : Heap) (s : MarkState) : Marks heap s s :=
  ⟨Extends.refl heap s, fun _ _ => rfl, fun _ => id, fun _ _ => Or.inl⟩

theorem Marks.trans {heap : Heap} {s t u : MarkState} (first : Marks heap s t)
    (second : Marks heap t u) : Marks heap s u := by
  refine ⟨first.toExtends.trans second.toExtends, ?_, ?_, ?_⟩
  · intro block slot
    rw [second.scanned, first.scanned]
  · exact fun block member => second.workList block (first.workList block member)
  · intro block slot marked
    rcases second.new block slot marked with before | listed
    · rcases first.new block slot before with old | listed
      · exact Or.inl old
      · exact Or.inr (second.workList block listed)
    · exact Or.inr listed

def Processed (heap : Heap) (children : List Nat) (s : MarkState) (value : Nat) : Prop :=
  (∀ block slot, heap.Target value block slot → s.bit block slot .mark = true) ∧
    (heap.tree.find heap.blocks value = none → value ∈ children → value ∈ s.reachable)

theorem Processed.extends
    {heap : Heap} {children : List Nat} {s t : MarkState} {value : Nat}
    (processed : Processed heap children s value) (longer : Extends heap s t) :
    Processed heap children t value :=
  ⟨fun block slot target => longer.marks block slot (processed.1 block slot target),
   fun notFound member => longer.reachable value (processed.2 notFound member)⟩

end MarkState

open MarkState

/-- The conditions under which marking does not fail. -/
structure Ready (heap : Heap) : Prop where
  ordered : BlockTree.Ordered heap.blocks heap.tree.inorder
  aligned : Aligned heap.tree heap.blocks
  clean : heap.Clean
  headed : heap.Headed

theorem Headed.last_object
    {heap : Heap} (headed : heap.Headed) {block slot : Nat}
    (inTree : block ∈ heap.tree.inorder) (isAllocated : heap.bit block slot .allocated = true) :
    ∃ first ≤ slot, heap.bit block first .object = true ∧
      ∀ s, first < s → s ≤ slot → heap.bit block s .object = false := by
  obtain ⟨first, before, isObject⟩ := headed block inTree slot isAllocated
  clear isAllocated
  induction slot with
  | zero =>
      have isZero : first = 0 := by omega
      rw [isZero] at isObject
      exact ⟨0, le_rfl, isObject, fun s above atMost => by omega⟩
  | succ slot inductionHypothesis =>
      cases here : heap.bit block (slot + 1) .object with
      | true => exact ⟨slot + 1, le_rfl, here, fun s above atMost => by omega⟩
      | false =>
          have notHere : first ≠ slot + 1 := by
            intro same
            rw [same, here] at isObject
            cases isObject
          obtain ⟨last, atMost, isLast, inner⟩ := inductionHypothesis (by omega)
          refine ⟨last, by omega, isLast, ?_⟩
          intro s above below
          by_cases atEnd : s = slot + 1
          · rw [atEnd]
            exact here
          · exact inner s above (by omega)

theorem target_inBlock
    {heap : Heap} (ready : heap.Ready) {value block slot : Nat}
    (found : heap.tree.find heap.blocks value = some block)
    (isSlot : slot = (value - block) / slotSize) :
    block ∈ heap.tree.inorder ∧ slot < slotCount heap.blocks block := by
  obtain ⟨inTree, above, below⟩ := (BlockTree.find_eq_some_iff ready.ordered).mp found
  have limit := (ready.aligned block inTree).1
  refine ⟨inTree, ?_⟩
  rw [isSlot]
  simp only [slotSize] at *
  omega

/-- The bits that `Block::mark` computes. -/
private theorem markBits_spec
    {heap : Heap} (ready : heap.Ready) {bits : BitArray} {block target : Nat}
    (inTree : block ∈ heap.tree.inorder) (inBlock : target < slotCount heap.blocks block)
    (keeps :
      ∀ slot flag, flag = .object ∨ flag = .allocated →
        bits.has slot flag = heap.bit block slot flag)
    (isAllocated : heap.bit block target .allocated = true) :
    ∃ back, bits.markBackward target = some back ∧
      ∀ slot flag,
        (back.markForward (slotCount heap.blocks block - target) target).has slot flag = true ↔
          bits.has slot flag = true ∨ (flag = .mark ∧ heap.Covers block target slot) := by
  obtain ⟨first, atMost, isFirst, inner⟩ := ready.headed.last_object inTree isAllocated
  have firstBit : bits.has first .object = true := by
    rw [keeps first .object (Or.inl rfl)]
    exact isFirst
  obtain ⟨back, run, spec⟩ :=
    BitArray.markBackward_spec target firstBit atMost (by
      intro s above below
      rw [keeps s .object (Or.inl rfl)]
      exact inner s above below)
  refine ⟨back, run, ?_⟩
  intro slot flag
  have sameAllocated : ∀ s, back.has s .allocated = heap.bit block s .allocated := by
    intro s
    rw [Bool.eq_iff_iff, spec, ← keeps s .allocated (Or.inr rfl)]
    simp
  have backward :
      (first < slot ∧ slot ≤ target) ↔
        slot ≤ target ∧
          ∀ s, slot ≤ s → s ≤ target → heap.bit block s .object = false := by
    constructor
    · intro between
      exact ⟨between.2, fun s atLeast below => inner s (by omega) below⟩
    · intro behind
      refine ⟨?_, behind.1⟩
      by_contra notBehind
      have := behind.2 first (by omega) atMost
      rw [isFirst] at this
      cases this
  rw [BitArray.has_markForward, spec, Covers, ← backward]
  simp only [sameAllocated]
  have range : target + (slotCount heap.blocks block - target) = slotCount heap.blocks block := by
    omega
  rw [range]
  grind

private def addMarks (s : MarkState) (block : Nat) (bits : BitArray) : MarkState :=
  { s with
    blocks := s.blocks.assign block true bits
    workList := if block ∈ s.workList then s.workList else block :: s.workList }

private theorem mem_workList_addMarks {s : MarkState} {block b : Nat} {bits : BitArray} :
    b ∈ (addMarks s block bits).workList ↔ b = block ∨ b ∈ s.workList := by
  by_cases listed : block ∈ s.workList
  · simp only [addMarks, if_pos listed]
    constructor
    · exact Or.inr
    · intro either
      rcases either with same | member
      · rw [same]
        exact listed
      · exact member
  · simp only [addMarks, if_neg listed, List.mem_cons]

section AddMarks

variable {heap : Heap} {mem : Memory} {s : MarkState} {block target : Nat} {bits : BitArray}
  (marking : Marking heap mem s) (inTree : block ∈ heap.tree.inorder)
  (spec :
    ∀ slot flag, bits.has slot flag = true ↔
      s.bit block slot flag = true ∨ (flag = .mark ∧ heap.Covers block target slot))

include spec

private theorem bit_addMarks (b slot : Nat) (flag : Flag) :
    (addMarks s block bits).bit b slot flag = true ↔
      s.bit b slot flag = true ∨
        (b = block ∧ flag = .mark ∧ heap.Covers block target slot) := by
  by_cases same : b = block
  · subst same
    simp only [addMarks, MarkState.bit, Blocks.assign_same, true_and]
    exact spec slot flag
  · simp only [addMarks, MarkState.bit, Blocks.assign_other same, same, false_and, or_false]

include marking inTree

private theorem marking_addMarks
    (source : ∀ slot, heap.Covers block target slot → heap.Covered mem block slot) :
    Marking heap mem (addMarks s block bits) := by
  have hasBit := bit_addMarks spec
  refine ⟨?_, ?_, ?_, ?_, ?_, ?_⟩
  · intro b
    rw [addMarks, Blocks.limit_assign]
    exact marking.limit b
  · intro b slot flag isKept
    rw [← marking.keeps b slot flag isKept, Bool.eq_iff_iff, hasBit]
    have notMark : flag ≠ .mark := by
      rcases isKept with isObject | isAllocated
      · rw [isObject]
        decide
      · rw [isAllocated]
        decide
    simp [notMark]
  · intro b member slot isMarked
    rcases (hasBit b slot .mark).mp isMarked with old | ⟨same, _, covers⟩
    · exact marking.covered b member slot old
    · rw [same]
      exact source slot covers
  · intro b member first slot isMarked covers
    rw [hasBit]
    rcases (hasBit b first .mark).mp isMarked with old | ⟨same, _, coversFirst⟩
    · exact Or.inl (marking.closed b member first slot old covers)
    · rw [same] at covers
      exact Or.inr ⟨same, rfl, coversFirst.trans covers⟩
  · intro b member slot isMarked
    by_cases same : b = block
    · simp only [same, addMarks, Blocks.assign_same]
    · simp only [addMarks, Blocks.assign_other same]
      rcases (hasBit b slot .mark).mp isMarked with old | new
      · exact marking.flagged b member slot old
      · exact absurd new.1 same
  · intro b member
    rcases mem_workList_addMarks.mp member with same | old
    · rw [same]
      exact inTree
    · exact marking.workList b old

omit marking in
private theorem marks_addMarks (inBlock : target < slotCount heap.blocks block)
    (covers : heap.Covers block target target) (new : s.bit block target .mark = false) :
    Marks heap s (addMarks s block bits) := by
  have hasBit := bit_addMarks spec
  have fewer : unmarked heap (addMarks s block bits) ⊂ unmarked heap s := by
    rw [Finset.ssubset_iff_of_subset]
    · refine ⟨(block, target), ?_, ?_⟩
      · rw [unmarked, Finset.mem_filter, mem_slots]
        exact ⟨⟨inTree, inBlock⟩, new⟩
      · rw [unmarked, Finset.mem_filter]
        intro both
        have marked := (hasBit block target .mark).mpr (Or.inr ⟨rfl, rfl, covers⟩)
        rw [both.2] at marked
        cases marked
    · intro p member
      rw [unmarked, Finset.mem_filter] at member ⊢
      refine ⟨member.1, ?_⟩
      rw [Bool.eq_false_iff] at member ⊢
      intro isMarked
      exact member.2 ((hasBit p.1 p.2 .mark).mpr (Or.inl isMarked))
  refine ⟨⟨?_, fun _ => id, ?_⟩, ?_, ?_, ?_⟩
  · intro b slot isMarked
    exact (hasBit b slot .mark).mpr (Or.inl isMarked)
  · have shorter := Finset.card_lt_card fewer
    have list :
        (addMarks s block bits).workList.length ≤ s.workList.length + 1 := by
      simp only [addMarks]
      split
      · omega
      · rw [List.length_cons]
    simp only [work]
    omega
  · intro b slot
    rw [Bool.eq_iff_iff, hasBit]
    simp
  · intro b member
    exact mem_workList_addMarks.mpr (Or.inr member)
  · intro b slot isMarked
    rcases (hasBit b slot .mark).mp isMarked with old | ⟨same, _⟩
    · exact Or.inl old
    · exact Or.inr (mem_workList_addMarks.mpr (Or.inl same))

end AddMarks

/-- `Block::mark` marks what the address covers. -/
theorem markBlock_spec
    {heap : Heap} (ready : heap.Ready) {mem : Memory} {s : MarkState}
    (marking : Marking heap mem s) {value block : Nat}
    (found : heap.tree.find heap.blocks value = some block)
    (source :
      ∀ target slot, heap.Target value block target → heap.Covers block target slot →
        heap.Covered mem block slot) :
    ∃ t, markBlock block value s = .ok t ∧ Marking heap mem t ∧ Marks heap s t ∧
      ∀ slot, heap.Target value block slot → t.bit block slot .mark = true := by
  obtain ⟨inTree, inBlock⟩ := target_inBlock ready found rfl
  have keeps := marking.keeps block
  by_cases isMarked : (s.blocks block).bits.has ((value - block) / slotSize) .mark = true
  · refine ⟨s, ?_, marking, Marks.refl heap s, ?_⟩
    · rw [markBlock]
      exact if_pos isMarked
    · intro slot target
      rw [target.2.1]
      exact isMarked
  have sameAllocated :
      (s.blocks block).bits.has ((value - block) / slotSize) .allocated =
        heap.bit block ((value - block) / slotSize) .allocated :=
    keeps _ _ (Or.inr rfl)
  cases isAllocated : heap.bit block ((value - block) / slotSize) .allocated with
  | true =>
      obtain ⟨back, run, spec⟩ := markBits_spec ready inTree inBlock keeps isAllocated
      rw [isAllocated] at sameAllocated
      have covers : heap.Covers block ((value - block) / slotSize) ((value - block) / slotSize) := by
        refine Or.inr ⟨le_rfl, inBlock, ?_⟩
        intro slot atLeast atMost
        rw [Nat.le_antisymm atMost atLeast]
        exact isAllocated
      refine ⟨addMarks s block _, ?_,
        marking_addMarks marking inTree spec (fun slot => source _ slot ⟨found, rfl, isAllocated⟩),
        marks_addMarks inTree spec inBlock covers (Bool.eq_false_iff.mpr isMarked), ?_⟩
      · simp only [markBlock]
        rw [if_neg isMarked, if_neg (by rw [sameAllocated]; decide), run,
          slotCount_congr (marking.limit block)]
        rfl
      · intro slot target
        rw [target.2.1]
        exact (bit_addMarks spec _ _ _).mpr (Or.inr ⟨rfl, rfl, covers⟩)
  | false =>
      rw [isAllocated] at sameAllocated
      refine ⟨s, ?_, marking, Marks.refl heap s, ?_⟩
      · simp only [markBlock]
        rw [if_neg isMarked, if_pos sameAllocated]
      · intro slot target
        have targetAllocated := target.2.2
        rw [target.2.1, isAllocated] at targetAllocated
        cases targetAllocated

end Heap

end Rcgo.Storage
