import Rcgo.Storage.Marking

/-!
# Scanning

The words of the root and of the marked slots are scanned until the work list
is empty.  Then every covered slot is marked.
-/

namespace Rcgo.Storage.Heap

open Rcgo.Foundation
open MarkState

variable {heap : Heap} {mem : Memory} {children : List Nat}

def Sourced (heap : Heap) (mem : Memory) (value : Nat) : Prop :=
  ∀ block target slot, heap.Target value block target → heap.Covers block target slot →
    heap.Covered mem block slot

theorem mem_wordAddresses {first last a : Nat} :
    a ∈ wordAddresses first last ↔ wordSize ∣ a ∧ first ≤ a ∧ a < last := by
  simp only [wordAddresses, List.mem_map, List.mem_range, alignUp, wordSize]
  constructor
  · intro listed
    obtain ⟨k, below, isWord⟩ := listed
    omega
  · intro isWord
    refine ⟨a / 8 - (first + 7) / 8, ?_, ?_⟩
    · omega
    · omega

section Ready

variable (ready : heap.Ready)

include ready

/-- `mark_slot_for_address` processes the value. -/
theorem markSlotForAddress_spec {s : MarkState} (marking : Marking heap mem s) {value : Nat}
    (source : heap.Sourced mem value) :
    ∃ t, markSlotForAddress heap.tree children s value = .ok t ∧ Marking heap mem t ∧
      Marks heap s t ∧ Processed heap children t value := by
  have sameFind : heap.tree.find s.blocks value = heap.tree.find heap.blocks value :=
    BlockTree.find_congr marking.limit heap.tree value
  cases found : heap.tree.find heap.blocks value with
  | some block =>
      obtain ⟨t, run, markingAfter, marks, marked⟩ :=
        markBlock_spec ready marking found (source block)
      refine ⟨t, ?_, markingAfter, marks, ?_, ?_⟩
      · rw [markSlotForAddress, sameFind, found]
        exact run
      · intro b slot target
        have same := target.1
        rw [found, Option.some.injEq] at same
        subst same
        exact marked slot target
      · intro notFound
        rw [found] at notFound
        cases notFound
  | none =>
      have noTarget : ∀ b slot, ¬ heap.Target value b slot := by
        intro b slot target
        have impossible := target.1
        rw [found] at impossible
        cases impossible
      by_cases isChild : value ∈ children
      · refine ⟨{ s with reachable := value :: s.reachable }, ?_, ?_, ?_, ?_⟩
        · rw [markSlotForAddress, sameFind, found]
          exact if_pos isChild
        · exact ⟨marking.limit, marking.keeps, marking.covered, marking.closed,
            marking.flagged, marking.workList⟩
        · exact ⟨⟨fun _ _ => id, fun _ => List.mem_cons_of_mem value, le_rfl⟩,
            fun _ _ => rfl, fun _ => id, fun _ _ => Or.inl⟩
        · exact ⟨fun b slot target => absurd target (noTarget b slot),
            fun _ _ => List.mem_cons_self⟩
      · refine ⟨s, ?_, marking, Marks.refl heap s, ?_, ?_⟩
        · rw [markSlotForAddress, sameFind, found]
          exact if_neg isChild
        · exact fun b slot target => absurd target (noTarget b slot)
        · exact fun _ member => absurd member isChild

/-- `Heap::scan` processes every word of the region. -/
theorem scan_spec (children : List Nat) (first last : Nat) {s : MarkState}
    (marking : Marking heap mem s)
    (source : ∀ a, wordSize ∣ a → first ≤ a → a < last → heap.Sourced mem (mem a)) :
    ∃ t, scan heap.tree children mem first last s = .ok t ∧ Marking heap mem t ∧
      Marks heap s t ∧
      ∀ a, wordSize ∣ a → first ≤ a → a < last → Processed heap children t (mem a) := by
  have list :
      ∀ (words : List Nat) (s : MarkState), Marking heap mem s →
        (∀ a ∈ words, heap.Sourced mem (mem a)) →
          ∃ t,
            words.foldlM (fun s a => markSlotForAddress heap.tree children s (mem a)) s =
                .ok t ∧
              Marking heap mem t ∧ Marks heap s t ∧
              ∀ a ∈ words, Processed heap children t (mem a) := by
    intro words
    induction words with
    | nil =>
        intro s marking _
        exact ⟨s, rfl, marking, Marks.refl heap s, fun a member => absurd member List.not_mem_nil⟩
    | cons word rest inductionHypothesis =>
        intro s marking source
        obtain ⟨middle, step, middleMarking, middleMarks, processed⟩ :=
          markSlotForAddress_spec ready marking (source word List.mem_cons_self)
        obtain ⟨t, run, markingAfter, marks, processedRest⟩ :=
          inductionHypothesis middle middleMarking
            (fun a member => source a (List.mem_cons_of_mem word member))
        refine ⟨t, ?_, markingAfter, middleMarks.trans marks, ?_⟩
        · rw [List.foldlM_cons, step, Outcome.ok_bind]
          exact run
        · intro a member
          rcases List.mem_cons.mp member with isWord | inRest
          · rw [isWord]
            exact processed.extends marks.toExtends
          · exact processedRest a inRest
  obtain ⟨t, run, markingAfter, marks, processed⟩ :=
    list (wordAddresses first last) s marking (by
      intro a member
      obtain ⟨isWord, above, below⟩ := mem_wordAddresses.mp member
      exact source a isWord above below)
  refine ⟨t, run, markingAfter, marks, ?_⟩
  intro a isWord above below
  exact processed a (mem_wordAddresses.mpr ⟨isWord, above, below⟩)

/-- The words of scanned slots have been processed, and the other marked slots
are still to be scanned: their block is on the work list, or the current loop
comes to them. -/
structure Scanning (heap : Heap) (mem : Memory) (children : List Nat)
    (ahead : Nat → Nat → Prop) (s : MarkState) : Prop where
  words :
    ∀ block ∈ heap.tree.inorder, ∀ slot, s.bit block slot .scanned = true →
      ∀ a, (slotRegion block slot).HasWord a → Processed heap children s (mem a)
  pending :
    ∀ block ∈ heap.tree.inorder, ∀ slot, slot < slotCount heap.blocks block →
      s.bit block slot .mark = true →
        s.bit block slot .scanned = true ∨ block ∈ s.workList ∨ ahead block slot
  marked :
    ∀ block slot, s.bit block slot .scanned = true →
      block ∈ heap.tree.inorder → s.bit block slot .mark = true

/-- The slots of the block from `slot` on. -/
def From (block slot : Nat) : Nat → Nat → Prop :=
  fun b u => b = block ∧ slot ≤ u

private def setScanned (s : MarkState) (block slot : Nat) : MarkState :=
  { s with
    blocks :=
      s.blocks.assign block (s.blocks block).marked
        ((s.blocks block).bits.setBits slot Flag.scanned.mask) }

omit ready in
private theorem bit_setScanned (s : MarkState) (block slot b u : Nat) (flag : Flag) :
    (setScanned s block slot).bit b u flag = true ↔
      s.bit b u flag = true ∨ (b = block ∧ u = slot ∧ flag = .scanned) := by
  by_cases same : b = block
  · subst same
    simp only [setScanned, MarkState.bit, Blocks.assign_same, BitArray.has_setBits, true_and]
    grind
  · simp only [setScanned, MarkState.bit, Blocks.assign_other same, same, false_and, or_false]

omit ready in
private theorem bit_setScanned_of_ne {s : MarkState} {block slot b u : Nat} {flag : Flag}
    (different : flag ≠ .scanned) :
    (setScanned s block slot).bit b u flag = s.bit b u flag := by
  rw [Bool.eq_iff_iff, bit_setScanned]
  simp [different]

omit ready in
private theorem setScanned_spec {s : MarkState} (marking : Marking heap mem s)
    (block slot : Nat) :
    Marking heap mem (setScanned s block slot) ∧ Extends heap s (setScanned s block slot) := by
  have sameMark : ∀ b u, (setScanned s block slot).bit b u .mark = s.bit b u .mark :=
    fun b u => bit_setScanned_of_ne (by decide)
  refine ⟨⟨?_, ?_, ?_, ?_, ?_, marking.workList⟩, ?_, fun _ => id, ?_⟩
  · intro b
    rw [setScanned, Blocks.limit_assign]
    exact marking.limit b
  · intro b u flag isKept
    rw [bit_setScanned_of_ne (by rintro rfl; simp at isKept)]
    exact marking.keeps b u flag isKept
  · intro b member u isMarked
    rw [sameMark] at isMarked
    exact marking.covered b member u isMarked
  · intro b member first u isMarked covers
    rw [sameMark] at isMarked ⊢
    exact marking.closed b member first u isMarked covers
  · intro b member u isMarked
    rw [sameMark] at isMarked
    have flagged := marking.flagged b member u isMarked
    by_cases same : b = block
    · subst same
      simpa only [setScanned, Blocks.assign_same] using flagged
    · simpa only [setScanned, Blocks.assign_other same] using flagged
  · intro b u isMarked
    rw [sameMark]
    exact isMarked
  · apply le_of_eq
    simp only [work, unmarked, sameMark]
    rfl

/-- One iteration of `Block::scan`. -/
theorem scanSlot_spec {s : MarkState} {block slot : Nat} (marking : Marking heap mem s)
    (inTree : block ∈ heap.tree.inorder)
    (scanning : Scanning heap mem children (From block slot) s) :
    ∃ t, scanSlot heap.tree children mem block s slot = .ok t ∧ Marking heap mem t ∧
      Extends heap s t ∧ Scanning heap mem children (From block (slot + 1)) t := by
  by_cases toScan :
      (s.blocks block).bits.has slot .mark = true ∧
        (s.blocks block).bits.has slot .scanned = false
  · obtain ⟨setMarking, setExtends⟩ := setScanned_spec marking block slot
    have isCovered := marking.covered block inTree slot toScan.1
    have inSlot :
        ∀ a, wordSize ∣ a → block + slot * slotSize ≤ a →
          a < block + (slot + 1) * slotSize → (slotRegion block slot).HasWord a := by
      intro a isWord above below
      refine ⟨isWord, above, ?_⟩
      simp only [slotRegion, slotSize] at below ⊢
      omega
    obtain ⟨t, run, markingAfter, marks, processed⟩ :=
      scan_spec ready children (block + slot * slotSize) (block + (slot + 1) * slotSize)
        setMarking (by
          intro a isWord above below b target u isTarget covers
          exact Covered.slot isCovered (inSlot a isWord above below) isTarget covers)
    have extended := setExtends.trans marks.toExtends
    refine ⟨t, ?_, markingAfter, extended, ?_, ?_, ?_⟩
    · rw [scanSlot]
      exact (if_pos toScan).trans run
    · intro b member u isScanned a isWord
      rw [marks.scanned] at isScanned
      rcases (bit_setScanned s block slot b u .scanned).mp isScanned with old | new
      · exact (scanning.words b member u old a isWord).extends extended
      · obtain ⟨isWord, above, below⟩ := isWord
        rw [new.1, new.2.1] at above below
        apply processed a isWord above
        simp only [slotRegion, slotSize] at below ⊢
        omega
    · intro b member u inBlock isMarked
      rw [marks.scanned]
      rcases marks.new b u isMarked with before | listed
      · rw [bit_setScanned_of_ne (by decide)] at before
        rcases scanning.pending b member u inBlock before with old | listed | ahead
        · exact Or.inl ((bit_setScanned s block slot b u .scanned).mpr (Or.inl old))
        · exact Or.inr (Or.inl (marks.workList b listed))
        · by_cases here : u = slot
          · exact
              Or.inl ((bit_setScanned s block slot b u .scanned).mpr
                (Or.inr ⟨ahead.1, here, rfl⟩))
          · exact Or.inr (Or.inr ⟨ahead.1, by have := ahead.2; omega⟩)
      · exact Or.inr (Or.inl listed)
    · intro b u isScanned member
      rw [marks.scanned] at isScanned
      apply extended.marks
      rcases (bit_setScanned s block slot b u .scanned).mp isScanned with old | new
      · exact scanning.marked b u old member
      · rw [new.1, new.2.1]
        exact toScan.1
  · refine ⟨s, ?_, marking, Extends.refl heap s, scanning.words, ?_, scanning.marked⟩
    · rw [scanSlot]
      exact if_neg toScan
    · intro b member u inBlock isMarked
      rcases scanning.pending b member u inBlock isMarked with old | listed | ahead
      · exact Or.inl old
      · exact Or.inr (Or.inl listed)
      · by_cases here : u = slot
        · left
          rw [ahead.1, here] at isMarked ⊢
          by_contra notScanned
          rw [Bool.not_eq_true] at notScanned
          exact toScan ⟨isMarked, notScanned⟩
        · exact Or.inr (Or.inr ⟨ahead.1, by have := ahead.2; omega⟩)

/-- `Block::scan` scans every slot of the block. -/
theorem scanBlock_spec {s : MarkState} {block : Nat} (marking : Marking heap mem s)
    (inTree : block ∈ heap.tree.inorder)
    (scanning : Scanning heap mem children (From block 0) s) :
    ∃ t, scanBlock heap.tree children mem block s = .ok t ∧ Marking heap mem t ∧
      Extends heap s t ∧ Scanning heap mem children (fun _ _ => False) t := by
  have loop :
      ∀ (count slot : Nat) (s : MarkState), Marking heap mem s →
        Scanning heap mem children (From block slot) s →
          ∃ t,
            (List.range' slot count).foldlM (scanSlot heap.tree children mem block) s = .ok t ∧
              Marking heap mem t ∧ Extends heap s t ∧
              Scanning heap mem children (From block (slot + count)) t := by
    intro count
    induction count with
    | zero =>
        intro slot s marking scanning
        exact ⟨s, rfl, marking, Extends.refl heap s, scanning⟩
    | succ count inductionHypothesis =>
        intro slot s marking scanning
        obtain ⟨middle, step, middleMarking, middleExtends, middleScanning⟩ :=
          scanSlot_spec ready marking inTree scanning
        obtain ⟨t, run, markingAfter, longer, after⟩ :=
          inductionHypothesis (slot + 1) middle middleMarking middleScanning
        refine ⟨t, ?_, markingAfter, middleExtends.trans longer, ?_⟩
        · rw [List.range'_succ, List.foldlM_cons, step, Outcome.ok_bind]
          exact run
        · rw [Nat.add_assoc, Nat.add_comm 1 count] at after
          exact after
  obtain ⟨t, run, markingAfter, longer, after⟩ :=
    loop (slotCount heap.blocks block) 0 s marking scanning
  refine ⟨t, ?_, markingAfter, longer, after.words, ?_, after.marked⟩
  · rw [scanBlock, List.range_eq_range', slotCount_congr (marking.limit block)]
    exact run
  · intro b member slot inBlock isMarked
    rcases after.pending b member slot inBlock isMarked with old | listed | ahead
    · exact Or.inl old
    · exact Or.inr (Or.inl listed)
    · have behind := ahead.2
      rw [ahead.1] at inBlock
      omega

/-- `scan_worklist` ends with every marked slot scanned. -/
theorem scanWorkList_spec :
    ∀ (bound : Nat) (s : MarkState), Marking heap mem s →
      Scanning heap mem children (fun _ _ => False) s → s.work heap ≤ bound →
        ∃ t, (∀ depth, bound < depth →
            scanWorkList heap.tree children mem depth s = .ok t) ∧
          Marking heap mem t ∧ Extends heap s t ∧
          Scanning heap mem children (fun _ _ => False) t ∧ t.workList = []
  | bound, s, marking, scanning, enough => by
      cases list : s.workList with
      | nil =>
          refine ⟨s, ?_, marking, Extends.refl heap s, scanning, list⟩
          intro depth deeper
          cases depth with
          | zero => exact absurd deeper (Nat.not_lt_zero _)
          | succ depth => rw [scanWorkList, list]
      | cons block rest =>
          have popMarking : Marking heap mem { s with workList := rest } := by
            refine ⟨marking.limit, marking.keeps, marking.covered, marking.closed,
              marking.flagged, ?_⟩
            intro b member
            exact marking.workList b (list ▸ List.mem_cons_of_mem block member)
          have popScanning :
              Scanning heap mem children (From block 0) { s with workList := rest } := by
            refine ⟨scanning.words, ?_, scanning.marked⟩
            intro b member slot inBlock isMarked
            rcases scanning.pending b member slot inBlock isMarked with old | listed | ahead
            · exact Or.inl old
            · rw [list] at listed
              rcases List.mem_cons.mp listed with isFirst | inRest
              · exact Or.inr (Or.inr ⟨isFirst, Nat.zero_le slot⟩)
              · exact Or.inr (Or.inl inRest)
            · exact ahead.elim
          have popWork : work heap { s with workList := rest } + 1 = s.work heap := by
            simp only [work, list, List.length_cons]
            have same : unmarked heap { s with workList := rest } = unmarked heap s := rfl
            rw [same]
            omega
          have inTree := marking.workList block (list ▸ List.mem_cons_self)
          obtain ⟨middle, step, middleMarking, middleExtends, middleScanning⟩ :=
            scanBlock_spec ready popMarking inTree popScanning
          have less := middleExtends.work
          cases bound with
          | zero => omega
          | succ bound =>
              obtain ⟨t, run, rest⟩ :=
                scanWorkList_spec bound middle middleMarking middleScanning (by omega)
              obtain ⟨markingAfter, longer, after⟩ := rest
              refine ⟨t, ?_, markingAfter, ?_, after⟩
              · intro depth deeper
                cases depth with
                | zero => exact absurd deeper (Nat.not_lt_zero _)
                | succ depth =>
                    rw [scanWorkList, list]
                    simp only [step, Outcome.ok_bind]
                    exact run depth (Nat.lt_of_succ_lt_succ deeper)
              · have whole := middleExtends.trans longer
                refine ⟨whole.marks, whole.reachable, ?_⟩
                have := whole.work
                omega

omit ready in
theorem Covers.inBlock {block target slot : Nat} (covers : heap.Covers block target slot)
    (targetInBlock : target < slotCount heap.blocks block) :
    slot < slotCount heap.blocks block := by
  rcases covers with behind | run
  · omega
  · exact run.2.1

theorem Covered.inBlock {block slot : Nat} (covered : heap.Covered mem block slot) :
    block ∈ heap.tree.inorder ∧ slot < slotCount heap.blocks block := by
  cases covered with
  | root _ isTarget covers =>
      obtain ⟨inTree, inBlock⟩ := target_inBlock ready isTarget.1 isTarget.2.1
      exact ⟨inTree, covers.inBlock inBlock⟩
  | slot _ _ isTarget covers =>
      obtain ⟨inTree, inBlock⟩ := target_inBlock ready isTarget.1 isTarget.2.1
      exact ⟨inTree, covers.inBlock inBlock⟩

/-- What marking leaves to the sweep. -/
structure Marked (heap : Heap) (mem : Memory) (children : List Nat) (s : MarkState) : Prop where
  limit : ∀ block, (s.blocks block).limit = (heap.blocks block).limit
  keeps :
    ∀ block slot flag, flag = .object ∨ flag = .allocated →
      s.bit block slot flag = heap.bit block slot flag
  covered :
    ∀ block ∈ heap.tree.inorder, ∀ slot,
      s.bit block slot .mark = true ↔ heap.Covered mem block slot
  flagged :
    ∀ block ∈ heap.tree.inorder, ∀ slot, s.bit block slot .mark = true →
      (s.blocks block).marked = true
  scanned :
    ∀ block ∈ heap.tree.inorder, ∀ slot, s.bit block slot .scanned = true →
      s.bit block slot .mark = true
  reachable :
    ∀ value ∈ children, heap.tree.find heap.blocks value = none →
      ((∃ a, heap.rootRegion.HasWord a ∧ value = mem a) ∨
        ∃ block slot a, heap.Covered mem block slot ∧ (slotRegion block slot).HasWord a ∧
          value = mem a) →
        value ∈ s.reachable

private theorem start_spec (mem : Memory) :
    Marking heap mem ⟨heap.blocks, [], []⟩ ∧
      ∀ block ∈ heap.tree.inorder, ∀ slot,
        MarkState.bit ⟨heap.blocks, [], []⟩ block slot .mark = false ∧
          MarkState.bit ⟨heap.blocks, [], []⟩ block slot .scanned = false := by
  have noMark :
      ∀ block ∈ heap.tree.inorder, ∀ slot,
        MarkState.bit ⟨heap.blocks, [], []⟩ block slot .mark = false ∧
          MarkState.bit ⟨heap.blocks, [], []⟩ block slot .scanned = false :=
    fun block inTree slot => (ready.clean block inTree).2 slot
  refine ⟨⟨fun _ => rfl, fun _ _ _ _ => rfl, ?_, ?_, ?_, ?_⟩, noMark⟩
  · intro block inTree slot isMarked
    rw [(noMark block inTree slot).1] at isMarked
    cases isMarked
  · intro block inTree target slot isMarked
    rw [(noMark block inTree target).1] at isMarked
    cases isMarked
  · intro block inTree slot isMarked
    rw [(noMark block inTree slot).1] at isMarked
    cases isMarked
  · intro block member
    exact absurd member List.not_mem_nil

private theorem markRoot_spec {s : MarkState} (marking : Marking heap mem s) :
    ∃ t, markRoot heap s = .ok t ∧ Marking heap mem t ∧ Marks heap s t ∧
      ∀ block slot, heap.Target heap.rootBegin block slot → t.bit block slot .mark = true := by
  have sameFind : heap.tree.find s.blocks heap.rootBegin =
      heap.tree.find heap.blocks heap.rootBegin :=
    BlockTree.find_congr marking.limit heap.tree heap.rootBegin
  rw [markRoot, sameFind]
  cases found : heap.tree.find heap.blocks heap.rootBegin with
  | some block =>
      obtain ⟨t, run, markingAfter, marks, marked⟩ :=
        markBlock_spec ready marking found (fun target slot isTarget covers =>
          Covered.root (Or.inl rfl) isTarget covers)
      refine ⟨t, run, markingAfter, marks, ?_⟩
      intro b slot isTarget
      have same := isTarget.1
      rw [found, Option.some.injEq] at same
      subst same
      exact marked slot isTarget
  | none =>
      refine ⟨s, rfl, marking, Marks.refl heap s, ?_⟩
      intro b slot isTarget
      have impossible := isTarget.1
      rw [found] at impossible
      cases impossible

/-- Marking returns, and exactly the covered slots are marked. -/
theorem mark_spec (mem : Memory) (children : List Nat) :
    ∃ t, Outcome.Returns (fun depth => mark depth heap children mem) t ∧
      Marked heap mem children t := by
  obtain ⟨startMarking, noMark⟩ := start_spec ready mem
  obtain ⟨root, rootRun, rootMarking, rootMarks, rootMarked⟩ :=
    markRoot_spec ready startMarking
  obtain ⟨scanned, scanRun, scanMarking, scanMarks, processed⟩ :=
    scan_spec ready children heap.rootBegin heap.rootEnd rootMarking (by
        intro a isWord above below block target slot isTarget covers
        refine Covered.root (Or.inr ⟨a, ⟨isWord, above, ?_⟩, rfl⟩) isTarget covers
        simp only [rootRegion]
        omega)
  have marks := rootMarks.trans scanMarks
  have scanning : Scanning heap mem children (fun _ _ => False) scanned := by
    refine ⟨?_, ?_, ?_⟩
    · intro block inTree slot isScanned
      rw [marks.scanned, (noMark block inTree slot).2] at isScanned
      cases isScanned
    · intro block inTree slot _ isMarked
      rcases marks.new block slot isMarked with old | listed
      · rw [(noMark block inTree slot).1] at old
        cases old
      · exact Or.inr (Or.inl listed)
    · intro block slot isScanned inTree
      rw [marks.scanned, (noMark block inTree slot).2] at isScanned
      cases isScanned
  obtain ⟨t, run, marking, longer, after, isEmpty⟩ :=
    scanWorkList_spec ready (scanned.work heap) scanned scanMarking scanning le_rfl
  have rootProcessed :
      ∀ a, heap.rootRegion.HasWord a → Processed heap children t (mem a) := by
    intro a isWord
    obtain ⟨isWord, above, below⟩ := isWord
    simp only [rootRegion] at above below
    exact (processed a isWord above (by omega)).extends longer
  have slotProcessed :
      ∀ block slot, heap.Covered mem block slot → t.bit block slot .mark = true →
        ∀ a, (slotRegion block slot).HasWord a → Processed heap children t (mem a) := by
    intro block slot isCovered isMarked a isWord
    obtain ⟨inTree, inBlock⟩ := isCovered.inBlock ready
    rcases after.pending block inTree slot inBlock isMarked with isScanned | listed | impossible
    · exact after.words block inTree slot isScanned a isWord
    · rw [isEmpty] at listed
      exact absurd listed List.not_mem_nil
    · exact impossible.elim
  have complete : ∀ block slot, heap.Covered mem block slot → t.bit block slot .mark = true := by
    intro block slot isCovered
    induction isCovered with
    | @root value block target slot isRoot isTarget covers =>
        have inTree := (target_inBlock ready isTarget.1 isTarget.2.1).1
        have targetMarked : t.bit block target .mark = true := by
          rcases isRoot with isBegin | ⟨a, isWord, isValue⟩
          · rw [isBegin] at isTarget
            exact
              longer.marks block target
                (scanMarks.marks block target (rootMarked block target isTarget))
          · rw [isValue] at isTarget
            exact (rootProcessed a isWord).1 block target isTarget
        exact marking.closed block inTree target slot targetMarked covers
    | @slot source sourceSlot a block target slot isCovered isWord isTarget covers
        inductionHypothesis =>
        have inTree := (target_inBlock ready isTarget.1 isTarget.2.1).1
        have targetMarked :=
          (slotProcessed source sourceSlot isCovered inductionHypothesis a isWord).1
            block target isTarget
        exact marking.closed block inTree target slot targetMarked covers
  refine ⟨t, ⟨scanned.work heap + 1, ?_⟩, marking.limit, marking.keeps, ?_, marking.flagged,
    fun block inTree slot isScanned => after.marked block slot isScanned inTree, ?_⟩
  · intro depth enough
    simp only [mark]
    rw [rootRun, Outcome.ok_bind, scanRun, Outcome.ok_bind]
    exact run depth (by omega)
  · intro block inTree slot
    exact ⟨marking.covered block inTree slot, complete block slot⟩
  · intro value isChild notFound held
    rcases held with ⟨a, isWord, isValue⟩ | ⟨block, slot, a, isCovered, isWord, isValue⟩
    · subst isValue
      exact (rootProcessed a isWord).2 notFound isChild
    · subst isValue
      exact
        (slotProcessed block slot isCovered (complete block slot isCovered) a isWord).2
          notFound isChild

end Ready

/-! ## The depth of marking -/

theorem scanWorkList_mono {tree : BlockTree} {children : List Nat} {mem : Memory} :
    ∀ {depth more : Nat} {s t : MarkState}, depth ≤ more →
      scanWorkList tree children mem depth s = .ok t →
        scanWorkList tree children mem more s = .ok t
  | 0, _, s, t, _, run => by cases run
  | depth + 1, 0, s, t, enough, _ => absurd enough (Nat.not_succ_le_zero depth)
  | depth + 1, more + 1, s, t, enough, run => by
      rw [scanWorkList] at run ⊢
      cases isList : s.workList with
      | nil =>
          rw [isList] at run
          exact run
      | cons block rest =>
          rw [isList] at run
          simp only at run ⊢
          obtain ⟨middle, step, run⟩ := Outcome.bind_eq_ok.mp run
          rw [step, Outcome.ok_bind]
          exact scanWorkList_mono (Nat.le_of_succ_le_succ enough) run

theorem mark_returns {heap : Heap} {children : List Nat} {mem : Memory} {depth : Nat}
    {t : MarkState} (run : mark depth heap children mem = .ok t) :
    Outcome.Returns (fun depth => mark depth heap children mem) t := by
  refine ⟨depth, ?_⟩
  intro more enough
  simp only [mark] at run ⊢
  obtain ⟨root, rootRun, run⟩ := Outcome.bind_eq_ok.mp run
  obtain ⟨scanned, scanRun, run⟩ := Outcome.bind_eq_ok.mp run
  rw [rootRun, Outcome.ok_bind, scanRun, Outcome.ok_bind]
  exact scanWorkList_mono enough run

end Rcgo.Storage.Heap
