import Rcgo.Storage.Scanning

/-!
# Sweeping

The sweep deletes the blocks without marks and builds the free list from the
runs of unmarked slots of the others.
-/

namespace Rcgo.Storage.Heap

open Rcgo.Foundation

/-- The flag is one of those that the sweep leaves to a marked slot. -/
def KeptFlag (flag : Flag) : Prop :=
  flag = .object ∨ flag = .allocated

/-! ## One block -/

theorem clearRun_spec (count : Nat) :
    ∀ (slot : Nat) (bits : BitArray),
      ∃ after cleared, clearRun count slot bits = (cleared, after) ∧
        slot ≤ after ∧ after ≤ slot + count ∧
        (∀ u, slot ≤ u → u < after → bits.has u .mark = false) ∧
        (0 < count → bits.has slot .mark = false → slot < after) ∧
        ∀ u flag, cleared.has u flag = true ↔
          bits.has u flag = true ∧ (u < slot ∨ after ≤ u) := by
  induction count with
  | zero =>
      intro slot bits
      refine ⟨slot, bits, rfl, le_rfl, le_rfl, by omega, by omega, ?_⟩
      intro u flag
      have either : u < slot ∨ slot ≤ u := by omega
      simp [either]
  | succ count inductionHypothesis =>
      intro slot bits
      cases isMarked : bits.has slot .mark with
      | true =>
          refine ⟨slot, bits, ?_, le_rfl, by omega, by omega, ?_, ?_⟩
          · rw [clearRun, if_pos isMarked]
          · intro _ notMarked
            cases notMarked
          · intro u flag
            have either : u < slot ∨ slot ≤ u := by omega
            simp [either]
      | false =>
          obtain ⟨after, cleared, run, atLeast, atMost, unmarked, _, spec⟩ :=
            inductionHypothesis (slot + 1) (bits.clearBits slot)
          refine ⟨after, cleared, ?_, by omega, by omega, ?_, fun _ _ => by omega, ?_⟩
          · rw [clearRun, if_neg (by rw [isMarked]; decide)]
            exact run
          · intro u above below
            by_cases here : u = slot
            · rw [here]
              exact isMarked
            · have rest := unmarked u (by omega) below
              rw [Bool.eq_false_iff] at rest ⊢
              intro markedHere
              exact rest ((BitArray.has_clearBits bits slot u .mark).mpr ⟨markedHere, here⟩)
          · intro u flag
            rw [spec, BitArray.has_clearBits, and_assoc]
            apply and_congr_right
            intro _
            omega

/-- The region is a run of unmarked slots of the block. -/
def UnmarkedRun (block : Nat) (bits : BitArray) (low high : Nat) (region : Region) : Prop :=
  ∃ first last,
    region = (block + first * slotSize, (last - first) * slotSize) ∧
      low ≤ first ∧ first < last ∧ last ≤ high ∧
        ∀ u, first ≤ u → u < last → bits.has u .mark = false

def markedBetween (bits : BitArray) (low high : Nat) : Finset Nat :=
  (Finset.range high).filter fun u => low ≤ u ∧ bits.has u .mark = true

/-- The header of the chunk is outside of these slots. -/
def HeaderOutside (block low high : Nat) (region : Region) : Prop :=
  region.1 + wordSize < block + low * slotSize ∨ block + high * slotSize ≤ region.1

/-- What sweeping the slots of a block does; the new chunks are those before
the old ones on the free list. -/
structure SlotsSwept (block low high : Nat) (s r : SlotSweep) (new : List Region) : Prop where
  bits :
    ∀ u flag, r.bits.has u flag = true ↔
      s.bits.has u flag = true ∧
        (low ≤ u → u < high → s.bits.has u .mark = true ∧ KeptFlag flag)
  segment :
    ∀ old, FreeSegment s.memory s.freeListHead old 0 →
      (∀ region ∈ old, HeaderOutside block low high region) →
        FreeSegment r.memory r.freeListHead (new ++ old) 0
  runs : ∀ region ∈ new, UnmarkedRun block s.bits low high region
  covers :
    ∀ u, low ≤ u → u < high → s.bits.has u .mark = false →
      ∃ region ∈ new, Region.HasSlot region block u
  count : r.retval = s.retval + (markedBetween s.bits low high).card
  apart : new.Pairwise Region.Apart
  memory :
    ∀ a, (∀ u, low ≤ u → u < high → s.bits.has u .mark = false → ¬ InSlot block u a) →
      r.memory a = s.memory a

private theorem slotsSwept_nothing (block slot : Nat) (s : SlotSweep) :
    SlotsSwept block slot slot s s [] := by
  refine ⟨?_, fun old segment _ => segment, ?_, ?_, ?_, List.Pairwise.nil, fun a _ => rfl⟩
  · intro u flag
    have empty : ¬ (slot ≤ u ∧ u < slot) := by omega
    grind
  · intro region member
    exact absurd member List.not_mem_nil
  · intro u atLeast below
    omega
  · have empty : markedBetween s.bits slot slot = ∅ := by
      ext u
      simp only [markedBetween, Finset.mem_filter, Finset.mem_range, Finset.notMem_empty,
        iff_false]
      omega
    rw [empty, Finset.card_empty, Nat.add_zero]

/-- A marked slot keeps its object. -/
private theorem slotsSwept_marked {block slot high : Nat} {s r : SlotSweep}
    {new : List Region} (below : slot < high) (isMarked : s.bits.has slot .mark = true)
    (rest :
      SlotsSwept block (slot + 1) high
        { s with
          bits := s.bits.resetBits slot (Flag.scanned.mask ||| Flag.mark.mask)
          retval := s.retval + 1 } r new) :
    SlotsSwept block slot high s r new := by
  have sameMark :
      ∀ u, slot + 1 ≤ u →
        ((s.bits.resetBits slot (Flag.scanned.mask ||| Flag.mark.mask)).has u .mark = true ↔
          s.bits.has u .mark = true) := by
    intro u above
    rw [BitArray.has_resetBits]
    constructor
    · exact And.left
    · exact fun marked => ⟨marked, fun same => by omega⟩
  have sameMarkFalse :
      ∀ u, slot + 1 ≤ u →
        ((s.bits.resetBits slot (Flag.scanned.mask ||| Flag.mark.mask)).has u .mark = false ↔
          s.bits.has u .mark = false) := by
    intro u above
    rw [Bool.eq_false_iff, Bool.eq_false_iff, Ne, Ne, sameMark u above]
  refine ⟨?_, ?_, ?_, ?_, ?_, rest.apart, ?_⟩
  · intro u flag
    rw [rest.bits, BitArray.has_resetBits]
    by_cases here : u = slot
    · subst here
      simp only [isMarked, KeptFlag, true_and, le_rfl, below, forall_const]
      have notBehind : ¬ u + 1 ≤ u := by omega
      simp [notBehind]
    · simp only [here, false_implies, and_true]
      apply and_congr_right
      intro _
      constructor
      · intro behind atLeast atMost
        obtain ⟨marked, kept⟩ := behind (by omega) atMost
        exact ⟨(sameMark u (by omega)).mp marked, kept⟩
      · intro behind atLeast atMost
        obtain ⟨marked, kept⟩ := behind (by omega) atMost
        exact ⟨(sameMark u atLeast).mpr marked, kept⟩
  · intro old segment outside
    apply rest.segment old segment
    intro region member
    have here := outside region member
    simp only [HeaderOutside, slotSize] at here ⊢
    omega
  · intro region member
    obtain ⟨first, last, isRegion, atLeast, nonempty, atMost, unmarked⟩ := rest.runs region member
    refine ⟨first, last, isRegion, by omega, nonempty, atMost, ?_⟩
    intro u above behind
    exact (sameMarkFalse u (by omega)).mp (unmarked u above behind)
  · intro u atLeast atMost unmarked
    have different : u ≠ slot := by
      intro here
      rw [here, isMarked] at unmarked
      cases unmarked
    exact rest.covers u (by omega) atMost ((sameMarkFalse u (by omega)).mpr unmarked)
  · have first :
        markedBetween s.bits slot high =
          insert slot
            (markedBetween
              (s.bits.resetBits slot (Flag.scanned.mask ||| Flag.mark.mask)) (slot + 1) high) := by
      ext u
      simp only [markedBetween, Finset.mem_filter, Finset.mem_range, Finset.mem_insert]
      by_cases here : u = slot
      · simp [here, below, isMarked]
      · by_cases behind : slot + 1 ≤ u
        · rw [sameMark u behind]
          simp only [here, false_or, behind, true_and, Nat.le_of_succ_le behind]
        · have notBelow : ¬ slot ≤ u := by omega
          simp [here, behind, notBelow]
    rw [rest.count, first, Finset.card_insert_of_notMem (by simp [markedBetween])]
    simp only
    omega
  · intro a outside
    apply rest.memory a
    intro u atLeast atMost unmarked
    exact outside u (by omega) atMost ((sameMarkFalse u atLeast).mp unmarked)

/-- A run of unmarked slots becomes a chunk. -/
private theorem slotsSwept_unmarked {block slot after high : Nat} {s r : SlotSweep}
    {new : List Region} {cleared : BitArray} (positive : 0 < block)
    (nonempty : slot < after) (inBlock : after ≤ high)
    (unmarked : ∀ u, slot ≤ u → u < after → s.bits.has u .mark = false)
    (spec : ∀ u flag, cleared.has u flag = true ↔
      s.bits.has u flag = true ∧ (u < slot ∨ after ≤ u))
    (rest :
      SlotsSwept block after high
        ⟨cleared,
          Function.update
            (Function.update s.memory (block + slot * slotSize + wordSize)
              ((after - slot) * slotSize))
            (block + slot * slotSize) s.freeListHead,
          block + slot * slotSize, s.retval⟩ r new) :
    SlotsSwept block slot high s r
      (new ++ [(block + slot * slotSize, (after - slot) * slotSize)]) := by
  have sameMark :
      ∀ u, after ≤ u → (cleared.has u .mark = true ↔ s.bits.has u .mark = true) := by
    intro u behind
    rw [spec]
    simp [behind]
  have sameMarkFalse :
      ∀ u, after ≤ u → (cleared.has u .mark = false ↔ s.bits.has u .mark = false) := by
    intro u behind
    rw [Bool.eq_false_iff, Bool.eq_false_iff, Ne, Ne, sameMark u behind]
  refine ⟨?_, ?_, ?_, ?_, ?_, ?_, ?_⟩
  · intro u flag
    rw [rest.bits, spec, and_assoc]
    apply and_congr_right
    intro _
    constructor
    · intro both atLeast below
      obtain ⟨marked, kept⟩ := both.2 (by omega) below
      exact ⟨(sameMark u (by omega)).mp marked, kept⟩
    · intro kept
      by_cases inRun : slot ≤ u ∧ u < after
      · have marked := (kept inRun.1 (by omega)).1
        rw [unmarked u inRun.1 inRun.2] at marked
        cases marked
      · refine ⟨by omega, ?_⟩
        intro behind below
        obtain ⟨marked, keptFlag⟩ := kept (by omega) below
        exact ⟨(sameMark u behind).mpr marked, keptFlag⟩
  · intro old segment outside
    rw [List.append_assoc, List.singleton_append]
    apply rest.segment
    · apply FreeSegment.cons (by omega : block + slot * slotSize ≠ 0)
      · exact
          (Function.update_of_ne (by simp only [wordSize]; omega) _ _).trans
            (Function.update_self _ _ _)
      · exact Function.update_self _ _ _
      · apply segment.congr
        intro region member
        have apart := outside region member
        simp only [HeaderOutside, slotSize, wordSize] at apart
        simp only [slotSize, wordSize]
        constructor
        · rw [Function.update_of_ne (by omega), Function.update_of_ne (by omega)]
        · rw [Function.update_of_ne (by omega), Function.update_of_ne (by omega)]
    · intro region member
      simp only [HeaderOutside, slotSize, wordSize]
      rcases List.mem_cons.mp member with isNew | inOld
      · rw [isNew]
        simp only [slotSize]
        omega
      · have apart := outside region inOld
        simp only [HeaderOutside, slotSize, wordSize] at apart
        omega
  · intro region member
    rcases List.mem_append.mp member with inNew | isRun
    · obtain ⟨first, last, isRegion, atLeast, isRun, atMost, clear⟩ := rest.runs region inNew
      refine ⟨first, last, isRegion, by omega, isRun, atMost, ?_⟩
      intro u above below
      exact (sameMarkFalse u (by omega)).mp (clear u above below)
    · rw [List.mem_singleton.mp isRun]
      exact ⟨slot, after, rfl, le_rfl, nonempty, inBlock, unmarked⟩
  · intro u atLeast atMost isUnmarked
    by_cases behind : after ≤ u
    · obtain ⟨region, inNew, hasSlot⟩ :=
        rest.covers u behind atMost ((sameMarkFalse u behind).mpr isUnmarked)
      exact ⟨region, List.mem_append_left _ inNew, hasSlot⟩
    · refine ⟨_, List.mem_append_right _ (List.mem_singleton_self _), ?_⟩
      simp only [Region.HasSlot, slotSize]
      omega
  · have same : markedBetween s.bits slot high = markedBetween cleared after high := by
      ext u
      simp only [markedBetween, Finset.mem_filter, Finset.mem_range]
      by_cases behind : after ≤ u
      · rw [sameMark u behind]
        have : slot ≤ u := by omega
        simp only [behind, this]
      · have notMarked : slot ≤ u → s.bits.has u .mark = false :=
          fun atLeast => unmarked u atLeast (by omega)
        simp only [behind, false_and, and_false, iff_false, not_and, Bool.not_eq_true]
        exact fun _ atLeast => notMarked atLeast
    rw [rest.count, same]
  · refine List.pairwise_append.mpr ⟨rest.apart, List.pairwise_singleton _ _, ?_⟩
    intro region inNew run isRun
    obtain ⟨first, last, isRegion, atLeast, _⟩ := rest.runs region inNew
    rw [List.mem_singleton.mp isRun, isRegion]
    simp only [Region.Apart, slotSize]
    omega
  · intro a outside
    have notHeader := outside slot le_rfl (by omega) (unmarked slot le_rfl nonempty)
    simp only [InSlot, slotSize] at notHeader
    rw [rest.memory a]
    · simp only [slotSize, wordSize]
      rw [Function.update_of_ne (by omega), Function.update_of_ne (by omega)]
    · intro u atLeast below isUnmarked
      exact outside u (by omega) below ((sameMarkFalse u atLeast).mp isUnmarked)

theorem sweepSlots_spec {block : Nat} (high : Nat) (positive : 0 < block) :
    ∀ (count slot : Nat) (s : SlotSweep), slot ≤ high → high - slot ≤ count →
      ∃ new, SlotsSwept block slot high s (sweepSlots block high count slot s) new := by
  intro count
  induction count with
  | zero =>
      intro slot s atMost enough
      have atEnd : slot = high := by omega
      subst atEnd
      exact ⟨[], slotsSwept_nothing block slot s⟩
  | succ count inductionHypothesis =>
      intro slot s atMost enough
      rw [sweepSlots]
      by_cases atEnd : slot = high
      · rw [if_pos atEnd]
        subst atEnd
        exact ⟨[], slotsSwept_nothing block slot s⟩
      rw [if_neg atEnd]
      cases isMarked : s.bits.has slot .mark with
      | true =>
          rw [if_pos rfl]
          obtain ⟨new, rest⟩ :=
            inductionHypothesis (slot + 1)
              { s with
                bits := s.bits.resetBits slot (Flag.scanned.mask ||| Flag.mark.mask)
                retval := s.retval + 1 } (by omega) (by omega)
          exact ⟨new, slotsSwept_marked (by omega) isMarked rest⟩
      | false =>
          rw [if_neg (by decide)]
          obtain ⟨after, cleared, run, _, inRange, unmarked, progress, spec⟩ :=
            clearRun_spec (high - slot) slot s.bits
          have nonempty := progress (by omega) isMarked
          simp only [run]
          obtain ⟨new, rest⟩ := inductionHypothesis after _ (by omega) (by omega)
          exact ⟨_, slotsSwept_unmarked positive nonempty (by omega) unmarked spec rest⟩

/-! ## All blocks -/

/-- The address lies in an unmarked slot of one of these blocks, and the block
has marked slots. -/
def Freed (blocks : Blocks) (list : List Nat) (address : Nat) : Prop :=
  ∃ block ∈ list, (blocks block).marked = true ∧
    ∃ slot, slot < slotCount blocks block ∧ (blocks block).bits.has slot .mark = false ∧
      InSlot block slot address

/-- The region is a run of unmarked slots of one of these blocks. -/
def FreedRun (blocks : Blocks) (list : List Nat) (region : Region) : Prop :=
  ∃ block ∈ list, (blocks block).marked = true ∧
    UnmarkedRun block (blocks block).bits 0 (slotCount blocks block) region

theorem Freed.inside {blocks : Blocks} {list : List Nat} {address : Nat}
    (freed : Freed blocks list address) :
    ∃ block ∈ list, block ≤ address ∧ address < (blocks block).limit := by
  obtain ⟨block, member, _, slot, inBlock, _, inSlot⟩ := freed
  exact ⟨block, member, inSlot.inside inBlock⟩

theorem FreedRun.inside {blocks : Blocks} {list : List Nat} {region : Region}
    (run : FreedRun blocks list region) :
    ∃ block ∈ list, block ≤ region.1 ∧ region.1 + wordSize < (blocks block).limit ∧
      region.1 + region.2 ≤ (blocks block).limit := by
  obtain ⟨block, member, _, first, last, isRegion, _, nonempty, inBlock, _⟩ := run
  simp only [slotCount, slotSize] at inBlock
  refine ⟨block, member, ?_⟩
  simp only [isRegion, slotSize, wordSize]
  omega

theorem FreedRun.congr {blocks other : Blocks} {list longer : List Nat} {region : Region}
    (run : FreedRun blocks list region)
    (same : ∀ block ∈ list, block ∈ longer ∧ other block = blocks block) :
    FreedRun other longer region := by
  obtain ⟨block, member, isMarked, isRun⟩ := run
  obtain ⟨inLonger, isSame⟩ := same block member
  refine ⟨block, inLonger, by rw [isSame]; exact isMarked, ?_⟩
  rw [slotCount, isSame]
  exact isRun

theorem Freed.congr {blocks other : Blocks} {list longer : List Nat} {address : Nat}
    (freed : Freed blocks list address)
    (same : ∀ block ∈ list, block ∈ longer ∧ other block = blocks block) :
    Freed other longer address := by
  obtain ⟨block, member, isMarked, slot, inBlock, unmarked, inSlot⟩ := freed
  obtain ⟨inLonger, isSame⟩ := same block member
  refine ⟨block, inLonger, by rw [isSame]; exact isMarked, slot, ?_, ?_, inSlot⟩
  · rw [slotCount, isSame]
    exact inBlock
  · rw [isSame]
    exact unmarked

def markedSlots (blocks : Blocks) (list : List Nat) : Finset (Nat × Nat) :=
  (list.flatMap fun block =>
    (List.range (slotCount blocks block)).map fun slot => (block, slot)).toFinset.filter
      fun p => (blocks p.1).marked = true ∧ (blocks p.1).bits.has p.2 .mark = true

theorem mem_markedSlots {blocks : Blocks} {list : List Nat} {block slot : Nat} :
    (block, slot) ∈ markedSlots blocks list ↔
      block ∈ list ∧ slot < slotCount blocks block ∧ (blocks block).marked = true ∧
        (blocks block).bits.has slot .mark = true := by
  simp [markedSlots, and_assoc]

theorem markedSlots_congr {blocks other : Blocks} {list longer : List Nat}
    (sameMember : ∀ block, block ∈ longer ↔ block ∈ list)
    (same : ∀ block ∈ list, other block = blocks block) :
    markedSlots other longer = markedSlots blocks list := by
  ext ⟨block, slot⟩
  rw [mem_markedSlots, mem_markedSlots, sameMember]
  apply and_congr_right
  intro member
  rw [slotCount, same block member, slotCount]

/-- What sweeping these blocks does. -/
structure Swept (list : List Nat) (s r : SweepState) (new : List Region) : Prop where
  others : ∀ block, block ∉ list → r.blocks block = s.blocks block
  limit : ∀ block, (r.blocks block).limit = (s.blocks block).limit
  bits :
    ∀ block ∈ list, (s.blocks block).marked = true →
      (r.blocks block).marked = false ∧
        ∀ u flag, (r.blocks block).bits.has u flag = true ↔
          (s.blocks block).bits.has u flag = true ∧
            (u < slotCount s.blocks block →
              (s.blocks block).bits.has u .mark = true ∧ KeptFlag flag)
  segment :
    ∀ old, FreeSegment s.memory s.freeListHead old 0 →
      (∀ region ∈ old, ∀ block ∈ list,
        region.1 + wordSize < block ∨ (s.blocks block).limit ≤ region.1) →
        FreeSegment r.memory r.freeListHead (new ++ old) 0
  runs : ∀ region ∈ new, FreedRun s.blocks list region
  covers :
    ∀ block ∈ list, (s.blocks block).marked = true → ∀ u, u < slotCount s.blocks block →
      (s.blocks block).bits.has u .mark = false → ∃ region ∈ new, Region.HasSlot region block u
  count : r.retval = s.retval + (markedSlots s.blocks list).card
  apart : new.Pairwise Region.Apart
  memory : ∀ a, ¬ Freed s.blocks list a → r.memory a = s.memory a

theorem Swept.nil (s : SweepState) : Swept [] s s [] := by
  refine ⟨fun _ _ => rfl, fun _ => rfl, ?_, fun old segment _ => segment, ?_, ?_, rfl,
    List.Pairwise.nil, fun _ _ => rfl⟩
  · intro block member
    exact absurd member List.not_mem_nil
  · intro region member
    exact absurd member List.not_mem_nil
  · intro block member
    exact absurd member List.not_mem_nil

theorem Swept.unmarked {s : SweepState} {block : Nat}
    (isUnmarked : (s.blocks block).marked = false) : Swept [block] s s [] := by
  refine ⟨fun _ _ => rfl, fun _ => rfl, ?_, fun old segment _ => segment, ?_, ?_, ?_,
    List.Pairwise.nil, fun _ _ => rfl⟩
  · intro b member isMarked
    rw [List.mem_singleton.mp member, isUnmarked] at isMarked
    cases isMarked
  · intro region member
    exact absurd member List.not_mem_nil
  · intro b member isMarked
    rw [List.mem_singleton.mp member, isUnmarked] at isMarked
    cases isMarked
  · have empty : markedSlots s.blocks [block] = ∅ := by
      ext ⟨b, slot⟩
      rw [mem_markedSlots, List.mem_singleton]
      constructor
      · intro member
        have isMarked := member.2.2.1
        rw [member.1, isUnmarked] at isMarked
        cases isMarked
      · intro member
        exact absurd member (Finset.notMem_empty _)
    rw [empty, Finset.card_empty, Nat.add_zero]

/-- Sweeping blocks that are apart, one list after the other. -/
theorem Swept.append
    {first second : List Nat} {s m r : SweepState} {new newer : List Region}
    (sweptFirst : Swept first s m new) (sweptSecond : Swept second m r newer)
    (apart :
      ∀ a ∈ first, ∀ b ∈ second, a ≠ b ∧
        ((s.blocks a).limit ≤ b ∨ (s.blocks b).limit ≤ a)) :
    Swept (first ++ second) s r (newer ++ new) := by
  have sameSecond : ∀ b ∈ second, m.blocks b = s.blocks b := by
    intro b member
    apply sweptFirst.others
    intro inFirst
    exact (apart b inFirst b member).1 rfl
  have freedSecond :
      ∀ a, Freed m.blocks second a → Freed s.blocks second a := by
    intro a freed
    exact freed.congr fun b member => ⟨member, (sameSecond b member).symm⟩
  have inAppend :
      ∀ a, Freed s.blocks first a ∨ Freed s.blocks second a →
        Freed s.blocks (first ++ second) a := by
    intro a either
    rcases either with inFirst | inSecond
    · exact inFirst.congr fun b member => ⟨List.mem_append_left _ member, rfl⟩
    · exact inSecond.congr fun b member => ⟨List.mem_append_right _ member, rfl⟩
  have runsSecond : ∀ region ∈ newer, FreedRun s.blocks second region := by
    intro region member
    exact (sweptSecond.runs region member).congr fun b inSecond =>
      ⟨inSecond, (sameSecond b inSecond).symm⟩
  refine ⟨?_, ?_, ?_, ?_, ?_, ?_, ?_, ?_, ?_⟩
  · intro b notMember
    rw [List.mem_append, not_or] at notMember
    rw [sweptSecond.others b notMember.2, sweptFirst.others b notMember.1]
  · intro b
    rw [sweptSecond.limit, sweptFirst.limit]
  · intro b member isMarked
    rcases List.mem_append.mp member with inFirst | inSecond
    · have notSecond : b ∉ second := fun inSecond => (apart b inFirst b inSecond).1 rfl
      rw [sweptSecond.others b notSecond]
      exact sweptFirst.bits b inFirst isMarked
    · have spec := sweptSecond.bits b inSecond
      rw [slotCount, sameSecond b inSecond] at spec
      exact spec isMarked
  · intro old segment outside
    rw [List.append_assoc]
    apply sweptSecond.segment
    · apply sweptFirst.segment old segment
      exact fun region member b inFirst =>
        outside region member b (List.mem_append_left _ inFirst)
    · intro region member b inSecond
      rw [sameSecond b inSecond]
      rcases List.mem_append.mp member with inNew | inOld
      · obtain ⟨c, inFirst, above, below, _⟩ := (sweptFirst.runs region inNew).inside
        have blocksApart := (apart c inFirst b inSecond).2
        omega
      · exact outside region inOld b (List.mem_append_right _ inSecond)
  · intro region member
    rcases List.mem_append.mp member with inNewer | inNew
    · exact (runsSecond region inNewer).congr fun b inSecond =>
        ⟨List.mem_append_right _ inSecond, rfl⟩
    · exact (sweptFirst.runs region inNew).congr fun b inFirst =>
        ⟨List.mem_append_left _ inFirst, rfl⟩
  · intro b member isMarked u inBlock unmarked
    rcases List.mem_append.mp member with inFirst | inSecond
    · obtain ⟨region, inNew, hasSlot⟩ := sweptFirst.covers b inFirst isMarked u inBlock unmarked
      exact ⟨region, List.mem_append_right _ inNew, hasSlot⟩
    · have covers := sweptSecond.covers b inSecond
      rw [slotCount, sameSecond b inSecond] at covers
      obtain ⟨region, inNewer, hasSlot⟩ := covers isMarked u inBlock unmarked
      exact ⟨region, List.mem_append_left _ inNewer, hasSlot⟩
  · have both :
        markedSlots s.blocks (first ++ second) =
          markedSlots s.blocks first ∪ markedSlots m.blocks second := by
      rw [markedSlots_congr (fun _ => Iff.rfl) sameSecond]
      ext ⟨b, slot⟩
      rw [Finset.mem_union, mem_markedSlots, mem_markedSlots, mem_markedSlots, List.mem_append,
        or_and_right]
    have disjoint :
        Disjoint (markedSlots s.blocks first) (markedSlots m.blocks second) := by
      rw [Finset.disjoint_left]
      rintro ⟨b, slot⟩ inFirst inSecond
      rw [mem_markedSlots] at inFirst inSecond
      exact (apart b inFirst.1 b inSecond.1).1 rfl
    rw [sweptSecond.count, sweptFirst.count, both, Finset.card_union_of_disjoint disjoint,
      Nat.add_assoc]
  · refine List.pairwise_append.mpr ⟨sweptSecond.apart, sweptFirst.apart, ?_⟩
    intro region inNewer other inNew
    obtain ⟨b, inSecond, above, _, below⟩ := (runsSecond region inNewer).inside
    obtain ⟨c, inFirst, otherAbove, _, otherBelow⟩ := (sweptFirst.runs other inNew).inside
    have blocksApart := (apart c inFirst b inSecond).2
    simp only [Region.Apart]
    omega
  · intro a notFreed
    rw [sweptSecond.memory a (fun freed => notFreed (inAppend a (Or.inr (freedSecond a freed)))),
      sweptFirst.memory a (fun freed => notFreed (inAppend a (Or.inl freed)))]

theorem Swept.of_mem
    {list other : List Nat} {s r : SweepState} {new : List Region}
    (swept : Swept list s r new) (same : ∀ b, b ∈ other ↔ b ∈ list) :
    Swept other s r new := by
  have freed : ∀ a, Freed s.blocks list a → Freed s.blocks other a := by
    intro a inList
    exact inList.congr fun b member => ⟨(same b).mpr member, rfl⟩
  refine ⟨?_, swept.limit, ?_, ?_, ?_, ?_, ?_, swept.apart, ?_⟩
  · exact fun b notMember => swept.others b (fun member => notMember ((same b).mpr member))
  · exact fun b member => swept.bits b ((same b).mp member)
  · intro old segment outside
    apply swept.segment old segment
    exact fun region member b inList => outside region member b ((same b).mpr inList)
  · intro region member
    exact (swept.runs region member).congr fun b inList => ⟨(same b).mpr inList, rfl⟩
  · exact fun b member => swept.covers b ((same b).mp member)
  · rw [swept.count, markedSlots_congr same fun _ _ => rfl]
  · exact fun a notFreed => swept.memory a (fun inList => notFreed (freed a inList))

/-- The sweep of one marked block. -/
private theorem swept_block {s : SweepState} {block : Nat} (positive : 0 < block)
    (nonempty : block < (s.blocks block).limit) (isMarked : (s.blocks block).marked = true) :
    ∃ new,
      Swept [block] s
        (let swept :=
          sweepSlots block (slotCount s.blocks block) (slotCount s.blocks block) 0
            ⟨(s.blocks block).bits, s.memory, s.freeListHead, s.retval⟩
        ⟨s.blocks.assign block false swept.bits, swept.memory, swept.freeListHead,
          swept.retval⟩) new := by
  obtain ⟨new, swept⟩ :=
    sweepSlots_spec (slotCount s.blocks block) positive (slotCount s.blocks block) 0
      ⟨(s.blocks block).bits, s.memory, s.freeListHead, s.retval⟩ (Nat.zero_le _) le_rfl
  refine ⟨new, ?_, ?_, ?_, ?_, ?_, ?_, ?_, swept.apart, ?_⟩
  · intro b notBlock
    exact Blocks.assign_other (fun same => notBlock (List.mem_singleton.mpr same))
  · exact fun b => Blocks.limit_assign b
  · intro b member _
    rw [List.mem_singleton.mp member]
    simp only [Blocks.assign_same, true_and]
    intro u flag
    rw [swept.bits u flag]
    simp only [Nat.zero_le, forall_const]
  · intro old segment outside
    apply swept.segment old segment
    intro region member
    have apart := outside region member block (List.mem_singleton_self block)
    simp only [HeaderOutside, Nat.zero_mul, Nat.add_zero]
    have inBlock : block + slotCount s.blocks block * slotSize ≤ (s.blocks block).limit := by
      simp only [slotCount, slotSize]
      omega
    omega
  · intro region member
    exact ⟨block, List.mem_singleton_self block, isMarked, swept.runs region member⟩
  · intro b member _ u inBlock unmarked
    rw [List.mem_singleton.mp member] at inBlock unmarked ⊢
    exact swept.covers u (Nat.zero_le u) inBlock unmarked
  · have same :
        markedSlots s.blocks [block] =
          (markedBetween (s.blocks block).bits 0 (slotCount s.blocks block)).image
            (Prod.mk block) := by
      ext ⟨b, slot⟩
      simp only [mem_markedSlots, List.mem_singleton, Finset.mem_image, markedBetween,
        Finset.mem_filter, Finset.mem_range, Nat.zero_le, true_and, Prod.mk.injEq]
      constructor
      · intro member
        obtain ⟨isBlock, inBlock, _, marked⟩ := member
        subst isBlock
        exact ⟨slot, ⟨inBlock, marked⟩, rfl, rfl⟩
      · intro member
        obtain ⟨u, ⟨inBlock, marked⟩, isBlock, isSlot⟩ := member
        subst isBlock isSlot
        exact ⟨rfl, inBlock, isMarked, marked⟩
    rw [same, Finset.card_image_of_injective _ (Prod.mk_right_injective block)]
    exact swept.count
  · intro a notFreed
    apply swept.memory a
    intro u _ below unmarked inSlot
    exact
      notFreed ⟨block, List.mem_singleton_self block, isMarked, u, below, unmarked, inSlot⟩

/-- `Block::sweep` keeps the blocks with marks. -/
theorem sweep_spec (tree : BlockTree) :
    ∀ s : SweepState, BlockTree.Ordered s.blocks tree.inorder →
      (∀ block ∈ tree.inorder, 0 < block) →
        ∃ new,
          (sweep tree s).1.inorder =
              tree.inorder.filter (fun block => (s.blocks block).marked) ∧
            Swept tree.inorder s (sweep tree s).2 new := by
  induction tree with
  | nil =>
      intro s _ _
      exact ⟨[], rfl, Swept.nil s⟩
  | node block left right leftHypothesis rightHypothesis =>
      intro s ordered positive
      obtain ⟨leftOrdered, rightOrdered, leftBelow, rightAbove, nonempty⟩ := ordered.append
      have inTree : ∀ b, b ∈ (BlockTree.node block left right).inorder ↔
          b ∈ left.inorder ∨ b = block ∨ b ∈ right.inorder := by
        intro b
        rw [BlockTree.inorder, List.mem_append, List.mem_cons]
      obtain ⟨leftNew, leftKept, leftSwept⟩ :=
        leftHypothesis s leftOrdered
          (fun b member => positive b ((inTree b).mpr (Or.inl member)))
      obtain ⟨middle, isMiddle⟩ : ∃ m, m = (sweep left s).2 := ⟨_, rfl⟩
      rw [← isMiddle] at leftSwept
      have notInLeft : ∀ b, b ∈ left.inorder → b < block := by
        intro b member
        have := leftBelow b member
        have := leftOrdered.nonempty b member
        omega
      have inRightAbove : ∀ b, b ∈ right.inorder → block < b := by
        intro b member
        have := rightAbove b member
        omega
      have sameRight : ∀ b ∈ right.inorder, middle.blocks b = s.blocks b := by
        intro b member
        apply leftSwept.others
        intro inLeft
        have := notInLeft b inLeft
        have := inRightAbove b member
        omega
      obtain ⟨rightNew, rightKept, rightSwept⟩ :=
        rightHypothesis middle
          (rightOrdered.congr fun b member => by rw [sameRight b member])
          (fun b member => positive b ((inTree b).mpr (Or.inr (Or.inr member))))
      obtain ⟨swept, isSwept⟩ : ∃ r, r = (sweep right middle).2 := ⟨_, rfl⟩
      rw [← isSwept] at rightSwept
      have both :=
        leftSwept.append rightSwept (by
          intro a inLeft b inRight
          have := notInLeft a inLeft
          have := inRightAbove b inRight
          have := leftBelow a inLeft
          exact ⟨by omega, by omega⟩)
      have notListed : block ∉ left.inorder ++ right.inorder := by
        intro member
        rcases List.mem_append.mp member with inLeft | inRight
        · have := notInLeft block inLeft
          omega
        · have := inRightAbove block inRight
          omega
      have sameBlock : swept.blocks block = s.blocks block := both.others block notListed
      have whole :
          ∀ {r new}, Swept [block] swept r new →
            Swept (BlockTree.node block left right).inorder s r
              (new ++ (rightNew ++ leftNew)) := by
        intro r new root
        apply (both.append root ?_).of_mem
        · intro b
          rw [inTree, List.mem_append, List.mem_append, List.mem_singleton]
          tauto
        · intro a member b isRoot
          rw [List.mem_singleton.mp isRoot]
          rcases List.mem_append.mp member with inLeft | inRight
          · have := notInLeft a inLeft
            have := leftBelow a inLeft
            exact ⟨by omega, by omega⟩
          · have := inRightAbove a inRight
            have := rightAbove a inRight
            exact ⟨by omega, by omega⟩
      have rightFilter :
          right.inorder.filter (fun b => (middle.blocks b).marked) =
            right.inorder.filter (fun b => (s.blocks b).marked) := by
        apply List.filter_congr
        intro b member
        rw [sameRight b member]
      rw [isMiddle] at rightKept rightFilter isSwept
      simp only [sweep, ← isSwept]
      by_cases isMarked : (swept.blocks block).marked = true
      · rw [if_pos isMarked]
        obtain ⟨new, root⟩ :=
          swept_block (positive block ((inTree block).mpr (Or.inr (Or.inl rfl))))
            (by rw [sameBlock]; exact nonempty) isMarked
        refine ⟨_, ?_, whole root⟩
        rw [sameBlock] at isMarked
        rw [BlockTree.inorder, BlockTree.inorder, leftKept, rightKept, rightFilter,
          List.filter_append, List.filter_cons_of_pos (by simpa using isMarked)]
      · rw [if_neg isMarked]
        rw [Bool.not_eq_true] at isMarked
        refine ⟨_, ?_, whole (Swept.unmarked isMarked)⟩
        rw [sameBlock] at isMarked
        rw [BlockTree.inorder_deleteRoot, BlockTree.inorder, leftKept, rightKept, rightFilter,
          List.filter_append, List.filter_cons_of_neg (by simpa using isMarked)]

end Rcgo.Storage.Heap
