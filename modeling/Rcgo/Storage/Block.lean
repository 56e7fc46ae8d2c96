import Rcgo.Storage.SlotBits
import Mathlib.Data.List.Basic

/-!
# Blocks

A block is a contiguous region of storage with status bits for its slots.
The blocks of a heap form a binary search tree on their addresses, which are
natural numbers of bytes.
-/

namespace Rcgo.Storage

/-- `SLOT_SIZE`: two words. -/
def slotSize : Nat := 16

def wordSize : Nat := 8

/-- A block; it is named by the address `begin_` of its storage. -/
structure Block where
  /-- `end_` -/
  limit : Nat
  /-- at least one slot is marked -/
  marked : Bool
  bits : BitArray

/-- The members of all blocks, by `begin_`. -/
abbrev Blocks := Nat → Block

def slotCount (blocks : Blocks) (block : Nat) : Nat :=
  ((blocks block).limit - block) / slotSize

namespace Blocks

/-- Assignments to `marked_` and `bits_` of one block. -/
def assign (blocks : Blocks) (block : Nat) (marked : Bool) (bits : BitArray) : Blocks :=
  Function.update blocks block ⟨(blocks block).limit, marked, bits⟩

variable {blocks : Blocks} {block : Nat} {marked : Bool} {bits : BitArray}

@[simp]
theorem limit_assign (a : Nat) :
    (blocks.assign block marked bits a).limit = (blocks a).limit := by
  by_cases isBlock : a = block
  · rw [isBlock, assign, Function.update_self]
  · rw [assign, Function.update_of_ne isBlock]

@[simp]
theorem slotCount_assign (a : Nat) :
    slotCount (blocks.assign block marked bits) a = slotCount blocks a := by
  rw [slotCount, slotCount, limit_assign]

@[simp]
theorem assign_same :
    blocks.assign block marked bits block = ⟨(blocks block).limit, marked, bits⟩ :=
  Function.update_self _ _ _

theorem assign_other {a : Nat} (different : a ≠ block) :
    blocks.assign block marked bits a = blocks a :=
  Function.update_of_ne different _ _

end Blocks

namespace BitArray

/-- The loop of `Block::allocate` over the slots of the new object. -/
def allocateSlots : Nat → Nat → BitArray → BitArray
  | 0, _, bits => bits
  | count + 1, slot, bits =>
      allocateSlots count (slot + 1) (setBits bits slot Flag.allocated.mask)

/-- `Block::allocate`. -/
def allocate (bits : BitArray) (slot size : Nat) : BitArray :=
  allocateSlots (size / slotSize) slot (setBits bits slot Flag.object.mask)

/-- The backward loop of `Block::mark`.  It ends at the first slot of the
object; without a value when it leaves the block. -/
def markBackward (bits : BitArray) : Nat → Option BitArray
  | 0 => if has bits 0 .object then some bits else none
  | slot + 1 =>
      if has bits (slot + 1) .object then
        some bits
      else
        markBackward (setBits bits (slot + 1) Flag.mark.mask) slot

/-- The forward loop of `Block::mark` over at most `count` slots. -/
def markForward : Nat → Nat → BitArray → BitArray
  | 0, _, bits => bits
  | count + 1, slot, bits =>
      if has bits slot .allocated then
        markForward count (slot + 1) (setBits bits slot Flag.mark.mask)
      else
        bits

theorem has_allocateSlots (count : Nat) :
    ∀ (slot : Nat) (bits : BitArray) (other : Nat) (flag : Flag),
      has (allocateSlots count slot bits) other flag = true ↔
        has bits other flag = true ∨
          (flag = .allocated ∧ slot ≤ other ∧ other < slot + count) := by
  induction count with
  | zero =>
      intro slot bits other flag
      rw [allocateSlots]
      constructor
      · exact Or.inl
      · intro either
        rcases either with old | ⟨_, above, below⟩
        · exact old
        · omega
  | succ count inductionHypothesis =>
      intro slot bits other flag
      rw [allocateSlots, inductionHypothesis, has_setBits]
      have range :
          slot ≤ other ∧ other < slot + (count + 1) ↔
            other = slot ∨ (slot + 1 ≤ other ∧ other < slot + 1 + count) := by
        omega
      rw [range]
      grind

theorem has_allocate (bits : BitArray) (slot size other : Nat) (flag : Flag) :
    has (allocate bits slot size) other flag = true ↔
      has bits other flag = true ∨ (flag = .object ∧ other = slot) ∨
        (flag = .allocated ∧ slot ≤ other ∧ other < slot + size / slotSize) := by
  rw [allocate, has_allocateSlots, has_setBits]
  grind

/-- The backward loop marks down to the first slot of the object, without it. -/
theorem markBackward_spec
    {first : Nat} (slot : Nat) :
    ∀ {bits : BitArray}, has bits first .object = true → first ≤ slot →
      (∀ other, first < other → other ≤ slot → has bits other .object = false) →
        ∃ marked, markBackward bits slot = some marked ∧
          ∀ other flag, has marked other flag = true ↔
            has bits other flag = true ∨
              (flag = .mark ∧ first < other ∧ other ≤ slot) := by
  induction slot with
  | zero =>
      intro bits isFirst below _
      have isZero : first = 0 := by omega
      subst isZero
      refine ⟨bits, by rw [markBackward, if_pos isFirst], ?_⟩
      intro other flag
      constructor
      · exact Or.inl
      · intro either
        rcases either with old | ⟨_, above, atMost⟩
        · exact old
        · omega
  | succ slot inductionHypothesis =>
      intro bits isFirst below inner
      by_cases atFirst : first = slot + 1
      · subst atFirst
        refine ⟨bits, by rw [markBackward, if_pos isFirst], ?_⟩
        intro other flag
        constructor
        · exact Or.inl
        · intro either
          rcases either with old | ⟨_, above, atMost⟩
          · exact old
          · omega
      · have notObject := inner (slot + 1) (by omega) (by omega)
        have sameObject :
            ∀ other,
              has (setBits bits (slot + 1) Flag.mark.mask) other .object = true ↔
                has bits other .object = true := by
          intro other
          rw [has_setBits]
          simp
        obtain ⟨marked, run, spec⟩ :=
          inductionHypothesis ((sameObject first).mpr isFirst) (by omega) (by
            intro other above atMost
            rw [Bool.eq_false_iff]
            intro isObject
            have := inner other above (by omega)
            rw [(sameObject other).mp isObject] at this
            cases this)
        refine ⟨marked, ?_, ?_⟩
        · rw [markBackward, notObject]
          exact run
        · intro other flag
          rw [spec, has_setBits]
          have range :
              first < other ∧ other ≤ slot + 1 ↔
                other = slot + 1 ∨ (first < other ∧ other ≤ slot) := by
            omega
          rw [range]
          grind

/-- The forward loop marks the run of allocated slots that starts at `slot`. -/
theorem has_markForward (count : Nat) :
    ∀ (slot : Nat) (bits : BitArray) (other : Nat) (flag : Flag),
      has (markForward count slot bits) other flag = true ↔
        has bits other flag = true ∨
          (flag = .mark ∧ slot ≤ other ∧ other < slot + count ∧
            ∀ u, slot ≤ u → u ≤ other → has bits u .allocated = true) := by
  induction count with
  | zero =>
      intro slot bits other flag
      rw [markForward]
      constructor
      · exact Or.inl
      · intro either
        rcases either with old | ⟨_, above, below, _⟩
        · exact old
        · omega
  | succ count inductionHypothesis =>
      intro slot bits other flag
      rw [markForward]
      by_cases isAllocated : has bits slot .allocated = true
      · rw [if_pos isAllocated, inductionHypothesis, has_setBits]
        have sameAllocated :
            ∀ u, has (setBits bits slot Flag.mark.mask) u .allocated = true ↔
              has bits u .allocated = true := by
          intro u
          rw [has_setBits]
          simp
        simp only [sameAllocated]
        constructor
        · intro either
          rcases either with (old | new) | ⟨isMark, above, below, run⟩
          · exact Or.inl old
          · refine Or.inr ⟨new.2.symm, by omega, by omega, ?_⟩
            intro u above below
            have same : u = slot := by omega
            rw [same]
            exact isAllocated
          · refine Or.inr ⟨isMark, by omega, by omega, ?_⟩
            intro u aboveSlot belowOther
            by_cases same : u = slot
            · rw [same]
              exact isAllocated
            · exact run u (by omega) belowOther
        · intro either
          rcases either with old | ⟨isMark, above, below, run⟩
          · exact Or.inl (Or.inl old)
          · by_cases same : other = slot
            · exact Or.inl (Or.inr ⟨same, isMark.symm⟩)
            · refine Or.inr ⟨isMark, by omega, by omega, ?_⟩
              intro u aboveSlot belowOther
              exact run u (by omega) belowOther
      · rw [if_neg isAllocated]
        constructor
        · exact Or.inl
        · intro either
          rcases either with old | ⟨_, above, _, run⟩
          · exact old
          · exact absurd (run slot (by omega) above) isAllocated

end BitArray

/-- `left_` and `right_` of the blocks of a heap. -/
inductive BlockTree where
  | nil
  | node (block : Nat) (left right : BlockTree)
  deriving DecidableEq, Repr

namespace BlockTree

/-- `Block::insert`. -/
def insert : BlockTree → Nat → BlockTree
  | nil, block => node block nil nil
  | node p left right, block =>
      if block < p then
        node p (left.insert block) right
      else
        node p left (right.insert block)

/-- `Block::find`. -/
def find (blocks : Blocks) : BlockTree → Nat → Option Nat
  | nil, _ => none
  | node block left right, address =>
      if block ≤ address ∧ address < (blocks block).limit then
        some block
      else if address < block then
        left.find blocks address
      else
        right.find blocks address

/-- `Block::remove_right_most` on the tree with these members. -/
def removeRightMost (block : Nat) (left : BlockTree) :
    BlockTree → BlockTree × Nat
  | nil => (left, block)
  | node right rightLeft rightRight =>
      let (rest, removed) := removeRightMost right rightLeft rightRight
      (node block left rest, removed)

/-- What `sweep` puts in the place of a block that it deletes. -/
def deleteRoot : BlockTree → BlockTree → BlockTree
  | nil, nil => nil
  | nil, right => right
  | left, nil => left
  | node block left leftRight, right =>
      let (rest, removed) := removeRightMost block left leftRight
      node removed rest right

def inorder : BlockTree → List Nat
  | nil => []
  | node block left right => left.inorder ++ block :: right.inorder

/-- The blocks are nonempty and each lies before the next one. -/
structure Ordered (blocks : Blocks) (list : List Nat) : Prop where
  separate : list.Pairwise fun a b => (blocks a).limit ≤ b
  nonempty : ∀ a ∈ list, a < (blocks a).limit

variable {blocks : Blocks}

theorem Ordered.sublist
    {list shorter : List Nat} (ordered : Ordered blocks list)
    (sublist : shorter.Sublist list) : Ordered blocks shorter :=
  ⟨ordered.separate.sublist sublist,
   fun a member => ordered.nonempty a (sublist.subset member)⟩

theorem Ordered.congr
    {other : Blocks} {list : List Nat} (ordered : Ordered blocks list)
    (same : ∀ a ∈ list, (other a).limit = (blocks a).limit) : Ordered other list := by
  constructor
  · apply ordered.separate.imp_of_mem
    intro a b memberA _ below
    rw [same a memberA]
    exact below
  · intro a member
    rw [same a member]
    exact ordered.nonempty a member

theorem Ordered.append
    {left right : List Nat} {block : Nat}
    (ordered : Ordered blocks (left ++ block :: right)) :
    Ordered blocks left ∧ Ordered blocks right ∧
      (∀ a ∈ left, (blocks a).limit ≤ block) ∧
      (∀ a ∈ right, (blocks block).limit ≤ a) ∧ block < (blocks block).limit := by
  have separate := List.pairwise_append.mp ordered.separate
  have rightSeparate := List.pairwise_cons.mp separate.2.1
  have inWhole : block ∈ left ++ block :: right :=
    List.mem_append_right left List.mem_cons_self
  refine ⟨ordered.sublist (List.sublist_append_left _ _), ?_, ?_, rightSeparate.1,
    ordered.nonempty block inWhole⟩
  · apply ordered.sublist
    exact (List.sublist_cons_self block right).trans (List.sublist_append_right _ _)
  · intro a member
    exact separate.2.2 a member block List.mem_cons_self

/-- `find` returns the block of the tree that contains the address. -/
theorem find_eq_some_iff
    {tree : BlockTree} (ordered : Ordered blocks tree.inorder) {address block : Nat} :
    tree.find blocks address = some block ↔
      block ∈ tree.inorder ∧ block ≤ address ∧ address < (blocks block).limit := by
  induction tree with
  | nil => simp [find, inorder]
  | node p left right leftHypothesis rightHypothesis =>
      obtain ⟨leftOrdered, rightOrdered, leftBelow, rightAbove, nonempty⟩ := ordered.append
      have leftIff := leftHypothesis leftOrdered
      have rightIff := rightHypothesis rightOrdered
      have leftLimit : ∀ a ∈ left.inorder, (blocks a).limit ≤ p := leftBelow
      rw [find, inorder, List.mem_append, List.mem_cons]
      by_cases inside : p ≤ address ∧ address < (blocks p).limit
      · rw [if_pos inside, Option.some.injEq]
        constructor
        · intro same
          subst same
          exact ⟨Or.inr (Or.inl rfl), inside⟩
        · intro found
          rcases found.1 with inLeft | isRoot | inRight
          · have := leftLimit block inLeft
            omega
          · exact isRoot.symm
          · have := rightAbove block inRight
            omega
      · rw [if_neg inside]
        by_cases below : address < p
        · rw [if_pos below, leftIff]
          constructor
          · intro found
            exact ⟨Or.inl found.1, found.2⟩
          · intro found
            rcases found.1 with inLeft | isRoot | inRight
            · exact ⟨inLeft, found.2⟩
            · subst isRoot
              omega
            · have := rightAbove block inRight
              omega
        · rw [if_neg below, rightIff]
          constructor
          · intro found
            exact ⟨Or.inr (Or.inr found.1), found.2⟩
          · intro found
            rcases found.1 with inLeft | isRoot | inRight
            · have := leftLimit block inLeft
              omega
            · subst isRoot
              exact absurd found.2 inside
            · exact ⟨inRight, found.2⟩

theorem mem_of_find {tree : BlockTree} {address block : Nat}
    (found : tree.find blocks address = some block) : block ∈ tree.inorder := by
  induction tree with
  | nil => cases found
  | node p left right leftHypothesis rightHypothesis =>
      rw [find] at found
      rw [inorder, List.mem_append, List.mem_cons]
      split at found
      · exact Or.inr (Or.inl (Option.some.inj found).symm)
      · split at found
        · exact Or.inl (leftHypothesis found)
        · exact Or.inr (Or.inr (rightHypothesis found))

theorem find_congr
    {other : Blocks} (same : ∀ a, (other a).limit = (blocks a).limit)
    (tree : BlockTree) (address : Nat) :
    tree.find other address = tree.find blocks address := by
  induction tree with
  | nil => rfl
  | node p left right leftHypothesis rightHypothesis =>
      rw [find, find, same, leftHypothesis, rightHypothesis]

theorem mem_inorder_insert
    {tree : BlockTree} {block a : Nat} :
    a ∈ (tree.insert block).inorder ↔ a = block ∨ a ∈ tree.inorder := by
  induction tree with
  | nil => simp [insert, inorder]
  | node p left right leftHypothesis rightHypothesis =>
      unfold insert
      split
      · simp only [inorder, List.mem_append, leftHypothesis, List.mem_cons, or_assoc]
      · simp only [inorder, List.mem_append, rightHypothesis, List.mem_cons]
        grind

/-- Inserting a block apart from the others keeps the order. -/
theorem Ordered.insert
    {tree : BlockTree} (ordered : Ordered blocks tree.inorder) {block : Nat}
    (nonempty : block < (blocks block).limit)
    (apart :
      ∀ a ∈ tree.inorder, (blocks a).limit ≤ block ∨ (blocks block).limit ≤ a) :
    Ordered blocks (tree.insert block).inorder := by
  constructor
  · induction tree with
    | nil => exact List.pairwise_singleton _ _
    | node p left right leftHypothesis rightHypothesis =>
        obtain ⟨leftOrdered, rightOrdered, leftBelow, rightAbove, rootNonempty⟩ :=
          ordered.append
        have rootApart := apart p (by simp [inorder])
        have leftApart :
            ∀ a ∈ left.inorder, (blocks a).limit ≤ block ∨ (blocks block).limit ≤ a := by
          intro a member
          exact apart a (by simp [inorder, member])
        have rightApart :
            ∀ a ∈ right.inorder,
              (blocks a).limit ≤ block ∨ (blocks block).limit ≤ a := by
          intro a member
          exact apart a (by simp [inorder, member])
        unfold BlockTree.insert
        split
        · next below =>
          refine List.pairwise_append.mpr ⟨leftHypothesis leftOrdered leftApart, ?_, ?_⟩
          · exact List.pairwise_cons.mpr ⟨rightAbove, rightOrdered.separate⟩
          · have newBelow : ∀ a ∈ (left.insert block).inorder, (blocks a).limit ≤ p := by
              intro a member
              rcases mem_inorder_insert.mp member with isNew | old
              · subst isNew
                omega
              · exact leftBelow a old
            intro a memberA b memberB
            rcases List.mem_cons.mp memberB with isRoot | inRight
            · rw [isRoot]
              exact newBelow a memberA
            · have := rightAbove b inRight
              have := newBelow a memberA
              omega
        · next notBelow =>
          have newAbove : ∀ a ∈ (right.insert block).inorder, (blocks p).limit ≤ a := by
            intro a member
            rcases mem_inorder_insert.mp member with isNew | old
            · subst isNew
              omega
            · exact rightAbove a old
          refine List.pairwise_append.mpr ⟨leftOrdered.separate, ?_, ?_⟩
          · exact
              List.pairwise_cons.mpr ⟨newAbove, rightHypothesis rightOrdered rightApart⟩
          · intro a memberA b memberB
            have := leftBelow a memberA
            rcases List.mem_cons.mp memberB with isRoot | inRight
            · rw [isRoot]
              exact this
            · have := newAbove b inRight
              omega
  · intro a member
    rcases mem_inorder_insert.mp member with isNew | old
    · rw [isNew]
      exact nonempty
    · exact ordered.nonempty a old

theorem inorder_removeRightMost (right : BlockTree) :
    ∀ (block : Nat) (left : BlockTree),
      (removeRightMost block left right).1.inorder ++ [(removeRightMost block left right).2] =
        left.inorder ++ block :: right.inorder := by
  induction right with
  | nil =>
      intro block left
      rfl
  | node p rightLeft rightRight _ rightHypothesis =>
      intro block left
      have rest := rightHypothesis p rightLeft
      rw [removeRightMost]
      simp only [inorder, List.append_assoc, List.cons_append]
      rw [rest]

theorem inorder_deleteRoot (left right : BlockTree) :
    (deleteRoot left right).inorder = left.inorder ++ right.inorder := by
  cases left with
  | nil =>
      cases right with
      | nil => rfl
      | node p rightLeft rightRight => rfl
  | node block leftLeft leftRight =>
      cases right with
      | nil => simp [deleteRoot, inorder]
      | node p rightLeft rightRight =>
          have rest := inorder_removeRightMost leftRight block leftLeft
          simp only [deleteRoot, inorder]
          rw [← rest]
          simp

end BlockTree

end Rcgo.Storage
