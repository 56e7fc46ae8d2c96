import Rcgo.Storage.Splicing

/-!
# Block trees

Blocks are inserted into the trees of heaps, deleted by sweeps and moved by
merges.  In every run each tree is a search tree of exactly the blocks of its
heap.
-/

namespace Rcgo.Storage

open Rcgo.Foundation

namespace BlockTree

/-- Left of a block are the blocks before it, right of it those behind it. -/
def IsSearchTree : BlockTree → Prop
  | nil => True
  | node block left right =>
      (∀ a ∈ left.inorder, a < block) ∧ (∀ a ∈ right.inorder, block < a) ∧
        left.IsSearchTree ∧ right.IsSearchTree

variable {blocks : Blocks} {tree : BlockTree}

theorem Ordered.isSearchTree (ordered : Ordered blocks tree.inorder) : tree.IsSearchTree := by
  induction tree with
  | nil => exact trivial
  | node block left right leftHypothesis rightHypothesis =>
      obtain ⟨leftOrdered, rightOrdered, leftBelow, rightAbove, nonempty⟩ := ordered.append
      refine ⟨?_, ?_, leftHypothesis leftOrdered, rightHypothesis rightOrdered⟩
      · intro a member
        exact Nat.lt_of_lt_of_le (leftOrdered.nonempty a member) (leftBelow a member)
      · intro a member
        exact Nat.lt_of_lt_of_le nonempty (rightAbove a member)

theorem Ordered.nodup {list : List Nat} (ordered : Ordered blocks list) : list.Nodup := by
  apply ordered.separate.imp_of_mem
  intro a b memberA _ below same
  have nonempty := ordered.nonempty a memberA
  omega

end BlockTree

/-- The block trees of all heaps, the members of the blocks, and for each heap
the blocks that have come to it and have not been deleted. -/
structure BlockTrees where
  tree : Nat → BlockTree
  blocks : Blocks
  owned : Nat → Set Nat

namespace BlockTrees

/-- `Block::insert` of a new block. -/
def insertBlock (s : BlockTrees) (heap block : Nat) (members : Block) : BlockTrees where
  tree := Function.update s.tree heap ((s.tree heap).insert block)
  blocks := Function.update s.blocks block members
  owned := Function.update s.owned heap (insert block (s.owned heap))

/-- `Block::sweep` of the tree of a heap.  The blocks without a marked slot are
deleted; `marked_` says which ones have one. -/
def sweepBlocks (s : BlockTrees) (heap : Nat) (mem : Memory) (freeListHead : Nat) :
    BlockTrees where
  tree :=
    Function.update s.tree heap (Heap.sweep (s.tree heap) ⟨s.blocks, mem, freeListHead, 0⟩).1
  blocks := (Heap.sweep (s.tree heap) ⟨s.blocks, mem, freeListHead, 0⟩).2.blocks
  owned := Function.update s.owned heap {a ∈ s.owned heap | (s.blocks a).marked = true}

/-- `Block::merge` of the tree of `x` into that of `this`. -/
def mergeBlocks (s : BlockTrees) (this x : Nat) : BlockTrees where
  tree :=
    Function.update (Function.update s.tree this ((s.tree this).merge (s.tree x))) x .nil
  blocks := s.blocks
  owned := Function.update (Function.update s.owned this (s.owned this ∪ s.owned x)) x ∅

/-- The states of the runs. -/
inductive Reachable : BlockTrees → Prop
  | start (blocks : Blocks) : Reachable ⟨fun _ => .nil, blocks, fun _ => ∅⟩
  /-- `operator new` returns storage that is apart from all blocks in use. -/
  | insert {s heap block members} :
      Reachable s → 0 < block → block < members.limit →
      (∀ h, ∀ a ∈ s.owned h, (s.blocks a).limit ≤ block ∨ members.limit ≤ a) →
        Reachable (s.insertBlock heap block members)
  /-- Allocation and marking change `bits_` and `marked_`. -/
  | assign {s blocks} :
      Reachable s → (∀ a, (blocks a).limit = (s.blocks a).limit) →
        Reachable { s with blocks := blocks }
  | sweep {s heap mem freeListHead} :
      Reachable s → Reachable (s.sweepBlocks heap mem freeListHead)
  | merge {s this x} : Reachable s → this ≠ x → Reachable (s.mergeBlocks this x)

/-- The invariant of the runs. -/
structure Owning (s : BlockTrees) : Prop where
  ordered : ∀ h, BlockTree.Ordered s.blocks (s.tree h).inorder
  contents : ∀ h a, a ∈ (s.tree h).inorder ↔ a ∈ s.owned h
  positive : ∀ h, ∀ a ∈ s.owned h, 0 < a
  apart :
    ∀ h k, h ≠ k → ∀ a ∈ s.owned h, ∀ b ∈ s.owned k,
      (s.blocks a).limit ≤ b ∨ (s.blocks b).limit ≤ a

namespace Owning

variable {s : BlockTrees} (owning : s.Owning)

include owning

theorem nonempty {h a : Nat} (isOwned : a ∈ s.owned h) : a < (s.blocks a).limit :=
  (owning.ordered h).nonempty a ((owning.contents h a).mpr isOwned)

theorem assign {blocks : Blocks} (same : ∀ a, (blocks a).limit = (s.blocks a).limit) :
    Owning { s with blocks := blocks } where
  ordered h := (owning.ordered h).congr fun a _ => same a
  contents := owning.contents
  positive := owning.positive
  apart h k different a isOwned b isOther := by
    dsimp only
    rw [same a, same b]
    exact owning.apart h k different a isOwned b isOther

section Insert

variable {heap block : Nat} {members : Block} (positive : 0 < block)
  (nonempty : block < members.limit)
  (apart : ∀ h, ∀ a ∈ s.owned h, (s.blocks a).limit ≤ block ∨ members.limit ≤ a)

include nonempty apart

private theorem old_block {h a : Nat} (isOwned : a ∈ s.owned h) :
    Function.update s.blocks block members a = s.blocks a := by
  apply Function.update_of_ne
  have here := owning.nonempty isOwned
  have placed := apart h a isOwned
  omega

private theorem ordered_old (h : Nat) :
    BlockTree.Ordered (Function.update s.blocks block members) (s.tree h).inorder := by
  apply (owning.ordered h).congr
  intro a member
  rw [owning.old_block nonempty apart ((owning.contents h a).mp member)]

private theorem apart_old {h a : Nat} (isOwned : a ∈ s.owned h) :
    (Function.update s.blocks block members a).limit ≤ block ∨ members.limit ≤ a := by
  rw [owning.old_block nonempty apart isOwned]
  exact apart h a isOwned

include positive

theorem insertBlock : (s.insertBlock heap block members).Owning where
  ordered h := by
    by_cases here : h = heap
    · subst here
      simp only [BlockTrees.insertBlock, Function.update_self]
      apply (owning.ordered_old nonempty apart h).insert
      · rw [Function.update_self]
        exact nonempty
      · intro a member
        rw [Function.update_self]
        exact owning.apart_old nonempty apart ((owning.contents h a).mp member)
    · simp only [BlockTrees.insertBlock, Function.update_of_ne here]
      exact owning.ordered_old nonempty apart h
  contents h a := by
    by_cases here : h = heap
    · subst here
      simp only [BlockTrees.insertBlock, Function.update_self]
      rw [BlockTree.mem_inorder_insert, owning.contents, Set.mem_insert_iff]
    · simp only [BlockTrees.insertBlock, Function.update_of_ne here]
      exact owning.contents h a
  positive h a isOwned := by
    by_cases here : h = heap
    · subst here
      simp only [BlockTrees.insertBlock, Function.update_self] at isOwned
      rcases isOwned with isNew | isOld
      · rw [isNew]
        exact positive
      · exact owning.positive h a isOld
    · simp only [BlockTrees.insertBlock, Function.update_of_ne here] at isOwned
      exact owning.positive h a isOwned
  apart h k different a isOwned b isOther := by
    have cases : ∀ h a, a ∈ (s.insertBlock heap block members).owned h →
        (h = heap ∧ a = block) ∨ a ∈ s.owned h := by
      intro h a member
      by_cases here : h = heap
      · subst here
        simp only [BlockTrees.insertBlock, Function.update_self] at member
        exact member.imp_left fun isNew => ⟨rfl, isNew⟩
      · simp only [BlockTrees.insertBlock, Function.update_of_ne here] at member
        exact Or.inr member
    dsimp only [BlockTrees.insertBlock]
    rcases cases h a isOwned with ⟨here, isNew⟩ | isOld
    · rcases cases k b isOther with ⟨there, _⟩ | otherOld
      · exact absurd (here.trans there.symm) different
      · rw [isNew, Function.update_self]
        exact (owning.apart_old nonempty apart otherOld).symm
    · rcases cases k b isOther with ⟨_, isNew⟩ | otherOld
      · rw [isNew, Function.update_self]
        exact owning.apart_old nonempty apart isOld
      · rw [owning.old_block nonempty apart isOld, owning.old_block nonempty apart otherOld]
        exact owning.apart h k different a isOld b otherOld

end Insert

theorem sweepBlocks (heap : Nat) (mem : Memory) (freeListHead : Nat) :
    (s.sweepBlocks heap mem freeListHead).Owning := by
  obtain ⟨new, kept, swept⟩ :=
    Heap.sweep_spec (s.tree heap) ⟨s.blocks, mem, freeListHead, 0⟩ (owning.ordered heap)
      (fun a member => owning.positive heap a ((owning.contents heap a).mp member))
  have limit := swept.limit
  have stays : ∀ h a, a ∈ (s.sweepBlocks heap mem freeListHead).owned h → a ∈ s.owned h := by
    intro h a isOwned
    by_cases here : h = heap
    · subst here
      simp only [BlockTrees.sweepBlocks, Function.update_self] at isOwned
      exact isOwned.1
    · simp only [BlockTrees.sweepBlocks, Function.update_of_ne here] at isOwned
      exact isOwned
  constructor
  · intro h
    by_cases here : h = heap
    · subst here
      simp only [BlockTrees.sweepBlocks, Function.update_self]
      rw [kept]
      exact ((owning.ordered h).sublist List.filter_sublist).congr fun a _ => limit a
    · simp only [BlockTrees.sweepBlocks, Function.update_of_ne here]
      exact (owning.ordered h).congr fun a _ => limit a
  · intro h a
    by_cases here : h = heap
    · subst here
      simp only [BlockTrees.sweepBlocks, Function.update_self]
      rw [kept, List.mem_filter, owning.contents]
      exact Iff.rfl
    · simp only [BlockTrees.sweepBlocks, Function.update_of_ne here]
      exact owning.contents h a
  · exact fun h a isOwned => owning.positive h a (stays h a isOwned)
  · intro h k different a isOwned b isOther
    dsimp only [BlockTrees.sweepBlocks]
    rw [limit a, limit b]
    exact owning.apart h k different a (stays h a isOwned) b (stays k b isOther)

/-- A merge moves all blocks of a heap to another one. -/
theorem mergeBlocks {this x : Nat} (different : this ≠ x) : (s.mergeBlocks this x).Owning := by
  have isOwned : ∀ h a, a ∈ (s.mergeBlocks this x).owned h →
      h ≠ x ∧ (a ∈ s.owned h ∨ (h = this ∧ a ∈ s.owned x)) := by
    intro h a member
    by_cases isOther : h = x
    · subst isOther
      simp only [BlockTrees.mergeBlocks, Function.update_self] at member
      exact absurd member (Set.notMem_empty a)
    · simp only [BlockTrees.mergeBlocks, Function.update_of_ne isOther] at member
      by_cases here : h = this
      · subst here
        rw [Function.update_self] at member
        exact ⟨isOther, member.imp_right fun moved => ⟨rfl, moved⟩⟩
      · rw [Function.update_of_ne here] at member
        exact ⟨isOther, Or.inl member⟩
  constructor
  · intro h
    by_cases isOther : h = x
    · subst isOther
      simp only [BlockTrees.mergeBlocks, Function.update_self]
      exact ⟨List.Pairwise.nil, fun a member => absurd member List.not_mem_nil⟩
    · simp only [BlockTrees.mergeBlocks, Function.update_of_ne isOther]
      by_cases here : h = this
      · subst here
        rw [Function.update_self]
        apply (owning.ordered h).merge (owning.ordered x)
        intro a memberA b memberB
        exact
          owning.apart h x different a ((owning.contents h a).mp memberA) b
            ((owning.contents x b).mp memberB)
      · rw [Function.update_of_ne here]
        exact owning.ordered h
  · intro h a
    by_cases isOther : h = x
    · subst isOther
      simp only [BlockTrees.mergeBlocks, Function.update_self]
      exact iff_of_false List.not_mem_nil (Set.notMem_empty a)
    · simp only [BlockTrees.mergeBlocks, Function.update_of_ne isOther]
      by_cases here : h = this
      · subst here
        rw [Function.update_self, Function.update_self, BlockTree.mem_inorder_merge,
          owning.contents, owning.contents, Set.mem_union]
      · rw [Function.update_of_ne here, Function.update_of_ne here]
        exact owning.contents h a
  · intro h a member
    rcases (isOwned h a member).2 with isOld | ⟨_, moved⟩
    · exact owning.positive h a isOld
    · exact owning.positive x a moved
  · intro h k apart a memberA b memberB
    obtain ⟨notOther, isA⟩ := isOwned h a memberA
    obtain ⟨otherNot, isB⟩ := isOwned k b memberB
    rcases isA with oldA | ⟨here, movedA⟩
    · rcases isB with oldB | ⟨there, movedB⟩
      · exact owning.apart h k apart a oldA b oldB
      · exact owning.apart h x notOther a oldA b movedB
    · rcases isB with oldB | ⟨there, movedB⟩
      · exact owning.apart x k (Ne.symm otherNot) a movedA b oldB
      · exact absurd (here.trans there.symm) apart

end Owning

theorem Reachable.owning {s : BlockTrees} (run : Reachable s) : s.Owning := by
  induction run with
  | start blocks =>
      refine ⟨?_, ?_, ?_, ?_⟩
      · exact fun h => ⟨List.Pairwise.nil, fun a member => absurd member List.not_mem_nil⟩
      · exact fun h a => iff_of_false List.not_mem_nil (Set.notMem_empty a)
      · exact fun h a member => absurd member (Set.notMem_empty a)
      · exact fun h k _ a member => absurd member (Set.notMem_empty a)
  | insert _ positive nonempty apart inductionHypothesis =>
      exact inductionHypothesis.insertBlock positive nonempty apart
  | assign _ same inductionHypothesis => exact inductionHypothesis.assign same
  | sweep _ inductionHypothesis => exact inductionHypothesis.sweepBlocks _ _ _
  | merge _ different inductionHypothesis => exact inductionHypothesis.mergeBlocks different

/-- What the tree of a heap is for. -/
structure Correct (s : BlockTrees) (heap : Nat) : Prop where
  searchTree : (s.tree heap).IsSearchTree
  contents : ∀ a, a ∈ (s.tree heap).inorder ↔ a ∈ s.owned heap
  once : (s.tree heap).inorder.Nodup
  found :
    ∀ address block, (s.tree heap).find s.blocks address = some block ↔
      block ∈ s.owned heap ∧ block ≤ address ∧ address < (s.blocks block).limit
  notFound :
    ∀ address, (s.tree heap).find s.blocks address = none ↔
      ∀ block ∈ s.owned heap, ¬ (block ≤ address ∧ address < (s.blocks block).limit)

/-- In every run the tree of each heap is a search tree of the blocks of the
heap, and `find` finds the block of an address. -/
theorem Reachable.tree_correct {s : BlockTrees} (run : Reachable s) (heap : Nat) : s.Correct heap := by
  have owning := run.owning
  have ordered := owning.ordered heap
  have found : ∀ address block, (s.tree heap).find s.blocks address = some block ↔
      block ∈ s.owned heap ∧ block ≤ address ∧ address < (s.blocks block).limit := by
    intro address block
    rw [BlockTree.find_eq_some_iff ordered, owning.contents]
  refine ⟨ordered.isSearchTree, owning.contents heap, ordered.nodup, found, ?_⟩
  intro address
  rw [Option.eq_none_iff_forall_ne_some]
  constructor
  · intro none block isOwned inside
    exact none block ((found address block).mpr ⟨isOwned, inside⟩)
  · intro none block isFound
    obtain ⟨isOwned, inside⟩ := (found address block).mp isFound
    exact none block isOwned inside

/-- A block without marks in one heap and a marked one in another heap; the
first heap is swept and takes over the second. -/
def sweptAndMerged : BlockTrees :=
  let none : BlockTrees := ⟨fun _ => .nil, fun _ => ⟨0, false, BitArray.empty⟩, fun _ => ∅⟩
  let one := none.insertBlock 1 64 ⟨128, false, BitArray.empty⟩
  let two := one.insertBlock 2 16 ⟨48, true, BitArray.empty⟩
  (two.sweepBlocks 1 (fun _ => 0) 0).mergeBlocks 1 2

theorem sweptAndMerged_reachable : Reachable sweptAndMerged := by
  apply Reachable.merge
  · apply Reachable.sweep
    apply Reachable.insert
    · apply Reachable.insert (Reachable.start _) (by decide) (by decide)
      exact fun h a member => absurd member (Set.notMem_empty a)
    · decide
    · decide
    · intro h a member
      have isBlock : a = 64 := by
        simp only [insertBlock] at member
        by_cases here : h = 1
        · subst here
          rw [Function.update_self] at member
          exact member.resolve_right (Set.notMem_empty a)
        · rw [Function.update_of_ne here] at member
          exact absurd member (Set.notMem_empty a)
      rw [isBlock]
      exact Or.inr (by decide)
  · decide

theorem tree_correct_sweptAndMerged : sweptAndMerged.Correct 1 :=
  sweptAndMerged_reachable.tree_correct 1

end BlockTrees

end Rcgo.Storage
