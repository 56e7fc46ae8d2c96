import Rcgo.Ownership.Calls

/-!
# Links hold heaps

Each heap that has a link has one, and the heaps form a forest whose roots are
the heaps of the instances and the heaps that are on their way.  The operations
on links keep this, where they put no heap below itself.
-/

namespace Rcgo.Ownership

open Rcgo.Composition Foundation Relation Storage Family

variable {ι : Type}

/-! ## Taking a heap from its parent, and giving it one -/

section Family

variable {f f' : Family} {children : Nat → List Nat} {c p : Nat}

theorem live_of_parentOf (isParent : f.parentOf c = some p) : f.Live c := by
  rw [live_iff_parentOf, isParent]
  rfl

theorem findLink_succ {depth : Nat} {link result : Link}
    (found : findLink c f depth link = .ok result) :
    findLink c f (depth + 1) link = .ok result := by
  induction depth generalizing link with
  | zero => cases found
  | succ depth inductionHypothesis =>
      rw [findLink] at found ⊢
      rcases Outcome.bind_eq_ok.mp found with ⟨child, isChild, found⟩
      refine Outcome.bind_eq_ok.mpr ⟨child, isChild, ?_⟩
      split at found
      next notHere =>
        rw [if_pos notHere]
        exact inductionHypothesis found
      next here =>
        rw [if_neg here]
        exact found

theorem removeFromParent_returns {depth : Nat} (run : f.removeFromParent depth c = .ok f') :
    Outcome.Returns (fun depth => f.removeFromParent depth c) f' := by
  refine ⟨depth, fun deeper enough => ?_⟩
  induction enough with
  | refl => exact run
  | @step deeper _ inductionHypothesis =>
      have shallower : f.removeFromParent deeper c = .ok f' := inductionHypothesis
      change f.removeFromParent (deeper + 1) c = .ok f'
      unfold removeFromParent at shallower ⊢
      rcases Outcome.bind_eq_ok.mp shallower with ⟨node, isNode, rest⟩
      refine Outcome.bind_eq_ok.mpr ⟨node, isNode, ?_⟩
      split at rest
      next hasParent =>
        rcases Outcome.bind_eq_ok.mp rest with ⟨link, found, rest⟩
        rw [if_pos hasParent]
        exact Outcome.bind_eq_ok.mpr ⟨link, findLink_succ found, rest⟩
      next noParent =>
        rw [if_neg noParent]
        exact rest

/-- What `remove_from_parent` and `insert_child` leave of the other heaps. -/
def SameParents (c : Nat) (f f' : Family) : Prop :=
  ∀ k, k ≠ c → f'.parentOf k = f.parentOf k

/-- After `remove_from_parent` the heap has no parent, and no list has become
longer. -/
theorem removed_linked (linked : Linked f children) {depth : Nat}
    (run : f.removeFromParent depth c = .ok f') :
    ∃ fewer, Linked f' fewer ∧ (∀ k, ∀ a ∈ fewer k, a ∈ children k) ∧
      f'.parentOf c = some 0 ∧ SameParents c f f' := by
  rcases Outcome.bind_eq_ok.mp run with ⟨node, gotNode, _⟩
  have isParent : f.parentOf c = some node.parent :=
    parentOf_eq_some.mpr ⟨node, get_eq_ok.mp gotNode, rfl⟩
  by_cases isRoot : node.parent = 0
  · rw [isRoot] at isParent
    have same := run.symm.trans (removeFromParent_root isParent depth)
    cases same
    exact ⟨children, linked, fun _ _ member => member, isParent, fun _ _ => rfl⟩
  · have member := mem_of_removeFromParent linked isParent isRoot run
    rcases removeFromParent_of_mem linked isParent member with ⟨_, before, after, returns, removed⟩
    cases Outcome.Returns.unique (removeFromParent_returns run) returns
    refine ⟨_, removed.linked, ?_, ?_, ?_⟩
    · intro k a isMember
      by_cases atParent : k = node.parent
      · rw [atParent, setChildren_same, List.mem_append] at isMember
        rw [atParent, removed.list, List.mem_append]
        exact isMember.imp_right (List.mem_cons_of_mem c)
      · rwa [setChildren_other _ _ atParent] at isMember
    · rw [removed.parentOf, if_pos rfl]
    · intro k different
      rw [removed.parentOf, if_neg different]

theorem inserted_linked (linked : Linked f children) (isRoot : f.parentOf c = some 0)
    (targetLive : f.Live p) (apart : ¬ Below children p c) (run : f.insertChild p c = .ok f') :
    Linked f' (addChild children p c) ∧ f'.Live c ∧ SameParents c f f' := by
  rcases parentOf_eq_some.mp isRoot with ⟨cn, isChild, _⟩
  rcases targetLive with ⟨pn, isTarget⟩
  rcases insertChild_spec linked isTarget isChild (linked.of_parentOf isRoot) apart with
    ⟨_, spec, linkedAfter, _, atChild, atTarget, elsewhere⟩
  cases run.symm.trans spec
  refine ⟨linkedAfter, ⟨_, atChild⟩, ?_⟩
  intro k different
  by_cases here : k = p
  · rw [here, parentOf, atTarget, parentOf, isTarget, Option.map_some, Option.map_some]
  · rw [parentOf, elsewhere k here different, parentOf]

theorem SameParents.live_iff (same : SameParents c f f') {k : Nat} (different : k ≠ c) :
    f'.Live k ↔ f.Live k := by
  rw [live_iff_parentOf, live_iff_parentOf, same k different]

end Family

/-! ## The invariant -/

/-- Every heap that has a link has one link, is no instance's own heap and has not
been deleted; the own heaps have no parents. -/
structure Held (own : ι → Nat) (s : LinkedHeaps) (children : Nat → List Nat) : Prop where
  linked : Linked s.family children
  live : ∀ hl, heapOf s.links hl ≠ 0 → s.family.Live (heapOf s.links hl)
  unique : ∀ hl other, heapOf s.links hl = heapOf s.links other → heapOf s.links hl ≠ 0 →
    hl = other
  ownRoot : ∀ i, s.family.parentOf (own i) = some 0
  notOwn : ∀ hl i, heapOf s.links hl ≠ own i

namespace Held

variable {own : ι → Nat} {s after : LinkedHeaps} {children : Nat → List Nat}

theorem own_ne_null (held : Held own s children) (i : ι) : own i ≠ 0 :=
  held.linked.ne_null (live_of_parentOf (held.ownRoot i))

theorem congr (held : Held own s children) (family : SameLinks s.family after.family)
    (same : ∀ hl, heapOf after.links hl = heapOf s.links hl) : Held own after children where
  linked := held.linked.congr family
  live hl notNull := by
    rw [same] at notNull ⊢
    exact family.live_iff.mpr (held.live hl notNull)
  unique hl other := by
    rw [same, same]
    exact held.unique hl other
  ownRoot i := by
    rw [family.parentOf]
    exact held.ownRoot i
  notOwn hl i := by
    rw [same]
    exact held.notOwn hl i

theorem change (held : Held own s children) {c : Nat} (hl : Nat) {lists : Nat → List Nat}
    (linked : Linked after.family lists) (parents : SameParents c s.family after.family)
    (notOwn : ∀ i, c ≠ own i)
    (holders : ∀ other, heapOf after.links other ≠ 0 →
      (heapOf after.links other = heapOf s.links other ∧ heapOf s.links other ≠ c) ∨
        (other = hl ∧ heapOf after.links other = c ∧ after.family.Live c)) :
    Held own after lists where
  linked := linked
  live other notNull := by
    rcases holders other notNull with ⟨same, different⟩ | ⟨_, isC, isLive⟩
    · rw [same] at notNull ⊢
      exact (parents.live_iff different).mpr (held.live other notNull)
    · rw [isC]
      exact isLive
  unique first second same notNull := by
    rcases holders first notNull with ⟨kept, different⟩ | ⟨isFirst, isC, _⟩ <;>
      rcases holders second (same ▸ notNull) with ⟨keptToo, differentToo⟩ | ⟨isSecond, isCToo, _⟩
    · rw [kept] at same notNull
      exact held.unique first second (same.trans keptToo) notNull
    · exact absurd (kept.symm.trans (same.trans isCToo)) different
    · exact absurd (keptToo.symm.trans (same.symm.trans isC)) differentToo
    · exact isFirst.trans isSecond.symm
  ownRoot i := by
    rw [parents (own i) (notOwn i).symm]
    exact held.ownRoot i
  notOwn other i := by
    intro isOwn
    rcases holders other (isOwn ▸ held.own_ne_null i) with ⟨same, _⟩ | ⟨_, isC, _⟩
    · exact held.notOwn other i (same.symm.trans isOwn)
    · exact notOwn i (isC.symm.trans isOwn)

theorem notLive_ne_own (held : Held own s children) {h : Nat} (notLive : ¬ s.family.Live h)
    (i : ι) : h ≠ own i := by
  rintro rfl
  exact notLive (live_of_parentOf (held.ownRoot i))

theorem not_below_of_not_live (held : Held own s children) {current h : Nat}
    (notLive : ¬ s.family.Live h) (targetLive : s.family.Live current) :
    ¬ Below children current h := by
  intro below
  rcases ReflTransGen.cases_tail below with isSame | ⟨child, _, member⟩
  · exact notLive (isSame ▸ targetLive)
  · exact notLive (held.linked.live h child member)

theorem newOp (held : Held own s children) {current h hl : Nat} {storage : Heap}
    (targetLive : s.family.Live current) (notNull : h ≠ 0) (notLive : ¬ s.family.Live h)
    (executes : s.newOp current h hl storage = .ok after) :
    ∃ lists, Held own after lists := by
  rcases LinkedHeaps.newOp_eq_ok executes with ⟨family, inserted, rfl⟩
  have different : current ≠ h := fun same => notLive (same ▸ targetLive)
  have isRoot : (s.family.make h storage).parentOf h = some 0 := by
    rw [Family.make, parentOf_set, if_pos rfl]
  have made : SameParents h s.family (s.family.make h storage) := by
    intro k notNew
    rw [Family.make, parentOf_set, if_neg notNew]
  rcases inserted_linked (held.linked.make storage notNull notLive) isRoot
    ((made.live_iff different).mpr targetLive) (held.not_below_of_not_live notLive targetLive)
    inserted with ⟨linked, isLive, parents⟩
  refine ⟨_, held.change hl linked (fun k notNew => (parents k notNew).trans (made k notNew))
    (held.notLive_ne_own notLive) fun other otherNotNull => ?_⟩
  rw [LinkedHeaps.makeHeapLink, heapOf_setLink] at otherNotNull ⊢
  by_cases isNew : other = hl
  · rw [if_pos isNew]
    exact Or.inr ⟨isNew, rfl, isLive⟩
  · rw [if_neg isNew] at otherNotNull ⊢
    exact Or.inl ⟨rfl, fun isH => notLive (isH ▸ held.live other otherNotNull)⟩

theorem taken (held : Held own s children) {hl depth : Nat} {link : HeapLink} {removed : Family}
    (isLink : s.links hl = some link) (notNull : link.heap ≠ 0)
    (run : s.family.removeFromParent depth link.heap = .ok removed) {current : Nat}
    (apart : ¬ Below children current link.heap) :
    (∃ fewer, Linked removed fewer ∧ ¬ Below fewer current link.heap) ∧
      removed.parentOf link.heap = some 0 ∧ SameParents link.heap s.family removed ∧
      (∀ i, link.heap ≠ own i) ∧ current ≠ link.heap ∧
      ∀ other, heapOf (s.setLink hl { link with heap := 0 }).links other ≠ 0 →
        heapOf (s.setLink hl { link with heap := 0 }).links other = heapOf s.links other ∧
          heapOf s.links other ≠ link.heap := by
  have here := System.heapOf_eq isLink
  rcases removed_linked held.linked run with ⟨fewer, linked, sub, isRoot, parents⟩
  refine ⟨⟨fewer, linked, fun below => apart (below.mono sub)⟩, isRoot, parents,
    fun i => here ▸ held.notOwn hl i, ?_, ?_⟩
  · rintro rfl
    exact apart ReflTransGen.refl
  · intro other otherNotNull
    rw [heapOf_setLink] at otherNotNull ⊢
    split at otherNotNull
    next => exact absurd rfl otherNotNull
    next different =>
      rw [if_neg different]
      exact ⟨rfl, fun same =>
        different (held.unique other hl (same.trans here.symm) (same ▸ notNull))⟩

theorem moveOp (held : Held own s children) {depth current hl new : Nat}
    {result : LinkedHeaps × Bool} (targetLive : s.family.Live current)
    (apart : ∀ link, s.links hl = some link → link.heap ≠ 0 → link.changeCount = 0 →
      ¬ Below children current link.heap)
    (executes : s.moveOp depth current hl new = .ok result) :
    ∃ lists, Held own result.1 lists := by
  rcases LinkedHeaps.moveOp_eq_ok executes with
    rfl | ⟨link, removed, family, isLink, notNull, noChange, run, inserted, rfl⟩
  · exact ⟨children, held⟩
  · rcases held.taken isLink notNull run (apart link isLink notNull noChange) with
      ⟨⟨fewer, linked, isApart⟩, isRoot, parents, notOwn, different, others⟩
    rcases inserted_linked linked isRoot ((parents.live_iff different).mpr targetLive) isApart
      inserted with ⟨linkedAfter, isLive, parentsAfter⟩
    refine ⟨_, held.change new linkedAfter
      (fun k notMoved => (parentsAfter k notMoved).trans (parents k notMoved)) notOwn
      fun other otherNotNull => ?_⟩
    rw [LinkedHeaps.makeHeapLink, heapOf_setLink] at otherNotNull ⊢
    by_cases isNew : other = new
    · rw [if_pos isNew]
      exact Or.inr ⟨isNew, rfl, isLive⟩
    · rw [if_neg isNew] at otherNotNull ⊢
      exact Or.inl (others other otherNotNull)

theorem mergeOp (held : Held own s children) {depth current hl : Nat}
    {result : LinkedHeaps × Bool}
    (apart : ∀ link, s.links hl = some link → link.heap ≠ 0 → link.changeCount = 0 →
      ¬ Below children current link.heap)
    (executes : s.mergeOp depth current hl = .ok result) :
    ∃ lists, Held own result.1 lists := by
  rcases LinkedHeaps.mergeOp_eq_ok executes with
    rfl | ⟨link, removed, family, isLink, notNull, noChange, run, isMerged, rfl⟩
  · exact ⟨children, held⟩
  · rcases held.taken isLink notNull run (apart link isLink notNull noChange) with
      ⟨⟨fewer, linked, isApart⟩, isRoot, parents, notOwn, _, others⟩
    have merged := merge_spec linked (linked.of_parentOf isRoot) isApart isMerged
    exact ⟨_, held.change hl merged.linked
      (fun k notMerged => (merged.parentOf k notMerged).trans (parents k notMerged)) notOwn
      fun other otherNotNull => Or.inl (others other otherNotNull)⟩

end Held

end Rcgo.Ownership
