import Rcgo.Storage.Deletion

/-!
# Collection and the child lists

A collection deletes some of the descendants of the heap, each with all of its
own descendants.
-/

namespace Rcgo.Storage

open Rcgo.Foundation Relation

namespace Family

variable {f f' : Family} {children : Nat → List Nat} {h c : Nat}

def prune (f : Family) (children : Nat → List Nat) (p : Nat) : List Nat :=
  (children p).filter fun c => (f.heaps c).isSome

theorem mem_prune {p : Nat} : c ∈ prune f children p ↔ c ∈ children p ∧ f.Live c := by
  unfold prune Live
  rw [List.mem_filter, Option.isSome_iff_exists]

theorem prune_eq {p : Nat} (allLive : ∀ c ∈ children p, f.Live c) :
    prune f children p = children p := by
  apply List.filter_eq_self.mpr
  intro c member
  exact Option.isSome_iff_exists.mpr (allLive c member)

theorem SameLinks.prune (same : SameLinks f f') : prune f' children = prune f children := by
  funext p
  apply List.filter_congr
  intro c _
  have here := congrArg Option.isSome (same c)
  rw [Option.isSome_map, Option.isSome_map] at here
  exact here

def Descendant (children : Nat → List Nat) : Nat → Nat → Prop :=
  TransGen (IsChild children)

theorem Descendant.below {a b : Nat} (descendant : Descendant children a b) : Below children a b :=
  descendant.to_reflTransGen

theorem Below.descendant {a : Nat} (below : Below children a c) (member : c ∈ children h) :
    Descendant children a h :=
  TransGen.tail' below member

/-- Deletions have shortened the child lists and changed no parent pointer. -/
structure Pruned (f : Family) (children : Nat → List Nat) (f' : Family) : Prop where
  linked : Linked f' (prune f' children)
  old : ∀ k, f'.Live k → f.Live k
  parentOf : ∀ k, f'.Live k → f'.parentOf k = f.parentOf k

theorem Pruned.refl (linked : Linked f children) : Pruned f children f := by
  have same : prune f children = children := by
    funext p
    exact prune_eq fun c member => linked.child_live member
  exact ⟨same.symm ▸ linked, fun _ => id, fun _ _ => rfl⟩

theorem Pruned.trans {f'' : Family} (first : Pruned f children f')
    (second : Pruned f' (prune f' children) f'') : Pruned f children f'' := by
  have same : prune f'' (prune f' children) = prune f'' children := by
    funext p
    unfold prune
    rw [List.filter_filter]
    apply List.filter_congr
    intro c _
    cases isNode : f''.heaps c with
    | none => rfl
    | some node =>
        obtain ⟨old, isOld⟩ := second.old c ⟨node, isNode⟩
        rw [isOld]
        rfl
  refine ⟨same ▸ second.linked, fun k isLive => first.old k (second.old k isLive), ?_⟩
  intro k isLive
  rw [second.parentOf k isLive, first.parentOf k (second.old k isLive)]

theorem Pruned.congr {f'' : Family} (pruned : Pruned f children f') (same : SameLinks f' f'') :
    Pruned f children f'' := by
  refine ⟨?_, ?_, ?_⟩
  · rw [same.prune]
    exact pruned.linked.congr same
  · intro k isLive
    exact pruned.old k (same.live_iff.mp isLive)
  · intro k isLive
    rw [same.parentOf, pruned.parentOf k (same.live_iff.mp isLive)]

def OnlyDescendants (f : Family) (children : Nat → List Nat) (h : Nat) (f' : Family) : Prop :=
  ∀ k, f.Live k → ¬ Descendant children k h → f'.Live k

def Collects (collect : Nat → Family → Outcome FamilyFault (Family × Bool)) : Prop :=
  ∀ f children c f' retval, Linked f children → collect c f = .ok (f', retval) →
    Pruned f children f' ∧ OnlyDescendants f children c f'

theorem Linked.siblings (linked : Linked f children) (member : c ∈ children h)
    (only : OnlyDescendants f children c f') : ∀ a ∈ children h, f'.Live a := by
  intro a sibling
  apply only a (linked.child_live sibling)
  intro descendant
  obtain ⟨p, inList, below⟩ := TransGen.head'_iff.mp descendant
  rw [linked.single p h a inList sibling] at below
  exact linked.not_below_of_child member below

theorem Linked.owner_live (linked : Linked f children) (only : OnlyDescendants f children h f')
    (isLive : f.Live h) : f'.Live h := by
  apply only h isLive
  intro descendant
  obtain ⟨p, member, below⟩ := TransGen.head'_iff.mp descendant
  exact linked.not_below_of_child member below

theorem OnlyDescendants.of_child (only : OnlyDescendants f children c f')
    (member : c ∈ children h) : OnlyDescendants f children h f' := by
  intro k isLive notDescendant
  apply only k isLive
  intro descendant
  exact notDescendant (descendant.below.descendant member)

theorem OnlyDescendants.trans {f'' : Family} (first : OnlyDescendants f children h f')
    (second : OnlyDescendants f' (prune f' children) h f'') :
    OnlyDescendants f children h f'' := by
  intro k isLive notDescendant
  apply second k (first k isLive notDescendant)
  intro descendant
  apply notDescendant
  exact TransGen.mono (fun a b member => (mem_prune.mp member).1) k h descendant

theorem OnlyDescendants.congr {f'' : Family} (only : OnlyDescendants f children h f')
    (same : SameLinks f' f'') : OnlyDescendants f children h f'' :=
  fun k isLive notDescendant => same.live_iff.mpr (only k isLive notDescendant)

/-! ## The loop over the children after a full collection -/

/-- A child that has been taken off the list and deleted. -/
theorem pruned_of_destroyed {f₁ : Family} {before after : List Nat} (linked : Linked f children)
    (isList : children h = before ++ c :: after) (ownerLive : f.Live h) (own : SameOwn f f₁)
    (linked₁ : Linked f₁ (setChildren children h (before ++ after)))
    (destroyed : Destroyed f₁ (setChildren children h (before ++ after)) c f') :
    Pruned f children f' ∧ OnlyDescendants f children h f' ∧
      prune f' children h = before ++ after := by
  have inList : c ∈ children h := by
    rw [isList]
    exact List.mem_append_right _ List.mem_cons_self
  have nodup := linked.nodup h
  rw [isList] at nodup
  have notThere : c ∉ before ++ after := by
    intro member
    exact (List.nodup_middle.mp nodup).notMem member
  have sub : ∀ k, ∀ a ∈ setChildren children h (before ++ after) k, a ∈ children k := by
    intro k a member
    by_cases atH : k = h
    · rw [atH, setChildren_same] at member
      rw [atH, isList]
      grind
    · rw [setChildren_other _ _ atH] at member
      exact member
  have root : Root (setChildren children h (before ++ after)) c := by
    intro k member
    by_cases atH : k = h
    · rw [atH, setChildren_same] at member
      exact notThere member
    · rw [setChildren_other _ _ atH] at member
      exact atH (linked.single k h c member inList)
  have only : OnlyDescendants f children h f' := by
    intro k isLive notDescendant
    obtain ⟨node, isNode⟩ := own.live_iff.mpr isLive
    rcases destroyed.others k with same | ⟨_, below⟩
    · exact ⟨node, same.trans isNode⟩
    · exact absurd ((below.mono sub).descendant inList) notDescendant
  have ownerAfter : f'.Live h := linked.owner_live only ownerLive
  have kept : prune f' children = keep f' (setChildren children h (before ++ after)) := by
    funext p
    by_cases atH : p = h
    · rw [atH, keep_of_live ownerAfter, setChildren_same, prune, isList, List.filter_append,
        List.filter_cons_of_neg (by rw [destroyed.deleted]; simp), ← List.filter_append]
      apply List.filter_eq_self.mpr
      intro a member
      rw [Option.isSome_iff_ne_none]
      intro isGone
      obtain ⟨node, isNode⟩ := ownerAfter
      have member' : a ∈ setChildren children h (before ++ after) h := by
        rw [setChildren_same]
        exact member
      rw [destroyed.parent linked₁ root member' isGone] at isNode
      cases isNode
    · have sameList : setChildren children h (before ++ after) p = children p :=
        setChildren_other _ _ atH
      cases isNode : f'.heaps p with
      | some node =>
          rw [keep_of_live ⟨node, isNode⟩, sameList]
          apply prune_eq
          intro a member
          cases isChild : f'.heaps a with
          | some child => exact ⟨child, isChild⟩
          | none =>
              rw [← sameList] at member
              rw [destroyed.parent linked₁ root member isChild] at isNode
              cases isNode
      | none =>
          rw [keep, isNode]
          apply List.filter_eq_nil_iff.mpr
          intro a member
          rw [← sameList] at member
          rw [destroyed.closed p isNode a member]
          simp
  refine ⟨⟨?_, ?_, ?_⟩, only, ?_⟩
  · rw [kept]
    exact destroyed.linked linked₁ root
  · rintro k ⟨node, isNode⟩
    rcases destroyed.others k with same | ⟨isGone, _⟩
    · exact own.live_iff.mp ⟨node, same ▸ isNode⟩
    · rw [isGone] at isNode
      cases isNode
  · rintro k ⟨node, isNode⟩
    rcases destroyed.others k with same | ⟨isGone, _⟩
    · rw [Family.parentOf, same, ← Family.parentOf, own.parentOf]
    · rw [isGone] at isNode
      cases isNode
  · rw [kept, keep_of_live ownerAfter, setChildren_same]

theorem keepReachable_spec {collect : Nat → Family → Outcome FamilyFault (Family × Bool)}
    {delete : Nat → Family → Outcome FamilyFault Family} (collects : Collects collect)
    (deletes : Deletes delete) (depth : Nat) :
    ∀ {f f' : Family} {children : Nat → List Nat} {done rest : List Nat}, Linked f children →
      f.Live h → children h = done ++ rest →
        keepReachable collect delete depth (linkBehind (.child h) done) f = .ok f' →
          Pruned f children f' ∧ OnlyDescendants f children h f' := by
  induction depth with
  | zero =>
      intro f f' children done rest _ _ _ run
      cases run
  | succ depth inductionHypothesis =>
      intro f f' children done rest linked ownerLive isList run
      obtain ⟨owner, isOwner⟩ := ownerLive
      have chain := linked.lists h owner isOwner
      rw [isList] at chain
      obtain ⟨middle, doneChain, restChain⟩ := Chain.append_iff.mp chain
      have read : f.read (.child h) = .ok owner.child := by
        simp only [Family.read, get_eq_ok.mpr isOwner, Outcome.ok_bind, Outcome.pure_eq]
      simp only [keepReachable, read_linkBehind read doneChain, Outcome.ok_bind] at run
      by_cases isEnd : middle = 0
      · simp only [isEnd, ne_eq, not_true_eq_false, if_false, Outcome.pure_eq,
          Outcome.ok.injEq] at run
        subst run
        exact ⟨Pruned.refl linked, fun k isLive _ => isLive⟩
      · obtain ⟨after, successor, isRest, _, _⟩ := restChain.exists_cons isEnd
        subst isRest
        simp only [ne_eq, isEnd, not_false_eq_true, if_true] at run
        obtain ⟨node, gotNode, run⟩ := Outcome.bind_eq_ok.mp run
        have isNode := get_eq_ok.mp gotNode
        have inList : middle ∈ children h := by
          rw [isList]
          exact List.mem_append_right _ List.mem_cons_self
        by_cases isReachable : node.reachable = true
        · -- the child is collected and kept
          rw [if_pos isReachable] at run
          obtain ⟨⟨f₁, collected⟩, collectRun, run⟩ := Outcome.bind_eq_ok.mp run
          obtain ⟨f₂, reset, run⟩ := Outcome.bind_eq_ok.mp run
          obtain ⟨pruned, only⟩ := collects f children middle f₁ collected linked collectRun
          have same : SameLinks f₁ f₂ := SameLinks.of_modify reset fun _ => rfl
          have pruned₂ := pruned.congr same
          have only₂ := (only.of_child inList).congr same
          have sameList : prune f₂ children h = (done ++ [middle]) ++ after := by
            rw [same.prune, prune_eq (linked.siblings inList only), isList, List.append_assoc,
              List.singleton_append]
          have ownerLive₂ := linked.owner_live only₂ ⟨owner, isOwner⟩
          have isLink : Link.next middle = linkBehind (.child h) (done ++ [middle]) :=
            (linkBehind_append_singleton done middle _).symm
          rw [isLink] at run
          obtain ⟨restPruned, restOnly⟩ :=
            inductionHypothesis pruned₂.linked ownerLive₂ sameList run
          exact ⟨pruned₂.trans restPruned, only₂.trans restOnly⟩
        · -- the child is deleted
          rw [if_neg isReachable] at run
          obtain ⟨f₁, written, run⟩ := Outcome.bind_eq_ok.mp run
          obtain ⟨f₂, deleted, run⟩ := Outcome.bind_eq_ok.mp run
          obtain ⟨_, unlinked, linked₁, own, _⟩ := linked.unlink done after isOwner isNode isList
          have sameWrite := written.symm.trans unlinked
          rw [Outcome.ok.injEq] at sameWrite
          rw [← sameWrite] at linked₁ own
          have nodup := linked.nodup h
          rw [isList] at nodup
          have root : Root (setChildren children h (done ++ after)) middle := by
            intro k member
            by_cases atH : k = h
            · rw [atH, setChildren_same] at member
              exact (List.nodup_middle.mp nodup).notMem member
            · rw [setChildren_other _ _ atH] at member
              exact atH (linked.single k h middle member inList)
          obtain ⟨pruned, only, sameList⟩ :=
            pruned_of_destroyed linked isList ⟨owner, isOwner⟩ own linked₁
              (deletes f₁ _ middle f₂ linked₁ root deleted)
          have ownerLive₂ := linked.owner_live only ⟨owner, isOwner⟩
          obtain ⟨restPruned, restOnly⟩ :=
            inductionHypothesis pruned.linked ownerLive₂ sameList run
          exact ⟨pruned.trans restPruned, only.trans restOnly⟩

/-! ## The other parts of a collection -/

/-- The loop that collects all children. -/
theorem collectChildren_spec {collect : Nat → Family → Outcome FamilyFault (Family × Bool)}
    (collects : Collects collect) (depth : Nat) :
    ∀ {f f' : Family} {children : Nat → List Nat} {done rest : List Nat} {child : Nat}
      {retval result : Bool}, Linked f children → f.Live h → children h = done ++ rest →
        Chain f.next child rest 0 →
          collectChildren collect depth child f retval = .ok (f', result) →
            Pruned f children f' ∧ OnlyDescendants f children h f' := by
  induction depth with
  | zero =>
      intro f f' children done rest child retval result _ _ _ _ run
      cases run
  | succ depth inductionHypothesis =>
      intro f f' children done rest child retval result linked ownerLive isList chain run
      rw [collectChildren] at run
      by_cases isEnd : child = 0
      · simp only [isEnd, ne_eq, not_true_eq_false, if_false, Outcome.pure_eq,
          Outcome.ok.injEq, Prod.mk.injEq] at run
        rw [← run.1]
        exact ⟨Pruned.refl linked, fun k isLive _ => isLive⟩
      · obtain ⟨after, successor, isRest, _, _⟩ := chain.exists_cons isEnd
        subst isRest
        simp only [ne_eq, isEnd, not_false_eq_true, if_true] at run
        obtain ⟨⟨f₁, collected⟩, collectRun, run⟩ := Outcome.bind_eq_ok.mp run
        obtain ⟨node, gotNode, run⟩ := Outcome.bind_eq_ok.mp run
        have inList : child ∈ children h := by
          rw [isList]
          exact List.mem_append_right _ List.mem_cons_self
        obtain ⟨pruned, childOnly⟩ := collects f children child f₁ collected linked collectRun
        have only := childOnly.of_child inList
        have sameList : prune f₁ children h = (done ++ [child]) ++ after := by
          rw [prune_eq (linked.siblings inList childOnly), isList, List.append_assoc,
            List.singleton_append]
        have ownerLive₁ := linked.owner_live only ownerLive
        -- the next child is read from the list as it is now
        obtain ⟨owner, isOwner⟩ := ownerLive₁
        have newChain := pruned.linked.lists h owner isOwner
        rw [sameList] at newChain
        obtain ⟨middle, doneChain, afterChain⟩ := Chain.append_iff.mp newChain
        obtain ⟨_, _, isChild, next, isNext, isMiddle⟩ := Chain.append_iff.mp doneChain
        have atEnd : next = middle := isMiddle
        obtain ⟨other, isOther, isSuccessor⟩ := next_eq_some.mp isNext
        rw [get_eq_ok.mp gotNode, Option.some.injEq] at isOther
        rw [← isOther] at isSuccessor
        rw [← atEnd, ← isSuccessor] at afterChain
        obtain ⟨restPruned, restOnly⟩ :=
          inductionHypothesis pruned.linked ⟨owner, isOwner⟩ sameList afterChain run
        exact ⟨pruned.trans restPruned, only.trans restOnly⟩

theorem setReachable_links : ∀ (list : List Nat) {f f' : Family},
    f.setReachable list = .ok f' → SameLinks f f'
  | [], f, f', run => by
      rw [setReachable, Outcome.pure_eq, Outcome.ok.injEq] at run
      rw [run]
      exact SameLinks.refl f'
  | c :: rest, f, f', run => by
      rw [setReachable] at run
      obtain ⟨f₁, first, run⟩ := Outcome.bind_eq_ok.mp run
      exact (SameLinks.of_modify first fun _ => rfl).trans (setReachable_links rest run)

theorem collectStorage_links {depth : Nat} (run : f.collectStorage depth h = .ok f') :
    SameLinks f f' ∧ f.Live h := by
  rw [collectStorage] at run
  obtain ⟨node, isNode, run⟩ := Outcome.bind_eq_ok.mp run
  obtain ⟨list, _, run⟩ := Outcome.bind_eq_ok.mp run
  obtain ⟨marked, _, run⟩ := Outcome.bind_eq_ok.mp run
  obtain ⟨f₁, flags, run⟩ := Outcome.bind_eq_ok.mp run
  obtain ⟨f₂, swept, run⟩ := Outcome.bind_eq_ok.mp run
  rw [Outcome.pure_eq, Outcome.ok.injEq] at run
  have same := (setReachable_links _ flags).trans (SameLinks.of_modify swept fun _ => rfl)
  rw [← run]
  exact ⟨same, node, get_eq_ok.mp isNode⟩

theorem collectGarbage_spec : ∀ (depth : Nat) (force : Bool), Collects (collectGarbage depth force)
  | 0, _ => by
      intro f children c f' retval _ run
      cases run
  | depth + 1, force => by
      intro f children c f' retval linked run
      have collects := collectGarbage_spec depth false
      rw [collectGarbage] at run
      obtain ⟨node, gotNode, run⟩ := Outcome.bind_eq_ok.mp run
      have isNode := get_eq_ok.mp gotNode
      by_cases isDue : force ∨ node.storage.allocatedSize > node.storage.nextCollectionSize
      · rw [if_pos isDue] at run
        obtain ⟨f₁, stored, run⟩ := Outcome.bind_eq_ok.mp run
        obtain ⟨f₂, kept, run⟩ := Outcome.bind_eq_ok.mp run
        rw [Outcome.pure_eq, Outcome.ok.injEq, Prod.mk.injEq] at run
        rw [run.1] at kept
        have same := (collectStorage_links stored).1
        have isLive : f.Live c := ⟨node, isNode⟩
        obtain ⟨pruned, only⟩ :=
          keepReachable_spec collects (destroy_deletes depth) depth (linked.congr same)
            (same.live_iff.mpr isLive) (List.nil_append _).symm kept
        refine ⟨⟨pruned.linked, ?_, ?_⟩, ?_⟩
        · intro k isLive
          exact same.live_iff.mp (pruned.old k isLive)
        · intro k isLive
          rw [pruned.parentOf k isLive, same.parentOf]
        · intro k isLive notDescendant
          exact only k (same.live_iff.mpr isLive) notDescendant
      · rw [if_neg isDue] at run
        exact
          collectChildren_spec collects depth linked ⟨node, isNode⟩ (List.nil_append _).symm
            (linked.lists c node isNode) run

end Family

end Rcgo.Storage
