import Rcgo.Storage.Pruning

/-!
# Parents and children

A heap records its parent, and its parent lists it as a child.  The two agree
in every run in which only heaps without children are merged: `merge` moves the
children of a heap and leaves their parent pointers as they are.
-/

namespace Rcgo.Storage

open Rcgo.Foundation Relation

namespace Family

def ChildList (f : Family) (h : Nat) (list : List Nat) : Prop :=
  ∃ node, f.heaps h = some node ∧ Chain f.next node.child list 0

/-- The first heap is the second one or comes after it on child lists. -/
def Descends (f : Family) : Nat → Nat → Prop :=
  ReflTransGen fun c h => ∃ list, f.ChildList h list ∧ c ∈ list

/-- Child lists and parent pointers describe one forest of the heaps that have
not been deleted. -/
structure Consistent (f : Family) : Prop where
  null : ¬ f.Live 0
  listed :
    ∀ h, f.Live h →
      ∃ list, f.ChildList h list ∧ list.Nodup ∧ ∀ c, c ∈ list ↔ f.parentOf c = some h
  parentLive : ∀ c h, f.parentOf c = some h → h ≠ 0 → f.Live h
  forest : Ranked fun c h => h ≠ 0 ∧ f.parentOf c = some h

/-- The loop of `remove_from_parent` ends at the heap, for every heap with a
parent. -/
def SearchesEnd (f : Family) : Prop :=
  ∀ c p, f.parentOf c = some p → p ≠ 0 →
    ∃ link, Outcome.Returns (fun depth => findLink c f depth (.child p)) link ∧
      f.read link = .ok c

/-! ## Runs -/

/-- What happens to the heaps of a program. -/
inductive Operation where
  /-- a constructor -/
  | make (this : Nat)
  /-- allocations and stores -/
  | use
  | insertChild (this child : Nat)
  | removeFromParent (this : Nat)
  | merge (this x : Nat)
  | collectGarbage (this : Nat)

/-- The operations, as the program performs them: a heap is inserted or merged
only while it has no parent, and not into itself or a descendant. -/
inductive Step (f : Family) : Operation → Family → Prop
  | make {this storage} : this ≠ 0 → ¬ f.Live this → Step f (.make this) (f.make this storage)
  | use {f'} : SameLinks f f' → Step f .use f'
  | insertChild {this child f'} :
      f.parentOf child = some 0 → ¬ f.Descends this child →
        Family.insertChild this child f = .ok f' → Step f (.insertChild this child) f'
  | removeFromParent {this f'} :
      Outcome.Returns (fun depth => Family.removeFromParent depth this f) f' →
        Step f (.removeFromParent this) f'
  | merge {this x f'} :
      f.parentOf x = some 0 → ¬ f.Descends this x →
        Outcome.Returns (fun depth => Family.merge depth this x f) f' → Step f (.merge this x) f'
  | collectGarbage {this force f' retval} :
      Outcome.Returns (fun depth => Family.collectGarbage depth force this f) (f', retval) →
        Step f (.collectGarbage this) f'

def empty (memory : Memory) : Family :=
  ⟨fun _ => none, memory⟩

/-- A run with its operations and the states before them, the last one first. -/
inductive Run : List (Family × Operation) → Family → Prop
  | start {memory} : Run [] (empty memory)
  | step {history f operation f'} :
      Run history f → Step f operation f' → Run ((f, operation) :: history) f'

def states (history : List (Family × Operation)) (f : Family) : List Family :=
  f :: history.map Prod.fst

def MergesChildless (history : List (Family × Operation)) : Prop :=
  ∀ entry ∈ history, ∀ this x, entry.2 = .merge this x → entry.1.ChildList x []

/-! ## The invariant -/

/-- The child lists are these, and the parent pointers agree with them. -/
structure Described (f : Family) (children : Nat → List Nat) : Prop where
  linked : Linked f children
  parents : ∀ c p, p ≠ 0 → (f.parentOf c = some p ↔ c ∈ children p)

variable {f f' : Family} {children : Nat → List Nat}

theorem Linked.childList_iff (linked : Linked f children) {h : Nat} {list : List Nat} :
    f.ChildList h list ↔ f.Live h ∧ list = children h := by
  constructor
  · intro ⟨node, isNode, chain⟩
    exact ⟨⟨node, isNode⟩, chain.unique linked.next_null (linked.lists h node isNode)⟩
  · intro ⟨⟨node, isNode⟩, isList⟩
    exact ⟨node, isNode, isList ▸ linked.lists h node isNode⟩

theorem Linked.descends_iff (linked : Linked f children) {a b : Nat} :
    f.Descends a b ↔ Below children a b := by
  have same : (fun c h => ∃ list, f.ChildList h list ∧ c ∈ list) = IsChild children := by
    funext c h
    rw [eq_iff_iff]
    constructor
    · intro ⟨list, isList, member⟩
      rw [(linked.childList_iff.mp isList).2] at member
      exact member
    · intro member
      exact ⟨children h, linked.childList_iff.mpr ⟨linked.live h c member, rfl⟩, member⟩
  rw [Descends, same, Below]

theorem Described.consistent (described : Described f children) : f.Consistent := by
  obtain ⟨linked, parents⟩ := described
  refine ⟨?_, ?_, ?_, ?_⟩
  · intro isLive
    exact linked.ne_null isLive rfl
  · intro h isLive
    refine ⟨children h, linked.childList_iff.mpr ⟨isLive, rfl⟩, linked.nodup h, ?_⟩
    intro c
    exact (parents c h (linked.ne_null isLive)).symm
  · intro c h isParent notNull
    exact linked.live h c ((parents c h notNull).mp isParent)
  · apply linked.ranked.mono
    intro c h isParent
    exact (parents c h isParent.1).mp isParent.2

theorem Described.searchesEnd (described : Described f children) : f.SearchesEnd := by
  intro c p isParent notNull
  obtain ⟨linked, parents⟩ := described
  have member := (parents c p notNull).mp isParent
  obtain ⟨node, isNode⟩ := linked.live p c member
  obtain ⟨before, after, isList, notBefore⟩ := List.eq_append_cons_of_mem member
  have chain := linked.lists p node isNode
  rw [isList] at chain
  have read : f.read (.child p) = .ok node.child := by
    simp only [Family.read, get_eq_ok.mpr isNode, Outcome.ok_bind, Outcome.pure_eq]
  obtain ⟨middle, beforeChain, isMiddle, _⟩ := Chain.append_iff.mp chain
  refine ⟨linkBehind (.child p) before, ⟨before.length + 1, ?_⟩, ?_⟩
  · intro depth deep
    exact findLink_of_mem read chain notBefore deep
  · rw [read_linkBehind read beforeChain, isMiddle]

/-! ## The operations keep the invariant -/

theorem Linked.make (linked : Linked f children) {this : Nat} (storage : Heap) (notNull : this ≠ 0)
    (notLive : ¬ f.Live this) : Linked (f.make this storage) children := by
  have noChildren : children this = [] := by
    apply List.eq_nil_iff_forall_not_mem.mpr
    intro c member
    exact notLive (linked.live this c member)
  have notChild : ∀ h, this ∉ children h := fun h member => notLive (linked.child_live member)
  have keeps : ∀ h, f.Live h → (f.make this storage).heaps h = f.heaps h := by
    intro h isLive
    exact set_other _ _ fun same => notLive (same ▸ isLive)
  refine ⟨?_, ?_, ?_, linked.nodup, linked.single, ?_, linked.ranked⟩
  · rw [Family.make, set_other _ _ (Ne.symm notNull)]
    exact linked.null
  · intro h node isNode
    by_cases isNew : h = this
    · rw [isNew, Family.make, set_same, Option.some.injEq] at isNode
      rw [isNew, noChildren, ← isNode]
      rfl
    · rw [Family.make, set_other _ _ isNew] at isNode
      apply (linked.lists h node isNode).congr
      intro c member
      rw [next, keeps c (linked.child_live member), next]
  · intro h c member
    obtain ⟨node, isNode⟩ := linked.live h c member
    exact ⟨node, (keeps h ⟨node, isNode⟩).trans isNode⟩
  · intro h c member node isNode
    rw [keeps c (linked.child_live member)] at isNode
    exact linked.parented h c member node isNode

namespace Described

theorem make (described : Described f children) {this : Nat} (storage : Heap)
    (notNull : this ≠ 0) (notLive : ¬ f.Live this) :
    Described (f.make this storage) children := by
  refine ⟨described.linked.make storage notNull notLive, ?_⟩
  intro c p parentNotNull
  rw [Family.make, parentOf_set]
  by_cases isNew : c = this
  · rw [if_pos isNew, isNew, Option.some.injEq]
    constructor
    · intro isNull
      exact absurd isNull.symm parentNotNull
    · intro member
      exact absurd (described.linked.child_live member) notLive
  · rw [if_neg isNew]
    exact described.parents c p parentNotNull

theorem congr (described : Described f children) (same : SameLinks f f') :
    Described f' children := by
  refine ⟨described.linked.congr same, ?_⟩
  intro c p notNull
  rw [same.parentOf]
  exact described.parents c p notNull

theorem insertChild (described : Described f children) {this child : Nat}
    (isRoot : f.parentOf child = some 0) (apart : ¬ f.Descends this child)
    (run : Family.insertChild this child f = .ok f') :
    Described f' (addChild children this child) := by
  obtain ⟨linked, parents⟩ := described
  obtain ⟨cn, isChild, _⟩ := parentOf_eq_some.mp isRoot
  rw [linked.descends_iff] at apart
  have different : this ≠ child := fun same => apart (same ▸ ReflTransGen.refl)
  obtain ⟨pn, isParent⟩ : f.Live this := by
    simp only [Family.insertChild, modify_of isChild, Outcome.ok_bind] at run
    obtain ⟨pn, gotParent, _⟩ := Outcome.bind_eq_ok.mp run
    rw [get_eq_ok, set_other _ _ different] at gotParent
    exact ⟨pn, gotParent⟩
  have thisNotNull : this ≠ 0 := linked.ne_null ⟨pn, isParent⟩
  obtain ⟨_, spec, linkedAfter, _, atChild, atParent, elsewhere⟩ :=
    insertChild_spec linked isParent isChild (linked.of_parentOf isRoot) apart
  rw [run, Outcome.ok.injEq] at spec
  rw [← spec] at linkedAfter atChild atParent elsewhere
  refine ⟨linkedAfter, ?_⟩
  intro c p notNull
  rw [mem_addChild, ← parents c p notNull]
  by_cases isNew : c = child
  · rw [isNew, isRoot, parentOf, atChild, Option.map_some, Option.some.injEq, Option.some.injEq]
    grind
  · have sameParent : f'.parentOf c = f.parentOf c := by
      by_cases atThis : c = this
      · rw [atThis, parentOf, atParent, parentOf, isParent, Option.map_some, Option.map_some]
      · rw [parentOf, elsewhere c atThis isNew, parentOf]
    rw [sameParent]
    grind

theorem removeFromParent (described : Described f children) {this : Nat}
    (run : Outcome.Returns (fun depth => Family.removeFromParent depth this f) f') :
    ∃ children', Described f' children' := by
  obtain ⟨linked, parents⟩ := described
  obtain ⟨bound, returns⟩ := run
  have isLive : f.Live this := by
    have here := returns bound le_rfl
    obtain ⟨node, isNode, _⟩ := Outcome.bind_eq_ok.mp here
    exact ⟨node, get_eq_ok.mp isNode⟩
  obtain ⟨node, isNode⟩ := isLive
  have isParent : f.parentOf this = some node.parent := parentOf_eq_some.mpr ⟨node, isNode, rfl⟩
  by_cases isRoot : node.parent = 0
  · rw [isRoot] at isParent
    have same := (returns bound le_rfl).symm.trans (removeFromParent_root isParent bound)
    rw [Outcome.ok.injEq] at same
    rw [same]
    exact ⟨children, linked, parents⟩
  · have member := (parents this node.parent isRoot).mp isParent
    obtain ⟨_, before, after, specReturns, removed⟩ :=
      removeFromParent_of_mem linked isParent member
    have same := Outcome.Returns.unique ⟨bound, returns⟩ specReturns
    rw [← same] at removed
    have nodup := linked.nodup node.parent
    rw [removed.list] at nodup
    refine ⟨_, removed.linked, ?_⟩
    intro c p notNull
    rw [removed.parentOf]
    by_cases isThis : c = this
    · rw [if_pos isThis, isThis, Option.some.injEq]
      constructor
      · intro isNull
        exact absurd isNull.symm notNull
      · intro stillMember
        by_cases atParent : p = node.parent
        · rw [atParent, setChildren_same] at stillMember
          exact absurd stillMember (List.nodup_middle.mp nodup).notMem
        · rw [setChildren_other _ _ atParent] at stillMember
          exact absurd (linked.single p node.parent this stillMember member) atParent
    · rw [if_neg isThis, parents c p notNull]
      by_cases atParent : p = node.parent
      · rw [atParent, setChildren_same, removed.list]
        grind
      · rw [setChildren_other _ _ atParent]

theorem merge (described : Described f children) {this x depth : Nat}
    (isRoot : f.parentOf x = some 0) (apart : ¬ f.Descends this x) (childless : f.ChildList x [])
    (run : Family.merge depth this x f = .ok f') :
    Described f' (mergeChildren children this x) := by
  obtain ⟨linked, parents⟩ := described
  rw [linked.descends_iff] at apart
  have different : this ≠ x := fun same => apart (same ▸ ReflTransGen.refl)
  have noChildren : children x = [] := (linked.childList_iff.mp childless).2.symm
  have root := linked.of_parentOf isRoot
  have merged := merge_spec linked root apart run
  refine ⟨merged.linked, ?_⟩
  intro c p notNull
  rw [mem_mergeChildren different, noChildren]
  by_cases isSource : c = x
  · rw [isSource, parentOf, merged.deleted, Option.map_none]
    have notMember := root p
    grind
  · rw [merged.parentOf c isSource, parents c p notNull]
    constructor
    · intro member
      refine Or.inl ⟨?_, member⟩
      intro atSource
      rw [atSource, noChildren] at member
      exact absurd member List.not_mem_nil
    · grind

theorem collectGarbage (described : Described f children) {depth this : Nat} {force retval : Bool}
    (run : Family.collectGarbage depth force this f = .ok (f', retval)) :
    Described f' (prune f' children) := by
  obtain ⟨linked, parents⟩ := described
  obtain ⟨pruned, _⟩ := collectGarbage_spec depth force f children this f' retval linked run
  refine ⟨pruned.linked, ?_⟩
  intro c p notNull
  rw [mem_prune, ← parents c p notNull]
  by_cases isLive : f'.Live c
  · rw [pruned.parentOf c isLive]
    exact (and_iff_left isLive).symm
  · constructor
    · intro isParent
      obtain ⟨node, isNode, _⟩ := parentOf_eq_some.mp isParent
      exact absurd ⟨node, isNode⟩ isLive
    · intro both
      exact absurd both.2 isLive

end Described

theorem Step.described {operation : Operation} (step : Step f operation f')
    (childless : ∀ this x, operation = .merge this x → f.ChildList x [])
    (described : Described f children) : ∃ children', Described f' children' := by
  cases step with
  | make notNull notLive => exact ⟨children, described.make _ notNull notLive⟩
  | use same => exact ⟨children, described.congr same⟩
  | insertChild isRoot apart run => exact ⟨_, described.insertChild isRoot apart run⟩
  | removeFromParent run => exact described.removeFromParent run
  | @merge this x _ isRoot apart run =>
      obtain ⟨bound, returns⟩ := run
      exact ⟨_, described.merge isRoot apart (childless this x rfl) (returns bound le_rfl)⟩
  | collectGarbage run =>
      obtain ⟨bound, returns⟩ := run
      exact ⟨_, described.collectGarbage (returns bound le_rfl)⟩

theorem Run.described {history : List (Family × Operation)} {f : Family} (run : Run history f)
    (childless : MergesChildless history) : ∃ children, Described f children := by
  induction run with
  | start =>
      have nothing : ∀ c p, c ∈ (fun _ : Nat => ([] : List Nat)) p → False :=
        fun c p member => absurd member List.not_mem_nil
      refine ⟨fun _ => [], ⟨rfl, ?_, ?_, fun _ => List.nodup_nil, ?_, ?_, fun _ => 0, ?_⟩, ?_⟩
      · intro h node isNode
        cases isNode
      · exact fun h c member => (nothing c h member).elim
      · exact fun h k c member => (nothing c h member).elim
      · exact fun h c member => (nothing c h member).elim
      · exact fun a b member => (nothing a b member).elim
      · intro c p _
        constructor
        · intro isParent
          cases isParent
        · intro member
          exact (nothing c p member).elim
  | @step history f operation f' _ step inductionHypothesis =>
      obtain ⟨children, described⟩ :=
        inductionHypothesis fun entry member => childless entry (List.mem_cons_of_mem _ member)
      exact step.described (childless (f, operation) List.mem_cons_self) described

theorem Described.not_consistent_merge (described : Described f children) {this x depth : Nat}
    (isRoot : f.parentOf x = some 0) (apart : ¬ f.Descends this x)
    (hasChildren : ¬ f.ChildList x []) (run : Family.merge depth this x f = .ok f') :
    ¬ f'.Consistent := by
  obtain ⟨linked, parents⟩ := described
  rw [linked.descends_iff] at apart
  have merged := merge_spec linked (linked.of_parentOf isRoot) apart run
  have isLive : f.Live x := by
    obtain ⟨node, isNode, _⟩ := parentOf_eq_some.mp isRoot
    exact ⟨node, isNode⟩
  cases isList : children x with
  | nil => exact absurd (linked.childList_iff.mpr ⟨isLive, isList.symm⟩) hasChildren
  | cons c rest =>
      have member : c ∈ children x := by
        rw [isList]
        exact List.mem_cons_self
      have notSource : c ≠ x :=
        fun same => linked.not_below_of_child member (same ▸ ReflTransGen.refl)
      have stale : f'.parentOf c = some x := by
        rw [merged.parentOf c notSource]
        exact (parents c x (linked.ne_null isLive)).mpr member
      intro consistent
      obtain ⟨node, isNode⟩ := consistent.parentLive c x stale (linked.ne_null isLive)
      rw [merged.deleted] at isNode
      cases isNode

/-- The states of a run are consistent, and the searches in them end, exactly
when no heap with children has been merged. -/
theorem consistent_iff_mergesChildless {history : List (Family × Operation)} {f : Family}
    (run : Run history f) :
    (∀ g ∈ states history f, g.Consistent ∧ g.SearchesEnd) ↔ MergesChildless history := by
  induction run with
  | start =>
      constructor
      · intro _ entry member
        exact absurd member List.not_mem_nil
      · intro childless g member
        obtain ⟨children, described⟩ := Run.start.described childless
        rw [List.mem_singleton.mp member]
        exact ⟨described.consistent, described.searchesEnd⟩
  | @step history f operation f' run step inductionHypothesis =>
      have tail : states ((f, operation) :: history) f' = f' :: states history f := rfl
      rw [tail, List.forall_mem_cons]
      constructor
      · intro ⟨last, earlier⟩
        have childless := inductionHypothesis.mp earlier
        obtain ⟨children, described⟩ := run.described childless
        intro entry member
        rcases List.mem_cons.mp member with isLast | isEarlier
        · intro this x isMerge
          rw [isLast] at isMerge ⊢
          subst isMerge
          by_contra hasChildren
          cases step with
          | merge isRoot apart returns =>
              obtain ⟨bound, returns⟩ := returns
              exact
                described.not_consistent_merge isRoot apart hasChildren (returns bound le_rfl)
                  last.1
        · exact childless entry isEarlier
      · intro childless
        have earlier : MergesChildless history :=
          fun entry member => childless entry (List.mem_cons_of_mem _ member)
        obtain ⟨children, described⟩ := (Run.step run step).described childless
        exact
          ⟨⟨described.consistent, described.searchesEnd⟩, inductionHypothesis.mpr earlier⟩

/-! ## A stale parent -/

theorem Linked.not_descends (linked : Linked f children) {a h : Nat} {list : List Nat}
    (isList : f.ChildList h list) (different : a ≠ h) (apart : ∀ c ∈ list, ¬ f.Descends a c) :
    ¬ f.Descends a h := by
  intro descends
  rcases ReflTransGen.cases_tail descends with isSame | ⟨c, path, other, isOther, member⟩
  · exact different isSame.symm
  · have same : other = list :=
      (linked.childList_iff.mp isOther).2.trans (linked.childList_iff.mp isList).2.symm
    exact apart c (same ▸ member) path

def threeHeaps : Family :=
  (((empty fun _ => 0).make 16 (Heap.external 0 0)).make 32 (Heap.external 0 0)).make 48
    (Heap.external 0 0)

def childOfSecond : Family :=
  (insertChild 32 48 threeHeaps).getD threeHeaps

/-- The second heap, with its child, has been merged into the first one. -/
def mergedParent : Family :=
  (merge 3 16 32 childOfSecond).getD childOfSecond

/-- The second heap of three has been merged into the first one. -/
def mergedSecond : Family :=
  (merge 3 16 32 threeHeaps).getD threeHeaps

private theorem threeHeaps_run :
    ∃ history, Run history threeHeaps ∧ ∀ entry ∈ history, ∀ this x, entry.2 ≠ .merge this x := by
  have notLive : ∀ f : Family, ∀ h, f.heaps h = none → ¬ f.Live h := by
    intro f h isNone ⟨node, isNode⟩
    rw [isNone] at isNode
    cases isNode
  refine ⟨_, Run.step (Run.step (Run.step Run.start
    (Step.make (by decide) (notLive _ _ rfl))) (Step.make (by decide) (notLive _ _ rfl)))
    (Step.make (by decide) (notLive _ _ rfl)), ?_⟩
  simp

private theorem threeHeaps_linked : ∃ children, Linked threeHeaps children := by
  obtain ⟨history, run, noMerge⟩ := threeHeaps_run
  obtain ⟨children, described⟩ :=
    run.described fun entry member this x isMerge => absurd isMerge (noMerge entry member this x)
  exact ⟨children, described.linked⟩

private theorem threeHeaps_childless (h : Nat) (isHeap : h = 16 ∨ h = 32 ∨ h = 48) :
    threeHeaps.ChildList h [] := by
  rcases isHeap with rfl | rfl | rfl
  all_goals exact ⟨_, rfl, rfl⟩

private theorem childOfSecond_step :
    Step threeHeaps (.insertChild 32 48) childOfSecond := by
  obtain ⟨children, linked⟩ := threeHeaps_linked
  apply Step.insertChild
  · rfl
  · exact
      linked.not_descends (threeHeaps_childless 48 (by decide)) (by decide) fun c member =>
        absurd member List.not_mem_nil
  · rfl

theorem consistent_iff_mergesChildless_mergedSecond :
    ∃ history,
      (∀ g ∈ states history mergedSecond, g.Consistent ∧ g.SearchesEnd) ↔
        MergesChildless history := by
  obtain ⟨history, run, _⟩ := threeHeaps_run
  obtain ⟨children, linked⟩ := threeHeaps_linked
  refine ⟨(threeHeaps, .merge 16 32) :: history,
    consistent_iff_mergesChildless (Run.step run (Step.merge rfl ?_ ⟨3, ?_⟩))⟩
  · exact
      linked.not_descends (threeHeaps_childless 32 (by decide)) (by decide) fun c member =>
        absurd member List.not_mem_nil
  · intro depth deep
    obtain ⟨k, rfl⟩ := Nat.exists_eq_add_of_le' deep
    rfl

/-- After a merge of a heap with a child the parent pointer of the child refers
to the deleted heap, and `remove_from_parent` fails on the child. -/
theorem mergedParent_not_consistent :
    (∃ history, Run history mergedParent) ∧ ¬ mergedParent.Consistent ∧
      ∀ depth, removeFromParent (depth + 1) 48 mergedParent = .error .dangling := by
  obtain ⟨history, run, noMerge⟩ := threeHeaps_run
  have inserted := Run.step run childOfSecond_step
  obtain ⟨children, described⟩ := inserted.described (by
    intro entry member this x isMerge
    rcases List.mem_cons.mp member with isLast | isEarlier
    · rw [isLast] at isMerge
      cases isMerge
    · exact absurd isMerge (noMerge entry isEarlier this x))
  have thirdList : childOfSecond.ChildList 48 [] := ⟨_, rfl, rfl⟩
  have secondList : childOfSecond.ChildList 32 [48] := ⟨_, rfl, rfl, 0, rfl, rfl⟩
  have apart : ¬ childOfSecond.Descends 16 32 := by
    apply described.linked.not_descends secondList (by decide)
    intro c member
    rw [List.mem_singleton.mp member]
    exact
      described.linked.not_descends thirdList (by decide) fun c member =>
        absurd member List.not_mem_nil
  refine ⟨⟨_, Run.step inserted (Step.merge rfl apart ⟨3, ?_⟩)⟩, ?_, ?_⟩
  · intro depth deep
    obtain ⟨k, rfl⟩ := Nat.exists_eq_add_of_le' deep
    rfl
  · intro consistent
    obtain ⟨node, isNode⟩ := consistent.parentLive 48 32 rfl (by decide)
    cases isNode
  · intro depth
    rfl

end Family

end Rcgo.Storage
