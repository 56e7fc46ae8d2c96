import Rcgo.Foundation.Chain
import Rcgo.Foundation.Rank
import Rcgo.Storage.Family

/-!
# The forest of heaps

The child lists of the heaps form a forest.  Each operation keeps it, also when
the parent pointers are wrong.
-/

namespace Rcgo.Storage

open Rcgo.Foundation Relation

namespace HeapNode

def links (node : HeapNode) : Nat × Nat × Nat :=
  (node.child, node.next, node.parent)

def own (node : HeapNode) : Heap × Nat × Bool :=
  (node.storage, node.parent, node.reachable)

end HeapNode

namespace Family

/-! ## Single assignments -/

section Assignments

variable {f f' : Family} {h k : Nat} {node : HeapNode} {change : HeapNode → HeapNode}

theorem get_eq_ok : f.get h = .ok node ↔ f.heaps h = some node := by
  unfold get
  cases f.heaps h <;> simp

theorem set_same (f : Family) (h : Nat) (node : HeapNode) : (f.set h node).heaps h = some node :=
  Function.update_self _ _ _

theorem set_other (f : Family) (node : HeapNode) (different : k ≠ h) :
    (f.set h node).heaps k = f.heaps k :=
  Function.update_of_ne different _ _

theorem modify_of (isNode : f.heaps h = some node) :
    f.modify h change = .ok (f.set h (change node)) := by
  simp only [modify, get, isNode, Outcome.ok_bind, Outcome.pure_eq]

theorem modify_eq_ok :
    f.modify h change = .ok f' ↔
      ∃ node, f.heaps h = some node ∧ f' = f.set h (change node) := by
  constructor
  · intro run
    obtain ⟨node, isNode, result⟩ := Outcome.bind_eq_ok.mp run
    rw [Outcome.pure_eq, Outcome.ok.injEq] at result
    exact ⟨node, get_eq_ok.mp isNode, result.symm⟩
  · intro ⟨node, isNode, result⟩
    rw [modify_of isNode, result]

theorem next_eq_some {n : Nat} :
    f.next h = some n ↔ ∃ node, f.heaps h = some node ∧ node.next = n :=
  Option.map_eq_some_iff

def SameLinks (f f' : Family) : Prop :=
  ∀ h, (f'.heaps h).map HeapNode.links = (f.heaps h).map HeapNode.links

theorem SameLinks.refl (f : Family) : SameLinks f f :=
  fun _ => rfl

theorem SameLinks.trans {f'' : Family} (first : SameLinks f f') (second : SameLinks f' f'') :
    SameLinks f f'' :=
  fun h => (second h).trans (first h)

theorem SameLinks.exists_links (same : SameLinks f f') {node' : HeapNode} (isNode : f'.heaps h = some node') :
    ∃ node, f.heaps h = some node ∧ node'.links = node.links := by
  have here := same h
  rw [isNode, Option.map_some] at here
  obtain ⟨node, isOld, sameLinks⟩ := Option.map_eq_some_iff.mp here.symm
  exact ⟨node, isOld, sameLinks.symm⟩

theorem SameLinks.symm (same : SameLinks f f') : SameLinks f' f :=
  fun h => (same h).symm

theorem SameLinks.live_iff (same : SameLinks f f') : f'.Live h ↔ f.Live h := by
  constructor
  · intro ⟨node, isNode⟩
    obtain ⟨old, isOld, _⟩ := same.exists_links isNode
    exact ⟨old, isOld⟩
  · intro ⟨node, isNode⟩
    obtain ⟨new, isNew, _⟩ := same.symm.exists_links isNode
    exact ⟨new, isNew⟩

theorem SameLinks.next (same : SameLinks f f') : f'.next h = f.next h := by
  have both : ∀ g : Family, g.next h = ((g.heaps h).map HeapNode.links).map (·.2.1) := by
    intro g
    rw [Option.map_map]
    rfl
  rw [both, both, same]

theorem SameLinks.of_modify (run : f.modify h change = .ok f')
    (keeps : ∀ node, (change node).links = node.links) : SameLinks f f' := by
  obtain ⟨node, isNode, result⟩ := modify_eq_ok.mp run
  intro k
  rw [result]
  by_cases here : k = h
  · rw [here, set_same, isNode, Option.map_some, Option.map_some, keeps]
  · rw [set_other f _ here]

theorem forceCollection_spec (isLive : f.Live h) :
    ∃ f', f.forceCollection h = .ok f' ∧ SameLinks f f' ∧ f'.memory = f.memory := by
  obtain ⟨node, isNode⟩ := isLive
  have run : f.forceCollection h = .ok _ := modify_of isNode
  exact ⟨_, run, SameLinks.of_modify run fun _ => rfl, rfl⟩

end Assignments

/-! ## The child lists -/

/-- The first heap is on the child list of the second one. -/
def IsChild (children : Nat → List Nat) (c h : Nat) : Prop :=
  c ∈ children h

/-- The first heap is the second one or a descendant of it. -/
def Below (children : Nat → List Nat) : Nat → Nat → Prop :=
  ReflTransGen (IsChild children)

/-- The child lists of the heaps: every heap is on at most one list, once, and
the heaps on lists have a parent. -/
structure Linked (f : Family) (children : Nat → List Nat) : Prop where
  null : f.heaps 0 = none
  lists : ∀ h node, f.heaps h = some node → Chain f.next node.child (children h) 0
  live : ∀ h, ∀ c ∈ children h, f.Live h
  nodup : ∀ h, (children h).Nodup
  single : ∀ h k c, c ∈ children h → c ∈ children k → h = k
  parented : ∀ h, ∀ c ∈ children h, ∀ node, f.heaps c = some node → node.parent ≠ 0
  ranked : Ranked (IsChild children)

def Root (children : Nat → List Nat) (h : Nat) : Prop :=
  ∀ k, h ∉ children k

namespace Linked

variable {f f' : Family} {children : Nat → List Nat} (linked : Linked f children)

include linked

theorem next_null : f.next 0 = none := by
  rw [next, linked.null, Option.map_none]

theorem ne_null {h : Nat} (isLive : f.Live h) : h ≠ 0 := by
  intro isNull
  obtain ⟨node, isNode⟩ := isLive
  rw [isNull, linked.null] at isNode
  cases isNode

theorem child_live {h c : Nat} (member : c ∈ children h) : f.Live c := by
  obtain ⟨node, isNode⟩ := linked.live h c member
  obtain ⟨successor, isNext⟩ := (linked.lists h node isNode).exists_next member
  obtain ⟨child, isChild, _⟩ := next_eq_some.mp isNext
  exact ⟨child, isChild⟩

theorem root_of_parent {h : Nat} {node : HeapNode} (isNode : f.heaps h = some node)
    (noParent : node.parent = 0) : Root children h :=
  fun k member => linked.parented k h member node isNode noParent

theorem not_below_of_child {h c : Nat} (member : c ∈ children h) : ¬ Below children h c :=
  linked.ranked.not_above member

theorem congr (same : SameLinks f f') : Linked f' children := by
  refine ⟨?_, ?_, ?_, linked.nodup, linked.single, ?_, linked.ranked⟩
  · have here := same 0
    rw [linked.null, Option.map_none, Option.map_eq_none_iff] at here
    exact here
  · intro h node isNode
    obtain ⟨old, isOld, sameLinks⟩ := same.exists_links isNode
    simp only [HeapNode.links, Prod.mk.injEq] at sameLinks
    rw [sameLinks.1]
    exact (linked.lists h old isOld).congr fun c _ => same.next
  · intro h c member
    exact same.live_iff.mpr (linked.live h c member)
  · intro h c member node isNode
    obtain ⟨old, isOld, sameLinks⟩ := same.exists_links isNode
    simp only [HeapNode.links, Prod.mk.injEq] at sameLinks
    rw [sameLinks.2.2]
    exact linked.parented h c member old isOld

end Linked

/-- The member behind which the rest of the list is linked, when the list
starts at this one. -/
def linkBehind : Link → List Nat → Link
  | link, [] => link
  | _, c :: rest => linkBehind (.next c) rest

theorem linkBehind_append_singleton (before : List Nat) (c : Nat) :
    ∀ link, linkBehind link (before ++ [c]) = .next c := by
  induction before with
  | nil =>
      intro link
      rfl
  | cons _ rest inductionHypothesis =>
      intro link
      exact inductionHypothesis _

theorem read_linkBehind {f : Family} {middle : Nat} {before : List Nat} :
    ∀ {link start}, f.read link = .ok start → Chain f.next start before middle →
      f.read (linkBehind link before) = .ok middle := by
  induction before with
  | nil =>
      intro link start isStart chain
      have same : start = middle := chain
      rw [← same]
      exact isStart
  | cons c rest inductionHypothesis =>
      intro link start _ chain
      obtain ⟨_, successor, isNext, tail⟩ := chain
      obtain ⟨node, isNode, isSuccessor⟩ := next_eq_some.mp isNext
      apply inductionHypothesis _ tail
      rw [read, get_eq_ok.mpr isNode, Outcome.ok_bind, Outcome.pure_eq, isSuccessor]

/-! ## Insertion -/

theorem set_set (f : Family) (h : Nat) (first second : HeapNode) :
    (f.set h first).set h second = f.set h second := by
  simp only [set, Function.update_idem]

theorem next_set (f : Family) (h : Nat) (node : HeapNode) (k : Nat) :
    (f.set h node).next k = if k = h then some node.next else f.next k := by
  by_cases here : k = h
  · rw [if_pos here, here, next, set_same, Option.map_some]
  · rw [if_neg here, next, set_other f node here, next]

section Insert

variable {f : Family} {children : Nat → List Nat} {p c : Nat} {pn cn : HeapNode}

/-- The child list of a heap with one more child in front. -/
def addChild (children : Nat → List Nat) (p c : Nat) : Nat → List Nat :=
  Function.update children p (c :: children p)

theorem mem_addChild {k a : Nat} :
    a ∈ addChild children p c k ↔ a ∈ children k ∨ (k = p ∧ a = c) := by
  unfold addChild
  by_cases here : k = p
  · subst here
    rw [Function.update_self, List.mem_cons]
    grind
  · rw [Function.update_of_ne here]
    grind

/-- A heap that is on no list can be put on the list of a heap that is not
below it. -/
theorem Linked.insert (linked : Linked f children) (isParent : f.heaps p = some pn)
    (isChild : f.heaps c = some cn) (root : Root children c) (apart : ¬ Below children p c)
    (pn' cn' : HeapNode)
    (newParent : pn'.links = (c, pn.next, pn.parent))
    (newChild : cn'.links = (cn.child, pn.child, p)) :
    Linked ((f.set c cn').set p pn') (addChild children p c) := by
  have different : p ≠ c := fun same => apart (same ▸ ReflTransGen.refl)
  have parentLive : f.Live p := ⟨pn, isParent⟩
  simp only [HeapNode.links, Prod.mk.injEq] at newParent newChild
  have atParent : ((f.set c cn').set p pn').heaps p = some pn' := set_same _ _ _
  have atChild : ((f.set c cn').set p pn').heaps c = some cn' := by
    rw [set_other _ _ (Ne.symm different), set_same]
  have elsewhere : ∀ k, k ≠ p → k ≠ c → ((f.set c cn').set p pn').heaps k = f.heaps k := by
    intro k notParent notChild
    rw [set_other _ _ notParent, set_other _ _ notChild]
  have sameNext : ∀ k, k ≠ c → ((f.set c cn').set p pn').next k = f.next k := by
    intro k notChild
    rw [next_set, next_set, if_neg notChild]
    by_cases here : k = p
    · rw [if_pos here, here, next_eq_some.mpr ⟨pn, isParent, rfl⟩, newParent.2.1]
    · rw [if_neg here]
  have newNext : ((f.set c cn').set p pn').next c = some pn.child :=
    next_eq_some.mpr ⟨cn', atChild, newChild.2.1⟩
  have oldList : ∀ k node, f.heaps k = some node →
      Chain ((f.set c cn').set p pn').next node.child (children k) 0 := by
    intro k node isNode
    apply (linked.lists k node isNode).congr
    intro a member
    exact sameNext a fun isChild => root k (isChild ▸ member)
  refine ⟨?_, ?_, ?_, ?_, ?_, ?_, ?_⟩
  · rw [elsewhere 0 (linked.ne_null parentLive).symm (linked.ne_null ⟨cn, isChild⟩).symm]
    exact linked.null
  · intro k node isNode
    by_cases atP : k = p
    · subst atP
      rw [atParent, Option.some.injEq] at isNode
      rw [← isNode, newParent.1, addChild, Function.update_self]
      exact ⟨rfl, pn.child, newNext, oldList k pn isParent⟩
    · rw [addChild, Function.update_of_ne atP]
      by_cases atC : k = c
      · subst atC
        rw [atChild, Option.some.injEq] at isNode
        rw [← isNode, newChild.1]
        exact oldList k cn isChild
      · rw [elsewhere k atP atC] at isNode
        exact oldList k node isNode
  · intro k a member
    by_cases atP : k = p
    · exact ⟨pn', atP ▸ atParent⟩
    · by_cases atC : k = c
      · exact ⟨cn', atC ▸ atChild⟩
      · rcases mem_addChild.mp member with old | new
        · obtain ⟨node, isNode⟩ := linked.live k a old
          exact ⟨node, (elsewhere k atP atC).trans isNode⟩
        · exact absurd new.1 atP
  · intro k
    by_cases atP : k = p
    · rw [atP, addChild, Function.update_self, List.nodup_cons]
      exact ⟨root p, linked.nodup p⟩
    · rw [addChild, Function.update_of_ne atP]
      exact linked.nodup k
  · intro k l a inK inL
    have noList := root
    have single := linked.single k l a
    rw [mem_addChild] at inK inL
    unfold Root at noList
    grind
  · intro k a member node isNode
    by_cases atC : a = c
    · rw [atC, atChild, Option.some.injEq] at isNode
      rw [← isNode, newChild.2.2]
      exact linked.ne_null parentLive
    · have old : a ∈ children k := by
        rcases mem_addChild.mp member with old | new
        · exact old
        · exact absurd new.2 atC
      by_cases atP : a = p
      · subst atP
        rw [atParent, Option.some.injEq] at isNode
        rw [← isNode, newParent.2.2]
        exact linked.parented k a old pn isParent
      · rw [elsewhere a atP atC] at isNode
        exact linked.parented k a old node isNode
  · apply (linked.ranked.graft apart).mono
    intro a b related
    rcases mem_addChild.mp related with old | ⟨atP, atC⟩
    · exact Or.inl old
    · exact Or.inr ⟨atP, atC ▸ ReflTransGen.refl⟩

/-- `insert_child` of a heap that is on no list, into one that is not below
it. -/
theorem insertChild_spec (linked : Linked f children) (isParent : f.heaps p = some pn)
    (isChild : f.heaps c = some cn) (root : Root children c) (apart : ¬ Below children p c) :
    ∃ f', insertChild p c f = .ok f' ∧ Linked f' (addChild children p c) ∧
      f'.memory = f.memory ∧
      f'.heaps c = some { cn with parent := p, next := pn.child } ∧
      f'.heaps p =
        some { pn with child := c, storage := { pn.storage with nextCollectionSize := 0 } } ∧
      ∀ k, k ≠ p → k ≠ c → f'.heaps k = f.heaps k := by
  have different : p ≠ c := fun same => apart (same ▸ ReflTransGen.refl)
  refine ⟨_, ?_, linked.insert isParent isChild root apart
    { pn with child := c, storage := { pn.storage with nextCollectionSize := 0 } }
    { cn with parent := p, next := pn.child } rfl rfl, rfl, ?_, set_same _ _ _, ?_⟩
  · have parentAfter : ∀ node, (f.set c node).heaps p = some pn := by
      intro node
      rw [set_other _ _ different, isParent]
    simp only [insertChild, modify_of isChild, Outcome.ok_bind, get_eq_ok.mpr (parentAfter _),
      modify_of (set_same f c _), set_set, write, modify_of (parentAfter _), forceCollection,
      modify_of (set_same (f.set c _) p _)]
  · rw [set_other _ _ (Ne.symm different), set_same]
  · intro k notParent notChild
    rw [set_other _ _ notParent, set_other _ _ notChild]

end Insert

/-! ## Removal -/

theorem Linked.restrict {f f' : Family} {children shorter : Nat → List Nat}
    (linked : Linked f children) (sublist : ∀ k, (shorter k).Sublist (children k))
    (old :
      ∀ k node', f'.heaps k = some node' →
        ∃ node, f.heaps k = some node ∧ node'.parent = node.parent)
    (lists : ∀ k node', f'.heaps k = some node' → Chain f'.next node'.child (shorter k) 0)
    (live : ∀ k, ∀ c ∈ shorter k, f'.Live k) : Linked f' shorter := by
  refine ⟨?_, lists, live, fun k => (linked.nodup k).sublist (sublist k), ?_, ?_,
    linked.ranked.mono fun a b member => (sublist b).subset member⟩
  · cases isNode : f'.heaps 0 with
    | none => rfl
    | some node' =>
        obtain ⟨node, wasNode, _⟩ := old 0 node' isNode
        rw [linked.null] at wasNode
        cases wasNode
  · intro h k c inH inK
    exact linked.single h k c ((sublist h).subset inH) ((sublist k).subset inK)
  · intro h c member node' isNode
    obtain ⟨node, wasNode, sameParent⟩ := old c node' isNode
    rw [sameParent]
    exact linked.parented h c ((sublist h).subset member) node wasNode

def SameOwn (f f' : Family) : Prop :=
  f'.memory = f.memory ∧ ∀ h, (f'.heaps h).map HeapNode.own = (f.heaps h).map HeapNode.own

section Unlink

variable {f : Family} {children : Nat → List Nat} {p c : Nat} {pn cn : HeapNode}

theorem SameOwn.of_set {f : Family} {h : Nat} {node node' : HeapNode}
    (isNode : f.heaps h = some node) (same : node'.own = node.own) :
    SameOwn f (f.set h node') := by
  refine ⟨rfl, ?_⟩
  intro k
  by_cases here : k = h
  · rw [here, set_same, isNode, Option.map_some, Option.map_some, same]
  · rw [set_other f _ here]

theorem SameOwn.exists_own {f f' : Family} (same : SameOwn f f') {h : Nat} {node' : HeapNode}
    (isNode : f'.heaps h = some node') :
    ∃ node, f.heaps h = some node ∧ node'.own = node.own := by
  have here := same.2 h
  rw [isNode, Option.map_some] at here
  obtain ⟨node, isOld, sameOwn⟩ := Option.map_eq_some_iff.mp here.symm
  exact ⟨node, isOld, sameOwn.symm⟩

theorem SameOwn.trans {f f' f'' : Family} (first : SameOwn f f') (second : SameOwn f' f'') :
    SameOwn f f'' :=
  ⟨second.1.trans first.1, fun h => (second.2 h).trans (first.2 h)⟩

theorem SameOwn.symm {f f' : Family} (same : SameOwn f f') : SameOwn f' f :=
  ⟨same.1.symm, fun h => (same.2 h).symm⟩

theorem SameOwn.live_iff {f f' : Family} (same : SameOwn f f') {h : Nat} :
    f'.Live h ↔ f.Live h := by
  constructor
  · intro ⟨node, isNode⟩
    obtain ⟨old, isOld, _⟩ := same.exists_own isNode
    exact ⟨old, isOld⟩
  · intro ⟨node, isNode⟩
    obtain ⟨new, isNew, _⟩ := same.symm.exists_own isNode
    exact ⟨new, isNew⟩

def setChildren (children : Nat → List Nat) (p : Nat) (list : List Nat) : Nat → List Nat :=
  Function.update children p list

/-- What an assignment to the link behind a part of the list of `p` does. -/
structure LinkWritten (f : Family) (p : Nat) (before : List Nat) (value : Nat) (f' : Family) :
    Prop where
  own : SameOwn f f'
  next : ∀ k, k ∉ before → f'.next k = f.next k
  child :
    ∀ k node', k ≠ p → f'.heaps k = some node' →
      ∃ node, f.heaps k = some node ∧ node'.child = node.child
  list : ∀ node', f'.heaps p = some node' → Chain f'.next node'.child before value
  others : ∀ k, k ≠ p → k ∉ before → f'.heaps k = f.heaps k

theorem next_set_of_same (isNode : f.heaps p = some pn) (pn' : HeapNode)
    (same : pn'.next = pn.next) (k : Nat) : (f.set p pn').next k = f.next k := by
  rw [next_set]
  by_cases atP : k = p
  · rw [if_pos atP, atP, next_eq_some.mpr ⟨pn, isNode, same.symm⟩]
  · rw [if_neg atP]

private theorem linkWritten_child (isParent : f.heaps p = some pn) (value : Nat) :
    LinkWritten f p [] value (f.set p { pn with child := value }) := by
  refine ⟨SameOwn.of_set isParent rfl,
    fun k _ => next_set_of_same isParent { pn with child := value } rfl k, ?_, ?_, ?_⟩
  · intro k node' notP isNode
    rw [set_other _ _ notP] at isNode
    exact ⟨node', isNode, rfl⟩
  · intro node' isNode
    rw [set_same, Option.some.injEq] at isNode
    rw [← isNode]
    rfl
  · intro k notP _
    exact set_other _ _ notP

/-- The assignment to the link behind the child `last`. -/
private theorem linkWritten_next {front : List Nat} {last : Nat} {lastNode : HeapNode}
    (isParent : f.heaps p = some pn) (isLast : f.heaps last = some lastNode)
    (chain : Chain f.next pn.child front last) (notFront : last ∉ front) (value : Nat) :
    LinkWritten f p (front ++ [last]) value (f.set last { lastNode with next := value }) := by
  have sameNext : ∀ k, k ≠ last →
      (f.set last { lastNode with next := value }).next k = f.next k := by
    intro k different
    rw [next_set, if_neg different]
  have sameChild : ∀ k node', (f.set last { lastNode with next := value }).heaps k = some node' →
      ∃ node, f.heaps k = some node ∧ node'.child = node.child := by
    intro k node' isNode
    by_cases atLast : k = last
    · rw [atLast, set_same, Option.some.injEq] at isNode
      exact ⟨lastNode, atLast ▸ isLast, by rw [← isNode]⟩
    · rw [set_other _ _ atLast] at isNode
      exact ⟨node', isNode, rfl⟩
  have ne_last : ∀ k, k ∉ front ++ [last] → k ≠ last := by
    intro k notBefore isSame
    rw [isSame] at notBefore
    exact notBefore (List.mem_append_right _ (List.mem_singleton_self last))
  refine ⟨SameOwn.of_set isLast rfl, fun k notBefore => sameNext k (ne_last k notBefore),
    fun k node' _ isNode => sameChild k node' isNode, ?_,
    fun k _ notBefore => set_other _ _ (ne_last k notBefore)⟩
  intro node' isNode
  obtain ⟨node, isOld, isStart⟩ := sameChild p node' isNode
  rw [isParent, Option.some.injEq] at isOld
  rw [isStart, ← isOld]
  apply Chain.append_singleton last
  · exact chain.congr fun a member => sameNext a fun isSame => notFront (isSame ▸ member)
  · rw [next_set, if_pos rfl]

theorem Linked.write_linkBehind (linked : Linked f children) {before after : List Nat}
    (isParent : f.heaps p = some pn) (isList : children p = before ++ after) (value : Nat) :
    ∃ f', f.write value (linkBehind (.child p) before) = .ok f' ∧
      LinkWritten f p before value f' := by
  have nodup := linked.nodup p
  have chain := linked.lists p pn isParent
  rw [isList] at nodup chain
  obtain ⟨middle, beforeChain, _⟩ := Chain.append_iff.mp chain
  rcases List.eq_nil_or_concat before with isNil | ⟨front, last, isConcat⟩
  · rw [isNil]
    exact ⟨_, modify_of isParent, linkWritten_child isParent value⟩
  · rw [List.concat_eq_append] at isConcat
    subst isConcat
    have inList : last ∈ children p := by
      rw [isList]
      exact List.mem_append_left _ (List.mem_append_right _ (List.mem_singleton_self last))
    have notFront : last ∉ front := by
      intro member
      exact
        (List.nodup_append.mp (List.nodup_append.mp nodup).1).2.2 last member last
          (List.mem_singleton_self last) rfl
    obtain ⟨lastNode, isLast⟩ := linked.child_live inList
    obtain ⟨start, frontChain, isStart, _⟩ := Chain.append_iff.mp beforeChain
    rw [isStart] at frontChain
    rw [linkBehind_append_singleton]
    exact ⟨_, modify_of isLast, linkWritten_next isParent isLast frontChain notFront value⟩

/-- The lists when one child of `p` has been left out. -/
private theorem Linked.of_linkWritten {f' : Family} {before after : List Nat} {value : Nat}
    (linked : Linked f children) (isParent : f.heaps p = some pn)
    (isList : children p = before ++ c :: after) (written : LinkWritten f p before value f')
    (newList : ∀ node', f'.heaps p = some node' →
      Chain f'.next node'.child (before ++ after) 0) :
    Linked f' (setChildren children p (before ++ after)) := by
  apply linked.restrict
  · intro k
    unfold setChildren
    by_cases atP : k = p
    · rw [atP, Function.update_self, isList]
      exact (List.Sublist.refl before).append (List.sublist_cons_self c after)
    · rw [Function.update_of_ne atP]
  · intro k node' isNode
    obtain ⟨node, wasNode, own⟩ := written.own.exists_own isNode
    simp only [HeapNode.own, Prod.mk.injEq] at own
    exact ⟨node, wasNode, own.2.1⟩
  · intro k node' isNode
    unfold setChildren
    by_cases atP : k = p
    · rw [atP, Function.update_self]
      exact newList node' (atP ▸ isNode)
    · rw [Function.update_of_ne atP]
      obtain ⟨node, wasNode, isSame⟩ := written.child k node' atP isNode
      rw [isSame]
      apply (linked.lists k node wasNode).congr
      intro a member
      apply written.next
      intro inBefore
      apply atP
      apply linked.single k p a member
      rw [isList]
      exact List.mem_append_left _ inBefore
  · intro k a member
    rw [written.own.live_iff]
    by_cases atP : k = p
    · exact ⟨pn, atP ▸ isParent⟩
    · unfold setChildren at member
      rw [Function.update_of_ne atP] at member
      exact linked.live k a member

theorem Linked.unlink (linked : Linked f children) (before after : List Nat)
    (isParent : f.heaps p = some pn) (isChild : f.heaps c = some cn)
    (isList : children p = before ++ c :: after) :
    ∃ f', f.write cn.next (linkBehind (.child p) before) = .ok f' ∧
      Linked f' (setChildren children p (before ++ after)) ∧ SameOwn f f' ∧
      (∀ k, k ≠ p → k ∉ before → f'.heaps k = f.heaps k) := by
  obtain ⟨f', run, written⟩ := linked.write_linkBehind isParent isList cn.next
  refine ⟨f', run, linked.of_linkWritten isParent isList written ?_, written.own,
    written.others⟩
  intro node' isNode
  -- behind the child the old list goes on
  have nodup := linked.nodup p
  have chain := linked.lists p pn isParent
  rw [isList] at nodup chain
  obtain ⟨_, _, _, successor, isSuccessor, afterChain⟩ := Chain.append_iff.mp chain
  rw [next_eq_some.mpr ⟨cn, isChild, rfl⟩, Option.some.injEq] at isSuccessor
  rw [← isSuccessor] at afterChain
  apply Chain.append_iff.mpr
  refine ⟨cn.next, written.list node' isNode, afterChain.congr ?_⟩
  intro a member
  apply written.next
  intro inBefore
  exact
    (List.nodup_append.mp nodup).2.2 a inBefore a (List.mem_cons_of_mem _ member) rfl

end Unlink

/-! ## Parents -/

/-- The parent pointer of a heap that has not been deleted. -/
def parentOf (f : Family) (h : Nat) : Option Nat :=
  (f.heaps h).map HeapNode.parent

section Parents

variable {f f' : Family} {h p : Nat}

theorem parentOf_eq_some :
    f.parentOf h = some p ↔ ∃ node, f.heaps h = some node ∧ node.parent = p :=
  Option.map_eq_some_iff

theorem live_iff_parentOf : f.Live h ↔ (f.parentOf h).isSome = true := by
  unfold Live parentOf
  cases f.heaps h <;> simp

theorem parentOf_set (node : HeapNode) (k : Nat) :
    (f.set h node).parentOf k = if k = h then some node.parent else f.parentOf k := by
  by_cases here : k = h
  · rw [if_pos here, here, parentOf, set_same, Option.map_some]
  · rw [if_neg here, parentOf, set_other f node here, parentOf]

theorem SameLinks.parentOf (same : SameLinks f f') : f'.parentOf h = f.parentOf h := by
  have both : ∀ g : Family, g.parentOf h = ((g.heaps h).map HeapNode.links).map (·.2.2) := by
    intro g
    rw [Option.map_map]
    rfl
  rw [both, both, same]

theorem SameOwn.parentOf (same : SameOwn f f') : f'.parentOf h = f.parentOf h := by
  have both : ∀ g : Family, g.parentOf h = ((g.heaps h).map HeapNode.own).map (·.2.1) := by
    intro g
    rw [Option.map_map]
    rfl
  rw [both, both, same.2]

theorem Linked.of_parentOf {children : Nat → List Nat} (linked : Linked f children)
    (isRoot : f.parentOf h = some 0) : Root children h := by
  obtain ⟨node, isNode, noParent⟩ := parentOf_eq_some.mp isRoot
  exact linked.root_of_parent isNode noParent

theorem Linked.setParent {children : Nat → List Nat} {node : HeapNode}
    (linked : Linked f children) (isNode : f.heaps h = some node) (root : Root children h) :
    Linked (f.set h { node with parent := p }) children := by
  have sameNext : ∀ k, (f.set h { node with parent := p }).next k = f.next k := by
    intro k
    rw [next_set]
    by_cases here : k = h
    · rw [if_pos here, here, next_eq_some.mpr ⟨node, isNode, rfl⟩]
    · rw [if_neg here]
  refine ⟨?_, ?_, ?_, linked.nodup, linked.single, ?_, linked.ranked⟩
  · rw [set_other _ _ (linked.ne_null ⟨node, isNode⟩).symm]
    exact linked.null
  · intro k other isOther
    have sameChild : ∃ old, f.heaps k = some old ∧ other.child = old.child := by
      by_cases here : k = h
      · rw [here, set_same, Option.some.injEq] at isOther
        exact ⟨node, here ▸ isNode, by rw [← isOther]⟩
      · rw [set_other _ _ here] at isOther
        exact ⟨other, isOther, rfl⟩
    obtain ⟨old, wasOther, isChild⟩ := sameChild
    rw [isChild]
    exact (linked.lists k old wasOther).congr fun a _ => sameNext a
  · intro k c member
    obtain ⟨old, isOld⟩ := linked.live k c member
    by_cases here : k = h
    · rw [here]
      exact ⟨_, set_same f h _⟩
    · exact ⟨old, (set_other f _ here).trans isOld⟩
  · intro k c member other isOther
    have different : c ≠ h := fun here => root k (here ▸ member)
    rw [set_other _ _ different] at isOther
    exact linked.parented k c member other isOther

end Parents

/-! ## The search in `remove_from_parent` -/

section FindLink

variable {f : Family} {c : Nat}

theorem findLink_of_mem {before after : List Nat} {target : Nat} :
    ∀ {link start depth}, f.read link = .ok start →
      Chain f.next start (before ++ c :: after) target → c ∉ before →
        before.length < depth → findLink c f depth link = .ok (linkBehind link before) := by
  induction before with
  | nil =>
      intro link start depth isStart chain _ deep
      obtain ⟨depth, rfl⟩ := Nat.exists_eq_succ_of_ne_zero (Nat.ne_of_gt deep)
      have same : start = c := chain.1
      simp only [findLink, isStart, Outcome.ok_bind, same, ne_eq, not_true_eq_false, if_false,
        Outcome.pure_eq, linkBehind]
  | cons first rest inductionHypothesis =>
      intro link start depth isStart chain notBefore deep
      obtain ⟨depth, rfl⟩ := Nat.exists_eq_succ_of_ne_zero (Nat.ne_of_gt (Nat.zero_lt_of_lt deep))
      obtain ⟨isFirst, successor, isNext, tail⟩ := chain
      rw [List.mem_cons, not_or] at notBefore
      obtain ⟨node, isNode, isSuccessor⟩ := next_eq_some.mp isNext
      have read : f.read (.next first) = .ok successor := by
        simp only [Family.read, get_eq_ok.mpr isNode, Outcome.ok_bind, Outcome.pure_eq,
          isSuccessor]
      have different : first ≠ c := Ne.symm notBefore.1
      simp only [findLink, isStart, Outcome.ok_bind, isFirst, if_pos different]
      exact inductionHypothesis read tail notBefore.2 (Nat.lt_of_succ_lt_succ deep)

/-- The search does not return when the heap is not on the list: it goes on to
the `next_` of `NULL`. -/
theorem mem_of_findLink (null : f.heaps 0 = none) (notNull : c ≠ 0) {list : List Nat} :
    ∀ {link start depth result}, f.read link = .ok start → Chain f.next start list 0 →
      findLink c f depth link = .ok result → c ∈ list := by
  induction list with
  | nil =>
      intro link start depth result isStart chain run
      have isNull : start = 0 := chain
      cases depth with
      | zero => cases run
      | succ depth =>
          simp only [findLink, isStart, Outcome.ok_bind, isNull, if_pos (Ne.symm notNull)] at run
          cases depth with
          | zero => cases run
          | succ depth =>
              have noRead : f.read (.next 0) = .error .dangling := by
                simp only [Family.read, get, null, Outcome.error_bind]
              rw [findLink, noRead, Outcome.error_bind] at run
              cases run
  | cons first rest inductionHypothesis =>
      intro link start depth result isStart chain run
      cases depth with
      | zero => cases run
      | succ depth =>
          obtain ⟨isFirst, successor, isNext, tail⟩ := chain
          by_cases here : first = c
          · rw [here]
            exact List.mem_cons_self
          · obtain ⟨node, isNode, isSuccessor⟩ := next_eq_some.mp isNext
            have read : f.read (.next first) = .ok successor := by
              simp only [Family.read, get_eq_ok.mpr isNode, Outcome.ok_bind, Outcome.pure_eq,
                isSuccessor]
            simp only [findLink, isStart, Outcome.ok_bind, isFirst, ne_eq, here,
              not_false_eq_true, if_true] at run
            exact List.mem_cons_of_mem _ (inductionHypothesis read tail run)

end FindLink

section Remove

variable {f f' : Family} {children : Nat → List Nat} {p c : Nat}

/-- What `remove_from_parent` does when the heap has a parent. -/
structure Removed (f : Family) (children : Nat → List Nat) (p c : Nat) (f' : Family)
    (before after : List Nat) : Prop where
  list : children p = before ++ c :: after
  linked : Linked f' (setChildren children p (before ++ after))
  memory : f'.memory = f.memory
  parentOf : ∀ k, f'.parentOf k = if k = c then some 0 else f.parentOf k

theorem setChildren_same (children : Nat → List Nat) (p : Nat) (list : List Nat) :
    setChildren children p list p = list :=
  Function.update_self _ _ _

theorem setChildren_other (children : Nat → List Nat) (list : List Nat) {k : Nat}
    (different : k ≠ p) : setChildren children p list k = children k :=
  Function.update_of_ne different _ _

/-- A heap on the list of its parent is taken off. -/
theorem removeFromParent_of_mem (linked : Linked f children) (isParent : f.parentOf c = some p)
    (member : c ∈ children p) :
    ∃ f' before after, Outcome.Returns (fun depth => removeFromParent depth c f) f' ∧
      Removed f children p c f' before after := by
  obtain ⟨before, after, isList⟩ := List.append_of_mem member
  obtain ⟨cn, isChild, wasParent⟩ := parentOf_eq_some.mp isParent
  obtain ⟨pn, isNode⟩ := linked.live p c member
  have notNull : p ≠ 0 := linked.ne_null ⟨pn, isNode⟩
  have notBefore : c ∉ before := by
    intro inBefore
    have nodup := linked.nodup p
    rw [isList] at nodup
    exact (List.nodup_append.mp nodup).2.2 c inBefore c List.mem_cons_self rfl
  have notAfter : c ∉ after := by
    have nodup := linked.nodup p
    rw [isList] at nodup
    exact (List.nodup_cons.mp (List.nodup_append.mp nodup).2.1).1
  have chain := linked.lists p pn isNode
  rw [isList] at chain
  have read : f.read (.child p) = .ok pn.child := by
    simp only [Family.read, get_eq_ok.mpr isNode, Outcome.ok_bind, Outcome.pure_eq]
  obtain ⟨f₁, written, linked₁, own, unchanged⟩ := linked.unlink before after isNode isChild isList
  have notParent : c ≠ p := fun same => linked.not_below_of_child member (same ▸ ReflTransGen.refl)
  have childAfter : f₁.heaps c = some cn := by
    rw [unchanged c notParent notBefore]
    exact isChild
  have root : Root (setChildren children p (before ++ after)) c := by
    intro k inList
    by_cases atP : k = p
    · rw [atP, setChildren_same, List.mem_append] at inList
      rcases inList with inBefore | inAfter
      · exact notBefore inBefore
      · exact notAfter inAfter
    · rw [setChildren_other _ _ atP] at inList
      exact atP (linked.single k p c inList member)
  have linked₂ := linked₁.setParent (p := 0) childAfter root
  have parentLive : (f₁.set c { cn with parent := 0 }).Live p := by
    obtain ⟨pn₁, isParent₁⟩ := own.live_iff.mpr ⟨pn, isNode⟩
    exact ⟨pn₁, (set_other _ _ (Ne.symm notParent)).trans isParent₁⟩
  obtain ⟨f₂, forced, same, memory⟩ := forceCollection_spec parentLive
  refine ⟨f₂, before, after, ⟨before.length + 1, ?_⟩, isList, linked₂.congr same,
    memory.trans own.1, ?_⟩
  · intro depth deep
    simp only [removeFromParent, get_eq_ok.mpr isChild, Outcome.ok_bind, wasParent, ne_eq,
      notNull, not_false_eq_true, if_true, findLink_of_mem read chain notBefore deep, written,
      modify_of childAfter]
    exact forced
  · intro k
    rw [same.parentOf, parentOf_set, own.parentOf]

/-- `remove_from_parent` returns only when the heap is on the list of its
parent, or when it has none. -/
theorem mem_of_removeFromParent (linked : Linked f children) (isParent : f.parentOf c = some p)
    (notNull : p ≠ 0) {depth : Nat} (run : removeFromParent depth c f = .ok f') :
    c ∈ children p := by
  obtain ⟨cn, isChild, wasParent⟩ := parentOf_eq_some.mp isParent
  simp only [removeFromParent, get_eq_ok.mpr isChild, Outcome.ok_bind, wasParent, ne_eq, notNull,
    not_false_eq_true, if_true] at run
  obtain ⟨link, found, _⟩ := Outcome.bind_eq_ok.mp run
  cases depth with
  | zero => cases found
  | succ depth =>
      have copy := found
      rw [findLink] at copy
      obtain ⟨start, isStart, _⟩ := Outcome.bind_eq_ok.mp copy
      obtain ⟨pn, isNode, isFirst⟩ := Outcome.bind_eq_ok.mp isStart
      rw [Outcome.pure_eq, Outcome.ok.injEq] at isFirst
      have chain := linked.lists p pn (get_eq_ok.mp isNode)
      rw [isFirst] at chain
      exact mem_of_findLink linked.null (linked.ne_null ⟨cn, isChild⟩) isStart chain found

theorem removeFromParent_root (isRoot : f.parentOf c = some 0) (depth : Nat) :
    removeFromParent depth c f = .ok f := by
  obtain ⟨cn, isChild, noParent⟩ := parentOf_eq_some.mp isRoot
  simp only [removeFromParent, get_eq_ok.mpr isChild, Outcome.ok_bind, noParent, ne_eq,
    not_true_eq_false, if_false, Outcome.pure_eq]

end Remove

end Family

end Rcgo.Storage
