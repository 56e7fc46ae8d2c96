import Rcgo.Storage.Forest

/-!
# Deletion and merging of heaps

Deleting a heap deletes its descendants and leaves the lists of all other
heaps as they are.  Merging a heap moves its children to another heap before it
is deleted.
-/

namespace Rcgo.Storage

open Rcgo.Foundation Relation

namespace Family

variable {f f' : Family} {children : Nat → List Nat} {h c : Nat}

/-! ## What a deletion leaves -/

theorem Below.mono {smaller : Nat → List Nat} (sub : ∀ k, ∀ a ∈ smaller k, a ∈ children k) {a b : Nat}
    (below : Below smaller a b) : Below children a b :=
  ReflTransGen.mono (fun x y member => sub y x member) a b below

/-- The child lists of the heaps that have not been deleted. -/
def keep (f : Family) (children : Nat → List Nat) (p : Nat) : List Nat :=
  if (f.heaps p).isSome then children p else []

theorem keep_of_live (isLive : f.Live h) : keep f children h = children h := by
  obtain ⟨node, isNode⟩ := isLive
  rw [keep, isNode]
  rfl

theorem keep_sublist (f : Family) (children : Nat → List Nat) (p : Nat) :
    (keep f children p).Sublist (children p) := by
  unfold keep
  split
  · exact List.Sublist.refl _
  · exact List.nil_sublist _

/-- The heap has been deleted, and with every deleted heap its children. -/
structure Destroyed (f : Family) (children : Nat → List Nat) (h : Nat) (f' : Family) : Prop where
  memory : f'.memory = f.memory
  deleted : f'.heaps h = none
  others : ∀ a, f'.heaps a = f.heaps a ∨ (f'.heaps a = none ∧ Below children a h)
  closed : ∀ a, f'.heaps a = none → ∀ c ∈ children a, f'.heaps c = none

namespace Destroyed

theorem below (destroyed : Destroyed f children h f') {a : Nat} (below : Below children a h) :
    f'.heaps a = none := by
  induction below using ReflTransGen.head_induction_on with
  | refl => exact destroyed.deleted
  | head step _ inductionHypothesis => exact destroyed.closed _ inductionHypothesis _ step

theorem parent (destroyed : Destroyed f children h f') (linked : Linked f children)
    (root : Root children h) {p : Nat} (member : c ∈ children p) (isGone : f'.heaps c = none) :
    f'.heaps p = none := by
  obtain ⟨node, isNode⟩ := linked.child_live member
  rcases destroyed.others c with same | ⟨_, isBelow⟩
  · rw [same, isNode] at isGone
    cases isGone
  · rcases ReflTransGen.cases_head isBelow with isRoot | ⟨q, inList, rest⟩
    · exact absurd member (isRoot ▸ root p)
    · rw [linked.single p q c member inList]
      exact destroyed.below rest

theorem linked (destroyed : Destroyed f children h f') (linked : Linked f children)
    (root : Root children h) : Linked f' (keep f' children) := by
  have unchanged : ∀ k node', f'.heaps k = some node' → f.heaps k = some node' := by
    intro k node' isNode
    rcases destroyed.others k with same | ⟨isGone, _⟩
    · rw [← same]
      exact isNode
    · rw [isNode] at isGone
      cases isGone
  have childLive : ∀ k, f'.Live k → ∀ a ∈ children k, f'.heaps a = f.heaps a := by
    intro k ⟨node', isNode⟩ a member
    rcases destroyed.others a with same | ⟨isGone, _⟩
    · exact same
    · rw [destroyed.parent linked root member isGone] at isNode
      cases isNode
  apply linked.restrict (keep_sublist f' children)
  · intro k node' isNode
    exact ⟨node', unchanged k node' isNode, rfl⟩
  · intro k node' isNode
    rw [keep_of_live ⟨node', isNode⟩]
    apply (linked.lists k node' (unchanged k node' isNode)).congr
    intro a member
    rw [next, childLive k ⟨node', isNode⟩ a member, next]
  · intro k a member
    unfold keep at member
    split at member
    · next isLive =>
      obtain ⟨node', isNode⟩ := Option.isSome_iff_exists.mp isLive
      exact ⟨node', isNode⟩
    · exact absurd member List.not_mem_nil

end Destroyed

/-! ## The destructor -/

/-- The function deletes heaps that are on no list. -/
def Deletes (delete : Nat → Family → Outcome FamilyFault Family) : Prop :=
  ∀ f children c f', Linked f children → Root children c → delete c f = .ok f' →
    Destroyed f children c f'

/-- What the loop of the destructor has done. -/
structure ChildrenDestroyed (f : Family) (children : Nat → List Nat) (h : Nat) (node : HeapNode)
    (f' : Family) : Prop where
  memory : f'.memory = f.memory
  owner : f'.heaps h = some { node with child := 0 }
  others :
    ∀ a, a ≠ h → f'.heaps a = f.heaps a ∨ (f'.heaps a = none ∧ Below children a h)
  closed : ∀ a, a ≠ h → f'.heaps a = none → ∀ c ∈ children a, f'.heaps c = none
  gone : ∀ c ∈ children h, f'.heaps c = none

theorem destroyChildren_spec {delete : Nat → Family → Outcome FamilyFault Family}
    (deletes : Deletes delete) (depth : Nat) :
    ∀ {f f' : Family} {children : Nat → List Nat} {node : HeapNode}, Linked f children →
      f.heaps h = some node → destroyChildren delete h depth f = .ok f' →
        ChildrenDestroyed f children h node f' := by
  induction depth with
  | zero =>
      intro f f' children node _ _ run
      cases run
  | succ depth inductionHypothesis =>
      intro f f' children node linked isNode run
      have chain := linked.lists h node isNode
      simp only [destroyChildren, get_eq_ok.mpr isNode, Outcome.ok_bind] at run
      by_cases isEnd : node.child = 0
      · simp only [isEnd, ne_eq, not_true_eq_false, if_false, Outcome.pure_eq,
          Outcome.ok.injEq] at run
        subst run
        rw [isEnd] at chain
        have noChildren : children h = [] :=
          Chain.unique linked.next_null chain (rfl : Chain f.next 0 [] 0)
        refine ⟨rfl, ?_, fun a _ => Or.inl rfl, ?_, ?_⟩
        · rw [isNode, ← isEnd]
        · intro a _ isGone c member
          obtain ⟨other, isLive⟩ := linked.live a c member
          rw [isGone] at isLive
          cases isLive
        · intro c member
          rw [noChildren] at member
          exact absurd member List.not_mem_nil
      · obtain ⟨rest, successor, isList, _, _⟩ := chain.exists_cons isEnd
        generalize node.child = c at *
        simp only [ne_eq, isEnd, not_false_eq_true, if_true] at run
        obtain ⟨cn, isChild, run⟩ := Outcome.bind_eq_ok.mp run
        obtain ⟨f₁, written, run⟩ := Outcome.bind_eq_ok.mp run
        obtain ⟨f₂, deleted, run⟩ := Outcome.bind_eq_ok.mp run
        have inList : c ∈ children h := isList ▸ List.mem_cons_self
        obtain ⟨_, unlinked, linked₁, _, _⟩ :=
          linked.unlink [] rest isNode (get_eq_ok.mp isChild) isList
        have sameWrite := written.symm.trans unlinked
        rw [Outcome.ok.injEq] at sameWrite
        rw [← sameWrite, List.nil_append] at linked₁
        have isSet : f₁ = f.set h { node with child := cn.next } := by
          obtain ⟨old, isOld, result⟩ := modify_eq_ok.mp written
          rw [isNode, Option.some.injEq] at isOld
          rw [result, ← isOld]
        have sub : ∀ k, ∀ a ∈ setChildren children h rest k, a ∈ children k := by
          intro k a member
          by_cases atH : k = h
          · rw [atH, setChildren_same] at member
            rw [atH, isList]
            exact List.mem_cons_of_mem _ member
          · rw [setChildren_other _ _ atH] at member
            exact member
        have root : Root (setChildren children h rest) c := by
          intro k member
          by_cases atH : k = h
          · have nodup := linked.nodup h
            rw [isList] at nodup
            rw [atH, setChildren_same] at member
            exact (List.nodup_cons.mp nodup).1 member
          · rw [setChildren_other _ _ atH] at member
            exact atH (linked.single k h c member inList)
        have destroyed := deletes f₁ _ c f₂ linked₁ root deleted
        have belowOwner : ∀ a, Below (setChildren children h rest) a c → Below children a h :=
          fun a below => (below.mono sub).tail inList
        have owner₁ : f₂.heaps h = some { node with child := cn.next } := by
          rcases destroyed.others h with same | ⟨_, below⟩
          · rw [same, isSet, set_same]
          · exact absurd (below.mono sub) (linked.not_below_of_child inList)
        have rests : keep f₂ (setChildren children h rest) h = rest := by
          rw [keep_of_live ⟨_, owner₁⟩, setChildren_same]
        have after := inductionHypothesis (destroyed.linked linked₁ root) owner₁ run
        have subKept : ∀ k, ∀ a ∈ keep f₂ (setChildren children h rest) k, a ∈ children k :=
          fun k a member => sub k a ((keep_sublist f₂ _ k).subset member)
        have staysGone : ∀ a, f₂.heaps a = none → f'.heaps a = none := by
          intro a isGone
          have different : a ≠ h := by
            intro same
            rw [same, owner₁] at isGone
            cases isGone
          rcases after.others a different with same | ⟨gone, _⟩
          · exact same.trans isGone
          · exact gone
        refine ⟨?_, after.owner, ?_, ?_, ?_⟩
        · rw [after.memory, destroyed.memory, isSet]
          rfl
        · intro a different
          rcases after.others a different with same | ⟨gone, below⟩
          · rcases destroyed.others a with same₁ | ⟨gone, below⟩
            · left
              rw [same, same₁, isSet, set_other _ _ different]
            · exact Or.inr ⟨same.trans gone, belowOwner a below⟩
          · exact Or.inr ⟨gone, below.mono subKept⟩
        · intro a different isGone x member
          have sameList : setChildren children h rest a = children a :=
            setChildren_other _ _ different
          cases isNode₂ : f₂.heaps a with
          | none => exact staysGone x (destroyed.closed a isNode₂ x (sameList ▸ member))
          | some other =>
              apply after.closed a different isGone
              rw [keep_of_live ⟨other, isNode₂⟩, sameList]
              exact member
        · intro x member
          rw [isList] at member
          rcases List.mem_cons.mp member with isFirst | inRest
          · rw [isFirst]
            exact staysGone c destroyed.deleted
          · apply after.gone
            rw [rests]
            exact inRest

theorem destroy_deletes : ∀ depth, Deletes (destroy depth)
  | 0 => by
      intro f children c f' _ _ run
      cases run
  | depth + 1 => by
      intro f children c f' linked root run
      rw [destroy] at run
      obtain ⟨f₁, loop, released⟩ := Outcome.bind_eq_ok.mp run
      rw [Outcome.pure_eq, Outcome.ok.injEq] at released
      obtain ⟨node, isNode⟩ : f.Live c := by
        cases depth with
        | zero => cases loop
        | succ depth =>
            rw [destroyChildren] at loop
            obtain ⟨node, isNode, _⟩ := Outcome.bind_eq_ok.mp loop
            exact ⟨node, get_eq_ok.mp isNode⟩
      have spec := destroyChildren_spec (destroy_deletes depth) depth linked isNode loop
      have here : f'.heaps c = none := by
        rw [← released, release]
        exact Function.update_self _ _ _
      have there : ∀ a, a ≠ c → f'.heaps a = f₁.heaps a := by
        intro a different
        rw [← released, release]
        exact Function.update_of_ne different _ _
      have staysGone : ∀ a, f₁.heaps a = none → f'.heaps a = none := by
        intro a isGone
        by_cases same : a = c
        · rw [same]
          exact here
        · exact (there a same).trans isGone
      refine ⟨?_, here, ?_, ?_⟩
      · rw [← spec.memory, ← released]
        rfl
      · intro a
        by_cases same : a = c
        · rw [same]
          exact Or.inr ⟨here, ReflTransGen.refl⟩
        · rw [there a same]
          exact spec.others a same
      · intro a isGone x member
        by_cases same : a = c
        · exact staysGone x (spec.gone x (same ▸ member))
        · rw [there a same] at isGone
          exact staysGone x (spec.closed a same isGone x member)

/-! ## The children of a merged heap -/

/-- The child lists when the children of `x` have been put behind those of
`p`. -/
def mergeChildren (children : Nat → List Nat) (p x : Nat) : Nat → List Nat :=
  setChildren (setChildren children p (children p ++ children x)) x []

section Append

variable {p x : Nat}

theorem mergeChildren_source : mergeChildren children p x x = [] :=
  setChildren_same _ _ _

theorem mergeChildren_target (different : p ≠ x) :
    mergeChildren children p x p = children p ++ children x := by
  rw [mergeChildren, setChildren_other _ _ different, setChildren_same]

theorem mergeChildren_other {k : Nat} (notTarget : k ≠ p) (notSource : k ≠ x) :
    mergeChildren children p x k = children k := by
  rw [mergeChildren, setChildren_other _ _ notSource, setChildren_other _ _ notTarget]

theorem mem_mergeChildren {k a : Nat} (different : p ≠ x) :
    a ∈ mergeChildren children p x k ↔
      (k ≠ x ∧ a ∈ children k) ∨ (k = p ∧ a ∈ children x) := by
  by_cases atX : k = x
  · rw [atX, mergeChildren_source]
    grind
  · by_cases atP : k = p
    · rw [atP, mergeChildren_target different, List.mem_append]
      grind
    · rw [mergeChildren_other atP atX]
      grind

theorem findLastLink_spec (null : f.heaps 0 = none) {list : List Nat} :
    ∀ {link start depth result}, f.read link = .ok start → Chain f.next start list 0 →
      findLastLink f depth link = .ok result → result = linkBehind link list := by
  induction list with
  | nil =>
      intro link start depth result isStart chain run
      have isNull : start = 0 := chain
      cases depth with
      | zero => cases run
      | succ depth =>
          simp only [findLastLink, isStart, Outcome.ok_bind, isNull, ne_eq, not_true_eq_false,
            if_false, Outcome.pure_eq, Outcome.ok.injEq] at run
          exact run.symm
  | cons first rest inductionHypothesis =>
      intro link start depth result isStart chain run
      cases depth with
      | zero => cases run
      | succ depth =>
          obtain ⟨isFirst, successor, isNext, tail⟩ := chain
          obtain ⟨node, isNode, isSuccessor⟩ := next_eq_some.mp isNext
          have notNull : first ≠ 0 := by
            intro isNull
            rw [isNull, null] at isNode
            cases isNode
          have read : f.read (.next first) = .ok successor := by
            simp only [Family.read, get_eq_ok.mpr isNode, Outcome.ok_bind, Outcome.pure_eq,
              isSuccessor]
          simp only [findLastLink, isStart, Outcome.ok_bind, isFirst, if_pos notNull] at run
          exact inductionHypothesis read tail run

/-- The lists when the children of `x` have been moved. -/
private theorem Linked.of_moved (linked : Linked f children) {f₂ : Family}
    (targetLive : f.Live p) (different : p ≠ x) (apart : ¬ Below children p x)
    (own : SameOwn f f₂) (sameNext : ∀ k, k ∉ children p → f₂.next k = f.next k)
    (sameChild : ∀ k node', k ≠ p → k ≠ x → f₂.heaps k = some node' →
      ∃ node, f.heaps k = some node ∧ node'.child = node.child)
    (sourceEmpty : ∀ node', f₂.heaps x = some node' → node'.child = 0)
    (targetList : ∀ node', f₂.heaps p = some node' →
      Chain f₂.next node'.child (children p ++ children x) 0) :
    Linked f₂ (mergeChildren children p x) := by
  have live : ∀ k, f.Live k → f₂.Live k := fun k => own.live_iff.mpr
  refine ⟨?_, ?_, ?_, ?_, ?_, ?_, ?_⟩
  · have here := own.2 0
    rw [linked.null, Option.map_none, Option.map_eq_none_iff] at here
    exact here
  · intro k node' isNode
    by_cases atX : k = x
    · rw [atX, mergeChildren_source]
      exact sourceEmpty node' (atX ▸ isNode)
    · by_cases atP : k = p
      · rw [atP, mergeChildren_target different]
        exact targetList node' (atP ▸ isNode)
      · rw [mergeChildren_other atP atX]
        obtain ⟨node, wasNode, same⟩ := sameChild k node' atP atX isNode
        rw [same]
        apply (linked.lists k node wasNode).congr
        intro a member
        exact sameNext a fun inTarget => atP (linked.single k p a member inTarget)
  · intro k a member
    rcases (mem_mergeChildren different).mp member with ⟨_, old⟩ | ⟨atP, _⟩
    · exact live k (linked.live k a old)
    · exact live k (atP ▸ targetLive)
  · intro k
    by_cases atX : k = x
    · rw [atX, mergeChildren_source]
      exact List.nodup_nil
    · by_cases atP : k = p
      · rw [atP, mergeChildren_target different]
        apply List.nodup_append.mpr
        refine ⟨linked.nodup p, linked.nodup x, ?_⟩
        intro a inTarget b inSource same
        exact different (linked.single p x a inTarget (same ▸ inSource))
      · rw [mergeChildren_other atP atX]
        exact linked.nodup k
  · intro k l a inK inL
    rw [mem_mergeChildren different] at inK inL
    rcases inK with ⟨notX, oldK⟩ | ⟨atP, oldK⟩ <;>
      rcases inL with ⟨notXL, oldL⟩ | ⟨atPL, oldL⟩
    · exact linked.single k l a oldK oldL
    · exact absurd (linked.single k x a oldK oldL) notX
    · exact absurd (linked.single l x a oldL oldK) notXL
    · rw [atP, atPL]
  · intro k a member node' isNode
    obtain ⟨node, wasNode, sameOwn⟩ := own.exists_own isNode
    simp only [HeapNode.own, Prod.mk.injEq] at sameOwn
    rw [sameOwn.2.1]
    rcases (mem_mergeChildren different).mp member with ⟨_, old⟩ | ⟨_, old⟩
    · exact linked.parented k a old node wasNode
    · exact linked.parented x a old node wasNode
  · apply (linked.ranked.graft apart).mono
    intro a b related
    rcases (mem_mergeChildren different).mp related with ⟨_, old⟩ | ⟨atP, old⟩
    · exact Or.inl old
    · exact Or.inr ⟨atP, ReflTransGen.single old⟩

/-- The two assignments that move the children of `x`. -/
theorem Linked.append (linked : Linked f children) {pn xn : HeapNode}
    (isTarget : f.heaps p = some pn) (isSource : f.heaps x = some xn) (different : p ≠ x)
    (root : Root children x) (apart : ¬ Below children p x) :
    ∃ f₁ f₂, f.write xn.child (linkBehind (.child p) (children p)) = .ok f₁ ∧
      f₁.write 0 (.child x) = .ok f₂ ∧ Linked f₂ (mergeChildren children p x) ∧
      SameOwn f f₂ := by
  obtain ⟨f₁, run, written⟩ :=
    linked.write_linkBehind isTarget (List.append_nil (children p)).symm xn.child
  have sourceAfter : f₁.heaps x = some xn :=
    (written.others x (Ne.symm different) (root p)).trans isSource
  have own : SameOwn f (f₁.set x { xn with child := 0 }) :=
    written.own.trans (SameOwn.of_set sourceAfter rfl)
  have sameNext : ∀ k, (f₁.set x { xn with child := 0 }).next k = f₁.next k :=
    next_set_of_same sourceAfter { xn with child := 0 } rfl
  refine ⟨f₁, _, run, modify_of sourceAfter,
    linked.of_moved ⟨pn, isTarget⟩ different apart own ?_ ?_ ?_ ?_, own⟩
  · intro k notTarget
    rw [sameNext, written.next k notTarget]
  · intro k node' notTarget notSource isNode
    rw [set_other _ _ notSource] at isNode
    exact written.child k node' notTarget isNode
  · intro node' isNode
    rw [set_same, Option.some.injEq] at isNode
    rw [← isNode]
  · intro node' isNode
    rw [set_other _ _ different] at isNode
    refine Chain.append_iff.mpr ⟨xn.child, ?_, ?_⟩
    · exact (written.list node' isNode).congr fun a _ => sameNext a
    · apply (linked.lists x xn isSource).congr
      intro a inSource
      rw [sameNext]
      exact written.next a fun inTarget => different (linked.single p x a inTarget inSource)

end Append

/-! ## Merging -/

section Merge

variable {p x : Nat}

/-- What `merge` does to the pointers. -/
structure Merged (f : Family) (children : Nat → List Nat) (p x : Nat) (f' : Family) : Prop where
  linked : Linked f' (mergeChildren children p x)
  deleted : f'.heaps x = none
  parentOf : ∀ k, k ≠ x → f'.parentOf k = f.parentOf k

theorem mergeStorage_spec {depth : Nat} (run : f.mergeStorage depth p x = .ok f') :
    SameLinks f f' ∧ f.Live p ∧ f.Live x := by
  rw [mergeStorage] at run
  obtain ⟨pn, isTarget, run⟩ := Outcome.bind_eq_ok.mp run
  obtain ⟨xn, isSource, run⟩ := Outcome.bind_eq_ok.mp run
  obtain ⟨⟨storage, memory⟩, _, run⟩ := Outcome.bind_eq_ok.mp run
  obtain ⟨f₁, first, run⟩ := Outcome.bind_eq_ok.mp run
  obtain ⟨f₂, second, run⟩ := Outcome.bind_eq_ok.mp run
  rw [Outcome.pure_eq, Outcome.ok.injEq] at run
  refine ⟨?_, ⟨pn, get_eq_ok.mp isTarget⟩, ⟨xn, get_eq_ok.mp isSource⟩⟩
  have same := (SameLinks.of_modify first fun _ => rfl).trans
    (SameLinks.of_modify second fun _ => rfl)
  rw [← run]
  exact same

/-- A heap on no list is merged into one that is not below it. -/
theorem merge_spec (linked : Linked f children) (root : Root children x)
    (apart : ¬ Below children p x) {depth : Nat} (run : merge depth p x f = .ok f') :
    Merged f children p x f' := by
  have different : p ≠ x := fun same => apart (same ▸ ReflTransGen.refl)
  rw [merge] at run
  obtain ⟨f₀, stored, run⟩ := Outcome.bind_eq_ok.mp run
  obtain ⟨link, found, run⟩ := Outcome.bind_eq_ok.mp run
  obtain ⟨xn, gotSource, run⟩ := Outcome.bind_eq_ok.mp run
  obtain ⟨f₁, firstWrite, run⟩ := Outcome.bind_eq_ok.mp run
  obtain ⟨f₂, secondWrite, run⟩ := Outcome.bind_eq_ok.mp run
  obtain ⟨same, targetLive, _⟩ := mergeStorage_spec stored
  have linked₀ := linked.congr same
  obtain ⟨pn, isTarget⟩ := same.live_iff.mpr targetLive
  have isSource := get_eq_ok.mp gotSource
  have read : f₀.read (.child p) = .ok pn.child := by
    simp only [Family.read, get_eq_ok.mpr isTarget, Outcome.ok_bind, Outcome.pure_eq]
  have isLink := findLastLink_spec linked₀.null read (linked₀.lists p pn isTarget) found
  obtain ⟨_, _, sameFirst, sameSecond, linked₂, own⟩ :=
    linked₀.append isTarget isSource different root apart
  rw [isLink, sameFirst, Outcome.ok.injEq] at firstWrite
  rw [firstWrite, secondWrite, Outcome.ok.injEq] at sameSecond
  rw [← sameSecond] at linked₂ own
  have root₂ : Root (mergeChildren children p x) x := by
    intro k member
    rcases (mem_mergeChildren different).mp member with ⟨_, old⟩ | ⟨_, old⟩
    · exact root k old
    · exact root x old
  have destroyed := destroy_deletes depth f₂ _ x f' linked₂ root₂ run
  have onlySource : ∀ a, Below (mergeChildren children p x) a x → a = x := by
    intro a below
    rcases ReflTransGen.cases_tail below with isSame | ⟨c, _, member⟩
    · exact isSame.symm
    · unfold IsChild at member
      rw [mergeChildren_source] at member
      exact absurd member List.not_mem_nil
  have others : ∀ k, k ≠ x → f'.heaps k = f₂.heaps k := by
    intro k notSource
    rcases destroyed.others k with isSame | ⟨_, below⟩
    · exact isSame
    · exact absurd (onlySource k below) notSource
  refine ⟨?_, destroyed.deleted, ?_⟩
  · have kept : keep f' (mergeChildren children p x) = mergeChildren children p x := by
      funext k
      by_cases atX : k = x
      · rw [keep, atX, mergeChildren_source, ite_self]
      · cases isNode : f'.heaps k with
        | some node => exact keep_of_live ⟨node, isNode⟩
        | none =>
            rw [keep, isNode]
            rw [others k atX] at isNode
            cases isList : mergeChildren children p x k with
            | nil => rfl
            | cons a rest =>
                obtain ⟨node, isLive⟩ := linked₂.live k a (isList ▸ List.mem_cons_self)
                rw [isNode] at isLive
                cases isLive
    rw [← kept]
    exact destroyed.linked linked₂ root₂
  · intro k notSource
    rw [parentOf, others k notSource, ← parentOf, own.parentOf, same.parentOf]

end Merge

end Family

end Rcgo.Storage
