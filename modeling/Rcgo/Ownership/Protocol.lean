import Rcgo.Ownership.CurrentHeap
import Rcgo.Ownership.Holding

/-!
# The ownership protocol of heap links

A link is checked for change statements on itself only, so nothing stops code in
the body of a change statement from moving a heap that encloses the changed one,
once a link found inside a heap has got out of it.
-/

namespace Rcgo.Ownership

open Rcgo.Composition Foundation Relation Storage Family

variable {ι κ : Type}

/-- The event is a move or a merge that takes the heap of the link. -/
def Event.Takes (hl : Nat) (event : Event ι) : Prop :=
  (∃ new, event = .move hl new true) ∨ event = .merge hl true

/-- The event is a move or a merge that returns `NULL`. -/
def Event.Refuses (hl : Nat) (event : Event ι) : Prop :=
  (∃ new, event = .move hl new false) ∨ event = .merge hl false

/-- From the innermost callable inwards, each change statement is on a link to a
heap that is a child of the heap of the code around the statement. -/
def Contained (own : ι → Nat) (s : LinkedHeaps) : List (Frame ι) → Prop
  | .change hl _ :: rest =>
      (∃ outer list, codeHeap own s.links rest = some outer ∧ s.family.ChildList outer list ∧
        heapOf s.links hl ∈ list) ∧ Contained own s rest
  | _ => True

namespace System

/-- A move or merge that is executed in a change statement on a link that has got
out of its heap does not take a heap above the changed one. -/
def TakesOutside (own : ι → Nat) (transition : Transition (System ι κ) (κ × Event ι)) : Prop :=
  let s := transition.before
  let e := transition.event.1
  ∀ hl, transition.event.2.Takes hl →
    Contained own s.heaps (s.frames e) ∨
      ∀ link ∈ s.heaps.links hl, ∀ current ∈ s.currentHeap e,
        s.heaps.family.Descends current link.heap → current = link.heap

/-- The condition on a step. -/
structure Orderly (own : ι → Nat) (transition : Transition (System ι κ) (κ × Event ι)) : Prop where
  exclusive : Exclusive transition
  outside : TakesOutside own transition

/-- Who holds which heap in a state. -/
structure OwnedOnce (s : System ι κ) : Prop where
  oneLink : ∀ hl other, ∀ link ∈ s.heaps.links hl, ∀ otherLink ∈ s.heaps.links other,
    link.heap = otherLink.heap → s.heaps.family.Live link.heap → hl = other
  oneParent : ∀ c h k list others, s.heaps.family.ChildList h list → c ∈ list →
    s.heaps.family.ChildList k others → c ∈ others → h = k
  bodies : ∀ e hl oldHeap, .change hl (.inBody oldHeap) ∈ s.frames e →
    ∃ link ∈ s.heaps.links hl, s.heaps.family.Live link.heap

/-- What a step of the program does under the protocol. -/
structure KeepsProtocol (transition : Transition (System ι κ) (κ × Event ι)) : Prop where
  before : OwnedOnce transition.before
  after : OwnedOnce transition.after
  takes : ∀ hl, transition.event.2.Takes hl → ∀ e, countOf hl (transition.before.frames e) = 0
  refuses : ∀ hl, transition.event.2.Refuses hl → transition.after.heaps = transition.before.heaps
  newApart : ∀ h hl, transition.event.2 = .new h hl →
    ∀ current ∈ transition.before.currentHeap transition.event.1,
      ¬ transition.before.heaps.family.Descends current h
  takenApart : ∀ hl, transition.event.2.Takes hl → ∀ link ∈ transition.before.heaps.links hl,
    ∀ current ∈ transition.before.currentHeap transition.event.1,
      ¬ transition.before.heaps.family.Descends current link.heap

end System

/-! ## What is above the heap of the code -/

section Code

variable {own : ι → Nat} {s : LinkedHeaps} {children : Nat → List Nat} {frames : List (Frame ι)}

theorem countOf_pos_of_mem {hl : Nat} {stage : Stage} (member : .change hl stage ∈ frames) :
    0 < countOf hl frames := by
  induction frames with
  | nil => exact absurd member List.not_mem_nil
  | cons frame rest inductionHypothesis =>
      rcases List.mem_cons.mp member with rfl | isBelow
      · rw [countOf, if_pos rfl]
        exact Nat.add_pos_left Nat.one_pos _
      · cases frame with
        | «instance» info oldInfo within => exact inductionHypothesis isBelow
        | change other stage => exact Nat.add_pos_right _ (inductionHypothesis isBelow)

theorem codeHeap_of_running [DecidableEq ι] (running : Running frames)
    (nested : Nested own s.links frames) :
    (∃ i, codeHeap own s.links frames = some (own i)) ∨
      ∃ hl oldHeap, .change hl (.inBody oldHeap) ∈ frames ∧
        codeHeap own s.links frames = some (heapOf s.links hl) := by
  cases frames with
  | nil => exact running.elim
  | cons frame rest =>
      cases frame with
      | «instance» info oldInfo within =>
          rcases nested with ⟨rfl, _⟩
          exact Or.inl ⟨info, rfl⟩
      | change hl stage =>
          cases stage with
          | inBody oldHeap => exact Or.inr ⟨hl, oldHeap, List.mem_cons_self, rfl⟩
          | counted => exact running.elim
          | saved oldHeap => exact running.elim
          | restored => exact running.elim

theorem Held.above_of_contained [DecidableEq ι] (held : Held own s children)
    (nested : Nested own s.links frames) (contained : Contained own s frames) {current h : Nat}
    (isCode : codeHeap own s.links frames = some current) (below : Below children current h) :
    (∃ hl, 0 < countOf hl frames ∧ heapOf s.links hl = h) ∨ ∃ i, h = own i := by
  induction frames generalizing current with
  | nil => cases isCode
  | cons frame rest inductionHypothesis =>
      cases frame with
      | «instance» info oldInfo within =>
          rcases nested with ⟨rfl, _⟩
          cases isCode
          rcases ReflTransGen.cases_head below with isSame | ⟨parent, member, _⟩
          · exact Or.inr ⟨info, isSame.symm⟩
          · exact absurd member (held.linked.of_parentOf (held.ownRoot info) parent)
      | change hl stage =>
          cases stage with
          | inBody oldHeap =>
              cases isCode
              rcases ReflTransGen.cases_head below with isSame | ⟨parent, member, above⟩
              · refine Or.inl ⟨hl, ?_, isSame⟩
                exact countOf_pos_of_mem List.mem_cons_self
              · rcases contained.1 with ⟨outer, list, isOuter, isList, isChild⟩
                rw [(held.linked.childList_iff.mp isList).2] at isChild
                cases held.linked.single parent outer _ member isChild
                rcases inductionHypothesis nested.2 contained.2 isOuter above with
                  ⟨other, onLink, isH⟩ | isOwn
                · exact Or.inl ⟨other, Nat.add_pos_right _ onLink, isH⟩
                · exact Or.inr isOwn
          | counted => cases isCode
          | saved oldHeap => cases isCode
          | restored => cases isCode

end Code

namespace System

variable [DecidableEq ι] [DecidableEq κ] [Fintype κ] {own : ι → Nat}

omit [Fintype κ] in
theorem Step.taken {s s' : System ι κ} {e : κ} {event : Event ι} (step : Step s (e, event) s')
    {hl : Nat} (takes : event.Takes hl) :
    Running (s.frames e) ∧
      ∃ link, s.heaps.links hl = some link ∧ link.heap ≠ 0 ∧ link.changeCount = 0 := by
  cases step with
  | @move _ current other new result running isHeap linkFresh executes =>
      rcases takes with ⟨_, isEvent⟩ | isEvent
      · injection isEvent with sameLink _ succeeds
        rcases executes with ⟨bound, returns⟩
        rcases LinkedHeaps.moveOp_eq_ok (returns bound (Nat.le_refl bound)) with
          rfl | ⟨link, _, _, isLink, notNull, noChange, _⟩
        · cases succeeds
        · exact ⟨running, link, sameLink ▸ isLink, notNull, noChange⟩
      · cases isEvent
  | @merge _ current other result running isHeap executes =>
      rcases takes with ⟨_, isEvent⟩ | isEvent
      · cases isEvent
      · injection isEvent with sameLink succeeds
        rcases executes with ⟨bound, returns⟩
        rcases LinkedHeaps.mergeOp_eq_ok (returns bound (Nat.le_refl bound)) with
          rfl | ⟨link, _, _, isLink, notNull, noChange, _⟩
        · cases succeeds
        · exact ⟨running, link, sameLink ▸ isLink, notNull, noChange⟩
  | _ => rcases takes with ⟨_, isEvent⟩ | isEvent <;> cases isEvent

omit [Fintype κ] in
/-- A move or merge that returns `NULL` leaves the heaps and the links alone. -/
theorem Step.refused {s s' : System ι κ} {e : κ} {event : Event ι} (step : Step s (e, event) s')
    {hl : Nat} (refuses : event.Refuses hl) : s'.heaps = s.heaps := by
  cases step with
  | @move _ current other new result running isHeap linkFresh executes =>
      rcases refuses with ⟨_, isEvent⟩ | isEvent
      · injection isEvent with _ _ fails
        rcases executes with ⟨bound, returns⟩
        rcases LinkedHeaps.moveOp_eq_ok (returns bound (Nat.le_refl bound)) with
          rfl | ⟨_, _, _, _, _, _, _, _, rfl⟩
        · rfl
        · cases fails
      · cases isEvent
  | @merge _ current other result running isHeap executes =>
      rcases refuses with ⟨_, isEvent⟩ | isEvent
      · cases isEvent
      · injection isEvent with _ fails
        rcases executes with ⟨bound, returns⟩
        rcases LinkedHeaps.mergeOp_eq_ok (returns bound (Nat.le_refl bound)) with
          rfl | ⟨_, _, _, _, _, _, _, _, rfl⟩
        · rfl
        · cases fails
  | _ => rcases refuses with ⟨_, isEvent⟩ | isEvent <;> cases isEvent

omit [Fintype κ] in
theorem Step.made {s s' : System ι κ} {e : κ} {event : Event ι} (step : Step s (e, event) s')
    {h hl : Nat} (isNew : event = .new h hl) :
    Running (s.frames e) ∧ ¬ s.heaps.family.Live h := by
  cases step with
  | new running isHeap heapFresh linkFresh executes =>
      injection isNew with sameHeap _
      exact ⟨running, sameHeap ▸ heapFresh.2⟩
  | _ => cases isNew

/-- What is known in every state of a run under the condition. -/
structure Governed (own : ι → Nat) (s : System ι κ) (children : Nat → List Nat) : Prop
    extends Kept own s where
  held : Held own s.heaps children
  bodies : ∀ e hl oldHeap, .change hl (.inBody oldHeap) ∈ s.frames e → heapOf s.heaps.links hl ≠ 0

namespace Governed

variable {s s' : System ι κ} {children : Nat → List Nat} {e : κ} {current : Nat}

theorem codeHeap_eq (governed : Governed own s children) (running : Running (s.frames e))
    (isCurrent : s.currentHeap e = some current) :
    codeHeap own s.heaps.links (s.frames e) = some current := by
  have right := governed.bracketed.rightHeaps governed.tracks
  rcases codeHeap_of_running running (governed.bracketed.nested e) with
    ⟨i, isCode⟩ | ⟨hl, oldHeap, _, isCode⟩ <;>
  · rw [right.allocates e _ isCode] at isCurrent
    rwa [isCurrent] at isCode

theorem current_live (governed : Governed own s children) (running : Running (s.frames e))
    (isCurrent : s.currentHeap e = some current) : s.heaps.family.Live current := by
  have isHeap := governed.codeHeap_eq running isCurrent
  rcases codeHeap_of_running running (governed.bracketed.nested e) with
    ⟨i, isCode⟩ | ⟨hl, oldHeap, member, isCode⟩
  · cases isCode.symm.trans isHeap
    exact live_of_parentOf (governed.held.ownRoot i)
  · cases isCode.symm.trans isHeap
    exact governed.held.live hl (governed.bodies e hl oldHeap member)

theorem ne_heapOf (governed : Governed own s children) {hl other : Nat} {link : HeapLink}
    (isLink : s.heaps.links hl = some link) (notNull : link.heap ≠ 0)
    (noChange : link.changeCount = 0) (onOther : 0 < countOf other (s.frames e)) :
    heapOf s.heaps.links other ≠ link.heap := by
  intro same
  have here := heapOf_eq isLink
  have isHl : other = hl := governed.held.unique other hl (same.trans here.symm) (same ▸ notNull)
  have counts := governed.counted.pos (isHl ▸ onOther)
  rw [changeCount_eq isLink, noChange] at counts
  exact Nat.lt_irrefl 0 counts

theorem apart (governed : Governed own s children) {hl : Nat} {link : HeapLink}
    (running : Running (s.frames e)) (isCurrent : s.currentHeap e = some current)
    (isLink : s.heaps.links hl = some link) (notNull : link.heap ≠ 0)
    (noChange : link.changeCount = 0)
    (outside : Contained own s.heaps (s.frames e) ∨
      (s.heaps.family.Descends current link.heap → current = link.heap)) :
    ¬ Below children current link.heap := by
  intro below
  have isCode := governed.codeHeap_eq running isCurrent
  have notOwn : ∀ i, link.heap ≠ own i := fun i =>
    heapOf_eq isLink ▸ governed.held.notOwn hl i
  rcases outside with contained | onlySame
  · rcases governed.held.above_of_contained (governed.bracketed.nested e) contained isCode below
      with ⟨other, onOther, isSame⟩ | ⟨i, isOwn⟩
    · exact governed.ne_heapOf isLink notNull noChange onOther isSame
    · exact notOwn i isOwn
  · have isSame := onlySame (governed.held.linked.descends_iff.mpr below)
    rcases codeHeap_of_running running (governed.bracketed.nested e) with
      ⟨i, isOwn⟩ | ⟨other, oldHeap, member, isOther⟩
    · cases isCode.symm.trans isOwn
      exact notOwn i isSame.symm
    · cases isCode.symm.trans isOther
      exact governed.ne_heapOf isLink notNull noChange (countOf_pos_of_mem member) isSame

theorem ownedOnce (governed : Governed own s children) : OwnedOnce s where
  oneLink hl other link isLink otherLink isOther same isLive := by
    apply governed.held.unique hl other
    · rw [heapOf_eq isLink, heapOf_eq isOther, same]
    · rw [heapOf_eq isLink]
      exact governed.held.linked.ne_null isLive
  oneParent c h k list others isList member isOther otherMember := by
    rw [(governed.held.linked.childList_iff.mp isList).2] at member
    rw [(governed.held.linked.childList_iff.mp isOther).2] at otherMember
    exact governed.held.linked.single h k c member otherMember
  bodies e hl oldHeap member := by
    have notNull := governed.bodies e hl oldHeap member
    have isLive := governed.held.live hl notNull
    cases isLink : s.heaps.links hl with
    | none =>
        rw [heapOf, isLink] at notNull
        exact absurd rfl notNull
    | some link =>
        rw [heapOf_eq isLink] at isLive
        exact ⟨link, rfl, isLive⟩

theorem held_step (governed : Governed own s children) {event : Event ι}
    (step : Step s (e, event) s') (outside : TakesOutside own ⟨s, (e, event), s'⟩) :
    ∃ lists, Held own s'.heaps lists := by
  have held := governed.held
  cases step with
  | use running same => exact ⟨children, held.congr same fun _ => rfl⟩
  | countChange running isLink =>
      exact ⟨children, held.congr (SameLinks.refl _) (heapOf_setCount isLink _)⟩
  | uncountChange isTop isLink =>
      exact ⟨children, held.congr (SameLinks.refl _) (heapOf_setCount isLink _)⟩
  | new running isHeap heapFresh linkFresh executes =>
      exact held.newOp (governed.current_live running isHeap) heapFresh.1 heapFresh.2 executes
  | @move _ current hl new result running isHeap linkFresh executes =>
      rcases executes with ⟨bound, returns⟩
      have run := returns bound (Nat.le_refl bound)
      apply held.moveOp (governed.current_live running isHeap) ?_ run
      intro link isLink notNull noChange
      have succeeds := LinkedHeaps.moveOp_succeeds isLink notNull noChange run
      apply governed.apart running isHeap isLink notNull noChange
      exact (outside hl (Or.inl ⟨new, congrArg _ succeeds⟩)).imp_right
        fun notAbove => notAbove link isLink current isHeap
  | @merge _ current hl result running isHeap executes =>
      rcases executes with ⟨bound, returns⟩
      have run := returns bound (Nat.le_refl bound)
      apply held.mergeOp ?_ run
      intro link isLink notNull noChange
      have succeeds := LinkedHeaps.mergeOp_succeeds isLink notNull noChange run
      apply governed.apart running isHeap isLink notNull noChange
      exact (outside hl (Or.inr (congrArg _ succeeds))).imp_right
        fun notAbove => notAbove link isLink current isHeap
  | begin idle noneLocked compatible => exact ⟨children, held.congr (SameLinks.refl _) fun _ => rfl⟩
  | finish idle noneDeferred => exact ⟨children, held.congr (SameLinks.refl _) fun _ => rfl⟩
  | enter running locked => exact ⟨children, held.congr (SameLinks.refl _) fun _ => rfl⟩
  | leave isTop => exact ⟨children, held.congr (SameLinks.refl _) fun _ => rfl⟩
  | activate running isCurrent => exact ⟨children, held.congr (SameLinks.refl _) fun _ => rfl⟩
  | runDeferred idle isDeferred => exact ⟨children, held.congr (SameLinks.refl _) fun _ => rfl⟩
  | saveHeap isTop isHeap => exact ⟨children, held.congr (SameLinks.refl _) fun _ => rfl⟩
  | setHeap isTop isCurrent isLink rootRead =>
      exact ⟨children, held.congr (SameLinks.refl _) fun _ => rfl⟩
  | restoreHeap isTop isCurrent => exact ⟨children, held.congr (SameLinks.refl _) fun _ => rfl⟩

theorem bodies_update (governed : Governed own s children) {calls : List (Frame ι)}
    (frames : s'.frames = Function.update s.frames e calls)
    (same : ∀ hl, heapOf s'.heaps.links hl = heapOf s.heaps.links hl)
    (known : ∀ hl oldHeap, .change hl (.inBody oldHeap) ∈ calls →
      .change hl (.inBody oldHeap) ∈ s.frames e ∨ heapOf s.heaps.links hl ≠ 0)
    (k : κ) (hl oldHeap : Nat) (member : .change hl (.inBody oldHeap) ∈ s'.frames k) :
    heapOf s'.heaps.links hl ≠ 0 := by
  rw [frames] at member
  rw [same]
  by_cases here : k = e
  · rw [here, Function.update_self] at member
    rcases known hl oldHeap member with before | notNull
    · exact governed.bodies e hl oldHeap before
    · exact notNull
  · rw [Function.update_of_ne here] at member
    exact governed.bodies k hl oldHeap member

theorem bodies_step (governed : Governed own s children) {event : Event ι}
    (effect : Effect s e event s') (k : κ) (hl oldHeap : Nat)
    (member : .change hl (.inBody oldHeap) ∈ s'.frames k) : heapOf s'.heaps.links hl ≠ 0 := by
  cases effect with
  | keeps frames _ _ links =>
      rw [frames] at member
      rw [links.heapOf_eq hl (governed.counted.pos (countOf_pos_of_mem member))]
      exact governed.bodies k hl oldHeap member
  | enters info within _ frames _ _ links =>
      refine governed.bodies_update frames (fun _ => by rw [links]) ?_ k hl oldHeap member
      intro other old isMember
      exact Or.inl (List.mem_of_ne_of_mem (by simp) isMember)
  | leaves info oldInfo within rest isTop frames _ _ links =>
      refine governed.bodies_update frames (fun _ => by rw [links]) ?_ k hl oldHeap member
      intro other old isMember
      rw [isTop]
      exact Or.inl (List.mem_cons_of_mem _ isMember)
  | counts other _ frames _ _ same _ =>
      refine governed.bodies_update frames same ?_ k hl oldHeap member
      intro other old isMember
      exact Or.inl (List.mem_of_ne_of_mem (by simp) isMember)
  | saves other info rest _ isTop _ frames _ _ links =>
      refine governed.bodies_update frames (fun _ => by rw [links]) ?_ k hl oldHeap member
      intro other old isMember
      rw [isTop]
      exact Or.inl (List.mem_cons_of_mem _ (List.mem_of_ne_of_mem (by simp) isMember))
  | sets link old info rest isTop _ frames _ _ isLive links =>
      refine governed.bodies_update frames (fun _ => by rw [links]) ?_ k hl oldHeap member
      intro other oldHeap isMember
      rw [isTop]
      rcases List.mem_cons.mp isMember with isHere | isBelow
      · cases isHere
        exact Or.inr (governed.held.linked.ne_null isLive)
      · exact Or.inl (List.mem_cons_of_mem _ isBelow)
  | restores link old info rest isTop _ frames _ _ links =>
      refine governed.bodies_update frames (fun _ => by rw [links]) ?_ k hl oldHeap member
      intro other oldHeap isMember
      rw [isTop]
      exact Or.inl (List.mem_cons_of_mem _ (List.mem_of_ne_of_mem (by simp) isMember))
  | uncounts link rest isTop frames _ _ same _ =>
      refine governed.bodies_update frames same ?_ k hl oldHeap member
      intro other oldHeap isMember
      rw [isTop]
      exact Or.inl (List.mem_cons_of_mem _ isMember)

theorem step (governed : Governed own s children) {event : Event ι}
    (step : Step s (e, event) s') (orderly : Orderly own ⟨s, (e, event), s'⟩) :
    ∃ lists, Governed own s' lists := by
  rcases governed.held_step step orderly.outside with ⟨lists, held⟩
  exact ⟨lists, { toKept := governed.toKept.step step orderly.exclusive
                  held := held
                  bodies := governed.bodies_step step.effect }⟩

theorem keepsProtocol (governed : Governed own s children) {event : Event ι}
    (step : Step s (e, event) s') (orderly : Orderly own ⟨s, (e, event), s'⟩) :
    KeepsProtocol ⟨s, (e, event), s'⟩ where
  before := governed.ownedOnce
  after := by
    rcases governed.step step orderly with ⟨lists, after⟩
    exact after.ownedOnce
  takes hl takes k := by
    rcases step.taken takes with ⟨_, link, isLink, _, noChange⟩
    have counts := governed.counted hl
    rw [changeCount_eq isLink, noChange] at counts
    exact Finset.sum_eq_zero_iff.mp counts.symm k (Finset.mem_univ k)
  refuses hl refuses := step.refused refuses
  newApart h hl isNew current isCurrent descends := by
    rcases step.made isNew with ⟨running, notLive⟩
    exact governed.held.not_below_of_not_live notLive (governed.current_live running isCurrent)
      (governed.held.linked.descends_iff.mp descends)
  takenApart hl takes link isLink current isCurrent descends := by
    rcases step.taken takes with ⟨running, same, isSame, notNull, noChange⟩
    cases isSame.symm.trans isLink
    refine governed.apart running isCurrent isLink notNull noChange ?_
      (governed.held.linked.descends_iff.mp descends)
    exact (orderly.outside hl takes).imp_right fun notAbove => notAbove link isLink current isCurrent

end Governed

theorem Initial.governed {s : System ι κ} (initial : Initial own s) :
    Governed own s fun _ => [] where
  toKept := initial.kept
  held :=
    { linked := initial.childless
      live := fun hl notNull => by
        rw [heapOf, initial.noLinks] at notNull
        exact absurd rfl notNull
      unique := fun hl _ _ notNull => by
        rw [heapOf, initial.noLinks] at notNull
        exact absurd rfl notNull
      ownRoot := initial.ownRoot
      notOwn := fun hl i => by
        rw [heapOf, initial.noLinks]
        exact (initial.childless.ne_null (live_of_parentOf (initial.ownRoot i))).symm }
  bodies e hl oldHeap member := by
    rw [frames, initial.idle] at member
    exact absurd member List.not_mem_nil

/-- In every run in which change statements run alone on their instances and moves
and merges in escaped ones stay outside, the protocol is kept. -/
theorem protocol_of_outside {transitions : List (Transition (System ι κ) (κ × Event ι))}
    (run : Run own transitions)
    (orderly : ∀ transition ∈ transitions, Orderly own transition) :
    ∀ transition ∈ transitions, KeepsProtocol transition := by
  rcases run with ⟨start, finish, initial, trace⟩
  refine trace.forall_of_invariant (fun s => ∃ children, Governed own s children)
    (Orderly own) ?_ ?_ ⟨_, initial.governed⟩ orderly
  · rintro before ⟨e, event⟩ after ⟨children, governed⟩ step isOrderly
    exact governed.step step isOrderly
  · rintro before ⟨e, event⟩ after ⟨children, governed⟩ step isOrderly
    exact governed.keepsProtocol step isOrderly

/-! ## A link that has got out of its heap -/

private abbrev OrderlyStep (s : System Unit (Fin 2)) (x : Fin 2 × Event Unit)
    (s' : System Unit (Fin 2)) : Prop :=
  Step s x s' ∧ Orderly (fun _ => 16) ⟨s, x, s'⟩

private theorem takesOutside_of_not_takes {s s' : System Unit (Fin 2)} {x : Fin 2 × Event Unit}
    (not : ∀ hl, ¬ x.2.Takes hl) : TakesOutside (fun _ => 16) ⟨s, x, s'⟩ :=
  fun hl takes => absurd takes (not hl)

private theorem Step.moves {s : System Unit (Fin 2)} {e : Fin 2} {current hl new : Nat}
    {heaps : LinkedHeaps} (running : Running (s.frames e)) (isHeap : s.currentHeap e = some current)
    (linkFresh : new ≠ 0 ∧ s.heaps.links new = none)
    (executes : ∀ depth, s.heaps.moveOp (depth + 1) current hl new = .ok (heaps, true)) :
    Step s (e, .move hl new true) { s with heaps := heaps } := by
  refine Step.move running isHeap linkFresh (?_ : Outcome.Returns _ (heaps, true))
  refine ⟨1, fun depth enough => ?_⟩
  rcases Nat.exists_eq_add_of_le' enough with ⟨deeper, rfl⟩
  exact executes deeper

private theorem moveRun :
    Reaches OrderlyStep (fun s => (s.heaps.links 96).map HeapLink.heap = some 32) 4 oneInstance := by
  apply Reaches.cons (0, .begin fun _ => some .accessWrite)
  · exact ⟨.begin rfl rfl fun _ _ => compatible_none _, trivial,
      takesOutside_of_not_takes (by simp [Event.Takes])⟩
  apply Reaches.cons (0, .enter ())
  · exact ⟨.enter (Or.inl rfl) (by decide), Fin.forall_fin_two.mpr ⟨id, id⟩,
      takesOutside_of_not_takes (by simp [Event.Takes])⟩
  apply Reaches.cons (0, .new 32 64)
  · refine ⟨.new trivial rfl ⟨by decide, ?_⟩ ⟨by decide, rfl⟩
      (show LinkedHeaps.newOp 16 32 64 (Heap.external 0 0) _ = _ from rfl), trivial,
      takesOutside_of_not_takes (by simp [Event.Takes])⟩
    rintro ⟨node, isNode⟩
    cases isNode
  apply Reaches.cons (0, .move 64 96 true)
  · exact ⟨.moves trivial rfl ⟨by decide, rfl⟩ fun _ => rfl, trivial, fun _ _ => Or.inl trivial⟩
  exact .here rfl

theorem protocol_of_outside_moveRun :
    ∃ transitions finish, Trace Step oneInstance transitions finish ∧ transitions.length = 4 ∧
      (finish.heaps.links 96).map HeapLink.heap = some 32 ∧
        ∀ transition ∈ transitions, KeepsProtocol transition := by
  rcases moveRun with ⟨transitions, finish, isLength, isMoved, trace⟩
  have allowed := trace.of_allowed
  exact ⟨transitions, finish, allowed.1, isLength, isMoved, protocol_of_outside
    ⟨oneInstance, finish, oneInstance_initial, allowed.1⟩ allowed.2⟩

/-- The link to a heap inside another heap gets out of the change statement on
that heap, and in a change statement on it the outer heap is moved. -/
private theorem escapeRun :
    Reaches Step (fun s => ∃ heaps,
      Step s (0, .move 64 96 true) { s with heaps := heaps } ∧
        s.currentHeap 0 = some 48 ∧ (s.heaps.links 64).map HeapLink.heap = some 32 ∧
          s.heaps.family.Descends 48 32) 12 oneInstance := by
  apply Reaches.cons (0, .begin fun _ => some .accessWrite)
  · exact .begin rfl rfl fun _ _ => compatible_none _
  apply Reaches.cons (0, .enter ())
  · exact .enter (Or.inl rfl) (by decide)
  apply Reaches.cons (0, .new 32 64)
  · refine .new trivial rfl ⟨by decide, ?_⟩ ⟨by decide, rfl⟩
      (show LinkedHeaps.newOp 16 32 64 (Heap.external 0 0) _ = _ from rfl)
    rintro ⟨node, isNode⟩
    cases isNode
  apply Reaches.cons (0, .countChange 64)
  · exact .countChange trivial rfl
  apply Reaches.cons (0, .saveHeap)
  · exact .saveHeap rfl rfl
  apply Reaches.cons (0, .setHeap)
  · exact .setHeap rfl rfl rfl ⟨_, rfl⟩
  apply Reaches.cons (0, .new 48 80)
  · refine .new trivial rfl ⟨by decide, ?_⟩ ⟨by decide, rfl⟩
      (show LinkedHeaps.newOp 32 48 80 (Heap.external 0 0) _ = _ from rfl)
    rintro ⟨node, isNode⟩
    cases isNode
  apply Reaches.cons (0, .restoreHeap)
  · exact .restoreHeap rfl rfl
  apply Reaches.cons (0, .uncountChange)
  · exact .uncountChange rfl rfl
  apply Reaches.cons (0, .countChange 80)
  · exact .countChange trivial rfl
  apply Reaches.cons (0, .saveHeap)
  · exact .saveHeap rfl rfl
  apply Reaches.cons (0, .setHeap)
  · exact .setHeap rfl rfl rfl ⟨_, rfl⟩
  apply Reaches.here
  refine ⟨_, .moves trivial rfl ⟨by decide, rfl⟩ fun _ => rfl, rfl, rfl, ?_⟩
  exact ReflTransGen.single ⟨[48], ⟨_, rfl, rfl, 0, rfl, rfl⟩, List.mem_cons_self⟩

/-- A heap is moved below one of its own descendants. -/
theorem escapeRun_not_keepsProtocol :
    ∃ transitions : List (Transition (System Unit (Fin 2)) (Fin 2 × Event Unit)),
      Run (fun _ => 16) transitions ∧ ∃ transition ∈ transitions, ¬ KeepsProtocol transition := by
  rcases escapeRun with
    ⟨transitions, finish, _, ⟨heaps, moves, isCurrent, isLink, descends⟩, trace⟩
  refine ⟨_, ⟨oneInstance, _, oneInstance_initial, trace.snoc moves⟩, _,
    List.mem_append_right transitions List.mem_cons_self, ?_⟩
  intro keeps
  rcases Option.map_eq_some_iff.mp isLink with ⟨link, isLink, isHeap⟩
  apply keeps.takenApart 64 (Or.inl ⟨96, rfl⟩) link isLink 48 isCurrent
  rw [isHeap]
  exact descends

end System

end Rcgo.Ownership
