import Rcgo.Ownership.Calls

/-!
# The heap that an instance records

Change statements save, set and restore the heap that is recorded for their
instance.  Where nothing else runs on behalf of the instance in between, each
allocation is made in the heap of the code that asks for it.
-/

namespace Rcgo.Ownership

open Rcgo.Composition Foundation Storage

variable {ι κ : Type}

/-- The old heap has been saved and not been restored. -/
def Stage.oldHeap : Stage → Option Nat
  | .counted => none
  | .saved oldHeap => some oldHeap
  | .inBody oldHeap => some oldHeap
  | .restored => none

/-- The body of a change statement runs on behalf of the instance. -/
def BodyRuns (i : ι) : List (Frame ι) → Prop
  | [] => False
  | .instance _ _ _ :: rest => BodyRuns i rest
  | .change _ stage :: rest =>
      (owner rest = some i ∧ ∃ oldHeap, stage = .inBody oldHeap) ∨ BodyRuns i rest

/-- A change statement is between the saving of the heap of the instance and its
restoring. -/
def Engaged (i : ι) : List (Frame ι) → Prop
  | [] => False
  | .instance _ _ _ :: rest => Engaged i rest
  | .change _ stage :: rest => (owner rest = some i ∧ stage.oldHeap ≠ none) ∨ Engaged i rest

theorem Engaged.mem_infos {i : ι} {frames : List (Frame ι)} (engaged : Engaged i frames) :
    i ∈ infos frames := by
  induction frames with
  | nil => exact engaged.elim
  | cons frame rest inductionHypothesis =>
      cases frame with
      | «instance» info oldInfo within =>
          exact List.mem_cons_of_mem info (inductionHypothesis engaged)
      | change hl stage =>
          rcases engaged with ⟨isOwner, _⟩ | others
          · exact owner_mem_infos isOwner
          · exact inductionHypothesis others

theorem BodyRuns.engaged {i : ι} {frames : List (Frame ι)} (runs : BodyRuns i frames) :
    Engaged i frames := by
  induction frames with
  | nil => exact runs.elim
  | cons frame rest inductionHypothesis =>
      cases frame with
      | «instance» info oldInfo within => exact inductionHypothesis runs
      | change hl stage =>
          rcases runs with ⟨isOwner, oldHeap, rfl⟩ | others
          · exact Or.inl ⟨isOwner, Option.some_ne_none oldHeap⟩
          · exact Or.inr (inductionHypothesis others)

section HeapUnder

variable [DecidableEq ι] (own : ι → Nat) (links : Nat → Option HeapLink)

/-- The heap that the calls leave recorded for an instance: that of the innermost
change statement whose body runs on its behalf, or its own. -/
def heapUnder (i : ι) : List (Frame ι) → Nat
  | [] => own i
  | .instance _ _ _ :: rest => heapUnder i rest
  | .change hl (.inBody _) :: rest =>
      if owner rest = some i then heapOf links hl else heapUnder i rest
  | .change _ _ :: rest => heapUnder i rest

/-- Change statements have saved what the calls below left recorded, no callable
was entered while a change statement of its instance was engaged, and no deferred
body was written in a change statement. -/
def Nested : List (Frame ι) → Prop
  | [] => True
  | .instance info _ within :: rest => within = none ∧ ¬ Engaged info rest ∧ Nested rest
  | .change _ stage :: rest =>
      (∀ i, owner rest = some i →
        ∀ oldHeap ∈ stage.oldHeap, oldHeap = heapUnder own links i rest) ∧ Nested rest

variable {own links}

theorem heapUnder_of_not_bodyRuns {i : ι} {frames : List (Frame ι)}
    (notRuns : ¬ BodyRuns i frames) : heapUnder own links i frames = own i := by
  induction frames with
  | nil => rfl
  | cons frame rest inductionHypothesis =>
      cases frame with
      | «instance» info oldInfo within => exact inductionHypothesis notRuns
      | change hl stage =>
          have notBelow : ¬ BodyRuns i rest := fun runs => notRuns (Or.inr runs)
          cases stage with
          | inBody oldHeap =>
              have notOwner : owner rest ≠ some i :=
                fun isOwner => notRuns (Or.inl ⟨isOwner, oldHeap, rfl⟩)
              rw [heapUnder, if_neg notOwner]
              exact inductionHypothesis notBelow
          | counted => exact inductionHypothesis notBelow
          | saved oldHeap => exact inductionHypothesis notBelow
          | restored => exact inductionHypothesis notBelow

theorem heapUnder_of_not_engaged {i : ι} {frames : List (Frame ι)}
    (notEngaged : ¬ Engaged i frames) : heapUnder own links i frames = own i :=
  heapUnder_of_not_bodyRuns fun runs => notEngaged runs.engaged

theorem heapUnder_change {hl : Nat} {stage : Stage} (notBody : ∀ oldHeap, stage ≠ .inBody oldHeap)
    (i : ι) (rest : List (Frame ι)) :
    heapUnder own links i (.change hl stage :: rest) = heapUnder own links i rest := by
  cases stage with
  | inBody oldHeap => exact absurd rfl (notBody oldHeap)
  | counted => rfl
  | saved oldHeap => rfl
  | restored => rfl

theorem heapUnder_congr {others : Nat → Option HeapLink} {frames : List (Frame ι)}
    (same : ∀ hl, 0 < countOf hl frames → heapOf others hl = heapOf links hl) (i : ι) :
    heapUnder own others i frames = heapUnder own links i frames := by
  induction frames with
  | nil => rfl
  | cons frame rest inductionHypothesis =>
      cases frame with
      | «instance» info oldInfo within => exact inductionHypothesis same
      | change hl stage =>
          have below := inductionHypothesis fun other positive =>
            same other (Nat.add_pos_right _ positive)
          cases stage with
          | inBody oldHeap =>
              have here : 0 < countOf hl (.change hl (.inBody oldHeap) :: rest : List (Frame ι)) := by
                rw [countOf, if_pos rfl]
                exact Nat.add_pos_left Nat.one_pos _
              rw [heapUnder, heapUnder, same hl here, below]
          | counted => exact below
          | saved oldHeap => exact below
          | restored => exact below

theorem nested_congr {others : Nat → Option HeapLink} {frames : List (Frame ι)}
    (same : ∀ hl, 0 < countOf hl frames → heapOf others hl = heapOf links hl)
    (nested : Nested own links frames) : Nested own others frames := by
  induction frames with
  | nil => trivial
  | cons frame rest inductionHypothesis =>
      cases frame with
      | «instance» info oldInfo within =>
          exact ⟨nested.1, nested.2.1, inductionHypothesis same nested.2.2⟩
      | change hl stage =>
          have below : ∀ other, 0 < countOf other rest → heapOf others other = heapOf links other :=
            fun other positive => same other (Nat.add_pos_right _ positive)
          refine ⟨?_, inductionHypothesis below nested.2⟩
          intro i isOwner oldHeap isOld
          rw [heapUnder_congr below]
          exact nested.1 i isOwner oldHeap isOld

end HeapUnder

namespace System

/-! ## The condition -/

/-- While a change statement of an instance is engaged nothing else runs on behalf
of the instance: no callable of it is entered, by whichever executor, and its heap
is saved only while no other executor has code of it among its calls.  No activate
statement is executed in the body of a change statement. -/
def Exclusive (transition : Transition (System ι κ) (κ × Event ι)) : Prop :=
  let s := transition.before
  let e := transition.event.1
  match transition.event.2 with
  | .enter info => ∀ other, ¬ Engaged info (s.frames other)
  | .runDeferred =>
      ∀ body ∈ (s.executors e).deferred.head?, ∀ other, ¬ Engaged body.1 (s.frames other)
  | .saveHeap => ∀ info ∈ s.infoOf e, ∀ other, other ≠ e → info ∉ infos (s.frames other)
  | .activate => withinChange (s.frames e) = none
  | _ => True

/-! ## The invariant -/

/-- No deferred body was written in a change statement. -/
def Plain (s : System ι κ) : Prop :=
  ∀ e, ∀ body ∈ s.deferred e, body.2 = none

theorem Exclusive.enters {s s' : System ι κ} {e : κ} {event : Event ι} {info : ι}
    {within : Option Nat} (exclusive : Exclusive ⟨s, (e, event), s'⟩) (plain : Plain s)
    (isEvent : (event = .enter info ∧ within = none) ∨
      (event = .runDeferred ∧ (info, within) ∈ (s.executors e).deferred.head?)) :
    within = none ∧ ∀ other, ¬ Engaged info (s.frames other) := by
  rcases isEvent with ⟨rfl, isNone⟩ | ⟨rfl, isFirst⟩
  · exact ⟨isNone, exclusive⟩
  · exact ⟨plain e (info, within) (List.mem_of_head? isFirst), exclusive _ isFirst⟩

variable [DecidableEq ι]

/-- The recorded heaps follow from the calls. -/
structure Bracketed (own : ι → Nat) (s : System ι κ) : Prop where
  nested : ∀ e, Nested own s.heaps.links (s.frames e)
  alone : ∀ i e other, Engaged i (s.frames e) → other ≠ e → i ∉ infos (s.frames other)
  recorded : ∀ i e, Engaged i (s.frames e) →
    s.heap i = heapUnder own s.heaps.links i (s.frames e)
  free : ∀ i, (∀ e, ¬ Engaged i (s.frames e)) → s.heap i = own i

theorem Bracketed.heap_eq {own : ι → Nat} {s : System ι κ} (bracketed : Bracketed own s) {i : ι}
    {e : κ} (others : ∀ other, other ≠ e → ¬ Engaged i (s.frames other)) :
    s.heap i = heapUnder own s.heaps.links i (s.frames e) := by
  by_cases engaged : Engaged i (s.frames e)
  · exact bracketed.recorded i e engaged
  · rw [heapUnder_of_not_engaged engaged]
    apply bracketed.free
    intro other
    by_cases same : other = e
    · rw [same]
      exact engaged
    · exact others other same

theorem Bracketed.alone_of_sub {own : ι → Nat} {s : System ι κ} {e : κ}
    (bracketed : Bracketed own s) {calls : List (Frame ι)}
    (engaged : ∀ i, Engaged i calls → Engaged i (s.frames e))
    (sub : ∀ i ∈ infos calls, i ∈ infos (s.frames e)) (i : ι) (other : κ) (different : other ≠ e) :
    (Engaged i calls → i ∉ infos (s.frames other)) ∧
      (Engaged i (s.frames other) → i ∉ infos calls) :=
  ⟨fun isEngaged => bracketed.alone i e other (engaged i isEngaged) different,
    fun isEngaged member => bracketed.alone i other e isEngaged different.symm (sub i member)⟩

theorem Bracketed.keeps [Fintype κ] {own : ι → Nat} {s s' : System ι κ}
    (bracketed : Bracketed own s) (counted : Counted s) (frames : s'.frames = s.frames)
    (heap : s'.heap = s.heap) (links : LinksKept s.heaps.links s'.heaps.links) :
    Bracketed own s' := by
  have same : ∀ other hl, 0 < countOf hl (s.frames other) →
      heapOf s'.heaps.links hl = heapOf s.heaps.links hl :=
    fun other hl onLink => links.heapOf_eq hl (counted.pos onLink)
  refine ⟨?_, ?_, ?_, ?_⟩
  · intro other
    rw [frames]
    exact nested_congr (same other) (bracketed.nested other)
  · rw [frames]
    exact bracketed.alone
  · intro i other
    rw [frames, heap, heapUnder_congr (same other)]
    exact bracketed.recorded i other
  · rw [frames, heap]
    exact bracketed.free

variable [DecidableEq κ]

/-- The calls of one executor change, and the heap recorded for at most one
instance. -/
theorem Bracketed.update {own : ι → Nat} {s s' : System ι κ} {e : κ} {calls : List (Frame ι)}
    (bracketed : Bracketed own s) (frames : s'.frames = Function.update s.frames e calls)
    (links : ∀ other hl, 0 < countOf hl (s.frames other) →
      heapOf s'.heaps.links hl = heapOf s.heaps.links hl)
    (nested : Nested own s'.heaps.links calls)
    (alone : ∀ i other, other ≠ e →
      (Engaged i calls → i ∉ infos (s.frames other)) ∧
      (Engaged i (s.frames other) → i ∉ infos calls))
    (elsewhere : ∀ i, s'.heap i ≠ s.heap i → ∀ other, other ≠ e → ¬ Engaged i (s.frames other))
    (here : ∀ i, (∀ other, other ≠ e → ¬ Engaged i (s.frames other)) →
      s'.heap i = heapUnder own s'.heaps.links i calls) : Bracketed own s' where
  nested other := by
    rw [frames]
    by_cases same : other = e
    · rw [same, Function.update_self]
      exact nested
    · rw [Function.update_of_ne same]
      exact nested_congr (links other) (bracketed.nested other)
  alone i k other := by
    rw [frames]
    intro engaged different
    by_cases atK : k = e
    · rw [atK, Function.update_self] at engaged
      rw [atK] at different
      rw [Function.update_of_ne different]
      exact (alone i other different).1 engaged
    · rw [Function.update_of_ne atK] at engaged
      by_cases atOther : other = e
      · rw [atOther, Function.update_self]
        exact (alone i k atK).2 engaged
      · rw [Function.update_of_ne atOther]
        exact bracketed.alone i k other engaged different
  recorded i k := by
    rw [frames]
    intro engaged
    by_cases same : k = e
    · rw [same, Function.update_self] at engaged ⊢
      exact here i fun other different isEngaged =>
        (alone i other different).1 engaged isEngaged.mem_infos
    · rw [Function.update_of_ne same] at engaged ⊢
      have unchanged : s'.heap i = s.heap i := by
        by_contra changed
        exact elsewhere i changed k same engaged
      rw [unchanged, heapUnder_congr (links k)]
      exact bracketed.recorded i k engaged
  free i notEngaged := by
    rw [frames] at notEngaged
    have notHere := notEngaged e
    rw [Function.update_self] at notHere
    rw [here i ?_, heapUnder_of_not_engaged notHere]
    intro other different engaged
    apply notEngaged other
    rw [Function.update_of_ne different]
    exact engaged

theorem Plain.step {s s' : System ι κ} {e : κ} {event : Event ι} (plain : Plain s)
    (step : Step s (e, event) s') (exclusive : Exclusive ⟨s, (e, event), s'⟩) : Plain s' := by
  intro other
  rcases step.deferral with same | ⟨info, rfl, added⟩ | ⟨body, rest, rfl, isFirst, taken⟩
  · rw [same]
    exact plain other
  · rw [added]
    by_cases here : other = e
    · rw [here, Function.update_self]
      exact List.forall_mem_cons.mpr ⟨exclusive, plain e⟩
    · rw [Function.update_of_ne here]
      exact plain other
  · rw [taken]
    by_cases here : other = e
    · rw [here, Function.update_self]
      have all := plain e
      rw [isFirst] at all
      exact (List.forall_mem_cons.mp all).2
    · rw [Function.update_of_ne here]
      exact plain other

section Effects

variable {own : ι → Nat} {s s' : System ι κ} {e : κ} (bracketed : Bracketed own s)
  (tracks : Tracks s)

include bracketed

theorem Bracketed.enters {info : ι} (alone : ∀ other, ¬ Engaged info (s.frames other))
    (frames : s'.frames =
      Function.update s.frames e (.instance info (s.infoOf e) none :: s.frames e))
    (heap : s'.heap = s.heap) (links : s'.heaps.links = s.heaps.links) : Bracketed own s' := by
  refine bracketed.update frames (fun _ _ _ => by rw [links]) ?_ ?_ ?_ ?_
  · rw [links]
    exact ⟨rfl, alone e, bracketed.nested e⟩
  · intro i other different
    refine ⟨fun engaged => bracketed.alone i e other engaged different, ?_⟩
    intro engaged member
    rcases List.mem_cons.mp member with rfl | isBelow
    · exact alone other engaged
    · exact bracketed.alone i other e engaged different.symm isBelow
  · exact fun i changed => absurd (congrFun heap i) changed
  · intro i others
    rw [heap, links]
    exact bracketed.heap_eq others

theorem Bracketed.leaves {info : ι} {oldInfo : Option ι} {within : Option Nat}
    {rest : List (Frame ι)} (isTop : s.frames e = .instance info oldInfo within :: rest)
    (frames : s'.frames = Function.update s.frames e rest) (heap : s'.heap = s.heap)
    (links : s'.heaps.links = s.heaps.links) : Bracketed own s' := by
  refine bracketed.update frames (fun _ _ _ => by rw [links]) ?_ ?_ ?_ ?_
  · have nested := bracketed.nested e
    rw [isTop] at nested
    rw [links]
    exact nested.2.2
  · apply bracketed.alone_of_sub <;> rw [isTop]
    · exact fun i engaged => engaged
    · exact fun i member => List.mem_cons_of_mem info member
  · exact fun i changed => absurd (congrFun heap i) changed
  · intro i others
    have recorded := bracketed.heap_eq others
    rw [isTop] at recorded
    rw [heap, links]
    exact recorded

theorem Bracketed.counts {hl : Nat} (frames : s'.frames =
      Function.update s.frames e (.change hl .counted :: s.frames e)) (heap : s'.heap = s.heap)
    (heapOf_eq : ∀ other, heapOf s'.heaps.links other = heapOf s.heaps.links other) :
    Bracketed own s' := by
  refine bracketed.update frames (fun _ hl _ => heapOf_eq hl) ?_ ?_ ?_ ?_
  · refine ⟨?_, nested_congr (fun hl _ => heapOf_eq hl) (bracketed.nested e)⟩
    intro i _ oldHeap isOld
    cases isOld
  · apply bracketed.alone_of_sub
    · intro i engaged
      rcases engaged with ⟨_, isOpen⟩ | below
      · exact absurd rfl isOpen
      · exact below
    · exact fun i member => member
  · exact fun i changed => absurd (congrFun heap i) changed
  · intro i others
    rw [heap, heapUnder_change (by simp), heapUnder_congr fun hl _ => heapOf_eq hl]
    exact bracketed.heap_eq others

theorem Bracketed.uncounts {hl : Nat} {rest : List (Frame ι)}
    (isTop : s.frames e = .change hl .restored :: rest)
    (frames : s'.frames = Function.update s.frames e rest) (heap : s'.heap = s.heap)
    (heapOf_eq : ∀ other, heapOf s'.heaps.links other = heapOf s.heaps.links other) :
    Bracketed own s' := by
  refine bracketed.update frames (fun _ hl _ => heapOf_eq hl) ?_ ?_ ?_ ?_
  · have nested := bracketed.nested e
    rw [isTop] at nested
    exact nested_congr (fun hl _ => heapOf_eq hl) nested.2
  · apply bracketed.alone_of_sub <;> rw [isTop]
    · exact fun i engaged => Or.inr engaged
    · exact fun i member => member
  · exact fun i changed => absurd (congrFun heap i) changed
  · intro i others
    have recorded := bracketed.heap_eq others
    rw [isTop, heapUnder_change (by simp)] at recorded
    rw [heap, heapUnder_congr fun hl _ => heapOf_eq hl]
    exact recorded

include tracks

theorem Bracketed.saves {hl : Nat} {info : ι} {rest : List (Frame ι)}
    (alone : ∀ other, other ≠ e → info ∉ infos (s.frames other))
    (isTop : s.frames e = .change hl .counted :: rest) (isInfo : s.infoOf e = some info)
    (frames : s'.frames = Function.update s.frames e (.change hl (.saved (s.heap info)) :: rest))
    (heap : s'.heap = s.heap) (links : s'.heaps.links = s.heaps.links) : Bracketed own s' := by
  have isOwner : owner rest = some info := tracks.owner_eq isTop isInfo
  have nested := bracketed.nested e
  rw [isTop] at nested
  have recorded : ∀ i, (∀ other, other ≠ e → ¬ Engaged i (s.frames other)) →
      s.heap i = heapUnder own s.heaps.links i rest := by
    intro i others
    have isRecorded := bracketed.heap_eq others
    rw [isTop] at isRecorded
    exact isRecorded
  refine bracketed.update frames (fun _ _ _ => by rw [links]) ?_ ?_ ?_ ?_
  · refine ⟨?_, links ▸ nested.2⟩
    intro i isI oldHeap isOld
    cases isOwner.symm.trans isI
    cases isOld
    rw [links]
    exact recorded info fun other different engaged => alone other different engaged.mem_infos
  · intro i other different
    constructor
    · rintro (⟨isI, _⟩ | engaged)
      · cases isOwner.symm.trans isI
        exact alone other different
      · refine bracketed.alone i e other ?_ different
        rw [isTop]
        exact Or.inr engaged
    · intro engaged member
      refine bracketed.alone i other e engaged different.symm ?_
      rw [isTop]
      exact member
  · exact fun i changed => absurd (congrFun heap i) changed
  · intro i others
    rw [heap, links]
    exact recorded i others

theorem Bracketed.sets {hl oldHeap : Nat} {info : ι} {rest : List (Frame ι)}
    (isTop : s.frames e = .change hl (.saved oldHeap) :: rest) (isInfo : s.infoOf e = some info)
    (frames : s'.frames = Function.update s.frames e (.change hl (.inBody oldHeap) :: rest))
    (heap : s'.heap = Function.update s.heap info (heapOf s.heaps.links hl))
    (links : s'.heaps.links = s.heaps.links) : Bracketed own s' := by
  have isOwner : owner rest = some info := tracks.owner_eq isTop isInfo
  have nested := bracketed.nested e
  rw [isTop] at nested
  have engaged : Engaged info (s.frames e) := by
    rw [isTop]
    exact Or.inl ⟨isOwner, Option.some_ne_none oldHeap⟩
  refine bracketed.update frames (fun _ _ _ => by rw [links]) ?_ ?_ ?_ ?_
  · rw [links]
    exact nested
  · apply bracketed.alone_of_sub <;> rw [isTop]
    · exact fun i isEngaged => isEngaged
    · exact fun i member => member
  · intro i changed other different isEngaged
    have isInfo : i = info := by
      by_contra isOther
      rw [heap, Function.update_of_ne isOther] at changed
      exact changed rfl
    exact bracketed.alone info e other engaged different (isInfo ▸ isEngaged.mem_infos)
  · intro i others
    rw [heap, links, heapUnder]
    by_cases isI : i = info
    · rw [isI, Function.update_self, if_pos isOwner]
    · have notOwner : owner rest ≠ some i := fun same =>
        isI (Option.some.inj (same.symm.trans isOwner))
      have recorded := bracketed.heap_eq others
      rw [isTop] at recorded
      rw [Function.update_of_ne isI, if_neg notOwner]
      exact recorded

theorem Bracketed.restores {hl oldHeap : Nat} {info : ι} {rest : List (Frame ι)}
    (isTop : s.frames e = .change hl (.inBody oldHeap) :: rest) (isInfo : s.infoOf e = some info)
    (frames : s'.frames = Function.update s.frames e (.change hl .restored :: rest))
    (heap : s'.heap = Function.update s.heap info oldHeap)
    (links : s'.heaps.links = s.heaps.links) : Bracketed own s' := by
  have isOwner : owner rest = some info := tracks.owner_eq isTop isInfo
  have nested := bracketed.nested e
  rw [isTop] at nested
  have engaged : Engaged info (s.frames e) := by
    rw [isTop]
    exact Or.inl ⟨isOwner, Option.some_ne_none oldHeap⟩
  refine bracketed.update frames (fun _ _ _ => by rw [links]) ?_ ?_ ?_ ?_
  · rw [links]
    refine ⟨?_, nested.2⟩
    intro i _ old isOld
    cases isOld
  · apply bracketed.alone_of_sub <;> rw [isTop]
    · rintro i (⟨_, isOpen⟩ | below)
      · exact absurd rfl isOpen
      · exact Or.inr below
    · exact fun i member => member
  · intro i changed other different isEngaged
    have isInfo : i = info := by
      by_contra isOther
      rw [heap, Function.update_of_ne isOther] at changed
      exact changed rfl
    exact bracketed.alone info e other engaged different (isInfo ▸ isEngaged.mem_infos)
  · intro i others
    rw [heap, links, heapUnder_change (by simp)]
    by_cases isI : i = info
    · rw [isI, Function.update_self]
      exact nested.1 info isOwner oldHeap rfl
    · have notOwner : owner rest ≠ some i := fun same =>
        isI (Option.some.inj (same.symm.trans isOwner))
      have recorded := bracketed.heap_eq others
      rw [isTop, heapUnder, if_neg notOwner] at recorded
      rw [Function.update_of_ne isI]
      exact recorded

end Effects

theorem Bracketed.step [Fintype κ] {own : ι → Nat} {s s' : System ι κ} {e : κ} {event : Event ι}
    (bracketed : Bracketed own s) (tracks : Tracks s) (counted : Counted s) (plain : Plain s)
    (step : Step s (e, event) s') (exclusive : Exclusive ⟨s, (e, event), s'⟩) :
    Bracketed own s' := by
  cases step.effect with
  | keeps frames _ heap links => exact bracketed.keeps counted frames heap links
  | enters info within isEvent frames _ heap links =>
      have enters := exclusive.enters plain isEvent
      rw [enters.1] at frames
      exact bracketed.enters enters.2 frames heap links
  | leaves info oldInfo within rest isTop frames _ heap links =>
      exact bracketed.leaves isTop frames heap links
  | counts hl _ frames _ heap heapOf_eq _ => exact bracketed.counts frames heap heapOf_eq
  | saves hl info rest isEvent isTop isInfo frames _ heap links =>
      subst isEvent
      exact bracketed.saves tracks (exclusive info isInfo) isTop isInfo frames heap links
  | sets hl oldHeap info rest isTop isInfo frames _ heap _ links =>
      exact bracketed.sets tracks isTop isInfo frames heap links
  | restores hl oldHeap info rest isTop isInfo frames _ heap links =>
      exact bracketed.restores tracks isTop isInfo frames heap links
  | uncounts hl rest isTop frames _ heap heapOf_eq _ =>
      exact bracketed.uncounts isTop frames heap heapOf_eq

end System

end Rcgo.Ownership
