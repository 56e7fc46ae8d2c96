import Mathlib.Algebra.Order.BigOperators.Group.Finset
import Rcgo.Ownership.System

/-!
# Calls and change statements

What a step does to the calls of an executor, and two invariants of all runs:
the current instance of an executor is that of its innermost callable, and the
count of a link is the number of change statements that are on it.
-/

namespace Rcgo.Ownership

open Rcgo.Composition Foundation Storage

variable {ι κ : Type}

def owner : List (Frame ι) → Option ι
  | [] => none
  | .instance info _ _ :: _ => some info
  | .change _ _ :: rest => owner rest

def infos : List (Frame ι) → List ι
  | [] => []
  | .instance info _ _ :: rest => info :: infos rest
  | .change _ _ :: rest => infos rest

/-- The change statements on a link that have been counted. -/
def countOf (hl : Nat) : List (Frame ι) → Nat
  | [] => 0
  | .instance _ _ _ :: rest => countOf hl rest
  | .change other _ :: rest => (if other = hl then 1 else 0) + countOf hl rest

/-- The instances that the calls have saved, down from the current one. -/
def Calls : Option ι → List (Frame ι) → Prop
  | _, [] => True
  | current, .instance info oldInfo _ :: rest => current = some info ∧ Calls oldInfo rest
  | current, .change _ _ :: rest => rest ≠ [] ∧ Calls current rest

theorem Calls.owner_eq {current : Option ι} {frames : List (Frame ι)}
    (calls : Calls current frames) (some : frames ≠ []) : owner frames = current := by
  induction frames generalizing current with
  | nil => exact absurd rfl some
  | cons frame rest inductionHypothesis =>
      cases frame with
      | «instance» info oldInfo within => exact calls.1.symm
      | change hl stage => exact inductionHypothesis calls.2 calls.1

theorem Calls.exists_owner {current : Option ι} {frames : List (Frame ι)}
    (calls : Calls current frames) (some : frames ≠ []) : ∃ info, owner frames = .some info := by
  induction frames with
  | nil => exact absurd rfl some
  | cons frame rest inductionHypothesis =>
      cases frame with
      | «instance» info oldInfo within => exact ⟨info, rfl⟩
      | change hl stage => exact inductionHypothesis calls.2 calls.1

theorem owner_mem_infos {i : ι} {frames : List (Frame ι)} (isOwner : owner frames = some i) :
    i ∈ infos frames := by
  induction frames with
  | nil => cases isOwner
  | cons frame rest inductionHypothesis =>
      cases frame with
      | «instance» info oldInfo within =>
          cases isOwner
          exact List.mem_cons_self
      | change hl stage => exact inductionHypothesis isOwner

theorem Running.ne_nil {frames : List (Frame ι)} (running : Running frames) : frames ≠ [] := by
  rintro rfl
  exact running

def changeCount (links : Nat → Option HeapLink) (hl : Nat) : Nat :=
  (links hl).elim 0 HeapLink.changeCount

def heapOf (links : Nat → Option HeapLink) (hl : Nat) : Nat :=
  (links hl).elim 0 HeapLink.heap

/-- Operations on links leave the counts alone, and the heap of a link that a
change statement is on. -/
structure LinksKept (before after : Nat → Option HeapLink) : Prop where
  changeCount_eq : ∀ hl, changeCount after hl = changeCount before hl
  heapOf_eq : ∀ hl, 0 < changeCount before hl → heapOf after hl = heapOf before hl

theorem LinksKept.refl (links : Nat → Option HeapLink) : LinksKept links links :=
  ⟨fun _ => rfl, fun _ _ => rfl⟩

theorem LinksKept.trans {a b c : Nat → Option HeapLink} (first : LinksKept a b)
    (second : LinksKept b c) : LinksKept a c where
  changeCount_eq hl := (second.changeCount_eq hl).trans (first.changeCount_eq hl)
  heapOf_eq hl positive :=
    (second.heapOf_eq hl ((first.changeCount_eq hl).symm ▸ positive)).trans
      (first.heapOf_eq hl positive)

section SetLink

variable {s : LinkedHeaps} {hl : Nat} {link : HeapLink}

theorem changeCount_setLink (other : Nat) :
    changeCount (s.setLink hl link).links other =
      if other = hl then link.changeCount else changeCount s.links other := by
  by_cases same : other = hl <;> simp [changeCount, LinkedHeaps.setLink, same]

theorem heapOf_setLink (other : Nat) :
    heapOf (s.setLink hl link).links other = if other = hl then link.heap else heapOf s.links other := by
  by_cases same : other = hl <;> simp [heapOf, LinkedHeaps.setLink, same]

theorem linksKept_setLink {old : HeapLink} (isLink : s.links hl = some old)
    (noChange : old.changeCount = 0) (still : link.changeCount = 0) :
    LinksKept s.links (s.setLink hl link).links where
  changeCount_eq other := by
    rw [changeCount_setLink]
    split
    next same => rw [same, still, changeCount, isLink, Option.elim_some, noChange]
    next => rfl
  heapOf_eq other positive := by
    rw [heapOf_setLink]
    split
    next same =>
      rw [same, changeCount, isLink, Option.elim_some, noChange] at positive
      exact absurd positive (Nat.lt_irrefl 0)
    next => rfl

theorem linksKept_makeHeapLink {heap : Nat} (fresh : s.links hl = none) :
    LinksKept s.links (s.makeHeapLink heap hl).links where
  changeCount_eq other := by
    rw [LinkedHeaps.makeHeapLink, changeCount_setLink]
    split
    next same => rw [same, changeCount, fresh, Option.elim_none]
    next => rfl
  heapOf_eq other positive := by
    rw [LinkedHeaps.makeHeapLink, heapOf_setLink]
    split
    next same =>
      rw [same, changeCount, fresh, Option.elim_none] at positive
      exact absurd positive (Nat.lt_irrefl 0)
    next => rfl

end SetLink

namespace LinkedHeaps

variable {s : LinkedHeaps}

/-- What `NewOp::execute` does. -/
theorem newOp_eq_ok {current h hl : Nat} {storage : Heap} {after : LinkedHeaps}
    (executes : s.newOp current h hl storage = .ok after) :
    ∃ family, (s.family.make h storage).insertChild current h = .ok family ∧
      after = { s with family := family }.makeHeapLink h hl := by
  rcases Outcome.bind_eq_ok.mp executes with ⟨family, inserted, isAfter⟩
  rw [Outcome.pure_eq, Outcome.ok.injEq] at isAfter
  exact ⟨family, inserted, isAfter.symm⟩

/-- `MoveOp::execute` either takes the heap of a link that no change statement is
on, or leaves everything as it was. -/
theorem moveOp_eq_ok {depth current hl new : Nat} {result : LinkedHeaps × Bool}
    (executes : s.moveOp depth current hl new = .ok result) :
    result = (s, false) ∨
      ∃ link removed family, s.links hl = some link ∧ link.heap ≠ 0 ∧ link.changeCount = 0 ∧
        s.family.removeFromParent depth link.heap = .ok removed ∧
        removed.insertChild current link.heap = .ok family ∧
        result = ({ s.setLink hl { link with heap := 0 } with family := family }.makeHeapLink
          link.heap new, true) := by
  unfold moveOp at executes
  split at executes
  next => exact .inl (Outcome.ok.inj executes).symm
  next link isLink =>
    split at executes
    next able =>
      rcases Outcome.bind_eq_ok.mp executes with ⟨removed, isRemoved, executes⟩
      rcases Outcome.bind_eq_ok.mp executes with ⟨family, inserted, isResult⟩
      exact .inr ⟨link, removed, family, isLink, able.1, able.2, isRemoved, inserted,
        (Outcome.ok.inj isResult).symm⟩
    next => exact .inl (Outcome.ok.inj executes).symm

/-- `MergeOp::execute` likewise. -/
theorem mergeOp_eq_ok {depth current hl : Nat} {result : LinkedHeaps × Bool}
    (executes : s.mergeOp depth current hl = .ok result) :
    result = (s, false) ∨
      ∃ link removed family, s.links hl = some link ∧ link.heap ≠ 0 ∧ link.changeCount = 0 ∧
        s.family.removeFromParent depth link.heap = .ok removed ∧
        removed.merge depth current link.heap = .ok family ∧
        result = ({ s.setLink hl { link with heap := 0 } with family := family }, true) := by
  unfold mergeOp at executes
  split at executes
  next => exact .inl (Outcome.ok.inj executes).symm
  next link isLink =>
    split at executes
    next able =>
      rcases Outcome.bind_eq_ok.mp executes with ⟨removed, isRemoved, executes⟩
      rcases Outcome.bind_eq_ok.mp executes with ⟨family, merged, isResult⟩
      exact .inr ⟨link, removed, family, isLink, able.1, able.2, isRemoved, merged,
        (Outcome.ok.inj isResult).symm⟩
    next => exact .inl (Outcome.ok.inj executes).symm

theorem moveOp_succeeds {depth current hl new : Nat} {link : HeapLink}
    {result : LinkedHeaps × Bool} (isLink : s.links hl = some link) (notNull : link.heap ≠ 0)
    (noChange : link.changeCount = 0) (executes : s.moveOp depth current hl new = .ok result) :
    result.2 = true := by
  simp only [moveOp, isLink, ne_eq, notNull, noChange, not_false_eq_true, and_self, if_true]
    at executes
  rcases Outcome.bind_eq_ok.mp executes with ⟨removed, _, executes⟩
  rcases Outcome.bind_eq_ok.mp executes with ⟨family, _, isResult⟩
  rw [← Outcome.ok.inj isResult]

theorem mergeOp_succeeds {depth current hl : Nat} {link : HeapLink}
    {result : LinkedHeaps × Bool} (isLink : s.links hl = some link) (notNull : link.heap ≠ 0)
    (noChange : link.changeCount = 0) (executes : s.mergeOp depth current hl = .ok result) :
    result.2 = true := by
  simp only [mergeOp, isLink, ne_eq, notNull, noChange, not_false_eq_true, and_self, if_true]
    at executes
  rcases Outcome.bind_eq_ok.mp executes with ⟨removed, _, executes⟩
  rcases Outcome.bind_eq_ok.mp executes with ⟨family, _, isResult⟩
  rw [← Outcome.ok.inj isResult]

theorem newOp_linksKept {current h hl : Nat} {storage : Heap} {after : LinkedHeaps}
    (fresh : s.links hl = none) (executes : s.newOp current h hl storage = .ok after) :
    LinksKept s.links after.links := by
  rcases newOp_eq_ok executes with ⟨family, _, rfl⟩
  exact linksKept_makeHeapLink fresh

theorem moveOp_linksKept {depth current hl new : Nat} {result : LinkedHeaps × Bool}
    (fresh : s.links new = none) (executes : s.moveOp depth current hl new = .ok result) :
    LinksKept s.links result.1.links := by
  rcases moveOp_eq_ok executes with rfl | ⟨link, _, _, isLink, _, noChange, _, _, rfl⟩
  · exact .refl _
  · have different : new ≠ hl := by
      rintro rfl
      rw [isLink] at fresh
      cases fresh
    have taken : LinksKept s.links (s.setLink hl { link with heap := 0 }).links :=
      linksKept_setLink isLink noChange noChange
    refine taken.trans (linksKept_makeHeapLink ?_)
    exact (Function.update_of_ne different _ _).trans fresh

theorem mergeOp_linksKept {depth current hl : Nat} {result : LinkedHeaps × Bool}
    (executes : s.mergeOp depth current hl = .ok result) :
    LinksKept s.links result.1.links := by
  rcases mergeOp_eq_ok executes with rfl | ⟨link, _, _, isLink, _, noChange, _, _, rfl⟩
  · exact .refl _
  · exact linksKept_setLink isLink noChange noChange

end LinkedHeaps

namespace System

def infoOf (s : System ι κ) (e : κ) : Option ι :=
  (s.executors e).currentInfo

section SetExecutor

variable [DecidableEq κ] (s : System ι κ) (e : κ) (executor : Executor ι)

theorem frames_setExecutor :
    (s.setExecutor e executor).frames = Function.update s.frames e executor.frames := by
  funext other
  by_cases same : other = e <;> simp [frames, setExecutor, same]

theorem infoOf_setExecutor :
    (s.setExecutor e executor).infoOf = Function.update s.infoOf e executor.currentInfo := by
  funext other
  by_cases same : other = e <;> simp [infoOf, setExecutor, same]

theorem frames_setFrames (frames : List (Frame ι)) :
    (s.setFrames e frames).frames = Function.update s.frames e frames :=
  s.frames_setExecutor e _

theorem infoOf_setFrames (frames : List (Frame ι)) : (s.setFrames e frames).infoOf = s.infoOf := by
  rw [setFrames, infoOf_setExecutor]
  exact Function.update_eq_self e s.infoOf

def deferred (s : System ι κ) (e : κ) : List (ι × Option Nat) :=
  (s.executors e).deferred

theorem deferred_setExecutor :
    (s.setExecutor e executor).deferred = Function.update s.deferred e executor.deferred := by
  funext other
  by_cases same : other = e <;> simp [deferred, setExecutor, same]

end SetExecutor

theorem heapOf_eq {links : Nat → Option HeapLink} {hl : Nat} {link : HeapLink}
    (isLink : links hl = some link) : heapOf links hl = link.heap := by
  rw [heapOf, isLink, Option.elim_some]

theorem changeCount_eq {links : Nat → Option HeapLink} {hl : Nat} {link : HeapLink}
    (isLink : links hl = some link) : changeCount links hl = link.changeCount := by
  rw [changeCount, isLink, Option.elim_some]

theorem heapOf_setCount {heaps : LinkedHeaps} {hl : Nat} {link : HeapLink}
    (isLink : heaps.links hl = some link) (count other : Nat) :
    heapOf (heaps.setLink hl { link with changeCount := count }).links other =
      heapOf heaps.links other := by
  rw [heapOf_setLink]
  split
  next same => rw [same, heapOf_eq isLink]
  next => rfl

/-! ## The calls of an executor -/

/-- The current instance of every executor is that of its innermost callable. -/
def Tracks (s : System ι κ) : Prop :=
  ∀ e, Calls (s.infoOf e) (s.frames e)

theorem Tracks.owner_eq {s : System ι κ} {e : κ} {info : ι} {hl : Nat} {stage : Stage}
    {rest : List (Frame ι)} (tracks : Tracks s) (isTop : s.frames e = .change hl stage :: rest)
    (isInfo : s.infoOf e = some info) : owner rest = some info := by
  have calls := tracks e
  rw [isTop, isInfo] at calls
  exact calls.2.owner_eq calls.1

/-! ## The counts -/

/-- Every link counts the change statements that are on it. -/
def Counted [Fintype κ] (s : System ι κ) : Prop :=
  ∀ hl, changeCount s.heaps.links hl = ∑ e, countOf hl (s.frames e)

theorem Counted.pos [Fintype κ] {s : System ι κ} {e : κ} {hl : Nat} (counted : Counted s)
    (onLink : 0 < countOf hl (s.frames e)) : 0 < changeCount s.heaps.links hl := by
  rw [counted hl]
  exact Nat.lt_of_lt_of_le onLink
    (Finset.single_le_sum (fun other _ => Nat.zero_le (countOf hl (s.frames other)))
      (Finset.mem_univ e))

variable [DecidableEq κ]

theorem Tracks.update {s s' : System ι κ} {e : κ} {calls : List (Frame ι)} {info : Option ι}
    (tracks : Tracks s) (frames : s'.frames = Function.update s.frames e calls)
    (isInfo : s'.infoOf = Function.update s.infoOf e info) (here : Calls info calls) :
    Tracks s' := by
  intro other
  rw [frames, isInfo]
  by_cases same : other = e
  · rw [same, Function.update_self, Function.update_self]
    exact here
  · rw [Function.update_of_ne same, Function.update_of_ne same]
    exact tracks other

theorem sum_countOf_update [Fintype κ] (frames : κ → List (Frame ι)) (e : κ) (calls : List (Frame ι))
    (hl : Nat) :
    (∑ other, countOf hl (Function.update frames e calls other)) + countOf hl (frames e) =
      (∑ other, countOf hl (frames other)) + countOf hl calls := by
  have others : ∀ other ∈ Finset.univ.erase e,
      countOf hl (Function.update frames e calls other) = countOf hl (frames other) := by
    intro other member
    rw [Function.update_of_ne (Finset.ne_of_mem_erase member)]
  rw [← Finset.add_sum_erase _ _ (Finset.mem_univ e), Finset.sum_congr rfl others,
    ← Finset.add_sum_erase Finset.univ (fun other => countOf hl (frames other))
      (Finset.mem_univ e), Function.update_self]
  omega

theorem Counted.update [Fintype κ] {s s' : System ι κ} {e : κ} {calls : List (Frame ι)} (counted : Counted s)
    (frames : s'.frames = Function.update s.frames e calls)
    (changes : ∀ hl, changeCount s'.heaps.links hl + countOf hl (s.frames e) =
      changeCount s.heaps.links hl + countOf hl calls) : Counted s' := by
  intro hl
  have sums := sum_countOf_update s.frames e calls hl
  have isCounted := counted hl
  have isChange := changes hl
  rw [frames]
  omega

/-! ## The steps -/

variable [DecidableEq ι]

/-- What a step of an executor does to the calls, to the current instances, to
the recorded heaps and to the links. -/
inductive Effect (s : System ι κ) (e : κ) (event : Event ι) (s' : System ι κ) : Prop where
  | keeps (frames : s'.frames = s.frames) (info : s'.infoOf = s.infoOf) (heap : s'.heap = s.heap)
      (links : LinksKept s.heaps.links s'.heaps.links)
  | enters (info : ι) (within : Option Nat)
      (isEvent : (event = .enter info ∧ within = none) ∨
        (event = .runDeferred ∧ (info, within) ∈ (s.executors e).deferred.head?))
      (frames : s'.frames =
        Function.update s.frames e (.instance info (s.infoOf e) within :: s.frames e))
      (isInfo : s'.infoOf = Function.update s.infoOf e (some info)) (heap : s'.heap = s.heap)
      (links : s'.heaps.links = s.heaps.links)
  | leaves (info : ι) (oldInfo : Option ι) (within : Option Nat) (rest : List (Frame ι))
      (isTop : s.frames e = .instance info oldInfo within :: rest)
      (frames : s'.frames = Function.update s.frames e rest)
      (isInfo : s'.infoOf = Function.update s.infoOf e oldInfo) (heap : s'.heap = s.heap)
      (links : s'.heaps.links = s.heaps.links)
  | counts (hl : Nat) (some : s.frames e ≠ [])
      (frames : s'.frames = Function.update s.frames e (.change hl .counted :: s.frames e))
      (info : s'.infoOf = s.infoOf) (heap : s'.heap = s.heap)
      (heapOf_eq : ∀ other, heapOf s'.heaps.links other = heapOf s.heaps.links other)
      (changeCount_eq : ∀ other, changeCount s'.heaps.links other =
        (if hl = other then 1 else 0) + changeCount s.heaps.links other)
  | saves (hl : Nat) (info : ι) (rest : List (Frame ι)) (isEvent : event = .saveHeap)
      (isTop : s.frames e = .change hl .counted :: rest) (isInfo : s.infoOf e = some info)
      (frames : s'.frames =
        Function.update s.frames e (.change hl (.saved (s.heap info)) :: rest))
      (infos : s'.infoOf = s.infoOf) (heap : s'.heap = s.heap)
      (links : s'.heaps.links = s.heaps.links)
  | sets (hl oldHeap : Nat) (info : ι) (rest : List (Frame ι))
      (isTop : s.frames e = .change hl (.saved oldHeap) :: rest) (isInfo : s.infoOf e = some info)
      (frames : s'.frames = Function.update s.frames e (.change hl (.inBody oldHeap) :: rest))
      (infos : s'.infoOf = s.infoOf)
      (heap : s'.heap = Function.update s.heap info (heapOf s.heaps.links hl))
      (isLive : s.heaps.family.Live (heapOf s.heaps.links hl))
      (links : s'.heaps.links = s.heaps.links)
  | restores (hl oldHeap : Nat) (info : ι) (rest : List (Frame ι))
      (isTop : s.frames e = .change hl (.inBody oldHeap) :: rest) (isInfo : s.infoOf e = some info)
      (frames : s'.frames = Function.update s.frames e (.change hl .restored :: rest))
      (infos : s'.infoOf = s.infoOf) (heap : s'.heap = Function.update s.heap info oldHeap)
      (links : s'.heaps.links = s.heaps.links)
  | uncounts (hl : Nat) (rest : List (Frame ι)) (isTop : s.frames e = .change hl .restored :: rest)
      (frames : s'.frames = Function.update s.frames e rest)
      (info : s'.infoOf = s.infoOf) (heap : s'.heap = s.heap)
      (heapOf_eq : ∀ other, heapOf s'.heaps.links other = heapOf s.heaps.links other)
      (changeCount_eq : ∀ other, changeCount s'.heaps.links other =
        changeCount s.heaps.links other - if hl = other then 1 else 0)

/-- Each step has one of the effects. -/
theorem Step.effect {s s' : System ι κ} {e : κ} {event : Event ι} (step : Step s (e, event) s') :
    Effect s e event s' := by
  cases step with
  | begin idle noneLocked compatible =>
      refine .keeps ?_ ?_ rfl (.refl _)
      · exact (s.frames_setExecutor e _).trans (Function.update_eq_self e s.frames)
      · exact (s.infoOf_setExecutor e _).trans (Function.update_eq_self e s.infoOf)
  | finish idle noneDeferred =>
      refine .keeps ?_ ?_ rfl (.refl _)
      · exact (s.frames_setExecutor e _).trans (Function.update_eq_self e s.frames)
      · exact (s.infoOf_setExecutor e _).trans (Function.update_eq_self e s.infoOf)
  | @enter _ info running locked =>
      exact .enters info none (.inl ⟨rfl, rfl⟩) (s.frames_setExecutor e _) (s.infoOf_setExecutor e _) rfl rfl
  | @leave _ info oldInfo within rest isTop =>
      exact .leaves info oldInfo within rest isTop (s.frames_setExecutor e _)
        (s.infoOf_setExecutor e _) rfl rfl
  | activate running isCurrent =>
      refine .keeps ?_ ?_ rfl (.refl _)
      · exact (s.frames_setExecutor e _).trans (Function.update_eq_self e s.frames)
      · exact (s.infoOf_setExecutor e _).trans (Function.update_eq_self e s.infoOf)
  | @runDeferred _ info within rest idle isDeferred =>
      have sameFrames : (s.setExecutor e { s.executors e with deferred := rest }).frames =
          s.frames :=
        (s.frames_setExecutor e _).trans (Function.update_eq_self e s.frames)
      have sameInfo : (s.setExecutor e { s.executors e with deferred := rest }).infoOf =
          s.infoOf :=
        (s.infoOf_setExecutor e _).trans (Function.update_eq_self e s.infoOf)
      refine .enters info within (.inr ⟨rfl, ?_⟩) ?_ ?_ rfl rfl
      · rw [isDeferred]
        rfl
      · rw [System.enter, frames_setExecutor, sameFrames]
        exact congrArg (fun current => Function.update s.frames e
          (.instance info current within :: s.frames e)) (congrFun sameInfo e)
      · rw [System.enter, infoOf_setExecutor, sameInfo]
  | use running same => exact .keeps rfl rfl rfl (.refl _)
  | @countChange _ hl link running isLink =>
      refine .counts hl running.ne_nil (s.frames_setFrames e _) (s.infoOf_setFrames e _) rfl
        (heapOf_setCount isLink _) ?_
      intro other
      rw [changeCount_setLink]
      by_cases same : other = hl
      · rw [if_pos same, if_pos same.symm, same, changeCount_eq isLink, Nat.add_comm]
      · rw [if_neg same, if_neg (Ne.symm same), Nat.zero_add]
  | @saveHeap _ hl oldHeap rest isTop isHeap =>
      rcases Option.map_eq_some_iff.mp isHeap with ⟨info, isInfo, rfl⟩
      exact .saves hl info rest rfl isTop isInfo (s.frames_setFrames e _) (s.infoOf_setFrames e _)
        rfl rfl
  | @setHeap _ hl oldHeap rest info link isTop isCurrent isLink rootRead =>
      refine .sets hl oldHeap info rest isTop isCurrent (s.frames_setFrames e _)
        (s.infoOf_setFrames e _) ?_ ?_ rfl
      · rw [heapOf_eq isLink]
        rfl
      · rw [heapOf_eq isLink]
        exact rootRead
  | @restoreHeap _ hl oldHeap rest info isTop isCurrent =>
      exact .restores hl oldHeap info rest isTop isCurrent (s.frames_setFrames e _)
        (s.infoOf_setFrames e _) rfl rfl
  | @uncountChange _ hl rest link isTop isLink =>
      refine .uncounts hl rest isTop (s.frames_setFrames e _) (s.infoOf_setFrames e _) rfl
        (heapOf_setCount isLink _) ?_
      intro other
      rw [changeCount_setLink]
      by_cases same : other = hl
      · rw [if_pos same, if_pos same.symm, same, changeCount_eq isLink]
      · rw [if_neg same, if_neg (Ne.symm same), Nat.sub_zero]
  | new running isHeap heapFresh linkFresh executes =>
      exact .keeps rfl rfl rfl (LinkedHeaps.newOp_linksKept linkFresh.2 executes)
  | move running isHeap linkFresh executes =>
      rcases executes with ⟨bound, returns⟩
      exact .keeps rfl rfl rfl
        (LinkedHeaps.moveOp_linksKept linkFresh.2 (returns bound (Nat.le_refl bound)))
  | merge running isHeap executes =>
      rcases executes with ⟨bound, returns⟩
      exact .keeps rfl rfl rfl
        (LinkedHeaps.mergeOp_linksKept (returns bound (Nat.le_refl bound)))

/-- What a step does to the deferred bodies. -/
inductive Deferral (s : System ι κ) (e : κ) (event : Event ι) (s' : System ι κ) : Prop where
  | keeps (same : s'.deferred = s.deferred)
  | adds (info : ι) (isEvent : event = .activate)
      (added : s'.deferred =
        Function.update s.deferred e ((info, withinChange (s.frames e)) :: s.deferred e))
  | takes (body : ι × Option Nat) (rest : List (ι × Option Nat)) (isEvent : event = .runDeferred)
      (isFirst : s.deferred e = body :: rest)
      (taken : s'.deferred = Function.update s.deferred e rest)

theorem Step.deferral {s s' : System ι κ} {e : κ} {event : Event ι}
    (step : Step s (e, event) s') : Deferral s e event s' := by
  have unchanged : ∀ executor : Executor ι, executor.deferred = s.deferred e →
      (s.setExecutor e executor).deferred = s.deferred := by
    intro executor same
    rw [deferred_setExecutor, same]
    exact Function.update_eq_self e s.deferred
  cases step with
  | @activate _ info running isCurrent =>
      exact .adds info rfl (s.deferred_setExecutor e _)
  | @runDeferred _ info within rest idle isDeferred =>
      refine .takes (info, within) rest rfl isDeferred ?_
      rw [System.enter, deferred_setExecutor, deferred_setExecutor, Function.update_idem]
      simp [System.setExecutor]
  | use running same => exact .keeps rfl
  | new running isHeap heapFresh linkFresh executes => exact .keeps rfl
  | move running isHeap linkFresh executes => exact .keeps rfl
  | merge running isHeap executes => exact .keeps rfl
  | begin idle noneLocked compatible => exact .keeps (unchanged _ rfl)
  | finish idle noneDeferred => exact .keeps (unchanged _ rfl)
  | enter running locked => exact .keeps (unchanged _ rfl)
  | leave isTop => exact .keeps (unchanged _ rfl)
  | countChange running isLink => exact .keeps (unchanged _ rfl)
  | saveHeap isTop isHeap => exact .keeps (unchanged _ rfl)
  | setHeap isTop isCurrent isLink rootRead => exact .keeps (unchanged _ rfl)
  | restoreHeap isTop isCurrent => exact .keeps (unchanged _ rfl)
  | uncountChange isTop isLink => exact .keeps (unchanged _ rfl)

theorem Tracks.effect {s s' : System ι κ} {e : κ} {event : Event ι} (tracks : Tracks s)
    (effect : Effect s e event s') : Tracks s' := by
  have atExecutor := tracks e
  cases effect with
  | keeps frames info _ _ =>
      intro other
      rw [frames, info]
      exact tracks other
  | enters info within _ frames isInfo _ _ => exact tracks.update frames isInfo ⟨rfl, atExecutor⟩
  | leaves info oldInfo within rest isTop frames isInfo _ _ =>
      rw [isTop] at atExecutor
      exact tracks.update frames isInfo atExecutor.2
  | counts hl some frames info _ _ _ =>
      exact tracks.update frames (info.trans (Function.update_eq_self e _).symm) ⟨some, atExecutor⟩
  | saves hl info rest _ isTop _ frames infos _ _ =>
      rw [isTop] at atExecutor
      exact tracks.update frames (infos.trans (Function.update_eq_self e _).symm) atExecutor
  | sets hl oldHeap info rest isTop _ frames infos _ _ _ =>
      rw [isTop] at atExecutor
      exact tracks.update frames (infos.trans (Function.update_eq_self e _).symm) atExecutor
  | restores hl oldHeap info rest isTop _ frames infos _ _ =>
      rw [isTop] at atExecutor
      exact tracks.update frames (infos.trans (Function.update_eq_self e _).symm) atExecutor
  | uncounts hl rest isTop frames info _ _ _ =>
      rw [isTop] at atExecutor
      exact tracks.update frames (info.trans (Function.update_eq_self e _).symm) atExecutor.2

theorem Counted.effect [Fintype κ] {s s' : System ι κ} {e : κ} {event : Event ι}
    (counted : Counted s) (effect : Effect s e event s') : Counted s' := by
  cases effect with
  | keeps frames _ _ links =>
      intro hl
      rw [frames, links.changeCount_eq]
      exact counted hl
  | enters info within _ frames _ _ links =>
      exact counted.update frames fun hl => by rw [links, countOf]
  | leaves info oldInfo within rest isTop frames _ _ links =>
      exact counted.update frames fun hl => by rw [links, isTop, countOf]
  | counts hl _ frames _ _ _ changeCount_eq =>
      exact counted.update frames fun other => by
        rw [changeCount_eq, countOf]
        omega
  | saves hl info rest _ isTop _ frames _ _ links =>
      exact counted.update frames fun other => by rw [links, isTop, countOf, countOf]
  | sets hl oldHeap info rest isTop _ frames _ _ _ links =>
      exact counted.update frames fun other => by rw [links, isTop, countOf, countOf]
  | restores hl oldHeap info rest isTop _ frames _ _ links =>
      exact counted.update frames fun other => by rw [links, isTop, countOf, countOf]
  | uncounts hl rest isTop frames _ _ _ changeCount_eq =>
      refine counted.update frames fun other => ?_
      have positive : countOf other (s.frames e) ≤ changeCount s.heaps.links other := by
        rw [counted other]
        exact Finset.single_le_sum (fun k _ => Nat.zero_le (countOf other (s.frames k)))
          (Finset.mem_univ e)
      rw [isTop, countOf] at positive ⊢
      rw [changeCount_eq]
      omega

end System

end Rcgo.Ownership
