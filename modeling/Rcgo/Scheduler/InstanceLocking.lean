import Rcgo.Composition.InstanceSet
import Rcgo.Foundation.HolderCount
import Mathlib.Logic.Function.Basic

/-!
# The locks of the instance scheduler

An executor of `instance_scheduler_t` locks the instance set of an action,
executes the action and unlocks the set; to collect garbage it locks one
instance for writing.  The locks are `pthread_rwlock_t`: a call blocks while
a conflicting holder is there.
-/

namespace Rcgo.Scheduler

open Rcgo.Foundation Rcgo.Composition

universe u v

/-- Where an executor is in `run_i`, with the job it works on. -/
inductive ExecutorControl (α : Type v) where
  | idle
  /-- in the loop of `lock` -/
  | locking (job : α) (pos : Nat)
  /-- in `execute` or `collect_garbage` -/
  | executing (job : α)
  /-- in the loop of `unlock` -/
  | unlocking (job : α) (pos : Nat)
  deriving DecidableEq, Repr

/-- The call that `instance_scheduler_t::lock` makes for an access. -/
def rwlockMode : ReceiverAccess → Option LockMode
  | .accessNone => none
  | .accessRead => some .read
  | .accessWrite => some .write

/-- `pthread_rwlock_rdlock` and `pthread_rwlock_wrlock` on a lock held by
`count` readers or, for -1, by a writer; without a value while they block. -/
def rwlockLock (count : Int) : LockMode → Option Int
  | .read => if 0 ≤ count then some (count + 1) else none
  | .write => if count = 0 then some (-1) else none

/-- `pthread_rwlock_unlock` called by a holder. -/
def rwlockUnlock (count : Int) : Int :=
  if count = -1 then 0 else count - 1

theorem rwlockLock_cases
    {count after : Int} {mode : LockMode} (call : rwlockLock count mode = some after) :
    (mode = .read ∧ 0 ≤ count ∧ after = count + 1) ∨
      (mode = .write ∧ count = 0 ∧ after = -1) := by
  cases mode with
  | read =>
      simp only [rwlockLock, Option.ite_none_right_eq_some, Option.some.injEq] at call
      exact Or.inl ⟨rfl, call.1, call.2.symm⟩
  | write =>
      simp only [rwlockLock, Option.ite_none_right_eq_some, Option.some.injEq] at call
      exact Or.inr ⟨rfl, call.1, call.2.symm⟩

variable {ε : Type u} {α : Type v}

/-- The control of all executors and the locks of all instances. -/
structure RwlockState (ε : Type u) (α : Type v) where
  control : ε → ExecutorControl α
  locks : InstanceId → Int

namespace RwlockState

def initial : RwlockState ε α :=
  ⟨fun _ => .idle, fun _ => 0⟩

/-- The steps of the executors; which job an executor starts is decided by
the schedule and is left open. -/
inductive Event (ε : Type u) (α : Type v) where
  | start (e : ε) (job : α)
  /-- one iteration of `lock`, or its end -/
  | lock (e : ε)
  | execute (e : ε)
  /-- one iteration of `unlock`, or its end -/
  | unlock (e : ε)
  deriving DecidableEq, Repr

variable [DecidableEq ε]

/-- The step of an executor, without a value when it is elsewhere or blocks. -/
def next (set : α → InstanceSet) (s : RwlockState ε α) :
    Event ε α → Option (RwlockState ε α)
  | .start e job =>
      match s.control e with
      | .idle => some ⟨Function.update s.control e (.locking job 0), s.locks⟩
      | _ => none
  | .lock e =>
      match s.control e with
      | .locking job pos =>
          match (set job).entries[pos]? with
          | none => some ⟨Function.update s.control e (.executing job), s.locks⟩
          | some entry =>
              match rwlockMode entry.2 with
              | none =>
                  some ⟨Function.update s.control e (.locking job (pos + 1)), s.locks⟩
              | some mode =>
                  (rwlockLock (s.locks entry.1) mode).map fun count =>
                    ⟨Function.update s.control e (.locking job (pos + 1)),
                      Function.update s.locks entry.1 count⟩
      | _ => none
  | .execute e =>
      match s.control e with
      | .executing job =>
          some ⟨Function.update s.control e (.unlocking job 0), s.locks⟩
      | _ => none
  | .unlock e =>
      match s.control e with
      | .unlocking job pos =>
          match (set job).entries[pos]? with
          | none => some ⟨Function.update s.control e .idle, s.locks⟩
          | some entry =>
              match rwlockMode entry.2 with
              | none =>
                  some ⟨Function.update s.control e (.unlocking job (pos + 1)), s.locks⟩
              | some _ =>
                  some
                    ⟨Function.update s.control e (.unlocking job (pos + 1)),
                      Function.update s.locks entry.1
                        (rwlockUnlock (s.locks entry.1))⟩
      | _ => none

/-- The states of all interleavings of the executors. -/
inductive Reachable (set : α → InstanceSet) : RwlockState ε α → Prop where
  | initial : Reachable set initial
  | step {s after : RwlockState ε α} {event : Event ε α} :
      Reachable set s → next set s event = some after → Reachable set after

/-- The entries an executor has locked and not yet unlocked. -/
def heldEntries (set : α → InstanceSet) : ExecutorControl α → List InstanceEntry
  | .idle => []
  | .locking job pos => (set job).entries.take pos
  | .executing job => (set job).entries
  | .unlocking job pos => (set job).entries.drop pos

/-- Executor `e` holds the lock of the instance in the mode. -/
def Holds (set : α → InstanceSet) (control : ε → ExecutorControl α)
    (inst : InstanceId) (e : ε) (mode : LockMode) : Prop :=
  ∃ access,
    (inst, access) ∈ heldEntries set (control e) ∧ rwlockMode access = some mode

def Invariant (set : α → InstanceSet) (control : ε → ExecutorControl α)
    (locks : InstanceId → Int) : Prop :=
  ∀ inst, CountsHolders (Holds set control inst) (locks inst)

variable {set : α → InstanceSet} {control : ε → ExecutorControl α}
  {locks : InstanceId → Int}

theorem holds_update_other
    {e f : ε} (c : ExecutorControl α) (different : f ≠ e)
    {inst : InstanceId} {mode : LockMode} :
    Holds set (Function.update control e c) inst f mode ↔
      Holds set control inst f mode := by
  simp [Holds, Function.update_of_ne different]

theorem holds_update_self
    {e : ε} {c : ExecutorControl α} {inst : InstanceId} {mode : LockMode} :
    Holds set (Function.update control e c) inst e mode ↔
      ∃ access,
        (inst, access) ∈ heldEntries set c ∧ rwlockMode access = some mode := by
  simp [Holds]

private theorem Invariant.move
    (invariant : Invariant set control locks) {e : ε} {c : ExecutorControl α}
    (sameHeld :
      ∀ inst access mode, rwlockMode access = some mode →
        ((inst, access) ∈ heldEntries set c ↔
          (inst, access) ∈ heldEntries set (control e))) :
    Invariant set (Function.update control e c) locks := by
  intro inst
  refine (invariant inst).congr ?_
  intro f mode
  by_cases same : f = e
  · subst same
    rw [holds_update_self]
    constructor
    · rintro ⟨access, member, isMode⟩
      exact ⟨access, (sameHeld inst access mode isMode).mp member, isMode⟩
    · rintro ⟨access, member, isMode⟩
      exact ⟨access, (sameHeld inst access mode isMode).mpr member, isMode⟩
  · exact holds_update_other c same

private theorem Invariant.lock
    (invariant : Invariant set control locks) {e : ε} {job : α} {pos : Nat}
    {entry : InstanceEntry} {mode : LockMode} {count : Int}
    (isLocking : control e = .locking job pos)
    (found : (set job).entries[pos]? = some entry)
    (isMode : rwlockMode entry.2 = some mode)
    (call : rwlockLock (locks entry.1) mode = some count) :
    Invariant set (Function.update control e (.locking job (pos + 1)))
      (Function.update locks entry.1 count) := by
  have holdsAfter :
      ∀ inst f m,
        Holds set (Function.update control e (.locking job (pos + 1))) inst f m ↔
          Holds set control inst f m ∨ (inst = entry.1 ∧ f = e ∧ m = mode) := by
    intro inst f m
    by_cases same : f = e
    · subst same
      rw [holds_update_self]
      unfold Holds
      rw [isLocking]
      simp only [heldEntries, InstanceSet.mem_take_succ found]
      constructor
      · rintro ⟨access, old | new, mode'⟩
        · exact Or.inl ⟨access, old, mode'⟩
        · subst new
          rw [isMode, Option.some.injEq] at mode'
          exact Or.inr ⟨rfl, trivial, mode'.symm⟩
      · rintro (⟨access, old, mode'⟩ | ⟨rfl, _, rfl⟩)
        · exact ⟨access, Or.inl old, mode'⟩
        · exact ⟨entry.2, Or.inr rfl, isMode⟩
    · rw [holds_update_other _ same]
      simp [same]
  have new : ∀ m, ¬ Holds set control entry.1 e m := by
    rintro m ⟨access, member, _⟩
    rw [isLocking] at member
    exact InstanceSet.not_mem_take (set job) found member
  intro inst
  by_cases isInst : inst = entry.1
  · subst isInst
    rw [Function.update_self]
    have counts := invariant entry.1
    have granted :
        CountsHolders (fun f m => Holds set control entry.1 f m ∨ (f = e ∧ m = mode))
          count := by
      rcases rwlockLock_cases call with ⟨rfl, shared, rfl⟩ | ⟨rfl, free, rfl⟩
      · exact counts.grantRead shared new
      · rw [free] at counts
        exact counts.grantWrite e
    apply granted.congr
    intro f m
    rw [holdsAfter]
    simp
  · rw [Function.update_of_ne isInst]
    refine (invariant inst).congr ?_
    intro f m
    rw [holdsAfter]
    simp [isInst]

private theorem Invariant.unlock
    (invariant : Invariant set control locks) {e : ε} {job : α} {pos : Nat}
    {entry : InstanceEntry} {mode : LockMode}
    (isUnlocking : control e = .unlocking job pos)
    (found : (set job).entries[pos]? = some entry)
    (isMode : rwlockMode entry.2 = some mode) :
    Invariant set (Function.update control e (.unlocking job (pos + 1)))
      (Function.update locks entry.1 (rwlockUnlock (locks entry.1))) := by
  have holdsAfter :
      ∀ inst f m,
        Holds set (Function.update control e (.unlocking job (pos + 1))) inst f m ↔
          Holds set control inst f m ∧ (inst = entry.1 → f ≠ e) := by
    intro inst f m
    by_cases same : f = e
    · subst same
      rw [holds_update_self]
      unfold Holds
      rw [isUnlocking]
      simp only [heldEntries, InstanceSet.mem_drop found]
      constructor
      · rintro ⟨access, later, mode'⟩
        refine ⟨⟨access, Or.inr later, mode'⟩, ?_⟩
        rintro rfl
        exact absurd later (InstanceSet.not_mem_drop (set job) found)
      · rintro ⟨⟨access, first | later, mode'⟩, different⟩
        · exact absurd rfl (different (congrArg Prod.fst first))
        · exact ⟨access, later, mode'⟩
    · rw [holds_update_other _ same]
      simp [same]
  have held : Holds set control entry.1 e mode := by
    refine ⟨entry.2, ?_, isMode⟩
    rw [isUnlocking]
    exact (InstanceSet.mem_drop found).mpr (Or.inl rfl)
  intro inst
  by_cases isInst : inst = entry.1
  · subst isInst
    rw [Function.update_self]
    have counts := invariant entry.1
    have released :
        CountsHolders (fun f m => Holds set control entry.1 f m ∧ f ≠ e)
          (rwlockUnlock (locks entry.1)) := by
      cases mode with
      | read =>
          have positive := counts.pos_of_read held
          have notWriter : locks entry.1 ≠ -1 := by omega
          rw [rwlockUnlock, if_neg notWriter]
          exact counts.releaseRead held
      | write =>
          rw [rwlockUnlock, if_pos (counts.eq_of_write held)]
          exact counts.releaseWrite held
    apply released.congr
    intro f m
    rw [holdsAfter]
    simp
  · rw [Function.update_of_ne isInst]
    refine (invariant inst).congr ?_
    intro f m
    rw [holdsAfter]
    simp [isInst]

private theorem skip_held
    {entries : List InstanceEntry} {pos : Nat} {entry : InstanceEntry}
    (found : entries[pos]? = some entry) (noLock : rwlockMode entry.2 = none)
    {inst : InstanceId} {access : ReceiverAccess} {mode : LockMode}
    (isMode : rwlockMode access = some mode) :
    (inst, access) ≠ entry := by
  rintro rfl
  rw [isMode] at noLock
  cases noLock

/-- One step of an executor. -/
theorem Invariant.next
    {s after : RwlockState ε α} {event : Event ε α}
    (invariant : Invariant set s.control s.locks)
    (step : RwlockState.next set s event = some after) :
    Invariant set after.control after.locks := by
  cases event with
  | start e job =>
      simp only [RwlockState.next] at step
      split at step
      · next isIdle =>
        injection step with result
        subst result
        refine invariant.move ?_
        simp [isIdle, heldEntries]
      · cases step
  | lock e =>
      simp only [RwlockState.next] at step
      split at step
      · next job pos isLocking =>
        split at step
        · next atEnd =>
          injection step with result
          subst result
          have whole := List.take_of_length_le (List.getElem?_eq_none_iff.mp atEnd)
          refine invariant.move ?_
          simp [isLocking, heldEntries, whole]
        · next entry found =>
          split at step
          · next noLock =>
            injection step with result
            subst result
            refine invariant.move ?_
            intro inst access mode isMode
            rw [isLocking, heldEntries, heldEntries, InstanceSet.mem_take_succ found]
            exact or_iff_left (skip_held found noLock isMode)
          · next mode isMode =>
            obtain ⟨count, call, result⟩ := Option.map_eq_some_iff.mp step
            subst result
            exact invariant.lock isLocking found isMode call
      · cases step
  | execute e =>
      simp only [RwlockState.next] at step
      split at step
      · next job isExecuting =>
        injection step with result
        subst result
        refine invariant.move ?_
        simp [isExecuting, heldEntries]
      · cases step
  | unlock e =>
      simp only [RwlockState.next] at step
      split at step
      · next job pos isUnlocking =>
        split at step
        · next atEnd =>
          injection step with result
          subst result
          have isEmpty := List.drop_eq_nil_of_le (List.getElem?_eq_none_iff.mp atEnd)
          refine invariant.move ?_
          simp [isUnlocking, heldEntries, isEmpty]
        · next entry found =>
          split at step
          · next noLock =>
            injection step with result
            subst result
            refine invariant.move ?_
            intro inst access mode isMode
            rw [isUnlocking, heldEntries, heldEntries, InstanceSet.mem_drop found]
            exact (or_iff_right (skip_held found noLock isMode)).symm
          · next mode isMode =>
            injection step with result
            subst result
            exact invariant.unlock isUnlocking found isMode
      · cases step

theorem Reachable.invariant
    {s : RwlockState ε α} (reachable : Reachable set s) :
    Invariant set s.control s.locks := by
  induction reachable with
  | initial =>
      intro inst
      refine CountsHolders.zero ?_
      rintro e mode ⟨access, member, _⟩
      exact List.not_mem_nil member
  | step _ step inductionHypothesis => exact inductionHypothesis.next step

omit [DecidableEq ε] in
theorem Invariant.exclusive
    (invariant : Invariant set control locks) {inst : InstanceId} {e f : ε}
    {mode : LockMode} (writes : Holds set control inst e .write)
    (holdsToo : Holds set control inst f mode) :
    f = e :=
  (invariant inst).exclusive writes holdsToo

end RwlockState

end Rcgo.Scheduler
