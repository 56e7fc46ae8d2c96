import Rcgo.Foundation.Rank
import Rcgo.Scheduler.InstanceLocking
import Rcgo.Scheduler.TaskLocking

/-!
# Progress of the locking loops

Both schedulers lock the instances of a set in the order of the set, so a task
that waits for an instance holds smaller ones only.  The tasks at the greatest
instance that is waited for can go on.
-/

namespace Rcgo.Scheduler

open Rcgo.Foundation Rcgo.Composition

universe u v

/-! ## Tasks of the partitioned scheduler -/

namespace LockingState

variable {τ : Type u}

/-- The task that does the step. -/
def Event.task : Event τ → τ
  | .start t => t
  | .resume t => t
  | .lock t => t
  | .execute t => t
  | .unlock t => t

/-- The task has been told to wait and is on the list of a lock. -/
def Blocked (s : LockingState τ) (t : τ) : Prop :=
  ∃ pos, s.control t = .waiting pos

/-- The task has begun to lock, is not blocked and has a step. -/
def CanGoOn [DecidableEq τ] (set : τ → InstanceSet) (s : LockingState τ) (t : τ) : Prop :=
  s.control t ≠ .idle ∧ ¬ s.Blocked t ∧
    ∃ event, event.task = t ∧ (next set s event).isSome = true

variable {set : τ → InstanceSet} {s after : LockingState τ}

def target (set : τ → InstanceSet) (s : LockingState τ) (t : τ) : InstanceId :=
  match s.control t with
  | .waiting pos => (((set t).entries[pos - 1]?).map Prod.fst).getD 0
  | _ => 0

theorem target_of_awaits {inst : InstanceId} {t : τ} {mode : LockMode}
    (awaits : Awaits set s.control inst t mode) : target set s t = inst := by
  obtain ⟨pos, access, isWaiting, found, _⟩ := awaits
  simp only [target, isWaiting, Nat.add_sub_cancel, found, Option.map_some, Option.getD_some]

variable [DecidableEq τ]

/-- A task that waits has called the lock function for an entry of its set. -/
def WaitsAtEntry (set : τ → InstanceSet) (control : τ → TaskControl) : Prop :=
  ∀ t pos, control t = .waiting pos →
    ∃ k entry, pos = k + 1 ∧ (set t).entries[k]? = some entry

private theorem WaitsAtEntry.move {control : τ → TaskControl} (waits : WaitsAtEntry set control)
    {t : τ} {c : TaskControl}
    (entered : ∀ pos, c = .waiting pos → ∃ k entry, pos = k + 1 ∧ (set t).entries[k]? = some entry) :
    WaitsAtEntry set (Function.update control t c) := by
  intro u pos isWaiting
  by_cases same : u = t
  · rw [same, Function.update_self] at isWaiting
    rw [same]
    exact entered pos isWaiting
  · rw [Function.update_of_ne same] at isWaiting
    exact waits u pos isWaiting

private theorem WaitsAtEntry.grantAll {control : τ → TaskControl} (waits : WaitsAtEntry set control)
    (granted : List (τ × LockMode)) : WaitsAtEntry set (grantAll control granted) := by
  intro u pos isWaiting
  unfold LockingState.grantAll at isWaiting
  split at isWaiting
  · unfold grant at isWaiting
    split at isWaiting
    · cases isWaiting
    · exact waits u pos isWaiting
  · exact waits u pos isWaiting

/-- Only a call of a lock function makes a task wait. -/
private theorem WaitsAtEntry.next {event : Event τ} (waits : WaitsAtEntry set s.control)
    (step : next set s event = some after) : WaitsAtEntry set after.control := by
  cases event with
  | start t =>
      simp only [LockingState.next] at step
      split at step
      · injection step with result
        subst result
        exact waits.move fun pos impossible => TaskControl.noConfusion impossible
      · cases step
  | resume t =>
      simp only [LockingState.next] at step
      split at step
      · injection step with result
        subst result
        exact waits.move fun pos impossible => TaskControl.noConfusion impossible
      · cases step
  | lock t =>
      simp only [LockingState.next] at step
      split at step
      · next pos isLocking =>
        split at step
        · injection step with result
          subst result
          exact waits.move fun pos impossible => TaskControl.noConfusion impossible
        · next entry found =>
          injection step with result
          subst result
          apply waits.move
          intro other isWaiting
          split at isWaiting
          · injection isWaiting with samePos
            exact ⟨pos, entry, samePos.symm, found⟩
          · cases isWaiting
      · cases step
  | execute t =>
      simp only [LockingState.next] at step
      split at step
      · injection step with result
        subst result
        exact waits.move fun pos impossible => TaskControl.noConfusion impossible
      · cases step
  | unlock t =>
      simp only [LockingState.next] at step
      split at step
      · split at step
        · injection step with result
          subst result
          exact waits.move fun pos impossible => TaskControl.noConfusion impossible
        · split at step
          · cases step
          · injection step with result
            subst result
            exact (waits.grantAll _).move fun pos impossible => TaskControl.noConfusion impossible
      · cases step

theorem Reachable.waitsAtEntry (reachable : Reachable set s) : WaitsAtEntry set s.control := by
  induction reachable with
  | initial =>
      intro t pos isWaiting
      cases isWaiting
  | step _ step inductionHypothesis => exact inductionHypothesis.next step

theorem canGoOn_of_not_blocked (invariant : Invariant set s.control s.locks) {t : τ}
    (begun : s.control t ≠ .idle) (notBlocked : ¬ s.Blocked t) : CanGoOn set s t := by
  refine ⟨begun, notBlocked, ?_⟩
  cases isControl : s.control t with
  | idle => exact absurd isControl begun
  | locking pos =>
      refine ⟨.lock t, rfl, ?_⟩
      simp only [LockingState.next, isControl]
      split
      · rfl
      · rfl
  | waiting pos => exact absurd ⟨pos, isControl⟩ notBlocked
  | granted pos =>
      refine ⟨.resume t, rfl, ?_⟩
      simp only [LockingState.next, isControl]
      rfl
  | executing =>
      refine ⟨.execute t, rfl, ?_⟩
      simp only [LockingState.next, isControl]
      rfl
  | unlocking pos => exact ⟨.unlock t, rfl, invariant.unlock_defined isControl⟩

theorem leads_of_blocked (invariant : Invariant set s.control s.locks)
    (waits : WaitsAtEntry set s.control) {t : τ} (isBlocked : s.Blocked t) :
    (∃ u, CanGoOn set s u) ∨ ∃ u, s.Blocked u ∧ target set s t < target set s u := by
  obtain ⟨pos, isWaiting⟩ := isBlocked
  obtain ⟨k, ⟨inst, access⟩, rfl, found⟩ := waits t pos isWaiting
  have awaits : Awaits set s.control inst t (lockMode access) :=
    ⟨k, access, isWaiting, found, rfl⟩
  have listed := (invariant.waiting inst t (lockMode access)).mpr awaits
  have busy := (invariant.lock inst).occupied (List.ne_nil_of_mem listed)
  obtain ⟨u, mode, holderAccess, held, _⟩ := (invariant.lock inst).counts.exists_holder busy
  by_cases holderBlocked : s.Blocked u
  · right
    refine ⟨u, holderBlocked, ?_⟩
    obtain ⟨holderPos, holderWaits⟩ := holderBlocked
    obtain ⟨j, ⟨other, otherAccess⟩, rfl, holderFound⟩ := waits u holderPos holderWaits
    have holderAwaits : Awaits set s.control other u (lockMode otherAccess) :=
      ⟨j, otherAccess, holderWaits, holderFound, rfl⟩
    rw [target_of_awaits awaits, target_of_awaits holderAwaits]
    rw [holderWaits] at held
    exact InstanceSet.lt_of_mem_take (set u) holderFound held
  · left
    refine ⟨u, canGoOn_of_not_blocked invariant ?_ holderBlocked⟩
    intro isIdle
    rw [isIdle] at held
    exact List.not_mem_nil held

theorem Reachable.canGoOn [Finite τ] (reachable : Reachable set s) {t : τ}
    (isBlocked : s.Blocked t) : ∃ u, CanGoOn set s u :=
  exists_able (fun _ blocked => leads_of_blocked reachable.invariant reachable.waitsAtEntry blocked)
    isBlocked

end LockingState

/-! ## Executors of the instance scheduler -/

variable {ε : Type u} {α : Type v}

/-- When a call on a `pthread_rwlock_t` blocks, by the count of the lock and the
calls that wait for it, in the order in which the lock prefers them.  A call
blocks while there is a conflicting holder, and otherwise only because of a
conflicting call that is preferred to it. -/
structure RwlockPolicy (ε : Type u) where
  refuses : Int → List (ε × LockMode) → ε → LockMode → Prop
  excludes :
    ∀ count waiting e mode, rwlockLock count mode = none → refuses count waiting e mode
  justified :
    ∀ count before after e mode, refuses count (before ++ (e, mode) :: after) e mode →
      rwlockLock count mode = none ∨ ∃ w ∈ before, w.2 = .write ∨ mode = .write

/-- Executors with the calls that wait for the locks. -/
structure RwlockQueues (ε : Type u) (α : Type v) where
  base : RwlockState ε α
  waiting : InstanceId → List (ε × LockMode)

namespace RwlockQueues

def executor : RwlockState.Event ε α → ε
  | .start e _ => e
  | .lock e => e
  | .execute e => e
  | .unlock e => e

def initial : RwlockQueues ε α :=
  ⟨RwlockState.initial, fun _ => []⟩

/-- The loop of `lock` has come to an entry that it locks in this mode. -/
def AtEntry (set : α → InstanceSet) (control : ε → ExecutorControl α) (e : ε)
    (entry : InstanceEntry) (mode : LockMode) : Prop :=
  ∃ job pos, control e = .locking job pos ∧ (set job).entries[pos]? = some entry ∧
    rwlockMode entry.2 = some mode

variable [DecidableEq ε]

/-- The steps of an executor: a call of `pthread_rwlock_rdlock` or
`pthread_rwlock_wrlock`, its return, and everything else. -/
inductive Step (policy : RwlockPolicy ε) (set : α → InstanceSet) (s : RwlockQueues ε α) :
    ε → RwlockQueues ε α → Prop
  | call {e entry mode before after} :
      AtEntry set s.base.control e entry mode → (∀ m, (e, m) ∉ s.waiting entry.1) →
        s.waiting entry.1 = before ++ after →
          Step policy set s e
            ⟨s.base, Function.update s.waiting entry.1 (before ++ (e, mode) :: after)⟩
  | acquire {e entry mode base} :
      AtEntry set s.base.control e entry mode → (e, mode) ∈ s.waiting entry.1 →
        ¬ policy.refuses (s.base.locks entry.1) (s.waiting entry.1) e mode →
          RwlockState.next set s.base (.lock e) = some base →
            Step policy set s e
              ⟨base, Function.update s.waiting entry.1 ((s.waiting entry.1).erase (e, mode))⟩
  | other {event base} :
      (∀ entry mode, event = .lock (executor event) →
        ¬ AtEntry set s.base.control (executor event) entry mode) →
          RwlockState.next set s.base event = some base →
            Step policy set s (executor event) ⟨base, s.waiting⟩

/-- The states of all interleavings of the executors. -/
inductive Reachable (policy : RwlockPolicy ε) (set : α → InstanceSet) :
    RwlockQueues ε α → Prop
  | initial : Reachable policy set initial
  | step {s after e} : Reachable policy set s → Step policy set s e after →
      Reachable policy set after

omit [DecidableEq ε] in
/-- The executor has called a lock function that does not return. -/
def Blocked (policy : RwlockPolicy ε) (set : α → InstanceSet) (s : RwlockQueues ε α) (e : ε) :
    Prop :=
  ∃ entry mode, AtEntry set s.base.control e entry mode ∧ (e, mode) ∈ s.waiting entry.1 ∧
    policy.refuses (s.base.locks entry.1) (s.waiting entry.1) e mode

/-- The executor has a job, is not blocked and has a step. -/
def CanGoOn (policy : RwlockPolicy ε) (set : α → InstanceSet) (s : RwlockQueues ε α) (e : ε) :
    Prop :=
  s.base.control e ≠ .idle ∧ ¬ Blocked policy set s e ∧ ∃ after, Step policy set s e after

variable {policy : RwlockPolicy ε} {set : α → InstanceSet} {s after : RwlockQueues ε α}

omit [DecidableEq ε] in
theorem AtEntry.unique {control : ε → ExecutorControl α} {e : ε} {entry other : InstanceEntry}
    {mode otherMode : LockMode} (first : AtEntry set control e entry mode)
    (second : AtEntry set control e other otherMode) : entry = other ∧ mode = otherMode := by
  obtain ⟨job, pos, isLocking, found, isMode⟩ := first
  obtain ⟨otherJob, otherPos, isOtherLocking, otherFound, isOtherMode⟩ := second
  rw [isLocking] at isOtherLocking
  injection isOtherLocking with sameJob samePos
  subst sameJob samePos
  rw [found, Option.some.injEq] at otherFound
  subst otherFound
  rw [isMode, Option.some.injEq] at isOtherMode
  exact ⟨rfl, isOtherMode⟩

/-- A step changes the control of its executor only. -/
theorem control_next {base next : RwlockState ε α} {event : RwlockState.Event ε α}
    (step : RwlockState.next set base event = some next) {f : ε}
    (different : f ≠ executor event) : next.control f = base.control f := by
  cases event with
  | start e job =>
      simp only [RwlockState.next] at step
      split at step
      · injection step with result
        rw [← result]
        exact Function.update_of_ne different _ _
      · cases step
  | lock e =>
      simp only [RwlockState.next] at step
      split at step
      · split at step
        · injection step with result
          rw [← result]
          exact Function.update_of_ne different _ _
        · split at step
          · injection step with result
            rw [← result]
            exact Function.update_of_ne different _ _
          · obtain ⟨count, _, result⟩ := Option.map_eq_some_iff.mp step
            rw [← result]
            exact Function.update_of_ne different _ _
      · cases step
  | execute e =>
      simp only [RwlockState.next] at step
      split at step
      · injection step with result
        rw [← result]
        exact Function.update_of_ne different _ _
      · cases step
  | unlock e =>
      simp only [RwlockState.next] at step
      split at step
      · split at step
        · injection step with result
          rw [← result]
          exact Function.update_of_ne different _ _
        · split at step
          · injection step with result
            rw [← result]
            exact Function.update_of_ne different _ _
          · injection step with result
            rw [← result]
            exact Function.update_of_ne different _ _
      · cases step

/-- An executor at an entry has no other step than one of `lock`. -/
theorem eq_lock_of_next {base next : RwlockState ε α} {event : RwlockState.Event ε α}
    {entry : InstanceEntry} {mode : LockMode}
    (atEntry : AtEntry set base.control (executor event) entry mode)
    (step : RwlockState.next set base event = some next) :
    event = .lock (executor event) := by
  obtain ⟨job, pos, isLocking, _⟩ := atEntry
  cases event with
  | start e job =>
      rw [executor] at isLocking
      simp [RwlockState.next, isLocking] at step
  | lock e => rfl
  | execute e =>
      rw [executor] at isLocking
      simp [RwlockState.next, isLocking] at step
  | unlock e =>
      rw [executor] at isLocking
      simp [RwlockState.next, isLocking] at step

/-- The waiting calls are those of executors at the entry, one for each. -/
structure Invariant (set : α → InstanceSet) (s : RwlockQueues ε α) : Prop where
  reachable : RwlockState.Reachable set s.base
  listed :
    ∀ inst, ∀ w ∈ s.waiting inst,
      ∃ access, AtEntry set s.base.control w.1 (inst, access) w.2
  nodup : ∀ inst, (s.waiting inst).Nodup

omit [DecidableEq ε] in
theorem AtEntry.congr {control other : ε → ExecutorControl α} {e : ε} {entry : InstanceEntry}
    {mode : LockMode} (atEntry : AtEntry set control e entry mode)
    (same : other e = control e) : AtEntry set other e entry mode := by
  obtain ⟨job, pos, isLocking, rest⟩ := atEntry
  exact ⟨job, pos, same.trans isLocking, rest⟩

theorem Step.invariant {e : ε} (step : Step policy set s e after) (invariant : Invariant set s) :
    Invariant set after := by
  cases step with
  | @call e entry mode before behind atEntry absent parts =>
      refine ⟨invariant.reachable, ?_, ?_⟩
      · intro inst w member
        dsimp only at member ⊢
        by_cases isInst : inst = entry.1
        · subst isInst
          rw [Function.update_self, List.mem_append, List.mem_cons] at member
          rcases member with inBefore | isNew | inBehind
          · exact invariant.listed entry.1 w (parts ▸ List.mem_append_left _ inBefore)
          · rw [isNew]
            exact ⟨entry.2, atEntry⟩
          · exact invariant.listed entry.1 w (parts ▸ List.mem_append_right _ inBehind)
        · rw [Function.update_of_ne isInst] at member
          exact invariant.listed inst w member
      · intro inst
        dsimp only
        by_cases isInst : inst = entry.1
        · subst isInst
          have nodup := invariant.nodup entry.1
          rw [parts] at nodup
          rw [Function.update_self, List.nodup_middle, List.nodup_cons]
          exact ⟨parts ▸ absent mode, nodup⟩
        · rw [Function.update_of_ne isInst]
          exact invariant.nodup inst
  | @acquire e entry mode base atEntry member notRefused next =>
      refine ⟨invariant.reachable.step next, ?_, ?_⟩
      · intro inst w stillMember
        dsimp only at stillMember ⊢
        have inOld : w ∈ s.waiting inst := by
          by_cases isInst : inst = entry.1
          · subst isInst
            rw [Function.update_self] at stillMember
            exact List.mem_of_mem_erase stillMember
          · rw [Function.update_of_ne isInst] at stillMember
            exact stillMember
        obtain ⟨access, atInst⟩ := invariant.listed inst w inOld
        refine ⟨access, atInst.congr (control_next next ?_)⟩
        rintro isExecutor
        have isExecutor : w.1 = e := isExecutor
        rw [isExecutor] at atInst
        obtain ⟨sameEntry, sameMode⟩ := atEntry.unique atInst
        have isInst : inst = entry.1 := (congrArg Prod.fst sameEntry).symm
        subst isInst
        rw [Function.update_self] at stillMember
        have isCall : w = (e, mode) := Prod.ext isExecutor sameMode.symm
        rw [isCall] at stillMember
        exact (invariant.nodup entry.1).not_mem_erase stillMember
      · intro inst
        dsimp only
        by_cases isInst : inst = entry.1
        · subst isInst
          rw [Function.update_self]
          exact (invariant.nodup entry.1).erase _
        · rw [Function.update_of_ne isInst]
          exact invariant.nodup inst
  | @other event base notAtEntry next =>
      refine ⟨invariant.reachable.step next, ?_, invariant.nodup⟩
      intro inst w member
      obtain ⟨access, atInst⟩ := invariant.listed inst w member
      refine ⟨access, atInst.congr (control_next next ?_)⟩
      intro isExecutor
      rw [isExecutor] at atInst
      exact notAtEntry _ _ (eq_lock_of_next atInst next) atInst

theorem Reachable.invariant (reachable : Reachable policy set s) : Invariant set s := by
  induction reachable with
  | initial => exact ⟨.initial, fun _ _ member => absurd member List.not_mem_nil,
      fun _ => List.nodup_nil⟩
  | step _ step inductionHypothesis => exact step.invariant inductionHypothesis

/-! ### Steps of executors that are not blocked -/

theorem exists_acquire {e : ε} {entry : InstanceEntry} {mode : LockMode}
    (atEntry : AtEntry set s.base.control e entry mode) (member : (e, mode) ∈ s.waiting entry.1)
    (notRefused : ¬ policy.refuses (s.base.locks entry.1) (s.waiting entry.1) e mode) :
    ∃ after, Step policy set s e after := by
  cases isCall : rwlockLock (s.base.locks entry.1) mode with
  | none => exact absurd (policy.excludes _ _ e mode isCall) notRefused
  | some count =>
      have next : ∃ base, RwlockState.next set s.base (.lock e) = some base := by
        obtain ⟨job, pos, isLocking, found, isMode⟩ := atEntry
        simp only [RwlockState.next, isLocking, found, isMode, isCall, Option.map_some]
        exact ⟨_, rfl⟩
      obtain ⟨base, isBase⟩ := next
      exact ⟨_, .acquire atEntry member notRefused isBase⟩

theorem canGoOn_of_not_blocked (invariant : Invariant set s) {e : ε}
    (busy : s.base.control e ≠ .idle) (notBlocked : ¬ Blocked policy set s e) :
    CanGoOn policy set s e := by
  refine ⟨busy, notBlocked, ?_⟩
  cases isControl : s.base.control e with
  | idle => exact absurd isControl busy
  | locking job pos =>
      have other : (∀ entry mode, ¬ AtEntry set s.base.control e entry mode) →
          (∃ base, RwlockState.next set s.base (.lock e) = some base) →
            ∃ after, Step policy set s e after := by
        rintro nowhere ⟨base, isBase⟩
        exact ⟨_, .other (fun entry mode _ => nowhere entry mode) isBase⟩
      cases found : (set job).entries[pos]? with
      | none =>
          apply other
          · rintro entry mode ⟨job', pos', isLocking, found', _⟩
            rw [isControl] at isLocking
            injection isLocking with sameJob samePos
            rw [← sameJob, ← samePos, found] at found'
            cases found'
          · simp only [RwlockState.next, isControl, found]
            exact ⟨_, rfl⟩
      | some entry =>
          cases isMode : rwlockMode entry.2 with
          | none =>
              apply other
              · rintro entry' mode ⟨job', pos', isLocking, found', isMode'⟩
                rw [isControl] at isLocking
                injection isLocking with sameJob samePos
                rw [← sameJob, ← samePos, found, Option.some.injEq] at found'
                rw [← found', isMode] at isMode'
                cases isMode'
              · simp only [RwlockState.next, isControl, found, isMode]
                exact ⟨_, rfl⟩
          | some mode =>
              have atEntry : AtEntry set s.base.control e entry mode :=
                ⟨job, pos, isControl, found, isMode⟩
              by_cases member : (e, mode) ∈ s.waiting entry.1
              · exact
                  exists_acquire atEntry member fun refused =>
                    notBlocked ⟨entry, mode, atEntry, member, refused⟩
              · have absent : ∀ m, (e, m) ∉ s.waiting entry.1 := by
                  intro m other
                  obtain ⟨access, atOther⟩ := invariant.listed entry.1 (e, m) other
                  have sameMode : mode = m := (atEntry.unique atOther).2
                  exact member (sameMode ▸ other)
                exact ⟨_, .call atEntry absent (List.nil_append _).symm⟩
  | executing job =>
      have next : ∃ base, RwlockState.next set s.base (.execute e) = some base := by
        simp only [RwlockState.next, isControl]
        exact ⟨_, rfl⟩
      obtain ⟨base, isBase⟩ := next
      refine ⟨_, @Step.other _ _ _ _ _ _ (.execute e) _ ?_ isBase⟩
      intro _ _ impossible
      cases impossible
  | unlocking job pos =>
      have next : ∃ base, RwlockState.next set s.base (.unlock e) = some base := by
        simp only [RwlockState.next, isControl]
        split
        · exact ⟨_, rfl⟩
        · split
          · exact ⟨_, rfl⟩
          · exact ⟨_, rfl⟩
      obtain ⟨base, isBase⟩ := next
      refine ⟨_, @Step.other _ _ _ _ _ _ (.unlock e) _ ?_ isBase⟩
      intro _ _ impossible
      cases impossible

def target (set : α → InstanceSet) (s : RwlockQueues ε α) (e : ε) : InstanceId :=
  match s.base.control e with
  | .locking job pos => (((set job).entries[pos]?).map Prod.fst).getD 0
  | _ => 0

omit [DecidableEq ε] in
theorem target_of_atEntry {e : ε} {entry : InstanceEntry} {mode : LockMode}
    (atEntry : AtEntry set s.base.control e entry mode) : target set s e = entry.1 := by
  obtain ⟨job, pos, isLocking, found, _⟩ := atEntry
  simp only [target, isLocking, found, Option.map_some, Option.getD_some]

/-- A blocked executor waits for a holder or a preferred call that can go on,
or for an executor that waits for a greater instance. -/
theorem leads_of_blocked (invariant : Invariant set s) {e : ε}
    (isBlocked : Blocked policy set s e) :
    (∃ f, CanGoOn policy set s f) ∨
      ∃ f, Blocked policy set s f ∧ target set s e < target set s f := by
  obtain ⟨entry, mode, atEntry, member, _⟩ := isBlocked
  have counts := invariant.reachable.invariant entry.1
  by_cases free : s.base.locks entry.1 = 0
  · -- nobody holds the lock, so it refuses not all of the waiting calls
    left
    obtain ⟨w, rest, isList⟩ := List.exists_cons_of_ne_nil (List.ne_nil_of_mem member)
    obtain ⟨access, atInst⟩ := invariant.listed entry.1 w (isList ▸ List.mem_cons_self)
    have notRefused :
        ¬ policy.refuses (s.base.locks entry.1) (s.waiting entry.1) w.1 w.2 := by
      intro refused
      rw [free, isList] at refused
      rcases policy.justified 0 [] rest w.1 w.2 refused with conflict | ⟨_, impossible, _⟩
      · cases isMode : w.2 with
        | read => simp [isMode, rwlockLock] at conflict
        | write => simp [isMode, rwlockLock] at conflict
      · exact List.not_mem_nil impossible
    refine ⟨w.1, canGoOn_of_not_blocked invariant ?_ ?_⟩
    · obtain ⟨job, pos, isLocking, _⟩ := atInst
      intro isIdle
      rw [isLocking] at isIdle
      cases isIdle
    · rintro ⟨other, otherMode, atOther, _, refused⟩
      obtain ⟨sameEntry, sameMode⟩ := atInst.unique atOther
      rw [← sameEntry, ← sameMode] at refused
      exact notRefused refused
  · obtain ⟨f, heldMode, access, held, _⟩ := counts.exists_holder free
    by_cases holderBlocked : Blocked policy set s f
    · right
      refine ⟨f, holderBlocked, ?_⟩
      obtain ⟨other, otherMode, atOther, _⟩ := holderBlocked
      rw [target_of_atEntry atEntry, target_of_atEntry atOther]
      obtain ⟨job, pos, isLocking, found, _⟩ := atOther
      rw [isLocking] at held
      have below := InstanceSet.lt_of_mem_take (set job) found held
      exact below
    · left
      refine ⟨f, canGoOn_of_not_blocked invariant ?_ holderBlocked⟩
      intro isIdle
      rw [isIdle] at held
      exact List.not_mem_nil held

theorem Reachable.canGoOn [Finite ε] (reachable : Reachable policy set s) {e : ε}
    (isBlocked : Blocked policy set s e) : ∃ f, CanGoOn policy set s f :=
  exists_able (fun _ blocked => leads_of_blocked reachable.invariant blocked) isBlocked

/-- The lock that blocks a call only while there is a conflicting holder. -/
def holdersOnly (ε : Type u) : RwlockPolicy ε where
  refuses count _ _ mode := rwlockLock count mode = none
  excludes _ _ _ _ conflict := conflict
  justified _ _ _ _ _ conflict := Or.inl conflict

end RwlockQueues

/-- The locking loops do not deadlock: while a task of the partitioned scheduler
or an executor of the instance scheduler is blocked on a lock, another one that
has begun to lock is not blocked and has a step. -/
theorem locking_progress :
    (∀ (τ : Type u) [DecidableEq τ] [Finite τ] (set : τ → InstanceSet) (s : LockingState τ),
      LockingState.Reachable set s → ∀ t, s.Blocked t →
        ∃ u, LockingState.CanGoOn set s u) ∧
    ∀ (ε : Type u) (α : Type v) [DecidableEq ε] [Finite ε] (policy : RwlockPolicy ε)
      (set : α → InstanceSet) (s : RwlockQueues ε α),
      RwlockQueues.Reachable policy set s → ∀ e, RwlockQueues.Blocked policy set s e →
        ∃ f, RwlockQueues.CanGoOn policy set s f :=
  ⟨fun _ _ _ _ _ reachable _ isBlocked => reachable.canGoOn isBlocked,
   fun _ _ _ _ _ _ _ reachable _ isBlocked => reachable.canGoOn isBlocked⟩

/-- Two tasks that collect the garbage of one instance. -/
def twoCollectors : Bool → InstanceSet :=
  fun _ => InstanceSet.empty.insert (16, .accessWrite)

theorem locking_progress_twoCollectors :
    (∃ s : LockingState Bool, s.Blocked false ∧ ∃ u, LockingState.CanGoOn twoCollectors s u) ∧
    ∃ s : RwlockQueues Bool Bool,
      RwlockQueues.Blocked (RwlockQueues.holdersOnly Bool) twoCollectors s false ∧
      ∃ f, RwlockQueues.CanGoOn (RwlockQueues.holdersOnly Bool) twoCollectors s f := by
  constructor
  · have started := @LockingState.Reachable.step _ _ twoCollectors _ _ (.start true) .initial rfl
    have locked := @LockingState.Reachable.step _ _ _ _ _ (.lock true) started rfl
    have startedToo := @LockingState.Reachable.step _ _ _ _ _ (.start false) locked rfl
    have waits := @LockingState.Reachable.step _ _ _ _ _ (.lock false) startedToo rfl
    refine ⟨_, ?_, locking_progress.{0, 0}.1 Bool twoCollectors _ waits false ?_⟩
    · exact ⟨1, rfl⟩
    · exact ⟨1, rfl⟩
  · have started := @RwlockQueues.Reachable.step _ _ _ (RwlockQueues.holdersOnly Bool) twoCollectors
      _ _ _ .initial (@RwlockQueues.Step.other _ _ _ _ _ _ (.start true true) _ (by simp) rfl)
    have called := started.step (@RwlockQueues.Step.call _ _ _ _ _ _ true (16, .accessWrite) .write
      [] [] ⟨true, 0, rfl, rfl, rfl⟩ (fun _ => List.not_mem_nil) rfl)
    have acquired := called.step (@RwlockQueues.Step.acquire _ _ _ _ _ _ true (16, .accessWrite)
      .write _ ⟨true, 0, rfl, rfl, rfl⟩ List.mem_cons_self
      (fun refused => Option.some_ne_none _ refused) rfl)
    have startedToo := acquired.step
      (@RwlockQueues.Step.other _ _ _ _ _ _ (.start false true) _ (by simp) rfl)
    have waits := startedToo.step (@RwlockQueues.Step.call _ _ _ _ _ _ false (16, .accessWrite)
      .write [] [] ⟨true, 0, rfl, rfl, rfl⟩ (fun _ => List.not_mem_nil) rfl)
    refine ⟨_, ?_, locking_progress.{0, 0}.2 Bool Bool _ twoCollectors _ waits false ?_⟩
    · exact ⟨(16, .accessWrite), .write, ⟨true, 0, rfl, rfl, rfl⟩, List.mem_cons_self, rfl⟩
    · exact ⟨(16, .accessWrite), .write, ⟨true, 0, rfl, rfl, rfl⟩, List.mem_cons_self, rfl⟩

end Rcgo.Scheduler
