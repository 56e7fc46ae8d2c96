import Rcgo.Composition.InstanceSet
import Rcgo.Scheduler.InfoLock
import Mathlib.Logic.Function.Basic

/-!
# Tasks that lock their instances one after another

`task_t::execute` and `task_t::resume` walk through the instance set of the
task.  A task that has to wait returns and is resumed later where it stopped.
The steps of different tasks interleave freely.
-/

namespace Rcgo.Scheduler

open Rcgo.Foundation Rcgo.Composition

universe u

/-- Where a task is in `execute` and `resume`; the position is `pos_`. -/
inductive TaskControl where
  /-- on the idle list of its executor -/
  | idle
  /-- in the locking loop of `resume` -/
  | locking (pos : Nat)
  /-- `resume` returned `NONE`, the lock before `pos_` is not granted yet -/
  | waiting (pos : Nat)
  /-- removed from the waiting list by `process_list`, for the ready list -/
  | granted (pos : Nat)
  /-- in `execute_i` -/
  | executing
  /-- in the unlocking loop of `resume` -/
  | unlocking (pos : Nat)
  deriving DecidableEq, Repr

/-- The lock that `resume` takes for an access. -/
def lockMode : ReceiverAccess → LockMode
  | .accessNone => .read
  | .accessRead => .read
  | .accessWrite => .write

variable {τ : Type u}

/-- The control of all tasks and the locks of all instances. -/
structure LockingState (τ : Type u) where
  control : τ → TaskControl
  locks : InstanceId → InfoLock τ

namespace LockingState

/-- All tasks are on idle lists and no lock is held. -/
def initial : LockingState τ :=
  ⟨fun _ => .idle, fun _ => InfoLock.initial⟩

/-- The steps of the tasks. -/
inductive Event (τ : Type u) where
  /-- `execute` begins -/
  | start (t : τ)
  /-- `resume` of a task from the ready list begins -/
  | resume (t : τ)
  /-- one iteration of the locking loop, or its end -/
  | lock (t : τ)
  /-- `execute_i` returns -/
  | execute (t : τ)
  /-- one iteration of the unlocking loop, or its end -/
  | unlock (t : τ)
  deriving DecidableEq, Repr

variable [DecidableEq τ]

/-- The control of a task once `process_list` has signalled it. -/
def grant : TaskControl → TaskControl
  | .waiting pos => .granted pos
  | other => other

/-- Signal the tasks that `process_list` removed from a waiting list. -/
def grantAll (control : τ → TaskControl) (granted : List (τ × LockMode)) :
    τ → TaskControl :=
  fun u => if u ∈ granted.map Prod.fst then grant (control u) else control u

/-- The step of a task, without a value when the task is elsewhere. -/
def next (set : τ → InstanceSet) (s : LockingState τ) :
    Event τ → Option (LockingState τ)
  | .start t =>
      match s.control t with
      | .idle => some ⟨Function.update s.control t (.locking 0), s.locks⟩
      | _ => none
  | .resume t =>
      match s.control t with
      | .granted pos => some ⟨Function.update s.control t (.locking pos), s.locks⟩
      | _ => none
  | .lock t =>
      match s.control t with
      | .locking pos =>
          match (set t).entries[pos]? with
          | none => some ⟨Function.update s.control t .executing, s.locks⟩
          | some entry =>
              let (info, enqueued) := (s.locks entry.1).lock t (lockMode entry.2)
              some
                ⟨Function.update s.control t
                    (if enqueued then .waiting (pos + 1) else .locking (pos + 1)),
                  Function.update s.locks entry.1 info⟩
      | _ => none
  | .execute t =>
      match s.control t with
      | .executing => some ⟨Function.update s.control t (.unlocking 0), s.locks⟩
      | _ => none
  | .unlock t =>
      match s.control t with
      | .unlocking pos =>
          match (set t).entries[pos]? with
          | none => some ⟨Function.update s.control t .idle, s.locks⟩
          | some entry =>
              match (s.locks entry.1).unlock (lockMode entry.2) with
              | none => none
              | some (info, granted) =>
                  some
                    ⟨Function.update (grantAll s.control granted) t
                        (.unlocking (pos + 1)),
                      Function.update s.locks entry.1 info⟩
      | _ => none

/-- The states of all interleavings of the tasks. -/
inductive Reachable (set : τ → InstanceSet) : LockingState τ → Prop where
  | initial : Reachable set initial
  | step {s after : LockingState τ} {event : Event τ} :
      Reachable set s → next set s event = some after → Reachable set after

/-! ## The locks a task holds -/

/-- The entries whose locks a task holds at a point of its control. -/
def heldEntries (set : InstanceSet) : TaskControl → List InstanceEntry
  | .idle => []
  | .locking pos => set.entries.take pos
  | .waiting pos => set.entries.take (pos - 1)
  | .granted pos => set.entries.take pos
  | .executing => set.entries
  | .unlocking pos => set.entries.drop pos

/-- Task `t` holds the lock of the instance in the mode. -/
def Holds (set : τ → InstanceSet) (control : τ → TaskControl) (inst : InstanceId)
    (t : τ) (mode : LockMode) : Prop :=
  ∃ access, (inst, access) ∈ heldEntries (set t) (control t) ∧ lockMode access = mode

/-- Task `t` is on the waiting list of the instance for the mode. -/
def Awaits (set : τ → InstanceSet) (control : τ → TaskControl) (inst : InstanceId)
    (t : τ) (mode : LockMode) : Prop :=
  ∃ pos access,
    control t = .waiting (pos + 1) ∧
      (set t).entries[pos]? = some (inst, access) ∧ lockMode access = mode

/-- The invariant of the locking protocol. -/
structure Invariant (set : τ → InstanceSet) (control : τ → TaskControl)
    (locks : InstanceId → InfoLock τ) : Prop where
  lock : ∀ inst, (locks inst).Invariant (Holds set control inst)
  waiting :
    ∀ inst t mode, (t, mode) ∈ (locks inst).waiting ↔ Awaits set control inst t mode

variable {set : τ → InstanceSet} {control : τ → TaskControl}
  {locks : InstanceId → InfoLock τ}

theorem holds_update_other
    {t u : τ} (c : TaskControl) (different : u ≠ t)
    {inst : InstanceId} {mode : LockMode} :
    Holds set (Function.update control t c) inst u mode ↔
      Holds set control inst u mode := by
  simp [Holds, Function.update_of_ne different]

theorem holds_update_self
    {t : τ} {c : TaskControl}
    {inst : InstanceId} {mode : LockMode} :
    Holds set (Function.update control t c) inst t mode ↔
      ∃ access, (inst, access) ∈ heldEntries (set t) c ∧ lockMode access = mode := by
  simp [Holds]

theorem holds_update_of_heldEntries
    {t u : τ} {c : TaskControl}
    (sameHeld : heldEntries (set t) c = heldEntries (set t) (control t))
    {inst : InstanceId} {mode : LockMode} :
    Holds set (Function.update control t c) inst u mode ↔
      Holds set control inst u mode := by
  by_cases same : u = t
  · rw [same, holds_update_self, sameHeld]
    exact Iff.rfl
  · exact holds_update_other c same

theorem awaits_update_other
    {t u : τ} (c : TaskControl) (different : u ≠ t)
    {inst : InstanceId} {mode : LockMode} :
    Awaits set (Function.update control t c) inst u mode ↔
      Awaits set control inst u mode := by
  simp [Awaits, Function.update_of_ne different]

omit [DecidableEq τ] in
theorem not_awaits
    {t : τ} (notWaiting : ∀ pos, control t ≠ .waiting pos)
    {inst : InstanceId} {mode : LockMode} :
    ¬ Awaits set control inst t mode := by
  rintro ⟨pos, access, isWaiting, _⟩
  exact notWaiting _ isWaiting

/-! ## Preservation -/

private theorem Invariant.move
    (invariant : Invariant set control locks) {t : τ} {c : TaskControl}
    (sameHeld : heldEntries (set t) c = heldEntries (set t) (control t))
    (notWaitingBefore : ∀ pos, control t ≠ .waiting pos)
    (notWaitingAfter : ∀ pos, c ≠ .waiting pos) :
    Invariant set (Function.update control t c) locks := by
  constructor
  · intro inst
    exact (invariant.lock inst).congr fun _ _ => holds_update_of_heldEntries sameHeld
  · intro inst u mode
    refine (invariant.waiting inst u mode).trans ?_
    by_cases same : u = t
    · subst same
      refine iff_of_false (not_awaits notWaitingBefore) (not_awaits ?_)
      intro pos
      rw [Function.update_self]
      exact notWaitingAfter pos
    · exact (awaits_update_other c same).symm

theorem holds_locking_succ
    {t : τ} {pos : Nat} {entry : InstanceEntry}
    (isLocking : control t = .locking pos)
    (found : (set t).entries[pos]? = some entry)
    {inst : InstanceId} {u : τ} {mode : LockMode} :
    Holds set (Function.update control t (.locking (pos + 1))) inst u mode ↔
      Holds set control inst u mode ∨
        (entry.1 = inst ∧ u = t ∧ mode = lockMode entry.2) := by
  by_cases same : u = t
  · subst same
    rw [holds_update_self]
    unfold Holds
    rw [isLocking]
    simp only [heldEntries, InstanceSet.mem_take_succ found]
    constructor
    · rintro ⟨access, old | new, isMode⟩
      · exact Or.inl ⟨access, old, isMode⟩
      · subst new
        exact Or.inr ⟨rfl, trivial, isMode.symm⟩
    · rintro (⟨access, old, isMode⟩ | ⟨rfl, _, isMode⟩)
      · exact ⟨access, Or.inl old, isMode⟩
      · exact ⟨entry.2, Or.inr rfl, isMode.symm⟩
  · rw [holds_update_other _ same]
    simp [same]

omit [DecidableEq τ] in
private theorem not_holds_at
    {t : τ} {pos : Nat} {entry : InstanceEntry}
    (isLocking : control t = .locking pos)
    (found : (set t).entries[pos]? = some entry) (mode : LockMode) :
    ¬ Holds set control entry.1 t mode := by
  rintro ⟨access, member, _⟩
  rw [isLocking] at member
  exact InstanceSet.not_mem_take (set t) found member

private theorem Invariant.lock_granted
    (invariant : Invariant set control locks) {t : τ} {pos : Nat} {entry : InstanceEntry}
    (isLocking : control t = .locking pos)
    (found : (set t).entries[pos]? = some entry)
    {info : InfoLock τ}
    (call : (locks entry.1).lock t (lockMode entry.2) = (info, false)) :
    Invariant set (Function.update control t (.locking (pos + 1)))
      (Function.update locks entry.1 info) := by
  have notWaiting : ∀ pos, control t ≠ .waiting pos := by
    intro pos
    rw [isLocking]
    exact TaskControl.noConfusion
  obtain ⟨sameWaiting, granted⟩ :=
    (invariant.lock entry.1).lock_granted (not_holds_at isLocking found) call
  constructor
  · intro inst
    by_cases isInst : inst = entry.1
    · subst isInst
      rw [Function.update_self]
      refine granted.congr ?_
      intro u mode
      rw [holds_locking_succ isLocking found]
      simp
    · rw [Function.update_of_ne isInst]
      refine (invariant.lock inst).congr ?_
      intro u mode
      rw [holds_locking_succ isLocking found]
      simp [Ne.symm isInst]
  · intro inst u mode
    have same :
        (Function.update locks entry.1 info inst).waiting = (locks inst).waiting := by
      by_cases isInst : inst = entry.1
      · subst isInst
        rw [Function.update_self, sameWaiting]
      · rw [Function.update_of_ne isInst]
    rw [same]
    refine (invariant.waiting inst u mode).trans ?_
    by_cases isTask : u = t
    · subst isTask
      refine iff_of_false (not_awaits notWaiting) (not_awaits ?_)
      intro pos
      rw [Function.update_self]
      exact TaskControl.noConfusion
    · exact (awaits_update_other _ isTask).symm

private theorem Invariant.lock_enqueued
    (invariant : Invariant set control locks) {t : τ} {pos : Nat} {entry : InstanceEntry}
    (isLocking : control t = .locking pos)
    (found : (set t).entries[pos]? = some entry)
    {info : InfoLock τ}
    (call : (locks entry.1).lock t (lockMode entry.2) = (info, true)) :
    Invariant set (Function.update control t (.waiting (pos + 1)))
      (Function.update locks entry.1 info) := by
  have notWaiting : ∀ pos, control t ≠ .waiting pos := by
    intro pos
    rw [isLocking]
    exact TaskControl.noConfusion
  have absent : t ∉ (locks entry.1).waiting.map Prod.fst := by
    intro member
    obtain ⟨⟨u, mode⟩, waits, isTask⟩ := List.mem_map.mp member
    have isTask : u = t := isTask
    subst isTask
    exact not_awaits notWaiting ((invariant.waiting entry.1 u mode).mp waits)
  obtain ⟨longer, enqueued⟩ := (invariant.lock entry.1).lock_enqueued absent call
  constructor
  · intro inst
    have sameHolds :
        ∀ u mode,
          Holds set (Function.update control t (.waiting (pos + 1))) inst u mode ↔
            Holds set control inst u mode := by
      intro u mode
      apply holds_update_of_heldEntries
      rw [isLocking]
      rfl
    by_cases isInst : inst = entry.1
    · subst isInst
      rw [Function.update_self]
      exact enqueued.congr sameHolds
    · rw [Function.update_of_ne isInst]
      exact (invariant.lock inst).congr sameHolds
  · intro inst u mode
    have awaitsTask :
        Awaits set (Function.update control t (.waiting (pos + 1))) inst t mode ↔
          entry.1 = inst ∧ lockMode entry.2 = mode := by
      unfold Awaits
      rw [Function.update_self]
      constructor
      · rintro ⟨k, access, isWaiting, atK, isMode⟩
        injection isWaiting with isWaiting
        have isPos : k = pos := by omega
        rw [isPos, found, Option.some.injEq] at atK
        rw [atK]
        exact ⟨rfl, isMode⟩
      · rintro ⟨rfl, isMode⟩
        exact ⟨pos, entry.2, rfl, found, isMode⟩
    have unchanged :
        (u, mode) ∈ (locks inst).waiting ↔ u ≠ t ∧
          Awaits set (Function.update control t (.waiting (pos + 1))) inst u mode := by
      rw [invariant.waiting inst u mode]
      by_cases isTask : u = t
      · subst isTask
        exact iff_of_false (not_awaits notWaiting) (fun both => both.1 rfl)
      · rw [awaits_update_other _ isTask]
        simp [isTask]
    by_cases isInst : inst = entry.1
    · subst isInst
      rw [Function.update_self, longer, List.mem_append, unchanged, List.mem_singleton,
        Prod.mk.injEq]
      by_cases isTask : u = t
      · subst isTask
        rw [awaitsTask]
        simp [eq_comm]
      · simp [isTask]
    · rw [Function.update_of_ne isInst, unchanged]
      by_cases isTask : u = t
      · subst isTask
        rw [awaitsTask]
        simp [Ne.symm isInst]
      · simp [isTask]

omit [DecidableEq τ] in
private theorem Awaits.unique
    {inst other : InstanceId} {t : τ} {mode another : LockMode}
    (first : Awaits set control inst t mode)
    (second : Awaits set control other t another) :
    other = inst := by
  obtain ⟨pos, access, isWaiting, found, _⟩ := first
  obtain ⟨pos', access', isWaiting', found', _⟩ := second
  rw [isWaiting] at isWaiting'
  injection isWaiting' with samePos
  have samePos : pos' = pos := by omega
  rw [samePos, found, Option.some.injEq, Prod.mk.injEq] at found'
  exact found'.1.symm

section Grant

variable {granted : List (τ × LockMode)}

private theorem holds_grantAll
    {inst : InstanceId}
    (awaits : ∀ w ∈ granted, Awaits set control inst w.1 w.2)
    {other : InstanceId} {u : τ} {mode : LockMode} :
    Holds set (grantAll control granted) other u mode ↔
      Holds set control other u mode ∨ (other = inst ∧ (u, mode) ∈ granted) := by
  by_cases isGranted : u ∈ granted.map Prod.fst
  · obtain ⟨⟨v, mode'⟩, member, isTask⟩ := List.mem_map.mp isGranted
    have isTask : v = u := isTask
    subst isTask
    obtain ⟨pos, access, isWaiting, found, isMode⟩ := awaits _ member
    have heldBefore : heldEntries (set v) (control v) = (set v).entries.take pos := by
      rw [isWaiting]
      rfl
    have heldAfter :
        heldEntries (set v) (grantAll control granted v) =
          (set v).entries.take (pos + 1) := by
      rw [grantAll, if_pos isGranted, isWaiting]
      rfl
    unfold Holds
    rw [heldBefore, heldAfter]
    simp only [InstanceSet.mem_take_succ found]
    constructor
    · rintro ⟨access', old | new, isMode'⟩
      · exact Or.inl ⟨access', old, isMode'⟩
      · rw [Prod.mk.injEq] at new
        obtain ⟨rfl, rfl⟩ := new
        have sameMode : mode' = mode := isMode.symm.trans isMode'
        exact Or.inr ⟨rfl, sameMode ▸ member⟩
    · rintro (⟨access', old, isMode'⟩ | ⟨rfl, member'⟩)
      · exact ⟨access', Or.inl old, isMode'⟩
      · obtain ⟨pos', access', isWaiting', found', isMode'⟩ := awaits _ member'
        rw [isWaiting] at isWaiting'
        injection isWaiting' with samePos
        have samePos : pos' = pos := by omega
        rw [samePos, found, Option.some.injEq] at found'
        exact ⟨access', Or.inr found'.symm, isMode'⟩
  · have notMember : (u, mode) ∉ granted := fun member =>
      isGranted (List.mem_map_of_mem (f := Prod.fst) member)
    simp [Holds, grantAll, isGranted, notMember]

private theorem awaits_grantAll
    (awaits : ∀ u ∈ granted.map Prod.fst, ∃ pos, control u = .waiting pos)
    {other : InstanceId} {u : τ} {mode : LockMode} :
    Awaits set (grantAll control granted) other u mode ↔
      Awaits set control other u mode ∧ u ∉ granted.map Prod.fst := by
  by_cases isGranted : u ∈ granted.map Prod.fst
  · refine iff_of_false (not_awaits ?_) (fun both => both.2 isGranted)
    intro pos
    obtain ⟨before, isWaiting⟩ := awaits u isGranted
    rw [grantAll, if_pos isGranted, isWaiting]
    exact TaskControl.noConfusion
  · simp [Awaits, grantAll, isGranted]

end Grant

omit [DecidableEq τ] in
theorem holds_unlocking
    {t : τ} {pos : Nat} {entry : InstanceEntry}
    (isUnlocking : control t = .unlocking pos)
    (found : (set t).entries[pos]? = some entry) :
    Holds set control entry.1 t (lockMode entry.2) := by
  refine ⟨entry.2, ?_, rfl⟩
  rw [isUnlocking]
  exact (InstanceSet.mem_drop found).mpr (Or.inl rfl)

omit [DecidableEq τ] in
theorem Invariant.granted_await
    (invariant : Invariant set control locks) {inst : InstanceId}
    {granted later : List (τ × LockMode)}
    (whole : (locks inst).waiting = granted ++ later) :
    ∀ w ∈ granted, Awaits set control inst w.1 w.2 := by
  intro w member
  refine (invariant.waiting inst w.1 w.2).mp ?_
  rw [whole]
  exact List.mem_append_left _ member

omit [DecidableEq τ] in
private theorem not_granted
    {t : τ} (notWaiting : ∀ pos, control t ≠ .waiting pos) {inst : InstanceId}
    {granted : List (τ × LockMode)}
    (awaits : ∀ w ∈ granted, Awaits set control inst w.1 w.2) :
    t ∉ granted.map Prod.fst := by
  intro member
  obtain ⟨w, inGranted, isTask⟩ := List.mem_map.mp member
  exact not_awaits notWaiting (isTask ▸ awaits w inGranted)

theorem holds_unlocked
    {t : τ} {pos : Nat} {entry : InstanceEntry}
    (isUnlocking : control t = .unlocking pos)
    (found : (set t).entries[pos]? = some entry)
    {granted : List (τ × LockMode)}
    (awaits : ∀ w ∈ granted, Awaits set control entry.1 w.1 w.2)
    {inst : InstanceId} {u : τ} {mode : LockMode} :
    Holds set (Function.update (grantAll control granted) t (.unlocking (pos + 1)))
        inst u mode ↔
      (Holds set control inst u mode ∧ ¬(inst = entry.1 ∧ u = t)) ∨
        (inst = entry.1 ∧ (u, mode) ∈ granted) := by
  have notWaiting : ∀ pos, control t ≠ .waiting pos := by
    intro pos
    rw [isUnlocking]
    exact TaskControl.noConfusion
  by_cases isTask : u = t
  · rw [isTask]
    have notGranted : (t, mode) ∉ granted := fun member =>
      not_granted notWaiting awaits (List.mem_map_of_mem (f := Prod.fst) member)
    rw [or_iff_left fun both => notGranted both.2, holds_update_self]
    unfold Holds
    rw [isUnlocking]
    simp only [heldEntries, InstanceSet.mem_drop found]
    constructor
    · rintro ⟨access, later, isMode⟩
      refine ⟨⟨access, Or.inr later, isMode⟩, ?_⟩
      rintro ⟨rfl, _⟩
      exact InstanceSet.not_mem_drop (set t) found later
    · rintro ⟨⟨access, first | later, isMode⟩, different⟩
      · exact absurd ⟨congrArg Prod.fst first, trivial⟩ different
      · exact ⟨access, later, isMode⟩
  · rw [holds_update_other _ isTask, holds_grantAll awaits]
    simp only [isTask, and_false, not_false_eq_true, and_true]

private theorem Invariant.unlock
    (invariant : Invariant set control locks) {t : τ} {pos : Nat} {entry : InstanceEntry}
    (isUnlocking : control t = .unlocking pos)
    (found : (set t).entries[pos]? = some entry) :
    ∃ info granted,
      (locks entry.1).unlock (lockMode entry.2) = some (info, granted) ∧
        Invariant set
          (Function.update (grantAll control granted) t (.unlocking (pos + 1)))
          (Function.update locks entry.1 info) := by
  have notWaiting : ∀ pos, control t ≠ .waiting pos := by
    intro pos
    rw [isUnlocking]
    exact TaskControl.noConfusion
  obtain ⟨info, granted, run, whole, after⟩ :=
    (invariant.lock entry.1).unlock (holds_unlocking isUnlocking found)
  have grantedAwait := invariant.granted_await whole
  have grantedWait : ∀ u ∈ granted.map Prod.fst, ∃ pos, control u = .waiting pos := by
    intro u member
    obtain ⟨w, inGranted, isTask⟩ := List.mem_map.mp member
    obtain ⟨pos, _, isWaiting, _⟩ := grantedAwait w inGranted
    exact ⟨pos + 1, isTask ▸ isWaiting⟩
  refine ⟨info, granted, run, ?_, ?_⟩
  · intro inst
    by_cases isInst : inst = entry.1
    · subst isInst
      rw [Function.update_self]
      refine after.congr ?_
      intro u mode
      rw [holds_unlocked isUnlocking found grantedAwait]
      simp only [true_and, ne_eq]
    · rw [Function.update_of_ne isInst]
      refine (invariant.lock inst).congr ?_
      intro u mode
      rw [holds_unlocked isUnlocking found grantedAwait]
      simp only [isInst, false_and, not_false_eq_true, and_true, or_false]
  · intro inst u mode
    have awaitsAfter :
        Awaits set (Function.update (grantAll control granted) t (.unlocking (pos + 1)))
            inst u mode ↔
          (u, mode) ∈ (locks inst).waiting ∧ u ∉ granted.map Prod.fst := by
      by_cases isTask : u = t
      · subst isTask
        refine iff_of_false (not_awaits ?_) ?_
        · intro pos
          rw [Function.update_self]
          exact TaskControl.noConfusion
        · intro both
          exact not_awaits notWaiting ((invariant.waiting inst u mode).mp both.1)
      · rw [awaits_update_other _ isTask, awaits_grantAll grantedWait,
          invariant.waiting inst u mode]
    rw [awaitsAfter]
    by_cases isInst : inst = entry.1
    · subst isInst
      rw [Function.update_self]
      have nodup := (invariant.lock entry.1).nodup
      rw [whole, List.map_append, List.nodup_append] at nodup
      rw [whole, List.mem_append]
      constructor
      · intro member
        refine ⟨Or.inr member, ?_⟩
        intro isGranted
        exact nodup.2.2 u isGranted u (List.mem_map_of_mem (f := Prod.fst) member) rfl
      · rintro ⟨inGranted | member, notGranted⟩
        · exact absurd (List.mem_map_of_mem (f := Prod.fst) inGranted) notGranted
        · exact member
    · rw [Function.update_of_ne isInst]
      constructor
      · intro member
        refine ⟨member, ?_⟩
        intro isGranted
        obtain ⟨w, inGranted, isTask⟩ := List.mem_map.mp isGranted
        have awaitsInst := (invariant.waiting inst u mode).mp member
        have awaitsEntry := grantedAwait w inGranted
        rw [isTask] at awaitsEntry
        exact isInst (awaitsEntry.unique awaitsInst)
      · exact And.left

omit [DecidableEq τ] in
theorem initial_invariant :
    Invariant set (initial : LockingState τ).control initial.locks where
  lock inst := by
    refine InfoLock.initial_invariant ?_
    rintro t mode ⟨access, member, _⟩
    exact List.not_mem_nil member
  waiting inst t mode := by
    refine iff_of_false List.not_mem_nil (not_awaits ?_)
    intro pos
    exact TaskControl.noConfusion

/-- One step of a task. -/
theorem Invariant.next
    {s after : LockingState τ} {event : Event τ}
    (invariant : Invariant set s.control s.locks)
    (step : next set s event = some after) :
    Invariant set after.control after.locks := by
  cases event with
  | start t =>
      simp only [LockingState.next] at step
      split at step
      · next isIdle =>
        injection step with result
        subst result
        refine invariant.move ?_ ?_ ?_ <;> simp [isIdle, heldEntries]
      · cases step
  | resume t =>
      simp only [LockingState.next] at step
      split at step
      · next pos isGranted =>
        injection step with result
        subst result
        refine invariant.move ?_ ?_ ?_ <;> simp [isGranted, heldEntries]
      · cases step
  | lock t =>
      simp only [LockingState.next] at step
      split at step
      · next pos isLocking =>
        split at step
        · next atEnd =>
          injection step with result
          subst result
          have whole := List.take_of_length_le (List.getElem?_eq_none_iff.mp atEnd)
          refine invariant.move ?_ ?_ ?_ <;> simp [isLocking, heldEntries, whole]
        · next entry found =>
          injection step with result
          subst result
          generalize call : (s.locks entry.1).lock t (lockMode entry.2) = outcome
          obtain ⟨info, enqueued⟩ := outcome
          cases enqueued with
          | false => exact invariant.lock_granted isLocking found call
          | true => exact invariant.lock_enqueued isLocking found call
      · cases step
  | execute t =>
      simp only [LockingState.next] at step
      split at step
      · next isExecuting =>
        injection step with result
        subst result
        refine invariant.move ?_ ?_ ?_ <;> simp [isExecuting, heldEntries]
      · cases step
  | unlock t =>
      simp only [LockingState.next] at step
      split at step
      · next pos isUnlocking =>
        split at step
        · next atEnd =>
          injection step with result
          subst result
          have isEmpty := List.drop_eq_nil_of_le (List.getElem?_eq_none_iff.mp atEnd)
          refine invariant.move ?_ ?_ ?_ <;> simp [isUnlocking, heldEntries, isEmpty]
        · next entry found =>
          obtain ⟨info, granted, run, preserved⟩ := invariant.unlock isUnlocking found
          rw [run] at step
          injection step with result
          subst result
          exact preserved
      · cases step

theorem Reachable.invariant
    {s : LockingState τ} (reachable : Reachable set s) :
    Invariant set s.control s.locks := by
  induction reachable with
  | initial => exact initial_invariant
  | step _ step inductionHypothesis => exact inductionHypothesis.next step

/-- A task that is about to release a lock never fails the assertion of
`read_unlock` or `write_unlock`. -/
theorem Invariant.unlock_defined
    {s : LockingState τ} (invariant : Invariant set s.control s.locks) {t : τ} {pos : Nat}
    (isUnlocking : s.control t = .unlocking pos) :
    (LockingState.next set s (.unlock t)).isSome = true := by
  simp only [LockingState.next, isUnlocking]
  split
  · rfl
  · next entry found =>
    obtain ⟨info, granted, run, _⟩ := invariant.unlock isUnlocking found
    rw [run]
    rfl

omit [DecidableEq τ] in
theorem Invariant.exclusive
    (invariant : Invariant set control locks) {inst : InstanceId} {t u : τ}
    {mode : LockMode} (writes : Holds set control inst t .write)
    (holdsToo : Holds set control inst u mode) :
    u = t :=
  (invariant.lock inst).counts.exclusive writes holdsToo

end LockingState

end Rcgo.Scheduler
