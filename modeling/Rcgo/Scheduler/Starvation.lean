import Rcgo.Foundation.Fairness
import Rcgo.Scheduler.Progress

/-!
# No task starves

The waiting lists of the instances are queues, and a task that waits for an instance holds
smaller ones only.  So each task that has begun gets all its locks, is executed and releases
them, if the tasks that can go on do so.
-/

namespace Rcgo.Scheduler

open Rcgo.Foundation Rcgo.Composition

universe u

/-! ## The place in a queue -/

namespace InfoLock

variable {τ : Type u} [DecidableEq τ] {holds : τ → LockMode → Prop} {l next : InfoLock τ}
  {t task : τ} {mode : LockMode} {granted : List (τ × LockMode)}

/-- How many have or get the lock before the task, which waits for it. -/
def ahead (l : InfoLock τ) (t : τ) : Nat :=
  l.count.natAbs + (l.waiting.map Prod.fst).idxOf t

theorem ahead_enqueued (waits : t ∈ l.waiting.map Prod.fst) :
    (⟨l.count, l.waiting ++ [(task, mode)]⟩ : InfoLock τ).ahead t = l.ahead t := by
  simp only [ahead, List.map_append]
  rw [List.idxOf_append_of_mem waits]

omit [DecidableEq τ] in
theorem natAbs_processList (free : l.count = 0) (process : l.processList = (next, granted)) :
    next.count.natAbs = granted.length := by
  simp only [processList, free, if_true] at process
  split at process
  · rw [Prod.mk.injEq] at process
    rw [← process.1, ← process.2, free]
    rfl
  · rw [Prod.mk.injEq] at process
    rw [← process.1, ← process.2, List.length_cons]
    simp only
    omega
  · rw [Prod.mk.injEq] at process
    rw [← process.1, ← process.2]
    rfl

theorem ahead_unlock (invariant : l.Invariant holds) (held : holds task mode)
    (call : l.unlock mode = some (next, granted)) (waits : t ∈ next.waiting.map Prod.fst) :
    next.ahead t < l.ahead t := by
  have released : ∃ count, l.unlock mode = some (processList ⟨count, l.waiting⟩) ∧
      count.natAbs + 1 = l.count.natAbs := by
    cases mode with
    | read =>
        have positive := invariant.counts.pos_of_read held
        exact ⟨l.count - 1, by simp [unlock, readUnlock, positive], by omega⟩
    | write =>
        have isWriter := invariant.counts.eq_of_write held
        exact ⟨0, by simp [unlock, writeUnlock, isWriter], by rw [isWriter]; rfl⟩
  rcases released with ⟨count, run, isCount⟩
  rw [run, Option.some.injEq] at call
  by_cases free : count = 0
  · rcases processList_free (l := ⟨count, l.waiting⟩) free invariant.nodup call with ⟨whole, _⟩
    have nodup := invariant.nodup
    rw [show l.waiting = granted ++ next.waiting from whole, List.map_append] at nodup
    have notGranted : t ∉ granted.map Prod.fst := fun isGranted =>
      (List.nodup_append.mp nodup).2.2 t isGranted t waits rfl
    have isHeld := natAbs_processList (l := ⟨count, l.waiting⟩) free call
    simp only [ahead]
    rw [show l.waiting = granted ++ next.waiting from whole, List.map_append,
      List.idxOf_append_of_notMem notGranted, List.length_map, isHeld]
    omega
  · rw [processList_busy free, Prod.mk.injEq] at call
    simp only [ahead]
    rw [← call.1]
    simp only
    omega

end InfoLock

/-! ## The steps of a task -/

namespace LockingState

variable {τ : Type u} [DecidableEq τ] {set : τ → InstanceSet} {s after : LockingState τ}

/-- What a task does. -/
inductive Moves (set : τ → InstanceSet) (s : LockingState τ) (t : τ) : LockingState τ → Prop where
  | start (isIdle : s.control t = .idle) :
      Moves set s t ⟨Function.update s.control t (.locking 0), s.locks⟩
  | resume (pos : Nat) (isGranted : s.control t = .granted pos) :
      Moves set s t ⟨Function.update s.control t (.locking pos), s.locks⟩
  | granted (pos : Nat) (entry : InstanceEntry) (info : InfoLock τ)
      (isLocking : s.control t = .locking pos) (found : (set t).entries[pos]? = some entry)
      (call : (s.locks entry.1).lock t (lockMode entry.2) = (info, false)) :
      Moves set s t ⟨Function.update s.control t (.locking (pos + 1)),
        Function.update s.locks entry.1 info⟩
  | enqueued (pos : Nat) (entry : InstanceEntry) (info : InfoLock τ)
      (isLocking : s.control t = .locking pos) (found : (set t).entries[pos]? = some entry)
      (call : (s.locks entry.1).lock t (lockMode entry.2) = (info, true)) :
      Moves set s t ⟨Function.update s.control t (.waiting (pos + 1)),
        Function.update s.locks entry.1 info⟩
  | locked (pos : Nat) (isLocking : s.control t = .locking pos)
      (atEnd : (set t).entries[pos]? = none) :
      Moves set s t ⟨Function.update s.control t .executing, s.locks⟩
  | executed (isExecuting : s.control t = .executing) :
      Moves set s t ⟨Function.update s.control t (.unlocking 0), s.locks⟩
  | released (pos : Nat) (entry : InstanceEntry) (info : InfoLock τ)
      (granted : List (τ × LockMode)) (isUnlocking : s.control t = .unlocking pos)
      (found : (set t).entries[pos]? = some entry)
      (call : (s.locks entry.1).unlock (lockMode entry.2) = some (info, granted)) :
      Moves set s t ⟨Function.update (grantAll s.control granted) t (.unlocking (pos + 1)),
        Function.update s.locks entry.1 info⟩
  | finished (pos : Nat) (isUnlocking : s.control t = .unlocking pos)
      (atEnd : (set t).entries[pos]? = none) :
      Moves set s t ⟨Function.update s.control t .idle, s.locks⟩

theorem moves_of_next {event : Event τ} (step : next set s event = some after) :
    Moves set s event.task after := by
  cases event with
  | start t =>
      simp only [next] at step
      split at step
      · next isIdle =>
        rw [← Option.some.inj step]
        exact .start isIdle
      · cases step
  | resume t =>
      simp only [next] at step
      split at step
      · next pos isGranted =>
        rw [← Option.some.inj step]
        exact .resume pos isGranted
      · cases step
  | lock t =>
      simp only [next] at step
      split at step
      · next pos isLocking =>
        split at step
        · next atEnd =>
          rw [← Option.some.inj step]
          exact .locked pos isLocking atEnd
        · next entry found =>
          rw [← Option.some.inj step]
          cases isEnqueued : ((s.locks entry.1).lock t (lockMode entry.2)).2 with
          | false => exact .granted pos entry _ isLocking found (Prod.ext rfl isEnqueued)
          | true => exact .enqueued pos entry _ isLocking found (Prod.ext rfl isEnqueued)
      · cases step
  | execute t =>
      simp only [next] at step
      split at step
      · next isExecuting =>
        rw [← Option.some.inj step]
        exact .executed isExecuting
      · cases step
  | unlock t =>
      simp only [next] at step
      split at step
      · next pos isUnlocking =>
        split at step
        · next atEnd =>
          rw [← Option.some.inj step]
          exact .finished pos isUnlocking atEnd
        · next entry found =>
          split at step
          · cases step
          · next info granted call =>
            rw [← Option.some.inj step]
            exact .released pos entry info granted isUnlocking found call
      · cases step

theorem Moves.control_other {t u : τ} (moves : Moves set s u after) (different : t ≠ u) :
    after.control t = s.control t ∨
      ∃ pos, s.control t = .waiting pos ∧ after.control t = .granted pos := by
  cases moves with
  | released pos entry info granted isUnlocking found call =>
      simp only [Function.update_of_ne different, grantAll]
      split
      · cases isControl : s.control t with
        | waiting pos => exact Or.inr ⟨pos, rfl, rfl⟩
        | _ => exact Or.inl rfl
      · exact Or.inl rfl
  | _ => exact Or.inl (Function.update_of_ne different _ _)

theorem Moves.not_waiting {t : τ} (moves : Moves set s t after) (pos : Nat) :
    s.control t ≠ .waiting pos := by
  intro isWaiting
  cases moves with
  | start isControl => simp [isWaiting] at isControl
  | resume _ isControl => simp [isWaiting] at isControl
  | granted _ _ _ isControl => simp [isWaiting] at isControl
  | enqueued _ _ _ isControl => simp [isWaiting] at isControl
  | locked _ isControl => simp [isWaiting] at isControl
  | executed isControl => simp [isWaiting] at isControl
  | released _ _ _ _ isControl => simp [isWaiting] at isControl
  | finished _ isControl => simp [isWaiting] at isControl

/-- The steps that a task has before it, with those of the wait for its locks. -/
def rank (set : InstanceSet) : TaskControl → Nat
  | .idle => 0
  | .unlocking pos => set.entries.length - pos + 1
  | .executing => set.entries.length + 2
  | .locking pos => set.entries.length + 3 + 3 * (set.entries.length - pos)
  | .granted pos => set.entries.length + 4 + 3 * (set.entries.length - pos)
  | .waiting pos => set.entries.length + 5 + 3 * (set.entries.length - pos)

/-- The task asks for its locks, and all locks that it does not have are those of instances
from the given one on. -/
def AsksFrom (set : InstanceSet) (first : InstanceId) : TaskControl → Prop
  | .locking pos => ∀ entry ∈ set.entries.drop pos, first ≤ entry.1
  | .granted pos => ∀ entry ∈ set.entries.drop pos, first ≤ entry.1
  | .waiting pos => ∀ entry ∈ set.entries.drop (pos - 1), first ≤ entry.1
  | _ => False

/-- The task has been given all its locks and not released all of them. -/
def Has : TaskControl → Prop
  | .executing => True
  | .unlocking _ => True
  | _ => False

theorem Moves.asksFrom {t : τ} {first : InstanceId} (moves : Moves set s t after)
    (asks : AsksFrom (set t) first (s.control t)) :
    after.control t = .executing ∨
      (AsksFrom (set t) first (after.control t) ∧
        rank (set t) (after.control t) < rank (set t) (s.control t)) := by
  have inside : ∀ {pos : Nat} {entry : InstanceEntry}, (set t).entries[pos]? = some entry →
      pos < (set t).entries.length := fun found => (List.getElem?_eq_some_iff.mp found).1
  cases moves with
  | start isControl =>
      rw [isControl] at asks
      exact asks.elim
  | resume pos isControl =>
      rw [isControl] at asks ⊢
      simp only [Function.update_self]
      exact Or.inr ⟨asks, by simp only [rank]; omega⟩
  | granted pos entry info isControl found call =>
      rw [isControl] at asks ⊢
      simp only [Function.update_self]
      have isInside := inside found
      refine Or.inr ⟨fun other isOther => asks other ?_, by simp only [rank]; omega⟩
      exact (InstanceSet.mem_drop found).mpr (Or.inr isOther)
  | enqueued pos entry info isControl found call =>
      rw [isControl] at asks ⊢
      simp only [Function.update_self]
      have isInside := inside found
      exact Or.inr ⟨asks, by simp only [rank]; omega⟩
  | locked pos isControl atEnd =>
      exact Or.inl (Function.update_self ..)
  | executed isControl =>
      rw [isControl] at asks
      exact asks.elim
  | released pos entry info granted isControl found call =>
      rw [isControl] at asks
      exact asks.elim
  | finished pos isControl atEnd =>
      rw [isControl] at asks
      exact asks.elim

theorem Moves.has {t : τ} (moves : Moves set s t after) (has : Has (s.control t)) :
    after.control t = .idle ∨
      (Has (after.control t) ∧ rank (set t) (after.control t) < rank (set t) (s.control t)) := by
  cases moves with
  | executed isControl =>
      rw [isControl]
      simp only [Function.update_self]
      exact Or.inr ⟨trivial, by simp only [rank]; omega⟩
  | released pos entry info granted isControl found call =>
      have inside := (List.getElem?_eq_some_iff.mp found).1
      rw [isControl]
      simp only [Function.update_self]
      exact Or.inr ⟨trivial, by simp only [rank]; omega⟩
  | finished pos isControl atEnd => exact Or.inl (Function.update_self ..)
  | start isControl =>
      rw [isControl] at has
      exact has.elim
  | resume pos isControl =>
      rw [isControl] at has
      exact has.elim
  | granted pos entry info isControl =>
      rw [isControl] at has
      exact has.elim
  | enqueued pos entry info isControl =>
      rw [isControl] at has
      exact has.elim
  | locked pos isControl =>
      rw [isControl] at has
      exact has.elim

/-! ## The queues -/

section Queues

variable {inst : InstanceId} {t u v : τ} {mode another : LockMode}

theorem Moves.released_of_not_holds (invariant : Invariant set s.control s.locks)
    (moves : Moves set s u after) (held : Holds set s.control inst v mode)
    (lost : ¬ Holds set after.control inst v mode) :
    ∃ own granted, Holds set s.control inst u own ∧
      (s.locks inst).unlock own = some (after.locks inst, granted) := by
  cases moves with
  | start isControl =>
      refine absurd ((holds_update_of_heldEntries ?_).mpr held) lost
      rw [isControl]
      rfl
  | resume pos isControl =>
      refine absurd ((holds_update_of_heldEntries ?_).mpr held) lost
      rw [isControl]
      rfl
  | granted pos entry info isControl found call =>
      exact absurd ((holds_locking_succ isControl found).mpr (Or.inl held)) lost
  | enqueued pos entry info isControl found call =>
      refine absurd ((holds_update_of_heldEntries ?_).mpr held) lost
      rw [isControl]
      rfl
  | locked pos isControl atEnd =>
      refine absurd ((holds_update_of_heldEntries ?_).mpr held) lost
      rw [isControl]
      exact (List.take_of_length_le (List.getElem?_eq_none_iff.mp atEnd)).symm
  | executed isControl =>
      refine absurd ((holds_update_of_heldEntries ?_).mpr held) lost
      rw [isControl]
      rfl
  | released pos entry info granted isControl found call =>
      have holds := holds_unlocking isControl found
      by_cases isInst : inst = entry.1
      · rw [isInst]
        simp only [Function.update_self]
        exact ⟨_, granted, holds, call⟩
      · rcases (invariant.lock entry.1).unlock holds with ⟨_, _, isUnlock, whole, _⟩
        rw [call, Option.some.injEq, Prod.mk.injEq] at isUnlock
        rw [← isUnlock.1, ← isUnlock.2] at whole
        apply absurd _ lost
        apply (holds_unlocked isControl found (invariant.granted_await whole)).mpr
        exact Or.inl ⟨held, fun both => isInst both.1⟩
  | finished pos isControl atEnd =>
      refine absurd ((holds_update_of_heldEntries ?_).mpr held) lost
      rw [isControl]
      exact (List.drop_eq_nil_of_le (List.getElem?_eq_none_iff.mp atEnd)).symm

omit [DecidableEq τ] in
theorem Invariant.mem_waiting {control : τ → TaskControl} {locks : InstanceId → InfoLock τ}
    (invariant : Invariant set control locks) (awaits : Awaits set control inst t mode) :
    t ∈ (locks inst).waiting.map Prod.fst :=
  List.mem_map_of_mem ((invariant.waiting inst t mode).mpr awaits)

theorem Moves.ahead_le (invariant : Invariant set s.control s.locks)
    (invariantAfter : Invariant set after.control after.locks) (moves : Moves set s u after)
    (awaits : Awaits set s.control inst t mode)
    (awaitsAfter : Awaits set after.control inst t mode) :
    (after.locks inst).ahead t ≤ (s.locks inst).ahead t := by
  have waits := invariant.mem_waiting awaits
  have waitsAfter := invariantAfter.mem_waiting awaitsAfter
  cases moves with
  | granted pos entry info isControl found call =>
      by_cases isInst : inst = entry.1
      · rw [isInst] at waits
        have someone : (s.locks entry.1).waiting ≠ [] := by
          intro nobody
          rw [nobody] at waits
          cases waits
        have busy := (invariant.lock entry.1).occupied someone
        rcases InfoLock.lock_cases (s.locks entry.1) u (lockMode entry.2) with
          ⟨_, _, _, isFree | nobody⟩ | ⟨isEnqueued, _⟩
        · exact absurd isFree busy
        · exact absurd nobody someone
        · rw [isEnqueued] at call
          cases congrArg Prod.snd call
      · simp only [Function.update_of_ne isInst]
        exact Nat.le_refl _
  | enqueued pos entry info isControl found call =>
      by_cases isInst : inst = entry.1
      · rw [isInst] at waits ⊢
        rcases InfoLock.lock_cases (s.locks entry.1) u (lockMode entry.2) with
          ⟨_, isGranted, _⟩ | ⟨isEnqueued, _⟩
        · rw [isGranted] at call
          cases congrArg Prod.snd call
        · rw [isEnqueued, Prod.mk.injEq] at call
          simp only [Function.update_self, ← call.1]
          exact Nat.le_of_eq (InfoLock.ahead_enqueued waits)
      · simp only [Function.update_of_ne isInst]
        exact Nat.le_refl _
  | released pos entry info granted isControl found call =>
      by_cases isInst : inst = entry.1
      · rw [isInst] at waitsAfter ⊢
        simp only [Function.update_self] at waitsAfter ⊢
        exact Nat.le_of_lt (InfoLock.ahead_unlock (invariant.lock entry.1)
          (holds_unlocking isControl found) call waitsAfter)
      · simp only [Function.update_of_ne isInst]
        exact Nat.le_refl _
  | _ => exact Nat.le_refl _

omit [DecidableEq τ] in
theorem has_or_asksFrom {control : τ → TaskControl} (held : Holds set control inst v mode) :
    Has (control v) ∨ AsksFrom (set v) (inst + 1) (control v) := by
  have isNext : ∀ {pos : Nat} {access : ReceiverAccess},
      (inst, access) ∈ (set v).entries.take pos →
        ∀ entry ∈ (set v).entries.drop pos, inst + 1 ≤ entry.1 := by
    intro pos access isEarlier entry isLater
    have sorted := (set v).sorted
    rw [← List.take_append_drop pos (set v).entries] at sorted
    exact (List.pairwise_append.mp sorted).2.2 _ isEarlier _ isLater
  rcases held with ⟨access, isHeld, _⟩
  cases isControl : control v with
  | idle =>
      rw [isControl] at isHeld
      cases isHeld
  | locking pos =>
      rw [isControl] at isHeld
      exact Or.inr (isNext isHeld)
  | waiting pos =>
      rw [isControl] at isHeld
      exact Or.inr (isNext isHeld)
  | granted pos =>
      rw [isControl] at isHeld
      exact Or.inr (isNext isHeld)
  | executing => exact Or.inl trivial
  | unlocking pos => exact Or.inl trivial

end Queues

/-! ## Runs -/

section Runs

variable (run : InfiniteRun fun s event after => next set s event = some after)

theorem cases_run (n : Nat) : run.state (n + 1) = run.state n ∨
    ∃ event, run.event n = some event ∧
      Moves set (run.state n) event.task (run.state (n + 1)) := by
  cases isEvent : run.event n with
  | none => exact Or.inl (run.still n isEvent)
  | some event => exact Or.inr ⟨event, rfl, moves_of_next (run.taken n event isEvent)⟩

variable {run} (starts : run.state 0 = initial)
include starts

theorem reachable_run (n : Nat) : Reachable set (run.state n) :=
  run.holds_of_step (starts ▸ .initial) (fun _ _ _ reachable step => reachable.step step) n

variable (fair : run.IsFair Event.task (CanGoOn set)) {t : τ}
include fair

theorem leadsTo_of_moves (before goal : TaskControl → Prop)
    (begun : ∀ c, before c → c ≠ .idle ∧ ∀ pos, c ≠ .waiting pos)
    (moves : ∀ n, before ((run.state n).control t) →
      Moves set (run.state n) t (run.state (n + 1)) → goal ((run.state (n + 1)).control t)) :
    run.LeadsTo (fun s => before (s.control t)) fun s => goal (s.control t) := by
  apply InfiniteRun.LeadsTo.of_isFair fair t
  · intro n isBefore
    apply canGoOn_of_not_blocked (reachable_run starts n).invariant (begun _ isBefore).1
    rintro ⟨pos, isWaiting⟩
    exact (begun _ isBefore).2 pos isWaiting
  · intro n isBefore
    rcases cases_run run n with isSame | ⟨event, _, moved⟩
    · exact Or.inl (isSame ▸ isBefore)
    · by_cases isOwn : t = event.task
      · exact Or.inr (moves n isBefore (isOwn ▸ moved))
      · rcases moved.control_other isOwn with isSame | ⟨pos, isWaiting, _⟩
        · exact Or.inl (isSame ▸ isBefore)
        · exact absurd isWaiting ((begun _ isBefore).2 pos)
  · intro n event isBefore isEvent isOwn
    apply moves n isBefore
    rw [← isOwn]
    exact moves_of_next (run.taken n event isEvent)

theorem idle_of_has : run.LeadsTo (fun s => Has (s.control t)) fun s => s.control t = .idle := by
  apply InfiniteRun.LeadsTo.of_measure fun s => rank (set t) (s.control t)
  intro k
  apply leadsTo_of_moves starts fair (fun c => Has c ∧ rank (set t) c = k)
    fun c => c = .idle ∨ (Has c ∧ rank (set t) c < k)
  · rintro c ⟨has, _⟩
    cases c <;> simp_all [Has]
  · rintro n ⟨has, isRank⟩ moved
    rw [← isRank]
    exact moved.has has

/-- A task gets its locks if it gets those that it has to wait for. -/
theorem executing_of_asksFrom {first : InstanceId}
    (gets : ∀ inst mode, first ≤ inst →
      run.LeadsTo (fun s => Awaits set s.control inst t mode)
        fun s => ¬ Awaits set s.control inst t mode) :
    run.LeadsTo (fun s => AsksFrom (set t) first (s.control t))
      fun s => s.control t = .executing := by
  apply InfiniteRun.LeadsTo.of_measure fun s => rank (set t) (s.control t)
  intro k
  let closer (s : LockingState τ) : Prop := s.control t = .executing ∨
    (AsksFrom (set t) first (s.control t) ∧ rank (set t) (s.control t) < k)
  have waits : ∀ pos, run.LeadsTo (fun s => s.control t = .waiting pos ∧
      AsksFrom (set t) first (.waiting pos) ∧ rank (set t) (.waiting pos) = k) closer := by
    intro pos
    apply InfiniteRun.LeadsTo.of_leaves
    · rintro n ⟨isWaiting, asks, isRank⟩
      rcases cases_run run n with isSame | ⟨event, _, moved⟩
      · exact Or.inl (isSame ▸ ⟨isWaiting, asks, isRank⟩)
      · have different : t ≠ event.task := by
          intro isOwn
          rw [← isOwn] at moved
          exact moved.not_waiting pos isWaiting
        rcases moved.control_other different with isSame | ⟨other, isOther, isGranted⟩
        · exact Or.inl ⟨isSame.trans isWaiting, asks, isRank⟩
        · rw [isWaiting] at isOther
          injection isOther with samePos
          right
          refine Or.inr ⟨?_, ?_⟩
          · rw [isGranted, ← samePos]
            intro entry isEntry
            exact asks entry (List.drop_subset_drop_left _ (Nat.sub_le pos 1) isEntry)
          · rw [isGranted, ← isRank, samePos]
            simp only [rank]
            omega
    · intro n isBefore
      rcases (reachable_run starts n).waitsAtEntry t pos isBefore.1 with ⟨j, entry, isPos, found⟩
      have awaits : Awaits set (run.state n).control entry.1 t (lockMode entry.2) :=
        ⟨j, entry.2, isPos ▸ isBefore.1, found, rfl⟩
      have isLate : first ≤ entry.1 := by
        apply isBefore.2.1
        rw [isPos, Nat.add_sub_cancel]
        exact (InstanceSet.mem_drop found).mpr (Or.inl rfl)
      rcases gets entry.1 (lockMode entry.2) isLate n awaits with ⟨m, later, isGranted⟩
      refine ⟨m, later, ?_⟩
      rintro ⟨isWaiting, _⟩
      exact isGranted ⟨j, entry.2, isPos ▸ isWaiting, found, rfl⟩
  have goes : run.LeadsTo (fun s => (AsksFrom (set t) first (s.control t) ∧
      ∀ pos, s.control t ≠ .waiting pos) ∧ rank (set t) (s.control t) = k) closer := by
    apply leadsTo_of_moves starts fair (fun c => (AsksFrom (set t) first c ∧
      ∀ pos, c ≠ .waiting pos) ∧ rank (set t) c = k) fun c => c = .executing ∨
        (AsksFrom (set t) first c ∧ rank (set t) c < k)
    · rintro c ⟨⟨asks, notWaiting⟩, _⟩
      refine ⟨?_, notWaiting⟩
      intro isIdle
      rw [isIdle] at asks
      exact asks
    · rintro n ⟨⟨asks, _⟩, isRank⟩ moved
      rw [← isRank]
      exact moved.asksFrom asks
  rintro n ⟨asks, isRank⟩
  by_cases isWaiting : ∃ pos, (run.state n).control t = .waiting pos
  · rcases isWaiting with ⟨pos, isWaiting⟩
    exact waits pos n ⟨isWaiting, isWaiting ▸ asks, isWaiting ▸ isRank⟩
  · exact goes n ⟨⟨asks, fun pos isControl => isWaiting ⟨pos, isControl⟩⟩, isRank⟩

def HasLock (set : τ → InstanceSet) (inst : InstanceId) (t : τ) (s : LockingState τ) : Prop :=
  ∃ mode, Holds set s.control inst t mode

theorem leaves_hasLock {inst : InstanceId}
    (gets : ∀ other mode, inst + 1 ≤ other →
      run.LeadsTo (fun s => Awaits set s.control other t mode)
        fun s => ¬ Awaits set s.control other t mode) :
    run.LeadsTo (HasLock set inst t) fun s => ¬ HasLock set inst t s := by
  have executes : run.LeadsTo (fun s => AsksFrom (set t) (inst + 1) (s.control t))
      fun s => Has (s.control t) := by
    apply (executing_of_asksFrom starts fair gets).mono fun _ => id
    intro n isExecuting
    rw [isExecuting]
    trivial
  have ends : run.LeadsTo (fun s => Has (s.control t) ∨ AsksFrom (set t) (inst + 1) (s.control t))
      fun s => s.control t = .idle :=
    (idle_of_has starts fair).or (executes.trans (idle_of_has starts fair))
  apply ends.mono
  · rintro n ⟨mode, held⟩
    exact has_or_asksFrom held
  · rintro n isIdle ⟨mode, access, isHeld, _⟩
    rw [isIdle] at isHeld
    cases isHeld

omit fair in
theorem leaves_awaits {inst : InstanceId} {mode : LockMode}
    (releases : ∀ v, run.LeadsTo (HasLock set inst v) fun s => ¬ HasLock set inst v s) :
    run.LeadsTo (fun s => Awaits set s.control inst t mode)
      fun s => ¬ Awaits set s.control inst t mode := by
  apply InfiniteRun.LeadsTo.of_measure fun s => (s.locks inst).ahead t
  rintro k n ⟨awaits, isAhead⟩
  have invariant := (reachable_run starts n).invariant
  have listed := (invariant.waiting inst t mode).mpr awaits
  have busy := (invariant.lock inst).occupied (List.ne_nil_of_mem listed)
  rcases (invariant.lock inst).counts.exists_holder busy with ⟨v, another, held⟩
  have hands : run.LeadsTo (fun s => (Awaits set s.control inst t mode ∧
      (s.locks inst).ahead t = k) ∧ HasLock set inst v s) fun s =>
        ¬ Awaits set s.control inst t mode ∨
          (Awaits set s.control inst t mode ∧ (s.locks inst).ahead t < k) := by
    apply InfiniteRun.LeadsTo.of_leaves
    · rintro n ⟨⟨awaits, isAhead⟩, held⟩
      rcases cases_run run n with isSame | ⟨event, _, moved⟩
      · exact Or.inl (isSame ▸ ⟨⟨awaits, isAhead⟩, held⟩)
      · have invariant := (reachable_run starts n).invariant
        have invariantAfter := (reachable_run starts (n + 1)).invariant
        by_cases stillAwaits : Awaits set (run.state (n + 1)).control inst t mode
        · have notMore := moved.ahead_le invariant invariantAfter awaits stillAwaits
          rw [isAhead] at notMore
          by_cases stillHeld : HasLock set inst v (run.state (n + 1))
          · rcases Nat.lt_or_eq_of_le notMore with isLess | isEqual
            · exact Or.inr (Or.inr ⟨stillAwaits, isLess⟩)
            · exact Or.inl ⟨⟨stillAwaits, isEqual⟩, stillHeld⟩
          · rcases held with ⟨vMode, held⟩
            have lost : ¬ Holds set (run.state (n + 1)).control inst v vMode :=
              fun still => stillHeld ⟨vMode, still⟩
            rcases moved.released_of_not_holds invariant held lost with
              ⟨own, granted, isOwn, call⟩
            have isLess := InfoLock.ahead_unlock (invariant.lock inst) isOwn call
              (invariantAfter.mem_waiting stillAwaits)
            exact Or.inr (Or.inr ⟨stillAwaits, isAhead ▸ isLess⟩)
        · exact Or.inr (Or.inl stillAwaits)
    · apply (releases v).mono
      · exact fun n isBefore => isBefore.2
      · exact fun n hasReleased isBefore => hasReleased isBefore.2
  exact hands n ⟨⟨awaits, isAhead⟩, another, held⟩

theorem gets_lock [Finite τ] (inst : InstanceId) (mode : LockMode) :
    run.LeadsTo (fun s => Awaits set s.control inst t mode)
      fun s => ¬ Awaits set s.control inst t mode := by
  have areFinite : (⋃ u, {inst | inst ∈ (set u).entries.map Prod.fst}).Finite :=
    Set.finite_iUnion fun u => List.finite_toSet _
  rcases areFinite.bddAbove with ⟨greatest, isGreatest⟩
  have descends : ∀ distance inst, greatest < inst + distance → ∀ (t : τ) (mode : LockMode),
      run.LeadsTo (fun s => Awaits set s.control inst t mode)
        fun s => ¬ Awaits set s.control inst t mode := by
    intro distance
    induction distance with
    | zero =>
        rintro inst isBeyond t mode n ⟨pos, access, _, found, _⟩
        have isEntry : inst ∈ (set t).entries.map Prod.fst :=
          List.mem_map_of_mem (List.mem_of_getElem? found)
        exact absurd isBeyond (Nat.not_lt.mpr (isGreatest (Set.mem_iUnion.mpr ⟨t, isEntry⟩)))
    | succ distance inductionHypothesis =>
        intro inst isNear t mode
        apply leaves_awaits starts
        intro v
        apply leaves_hasLock starts fair
        intro other otherMode isGreater
        apply inductionHypothesis other
        calc greatest < inst + (distance + 1) := isNear
          _ = inst + 1 + distance := (Nat.add_right_comm inst 1 distance).symm
          _ ≤ other + distance := Nat.add_le_add_right isGreater distance
  exact descends (greatest + 1) inst (Nat.le_add_left _ _) t mode

end Runs

/-- No task starves: in a run in which each task that can go on does so in the end, each task
that has begun gets all its locks and is executed, and it releases its locks again. -/
theorem executes_of_begun {τ : Type u} [DecidableEq τ] [Finite τ] {set : τ → InstanceSet}
    (run : InfiniteRun fun s event after => next set s event = some after)
    (starts : run.state 0 = initial) (fair : run.IsFair Event.task (CanGoOn set)) (t : τ) :
    run.LeadsTo (fun s => s.control t ≠ .idle ∧ ¬ Has (s.control t))
        (fun s => s.control t = .executing) ∧
      run.LeadsTo (fun s => s.control t ≠ .idle) fun s => s.control t = .idle := by
  have executes : run.LeadsTo (fun s => s.control t ≠ .idle ∧ ¬ Has (s.control t))
      fun s => s.control t = .executing := by
    have gets : ∀ inst mode, 0 ≤ inst → run.LeadsTo (fun s => Awaits set s.control inst t mode)
        fun s => ¬ Awaits set s.control inst t mode :=
      fun inst mode _ => gets_lock starts fair inst mode
    apply (executing_of_asksFrom starts fair gets).mono _ fun _ => id
    rintro n ⟨begun, notHas⟩
    cases isControl : (run.state n).control t with
    | idle => exact absurd isControl begun
    | executing => exact absurd (isControl ▸ trivial) notHas
    | unlocking pos => exact absurd (isControl ▸ trivial) notHas
    | _ => exact fun entry _ => Nat.zero_le _
  refine ⟨executes, ?_⟩
  have executed : run.LeadsTo (fun s => s.control t ≠ .idle ∧ ¬ Has (s.control t))
      fun s => Has (s.control t) := by
    apply executes.mono fun _ => id
    intro n isExecuting
    rw [isExecuting]
    trivial
  apply ((idle_of_has starts fair).or (executed.trans (idle_of_has starts fair))).mono _ fun _ => id
  intro n begun
  by_cases has : Has ((run.state n).control t)
  · exact Or.inl has
  · exact Or.inr ⟨begun, has⟩

theorem exists_trace_twoCollectors :
    ∃ transitions finish,
      Trace (fun s event after => next twoCollectors s event = some after) initial transitions
        finish ∧
      (∀ t, finish.control t = .idle) ∧
      (transitions[4]?).map (fun transition => transition.before.control false) =
        some (.waiting 1) := by
  have moves : ∀ {s after : LockingState Bool} (event : Event Bool),
      next twoCollectors s event = some after → next twoCollectors s event = some after :=
    fun _ => id
  refine ⟨_, _,
    .cons (moves (.start true) rfl) <|
    .cons (moves (.lock true) rfl) <|
    .cons (moves (.start false) rfl) <|
    .cons (moves (.lock false) rfl) <|
    .cons (moves (.lock true) rfl) <|
    .cons (moves (.execute true) rfl) <|
    .cons (moves (.unlock true) rfl) <|
    .cons (moves (.unlock true) rfl) <|
    .cons (moves (.resume false) rfl) <|
    .cons (moves (.lock false) rfl) <|
    .cons (moves (.execute false) rfl) <|
    .cons (moves (.unlock false) rfl) <|
    .cons (moves (.unlock false) rfl) <|
    .nil _, ?_, rfl⟩
  intro t
  cases t with
  | false => rfl
  | true => rfl

theorem executes_of_begun_twoCollectors :
    ∃ run : InfiniteRun fun s event after => next twoCollectors s event = some after,
      (run.state 4).control false = .waiting 1 ∧
      run.LeadsTo (fun s => s.control false ≠ .idle ∧ ¬ Has (s.control false))
        fun s => s.control false = .executing := by
  rcases exists_trace_twoCollectors with ⟨transitions, finish, trace, areIdle, isWaiting⟩
  rcases InfiniteRun.exists_of_trace trace with ⟨run, starts, ends, passes⟩
  have fair : run.IsFair Event.task (CanGoOn twoCollectors) :=
    InfiniteRun.isFair_of_rest ends fun t able => able.1 (areIdle t)
  refine ⟨run, ?_, (executes_of_begun run starts fair false).1⟩
  rcases Option.map_eq_some_iff.mp isWaiting with ⟨transition, isTransition, isControl⟩
  rw [passes 4 transition isTransition]
  exact isControl

end LockingState

end Rcgo.Scheduler
