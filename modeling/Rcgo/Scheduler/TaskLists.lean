import Rcgo.Composition.InstanceSet
import Rcgo.Scheduler.WaitingList

/-!
# The lists of the partitioned scheduler

Every executor has an idle list and a ready list, and every instance has the
waiting list of its lock.  All of them are linked through the member `next` of
the tasks.
-/

namespace Rcgo.Scheduler

open Rcgo.Foundation Rcgo.Composition

/-- A list of tasks. -/
inductive ListName (ε : Type) where
  /-- from `idle_head_` -/
  | idle (executor : ε)
  /-- from `ready_head_` -/
  | ready (executor : ε)
  /-- from `head_` of the `info_t` of the instance -/
  | waiting (inst : InstanceId)
  deriving DecidableEq

/-- The two pointers of a list; the tail is `.head` when it is the address of
the other one. -/
structure TaskQueue where
  head : Nat
  tail : TaskLink

namespace LockMemory

/-- `*tail = task` and `tail = &task->next`. -/
def append (m : LockMemory) (task : Nat) : LockMemory :=
  { m.write task m.tail with tail := .next task }

/-- `head = head->next`. -/
def advance (m : LockMemory) : LockMemory :=
  { m with head := (m.tasks m.head).next }

end LockMemory

/-- The members of the tasks, the executors and the `info_t`s that belong to
the lists. -/
structure TaskMemory (ε : Type) where
  tasks : Nat → TaskNode
  lists : ListName ε → TaskQueue
  count : InstanceId → Int

namespace TaskMemory

variable {ε : Type}

/-- The constructors of tasks, executors and `info_t`s. -/
def initial : TaskMemory ε :=
  ⟨fun _ => ⟨false, 0⟩, fun _ => ⟨0, .head⟩, fun _ => 0⟩

/-- `count_`, which the lists of executors do not have. -/
def countOf (m : TaskMemory ε) : ListName ε → Int
  | .waiting inst => m.count inst
  | _ => 0

def view (m : TaskMemory ε) (name : ListName ε) : LockMemory :=
  ⟨m.countOf name, (m.lists name).head, (m.lists name).tail, m.tasks⟩

/-- `task->next = value`. -/
def setNext (m : TaskMemory ε) (task value : Nat) : TaskMemory ε :=
  { m with tasks := Function.update m.tasks task ⟨(m.tasks task).readLock, value⟩ }

def next (m : TaskMemory ε) (task : Nat) : Option Nat :=
  if task = 0 then none else some (m.tasks task).next

variable [DecidableEq ε]

/-- The memory after an operation on one list. -/
def store (m : TaskMemory ε) (name : ListName ε) (l : LockMemory) : TaskMemory ε where
  tasks := l.tasks
  lists := Function.update m.lists name ⟨l.head, l.tail⟩
  count :=
    match name with
    | .waiting inst => Function.update m.count inst l.count
    | _ => m.count

/-! ## The operations -/

/-- `to_idle_list` and what `to_ready_list` does under `mutex_`. -/
def push (m : TaskMemory ε) (name : ListName ε) (task : Nat) :
    Outcome LockFault (TaskMemory ε) :=
  if (m.tasks task).next ≠ 0 then
    .error .assertion
  else
    .ok (m.store name ((m.view name).append task))

/-- `to_idle_list`. -/
def toIdleList (m : TaskMemory ε) (executor : ε) (task : Nat) : Outcome LockFault (TaskMemory ε) :=
  m.push (.idle executor) task

/-- `to_ready_list`. -/
def toReadyList (m : TaskMemory ε) (executor : ε) (task : Nat) :
    Outcome LockFault (TaskMemory ε) :=
  m.push (.ready executor) task

/-- The task that `get_ready_task_and_message` takes. -/
def getReadyTask (m : TaskMemory ε) (executor : ε) : TaskMemory ε × Nat :=
  let l := m.view (.ready executor)
  if l.head ≠ 0 then (m.store (.ready executor) l.advance.resetTail, l.head) else (m, 0)

/-- The task that `run_i` takes off the idle list. -/
def getIdleTask (m : TaskMemory ε) (executor : ε) : TaskMemory ε × Nat :=
  let l := m.view (.idle executor)
  if l.head ≠ 0 then
    (m.store (.idle executor) (l.advance.setNext l.head 0).resetTail, l.head)
  else
    (m, 0)

/-- `read_lock` or `write_lock` of the `info_t` of an instance. -/
def lock (m : TaskMemory ε) (inst : InstanceId) (task : Nat) (mode : LockMode) :
    Outcome LockFault (TaskMemory ε × Bool) := do
  let (l, enqueued) ← (m.view (.waiting inst)).lock task mode
  pure (m.store (.waiting inst) l, enqueued)

/-- `read_unlock` or `write_unlock` up to `__sync_lock_release`, with the local
variable `h` of `process_list`. -/
def unlock (depth : Nat) (m : TaskMemory ε) (inst : InstanceId) (mode : LockMode) :
    Outcome LockFault (TaskMemory ε × Nat) := do
  let (l, h) ← (m.view (.waiting inst)).unlock depth mode
  pure (m.store (.waiting inst) l, h)

/-- One iteration of the signalling loop of `process_list`. -/
def signal (m : TaskMemory ε) (owner : Nat → ε) (h : Nat) :
    Outcome LockFault (TaskMemory ε × Nat) := do
  let next := (m.tasks h).next
  let m := m.setNext h 0
  let m ← m.toReadyList (owner h) h
  pure (m, next)

end TaskMemory

/-! ## What the operations do to a list -/

namespace LockMemory

variable {m : LockMemory} {l : InfoLock Nat}

theorem append_eq_enqueue (task : Nat) : m.append task = m.enqueue task (m.tasks task).readLock := by
  unfold append enqueue
  rw [Function.update_eq_self]

theorem Represents.append (represents : m.Represents l) {task : Nat} (notNull : task ≠ 0)
    (unlinked : (m.tasks task).next = 0) (absent : task ∉ l.waiting.map Prod.fst) :
    (m.append task).Represents
      ⟨l.count, l.waiting ++ [(task, modeOf (m.tasks task).readLock)]⟩ ∧
    ∀ other, other ∉ l.waiting.map Prod.fst → other ≠ task →
      (m.append task).tasks other = m.tasks other := by
  rw [append_eq_enqueue]
  exact represents.enqueue notNull unlinked absent _

theorem count_append (task : Nat) : (m.append task).count = m.count := by
  rw [append_eq_enqueue, count_enqueue]

theorem tasks_advance_resetTail : m.advance.resetTail.tasks = m.tasks := by
  rw [tasks_resetTail, advance]

theorem Represents.advance (represents : m.Represents l) {w : Nat × LockMode}
    {later : List (Nat × LockMode)} (isWaiting : l.waiting = w :: later) :
    m.head = w.1 ∧ m.advance.resetTail.Represents ⟨l.count, later⟩ := by
  have chain := represents.chain
  have nodup := represents.nodup
  have isTail := represents.tail
  rw [isWaiting, List.map_cons] at chain nodup isTail
  obtain ⟨isFirst, successor, isNext, rest⟩ := chain
  have isSuccessor := (next_eq_some.mp isNext).2
  have isHead : m.advance.head = successor := by
    rw [LockMemory.advance, isFirst, isSuccessor]
  have sameNext : m.advance.resetTail.next = m.next := by
    funext task
    exact next_congr (congrFun tasks_advance_resetTail task)
  refine ⟨isFirst, ?_, ?_, ?_, (List.nodup_cons.mp nodup).2, ?_⟩
  · rw [count_resetTail]
    exact represents.count
  · rw [sameNext, head_resetTail, isHead]
    exact rest
  · have isEmpty := chain_null_iff rest
    rw [resetTail, isHead]
    by_cases isNull : successor = 0
    · rw [if_pos isNull, isEmpty.mp isNull]
      rfl
    · rw [if_neg isNull]
      have someLater : later.map Prod.fst ≠ [] := mt isEmpty.mpr isNull
      have sameTail : tailBehind ([w.1] ++ later.map Prod.fst) = tailBehind (later.map Prod.fst) :=
        tailBehind_append someLater
      exact isTail.trans sameTail
  · intro other member
    rw [tasks_advance_resetTail]
    exact represents.mode other (isWaiting ▸ List.mem_cons_of_mem _ member)

theorem advance_setNext_resetTail (task value : Nat) :
    (m.advance.setNext task value).resetTail = m.advance.resetTail.setNext task value := by
  unfold resetTail
  rw [show (m.advance.setNext task value).head = m.advance.head from rfl]
  split
  · rfl
  · rfl

theorem tasks_of_granted {after : LockMemory} {task : Nat} {mode : LockMode}
    (run : m.lock task mode = .ok (after, false)) : after.tasks = m.tasks := by
  cases mode with
  | read =>
      rw [LockMemory.lock, LockMemory.readLock] at run
      split at run
      · cases run
      · split at run
        · cases run
          rfl
        · split at run
          · cases run
            rfl
          · cases run
  | write =>
      rw [LockMemory.lock, LockMemory.writeLock] at run
      split at run
      · cases run
      · split at run
        · cases run
          rfl
        · cases run

end LockMemory

namespace TaskMemory

variable {ε : Type} [DecidableEq ε] {m : TaskMemory ε} {name : ListName ε} {l : LockMemory}

theorem view_store_self (isCount : l.count = m.countOf name ∨ ∃ inst, name = .waiting inst) :
    (m.store name l).view name = l := by
  have same : (m.store name l).countOf name = l.count := by
    cases name with
    | idle executor =>
        rcases isCount with sameCount | ⟨inst, isWaiting⟩
        · exact sameCount.symm
        · cases isWaiting
    | ready executor =>
        rcases isCount with sameCount | ⟨inst, isWaiting⟩
        · exact sameCount.symm
        · cases isWaiting
    | waiting inst => exact Function.update_self _ _ _
  rw [view, same]
  simp only [store, Function.update_self]

theorem view_store_other {other : ListName ε} (different : other ≠ name) :
    (m.store name l).view other = { m.view other with tasks := l.tasks } := by
  have same : (m.store name l).countOf other = m.countOf other := by
    cases other with
    | idle executor => rfl
    | ready executor => rfl
    | waiting inst =>
        cases name with
        | idle executor => rfl
        | ready executor => rfl
        | waiting changed =>
            apply Function.update_of_ne
            exact fun isInst => different (congrArg ListName.waiting isInst)
  rw [view, same]
  simp only [store, Function.update_of_ne different, view]

theorem lock_of_view {inst : InstanceId} {task : Nat} {mode : LockMode} {enqueued : Bool}
    (run : (m.view (.waiting inst)).lock task mode = .ok (l, enqueued)) :
    m.lock inst task mode = .ok (m.store (.waiting inst) l, enqueued) := by
  rw [lock, run]
  rfl

theorem push_of_unlinked {task : Nat} (unlinked : (m.tasks task).next = 0) :
    m.push name task = .ok (m.store name ((m.view name).append task)) :=
  if_neg (not_not_intro unlinked)

theorem unlock_of_view {inst : InstanceId} {mode : LockMode} {h : Nat}
    (run : Outcome.Returns (fun depth => (m.view (.waiting inst)).unlock depth mode) (l, h)) :
    Outcome.Returns (fun depth => m.unlock depth inst mode) (m.store (.waiting inst) l, h) := by
  obtain ⟨least, enough⟩ := run
  refine ⟨least, ?_⟩
  intro depth deep
  simp only [unlock, enough depth deep, Outcome.ok_bind, Outcome.pure_eq]

omit [DecidableEq ε] in
theorem tasks_setNext_self (task value : Nat) :
    (m.setNext task value).tasks task = ⟨(m.tasks task).readLock, value⟩ :=
  Function.update_self _ _ _

omit [DecidableEq ε] in
theorem tasks_setNext_other {task other : Nat} (value : Nat) (different : other ≠ task) :
    (m.setNext task value).tasks other = m.tasks other :=
  Function.update_of_ne different _ _

end TaskMemory

end Rcgo.Scheduler
