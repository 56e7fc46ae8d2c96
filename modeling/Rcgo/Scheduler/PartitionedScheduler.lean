import Rcgo.Scheduler.LockProtocol
import Rcgo.Scheduler.TaskLists
import Rcgo.Scheduler.TaskLocking

/-!
# The partitioned scheduler

The executors take tasks from their lists, lock the instances of a task one
after another, execute it and unlock them again.  The messages between the
executors and the count of idle tasks only decide which of the steps below an
executor takes next; so an executor that is free may take any of its tasks.
-/

namespace Rcgo.Scheduler

open Rcgo.Foundation Rcgo.Composition

/-- The tasks that `init` creates, by their addresses. -/
structure TaskTable (ε : Type) where
  tasks : List Nat
  nodup : tasks.Nodup
  notNull : ∀ task ∈ tasks, task ≠ 0
  /-- `executor` -/
  owner : Nat → ε
  set : Nat → InstanceSet

/-- Where an executor is in `run_i`. -/
inductive Activity where
  /-- before `get_ready_task_and_message` or the idle list -/
  | free
  /-- `get_ready_task_and_message` has taken the task -/
  | taken (task : Nat)
  /-- in the locking loop of `resume` -/
  | locking (task : Nat)
  /-- a lock has enqueued the task, and `resume` is about to advance `pos_` -/
  | enqueued (task : Nat)
  /-- in `execute_i` -/
  | executing (task : Nat)
  /-- in the unlocking loop of `resume` -/
  | unlocking (task : Nat)
  /-- in the signalling loop of `process_list` with the local variable `h` -/
  | signalling (task h : Nat)
  deriving DecidableEq, Repr

namespace Activity

/-- The task that is in execution. -/
def running : Activity → Option Nat
  | .free => none
  | .enqueued _ => none
  | .taken task => some task
  | .locking task => some task
  | .executing task => some task
  | .unlocking task => some task
  | .signalling task _ => some task

/-- The task in execution once its member `next` has been cleared. -/
def unlinked : Activity → Option Nat
  | .taken _ => none
  | activity => activity.running

/-- The first of the tasks that `process_list` has yet to signal. -/
def chain : Activity → Nat
  | .signalling _ h => h
  | _ => 0

end Activity

/-- The lists, the positions `pos_` of the tasks and what the executors do. -/
structure SchedulerState (ε : Type) where
  memory : TaskMemory ε
  pos : Nat → Nat
  activity : ε → Activity
  /-- the locks that have been given to tasks and not been released -/
  held : InstanceId → List Request

variable {ε : Type} [DecidableEq ε]

/-- `initialize_task` for one task after the other. -/
def initializeTasks (table : TaskTable ε) :
    List Nat → TaskMemory ε → Outcome LockFault (TaskMemory ε)
  | [], m => .ok m
  | task :: rest, m => do
      let m ← m.toIdleList (table.owner task) task
      initializeTasks table rest m

namespace SchedulerState

/-- One step of an executor. -/
inductive Step (table : TaskTable ε) (e : ε) (s : SchedulerState ε) : SchedulerState ε → Prop
  | takeReady {m task} :
      s.activity e = .free → s.memory.getReadyTask e = (m, task) → task ≠ 0 →
        Step table e s
          { s with
            memory := m
            activity := Function.update s.activity e (.taken task) }
  | resume {task} :
      s.activity e = .taken task →
        Step table e s
          { s with
            memory := s.memory.setNext task 0
            activity := Function.update s.activity e (.locking task) }
  | takeIdle {m task} :
      s.activity e = .free → s.memory.getIdleTask e = (m, task) → task ≠ 0 →
        Step table e s
          { s with
            memory := m
            pos := Function.update s.pos task 0
            activity := Function.update s.activity e (.locking task) }
  | granted {m task entry} :
      s.activity e = .locking task → (table.set task).entries[s.pos task]? = some entry →
        s.memory.lock entry.1 task (lockMode entry.2) = .ok (m, false) →
          Step table e s
            { s with
              memory := m
              pos := Function.update s.pos task (s.pos task + 1)
              held :=
                Function.update s.held entry.1
                  (s.held entry.1 ++ [(task, lockMode entry.2)]) }
  | enqueued {m task entry} :
      s.activity e = .locking task → (table.set task).entries[s.pos task]? = some entry →
        s.memory.lock entry.1 task (lockMode entry.2) = .ok (m, true) →
          Step table e s
            { s with
              memory := m
              activity := Function.update s.activity e (.enqueued task) }
  | returned {task} :
      s.activity e = .enqueued task →
        Step table e s
          { s with
            pos := Function.update s.pos task (s.pos task + 1)
            activity := Function.update s.activity e .free }
  | locked {task} :
      s.activity e = .locking task → (table.set task).entries[s.pos task]? = none →
        Step table e s { s with activity := Function.update s.activity e (.executing task) }
  | executed {task} :
      s.activity e = .executing task →
        Step table e s
          { s with
            pos := Function.update s.pos task 0
            activity := Function.update s.activity e (.unlocking task) }
  /-- the tasks from `h` on have been given the lock -/
  | unlock {m h task entry handed} :
      s.activity e = .unlocking task → (table.set task).entries[s.pos task]? = some entry →
        Outcome.Returns (fun depth => s.memory.unlock depth entry.1 (lockMode entry.2)) (m, h) →
          Chain m.next h (handed.map Prod.fst) 0 →
            (∀ w ∈ handed, LockMemory.modeOf (m.tasks w.1).readLock = w.2) →
              Step table e s
                { s with
                  memory := m
                  activity := Function.update s.activity e (.signalling task h)
                  held :=
                    Function.update s.held entry.1
                      ((s.held entry.1).filter (fun grant => grant.1 ≠ task) ++ handed) }
  | signal {m next task h} :
      s.activity e = .signalling task h → h ≠ 0 →
        s.memory.signal table.owner h = .ok (m, next) →
          Step table e s
            { s with
              memory := m
              activity := Function.update s.activity e (.signalling task next) }
  | signalled {task} :
      s.activity e = .signalling task 0 →
        Step table e s
          { s with
            pos := Function.update s.pos task (s.pos task + 1)
            activity := Function.update s.activity e (.unlocking task) }
  | unlocked {m task} :
      s.activity e = .unlocking task → (table.set task).entries[s.pos task]? = none →
        s.memory.toIdleList (table.owner task) task = .ok m →
          Step table e s
            { s with
              memory := m
              activity := Function.update s.activity e .free }

/-- The states of all interleavings of the executors. -/
inductive Reachable (table : TaskTable ε) : SchedulerState ε → Prop
  | initial {m pos} :
      initializeTasks table table.tasks TaskMemory.initial = .ok m →
        Reachable table ⟨m, pos, fun _ => .free, fun _ => []⟩
  | step {e s after} : Reachable table s → Step table e s after → Reachable table after

end SchedulerState

/-! ## Where the tasks are -/

/-- A place for tasks. -/
inductive Place (ε : Type) where
  | on (name : ListName ε)
  /-- behind the local variable `h` of `process_list`, which the executor runs -/
  | signalled (e : ε)
  /-- taken from a list by the executor and not put on a list since then -/
  | executing (e : ε)
  deriving DecidableEq

namespace Place

omit [DecidableEq ε]

/-- The executor whose tasks may be there. -/
def executor : Place ε → Option ε
  | .on (.idle e) => some e
  | .on (.ready e) => some e
  | .on (.waiting _) => none
  | .signalled _ => none
  | .executing e => some e

/-- The tasks there have been enqueued by a lock and not been resumed. -/
def IsSuspended : Place ε → Prop
  | .on (.idle _) => False
  | .on (.ready _) => True
  | .on (.waiting _) => True
  | .signalled _ => True
  | .executing _ => False

end Place

namespace SchedulerState

omit [DecidableEq ε]

def IsAt (s : SchedulerState ε) (task : Nat) : Place ε → Prop
  | .on name =>
      ∃ tasks, Chain s.memory.next (s.memory.lists name).head tasks 0 ∧ task ∈ tasks
  | .signalled e => ∃ tasks, Chain s.memory.next (s.activity e).chain tasks 0 ∧ task ∈ tasks
  | .executing e => (s.activity e).running = some task

/-- The list ends, and its tail is the address of its last link. -/
def IsWellFormed (s : SchedulerState ε) (name : ListName ε) : Prop :=
  ∃ tasks, Chain s.memory.next (s.memory.lists name).head tasks 0 ∧ tasks.Nodup ∧
    (s.memory.lists name).tail = LockMemory.tailBehind tasks

/-- The locks that the task holds are those of the entries. -/
def HoldsExactly (s : SchedulerState ε) (task : Nat) (entries : List InstanceEntry) : Prop :=
  ∀ inst mode,
    (task, mode) ∈ s.held inst ↔ ∃ access, (inst, access) ∈ entries ∧ lockMode access = mode

end SchedulerState

end Rcgo.Scheduler
