import Rcgo.Foundation.Location
import Rcgo.Scheduler.PartitionedScheduler

/-!
# The tasks on the lists

Every operation of the scheduler moves tasks from the front of one list to the
end of another one.  The other lists do not change, because no task is on two
of them.
-/

namespace Rcgo.Scheduler

open Rcgo.Foundation Rcgo.Composition

variable {ε : Type}

/-- The tasks are in these places, and the memory links them so. -/
structure Placed (table : TaskTable ε) (m : TaskMemory ε) (activity : ε → Activity)
    (contents : Place ε → List Nat) (place : Nat → Option (Place ε))
    (queues : ListName ε → InfoLock Nat) : Prop where
  located : Located contents place
  known : ∀ task, (place task).isSome ↔ task ∈ table.tasks
  own : ∀ task p e, place task = some p → p.executor = some e → table.owner task = e
  list : ∀ name, (m.view name).Represents (queues name)
  listed : ∀ name, (queues name).waiting.map Prod.fst = contents (.on name)
  chain : ∀ e, Chain m.next (activity e).chain (contents (.signalled e)) 0
  running : ∀ e, contents (.executing e) = (activity e).running.toList
  unlinked : ∀ e task, (activity e).unlinked = some task → (m.tasks task).next = 0
  suspended :
    ∀ e task, activity e = .enqueued task →
      table.owner task = e ∧ ∃ p, place task = some p ∧ p.IsSuspended

theorem represents_store [DecidableEq ε] {m : TaskMemory ε} {queues : ListName ε → InfoLock Nat}
    {name : ListName ε} {l : LockMemory} {q : InfoLock Nat}
    (list : ∀ other, (m.view other).Represents (queues other)) (represents : l.Represents q)
    (isCount : l.count = m.countOf name ∨ ∃ inst, name = .waiting inst)
    (same : ∀ other, other ≠ name → ∀ task ∈ (queues other).waiting.map Prod.fst,
      l.tasks task = m.tasks task) (other : ListName ε) :
    ((m.store name l).view other).Represents (Function.update queues name q other) := by
  by_cases isName : other = name
  · rw [isName, TaskMemory.view_store_self isCount, Function.update_self]
    exact represents
  · rw [TaskMemory.view_store_other isName, Function.update_of_ne isName]
    exact (list other).congr rfl rfl rfl (same other isName)

namespace Placed

variable {table : TaskTable ε} {m : TaskMemory ε} {activity : ε → Activity}
  {contents : Place ε → List Nat} {place : Nat → Option (Place ε)}
  {queues : ListName ε → InfoLock Nat}

theorem place_of_running (placed : Placed table m activity contents place queues) {e : ε}
    {task : Nat} (isRunning : (activity e).running = some task) :
    place task = some (.executing e) := by
  apply placed.located.place_of_mem
  rw [placed.running, isRunning]
  exact List.mem_singleton_self task

theorem notNull (placed : Placed table m activity contents place queues) {p : Place ε} {task : Nat}
    (here : task ∈ contents p) : task ≠ 0 := by
  apply table.notNull
  rw [← placed.known, placed.located.place_of_mem here]
  rfl

theorem contents_of_running (placed : Placed table m activity contents place queues) {e : ε}
    {task : Nat} (isRunning : (activity e).running = some task) :
    contents (.executing e) = [task] := by
  rw [placed.running, isRunning]
  rfl

theorem notNull_of_running (placed : Placed table m activity contents place queues) {e : ε}
    {task : Nat} (isRunning : (activity e).running = some task) : task ≠ 0 := by
  apply placed.notNull (p := .executing e)
  rw [placed.contents_of_running isRunning]
  exact List.mem_singleton_self task

theorem running_of_unlinked {activity : Activity} {task : Nat}
    (isUnlinked : activity.unlinked = some task) : activity.running = some task := by
  cases activity with
  | taken _ => cases isUnlinked
  | _ => exact isUnlinked

/-- Tasks move, and the operation that moves them changes only their links and
those of one list. -/
theorem transfer [DecidableEq ε] (placed : Placed table m activity contents place queues) {e : ε}
    {after : Activity} {name : ListName ε} {l : LockMemory} {q : InfoLock Nat}
    {source target : Place ε} {front back : List Nat}
    (isFront : contents source = front ++ back) (different : source ≠ target)
    (represents : l.Represents q)
    (isCount : l.count = m.countOf name ∨ ∃ inst, name = .waiting inst)
    (same : ∀ task, task ∉ contents (.on name) → task ∉ front → l.tasks task = m.tasks task)
    (elsewhere : ∀ p, p ≠ .on name → p ≠ .signalled e → p ≠ .executing e → p ≠ source ∧ p ≠ target)
    (listed : q.waiting.map Prod.fst = transferred contents source target front back (.on name))
    (chain : Chain l.next after.chain (transferred contents source target front back (.signalled e)) 0)
    (running : transferred contents source target front back (.executing e) = after.running.toList)
    (own : ∀ task ∈ front, ∀ e, target.executor = some e → table.owner task = e)
    (unlinked : ∀ task, after.unlinked = some task → (l.tasks task).next = 0)
    (suspended : ∀ task, after = .enqueued task →
      table.owner task = e ∧ ∃ p, relocated place target front task = some p ∧ p.IsSuspended)
    (stays : ∀ task ∈ front, ∀ other, other ≠ e → activity other = .enqueued task →
      target.IsSuspended) :
    Placed table (m.store name l) (Function.update activity e after)
      (transferred contents source target front back) (relocated place target front)
      (Function.update queues name q) := by
  have wasThere : ∀ task ∈ front, task ∈ contents source := by
    intro task member
    rw [isFront]
    exact List.mem_append_left _ member
  -- the tasks of the places that do not take part keep their links
  have unchanged : ∀ p, p ≠ .on name → p ≠ .signalled e → p ≠ .executing e →
      transferred contents source target front back p = contents p ∧
        ∀ task ∈ contents p, l.tasks task = m.tasks task := by
    intro p notName notChain notRunning
    obtain ⟨notSource, notTarget⟩ := elsewhere p notName notChain notRunning
    refine ⟨transferred_other notSource notTarget, ?_⟩
    intro task here
    apply same
    · exact placed.located.not_mem_of_ne here notName
    · exact fun member => notSource (placed.located.unique here (wasThere task member))
  constructor
  · exact placed.located.transfer isFront different
  · intro task
    by_cases member : task ∈ front
    · rw [relocated_of_mem member, ← placed.known,
        placed.located.place_of_mem (wasThere task member)]
      rfl
    · rw [relocated_of_not_mem member]
      exact placed.known task
  · intro task p owner isPlace isOwner
    by_cases member : task ∈ front
    · rw [relocated_of_mem member, Option.some.injEq] at isPlace
      rw [← isPlace] at isOwner
      exact own task member owner isOwner
    · rw [relocated_of_not_mem member] at isPlace
      exact placed.own task p owner isPlace isOwner
  · apply represents_store placed.list represents isCount
    intro other notName task waits
    rw [placed.listed] at waits
    refine (unchanged (.on other) ?_ (by simp) (by simp)).2 task waits
    exact fun isName => notName (Place.on.inj isName)
  · intro other
    by_cases isName : other = name
    · rw [isName, Function.update_self]
      exact listed
    · rw [Function.update_of_ne isName, placed.listed]
      refine (unchanged (.on other) ?_ (by simp) (by simp)).1.symm
      exact fun same => isName (Place.on.inj same)
  · intro other
    by_cases isExecutor : other = e
    · rw [isExecutor, Function.update_self]
      exact chain
    · rw [Function.update_of_ne isExecutor]
      have both := unchanged (.signalled other) (by simp)
        (fun same => isExecutor (Place.signalled.inj same)) (by simp)
      rw [both.1]
      apply (placed.chain other).congr
      intro task here
      show l.next task = m.next task
      rw [LockMemory.next, TaskMemory.next, both.2 task here]
  · intro other
    by_cases isExecutor : other = e
    · rw [isExecutor, Function.update_self]
      exact running
    · rw [Function.update_of_ne isExecutor, ← placed.running]
      exact (unchanged (.executing other) (by simp) (by simp)
        fun same => isExecutor (Place.executing.inj same)).1
  · intro other task isUnlinked
    by_cases isExecutor : other = e
    · rw [isExecutor, Function.update_self] at isUnlinked
      exact unlinked task isUnlinked
    · rw [Function.update_of_ne isExecutor] at isUnlinked
      have both := unchanged (.executing other) (by simp) (by simp)
        fun same => isExecutor (Place.executing.inj same)
      show (l.tasks task).next = 0
      rw [both.2 task]
      · exact placed.unlinked other task isUnlinked
      · rw [placed.running, running_of_unlinked isUnlinked]
        exact List.mem_singleton_self task
  · intro other task isEnqueued
    by_cases isExecutor : other = e
    · rw [isExecutor, Function.update_self] at isEnqueued
      rw [isExecutor]
      exact suspended task isEnqueued
    · rw [Function.update_of_ne isExecutor] at isEnqueued
      obtain ⟨isOwner, p, isPlace, isSuspended⟩ := placed.suspended other task isEnqueued
      refine ⟨isOwner, ?_⟩
      by_cases member : task ∈ front
      · exact ⟨target, relocated_of_mem member, stays task member other isExecutor isEnqueued⟩
      · exact ⟨p, (relocated_of_not_mem member).trans isPlace, isSuspended⟩

/-! ## Steps that move no task -/

theorem not_mem_of_running (placed : Placed table m activity contents place queues) {e : ε}
    {task : Nat} (isRunning : (activity e).running = some task) {p : Place ε}
    (different : p ≠ .executing e) : task ∉ contents p := by
  intro here
  have isPlace := placed.located.place_of_mem here
  rw [placed.place_of_running isRunning, Option.some.injEq] at isPlace
  exact different isPlace.symm

theorem act [DecidableEq ε] (placed : Placed table m activity contents place queues) {e : ε}
    {after : Activity} (running : after.running = (activity e).running)
    (chain : after.chain = (activity e).chain)
    (unlinked : ∀ task, after.unlinked = some task → (m.tasks task).next = 0)
    (notEnqueued : ∀ task, after ≠ .enqueued task) :
    Placed table m (Function.update activity e after) contents place queues := by
  have sameRunning : ∀ other, (Function.update activity e after other).running =
      (activity other).running := by
    intro other
    by_cases isExecutor : other = e
    · rw [isExecutor, Function.update_self, running]
    · rw [Function.update_of_ne isExecutor]
  have sameChain : ∀ other, (Function.update activity e after other).chain =
      (activity other).chain := by
    intro other
    by_cases isExecutor : other = e
    · rw [isExecutor, Function.update_self, chain]
    · rw [Function.update_of_ne isExecutor]
  refine ⟨placed.located, placed.known, placed.own, placed.list, placed.listed, ?_, ?_, ?_, ?_⟩
  · intro other
    rw [sameChain]
    exact placed.chain other
  · intro other
    rw [sameRunning]
    exact placed.running other
  · intro other task isUnlinked
    by_cases isExecutor : other = e
    · rw [isExecutor, Function.update_self] at isUnlinked
      exact unlinked task isUnlinked
    · rw [Function.update_of_ne isExecutor] at isUnlinked
      exact placed.unlinked other task isUnlinked
  · intro other task isEnqueued
    by_cases isExecutor : other = e
    · rw [isExecutor, Function.update_self] at isEnqueued
      exact absurd isEnqueued (notEnqueued task)
    · rw [Function.update_of_ne isExecutor] at isEnqueued
      exact placed.suspended other task isEnqueued

/-- The member `next` of a task in execution is cleared. -/
theorem setNext (placed : Placed table m activity contents place queues) {e : ε} {task : Nat}
    (isRunning : (activity e).running = some task) :
    Placed table (m.setNext task 0) activity contents place queues := by
  have other : ∀ t, t ≠ task → (m.setNext task 0).tasks t = m.tasks t := fun _ different =>
    TaskMemory.tasks_setNext_other 0 different
  refine ⟨placed.located, placed.known, placed.own, ?_, placed.listed, ?_, placed.running, ?_,
    placed.suspended⟩
  · intro name
    apply (placed.list name).setNext
    rw [placed.listed]
    exact placed.not_mem_of_running isRunning (by simp)
  · intro executor
    apply (placed.chain executor).congr
    intro t here
    have different : t ≠ task := by
      intro same
      exact placed.not_mem_of_running isRunning (by simp) (same ▸ here)
    rw [TaskMemory.next, TaskMemory.next, other t different]
  · intro executor t isUnlinked
    by_cases same : t = task
    · rw [same, TaskMemory.tasks_setNext_self]
    · rw [other t same]
      exact placed.unlinked executor t isUnlinked

theorem resume [DecidableEq ε] (placed : Placed table m activity contents place queues) {e : ε}
    {task : Nat} (isTaken : activity e = .taken task) :
    Placed table (m.setNext task 0) (Function.update activity e (.locking task)) contents place
      queues := by
  have isRunning : (activity e).running = some task := by
    rw [isTaken]
    rfl
  have cleared := placed.setNext isRunning
  apply cleared.act
  · rw [isTaken]
    rfl
  · rw [isTaken]
    rfl
  · intro t isUnlinked
    have isTask : task = t := Option.some.inj isUnlinked
    rw [← isTask, TaskMemory.tasks_setNext_self]
  · simp

/-- A lock is granted at once. -/
theorem granted [DecidableEq ε] (placed : Placed table m activity contents place queues) {e : ε}
    {task : Nat} (isLocking : activity e = .locking task) {inst : InstanceId} {mode : LockMode}
    {after : TaskMemory ε} (run : m.lock inst task mode = .ok (after, false)) :
    ((queues (.waiting inst)).lock task mode).2 = false ∧
      Placed table after activity contents place
        (Function.update queues (.waiting inst) ((queues (.waiting inst)).lock task mode).1) := by
  have isRunning : (activity e).running = some task := by
    rw [isLocking]
    rfl
  have isUnlinked : (activity e).unlinked = some task := by
    rw [isLocking]
    rfl
  have absent : task ∉ (queues (.waiting inst)).waiting.map Prod.fst := by
    rw [placed.listed]
    exact placed.not_mem_of_running isRunning (by simp)
  have notNull := placed.notNull_of_running isRunning
  obtain ⟨l, result, represents, _⟩ :=
    (placed.list (.waiting inst)).lock notNull (placed.unlinked e task isUnlinked) absent mode
  rw [TaskMemory.lock_of_view result, Outcome.ok.injEq, Prod.mk.injEq] at run
  obtain ⟨isAfter, isGranted⟩ := run
  rw [isGranted] at result
  have sameTasks : l.tasks = m.tasks := LockMemory.tasks_of_granted result
  have call : (queues (.waiting inst)).lock task mode =
      (((queues (.waiting inst)).lock task mode).1, false) := Prod.ext rfl isGranted
  have sameWaiting : ((queues (.waiting inst)).lock task mode).1.waiting =
      (queues (.waiting inst)).waiting := by
    rcases InfoLock.lock_cases (queues (.waiting inst)) task mode with ⟨_, isLock, _⟩ | ⟨isLock, _⟩
    · rw [isLock]
    · rw [isLock] at isGranted
      cases isGranted
  refine ⟨isGranted, placed.located, placed.known, placed.own, ?_, ?_, ?_, placed.running, ?_,
    placed.suspended⟩
  · rw [← isAfter]
    apply represents_store placed.list represents (Or.inr ⟨inst, rfl⟩)
    exact fun _ _ t _ => congrFun sameTasks t
  · intro name
    by_cases isName : name = .waiting inst
    · rw [isName, Function.update_self, sameWaiting]
      exact placed.listed _
    · rw [Function.update_of_ne isName]
      exact placed.listed name
  · intro executor
    rw [← isAfter]
    apply (placed.chain executor).congr
    intro t _
    show (m.store (.waiting inst) l).next t = m.next t
    rw [TaskMemory.next, TaskMemory.next, TaskMemory.store, sameTasks]
  · rw [← isAfter, TaskMemory.store, sameTasks]
    exact placed.unlinked

/-! ## Steps that move tasks -/

theorem noChain (placed : Placed table m activity contents place queues) {p : Place ε}
    (chain : Chain m.next 0 (contents p) 0) : contents p = [] := by
  cases isList : contents p with
  | nil => rfl
  | cons task rest =>
      rw [isList] at chain
      exact absurd chain.1.symm (placed.notNull (isList ▸ List.mem_cons_self))

/-- A free executor takes the first task of one of its lists. -/
theorem takeFirst [DecidableEq ε] (placed : Placed table m activity contents place queues) {e : ε}
    {name : ListName ε} (isOwn : Place.executor (.on name) = some e) (isFree : activity e = .free)
    {task : Nat} (isHead : (m.view name).head = task) (isTask : task ≠ 0) {l : LockMemory}
    (represents : ∀ q, (m.view name).advance.resetTail.Represents q →
      task ∉ q.waiting.map Prod.fst → l.Represents q)
    (isCount : l.count = m.countOf name) (same : ∀ t, t ≠ task → l.tasks t = m.tasks t)
    {after : Activity} (isRunning : after.running = some task) (isChain : after.chain = 0)
    (unlinked : ∀ t, after.unlinked = some t → (l.tasks t).next = 0)
    (notEnqueued : ∀ t, after ≠ .enqueued t) :
    place task = some (.on name) ∧
      ∃ contents' queues',
        Placed table (m.store name l) (Function.update activity e after) contents'
          (relocated place (.executing e) [task]) queues' ∧
        ∀ inst, queues' (.waiting inst) = queues (.waiting inst) := by
  have notEmpty : (queues name).waiting ≠ [] := by
    rw [ne_eq, ← (placed.list name).head_eq_zero_iff, isHead]
    exact isTask
  obtain ⟨w, later, isWaiting⟩ := List.exists_cons_of_ne_nil notEmpty
  obtain ⟨isFirst, advanced⟩ := (placed.list name).advance isWaiting
  rw [isHead] at isFirst
  have isContents : contents (.on name) = [task] ++ later.map Prod.fst := by
    rw [← placed.listed, isWaiting, isFirst]
    rfl
  have nodup := placed.located.nodup (.on name)
  rw [isContents] at nodup
  have isIdle : contents (.executing e) = [] := by
    rw [placed.running, isFree]
    rfl
  have noChain : contents (.signalled e) = [] := by
    have chain := placed.chain e
    rw [isFree] at chain
    exact placed.noChain chain
  have notWaiting : ∀ inst, name ≠ .waiting inst := by
    rintro inst rfl
    cases isOwn
  refine ⟨?_, _, _, placed.transfer isContents (by simp) (represents _ advanced ?_)
    (Or.inl isCount) ?_ ?_ ?_ ?_ ?_ ?_ unlinked ?_ ?_, ?_⟩
  · apply placed.located.place_of_mem
    rw [isContents]
    exact List.mem_cons_self
  · exact (List.nodup_cons.mp nodup).1
  · intro t _ notTask
    exact same t fun isSame => notTask (List.mem_singleton.mpr isSame)
  · exact fun p notName _ notRunning => ⟨notName, notRunning⟩
  · rw [transferred_source (by simp)]
  · rw [isChain, transferred_other (by simp) (by simp), noChain]
    exact rfl
  · rw [transferred_target, isIdle, isRunning]
    rfl
  · intro t member owner isOwner
    rw [List.mem_singleton.mp member]
    have isExecutor : e = owner := Option.some.inj isOwner
    rw [← isExecutor]
    apply placed.own task (.on name) e _ isOwn
    apply placed.located.place_of_mem
    rw [isContents]
    exact List.mem_cons_self
  · exact fun t isEnqueued => absurd isEnqueued (notEnqueued t)
  · intro t member other different isEnqueued
    exfalso
    obtain ⟨isOwner, _⟩ := placed.suspended other t isEnqueued
    have isPlace : place t = some (.on name) := by
      apply placed.located.place_of_mem
      rw [isContents]
      exact List.mem_append_left _ member
    exact different (isOwner.symm.trans (placed.own t _ e isPlace isOwn))
  · intro inst
    exact Function.update_of_ne (Ne.symm (notWaiting inst)) _ _

theorem takeReady [DecidableEq ε] (placed : Placed table m activity contents place queues) {e : ε}
    (isFree : activity e = .free) {task : Nat} {after : TaskMemory ε}
    (isTaken : m.getReadyTask e = (after, task)) (isTask : task ≠ 0) :
    place task = some (.on (.ready e)) ∧
      ∃ contents' queues',
        Placed table after (Function.update activity e (.taken task)) contents'
          (relocated place (.executing e) [task]) queues' ∧
        ∀ inst, queues' (.waiting inst) = queues (.waiting inst) := by
  unfold TaskMemory.getReadyTask at isTaken
  dsimp only at isTaken
  split at isTaken
  · rw [Prod.mk.injEq] at isTaken
    obtain ⟨isAfter, isHead⟩ := isTaken
    rw [← isAfter]
    apply placed.takeFirst rfl isFree isHead isTask (l := (m.view (.ready e)).advance.resetTail)
    · exact fun _ represents _ => represents
    · rw [LockMemory.count_resetTail]
      rfl
    · exact fun t _ => congrFun LockMemory.tasks_advance_resetTail t
    · rfl
    · rfl
    · intro t isUnlinked
      cases isUnlinked
    · simp
  · rw [Prod.mk.injEq] at isTaken
    exact absurd isTaken.2.symm isTask

theorem takeIdle [DecidableEq ε] (placed : Placed table m activity contents place queues) {e : ε}
    (isFree : activity e = .free) {task : Nat} {after : TaskMemory ε}
    (isTaken : m.getIdleTask e = (after, task)) (isTask : task ≠ 0) :
    place task = some (.on (.idle e)) ∧
      ∃ contents' queues',
        Placed table after (Function.update activity e (.locking task)) contents'
          (relocated place (.executing e) [task]) queues' ∧
        ∀ inst, queues' (.waiting inst) = queues (.waiting inst) := by
  unfold TaskMemory.getIdleTask at isTaken
  dsimp only at isTaken
  split at isTaken
  · rw [Prod.mk.injEq, LockMemory.advance_setNext_resetTail] at isTaken
    obtain ⟨isAfter, isHead⟩ := isTaken
    rw [isHead] at isAfter
    rw [← isAfter]
    apply placed.takeFirst rfl isFree isHead isTask
      (l := (m.view (.idle e)).advance.resetTail.setNext task 0)
    · exact fun q represents absent => represents.setNext absent 0
    · show (m.view (.idle e)).advance.resetTail.count = m.countOf (.idle e)
      rw [LockMemory.count_resetTail]
      rfl
    · intro t different
      rw [LockMemory.tasks_setNext_other 0 different, LockMemory.tasks_advance_resetTail]
      rfl
    · rfl
    · rfl
    · intro t isUnlinked
      rw [← Option.some.inj isUnlinked, LockMemory.tasks_setNext_self]
    · simp
  · rw [Prod.mk.injEq] at isTaken
    exact absurd isTaken.2.symm isTask

/-- The task has to wait for a lock. -/
theorem enqueued [DecidableEq ε] (placed : Placed table m activity contents place queues) {e : ε}
    {task : Nat} (isLocking : activity e = .locking task) {inst : InstanceId} {mode : LockMode}
    {after : TaskMemory ε} (run : m.lock inst task mode = .ok (after, true)) :
    ((queues (.waiting inst)).lock task mode).2 = true ∧
      ∃ contents',
        Placed table after (Function.update activity e (.enqueued task)) contents'
          (relocated place (.on (.waiting inst)) [task])
          (Function.update queues (.waiting inst)
            ((queues (.waiting inst)).lock task mode).1) := by
  have isRunning : (activity e).running = some task := by
    rw [isLocking]
    rfl
  have isUnlinked : (activity e).unlinked = some task := by
    rw [isLocking]
    rfl
  have isContents : contents (.executing e) = [task] ++ [] :=
    placed.contents_of_running isRunning
  have noChain : contents (.signalled e) = [] := by
    have chain := placed.chain e
    rw [isLocking] at chain
    exact placed.noChain chain
  have absent : task ∉ (queues (.waiting inst)).waiting.map Prod.fst := by
    rw [placed.listed]
    exact placed.not_mem_of_running isRunning (by simp)
  have notNull := placed.notNull_of_running isRunning
  obtain ⟨l, result, represents, others⟩ :=
    (placed.list (.waiting inst)).lock notNull (placed.unlinked e task isUnlinked) absent mode
  rw [TaskMemory.lock_of_view result, Outcome.ok.injEq, Prod.mk.injEq] at run
  obtain ⟨isAfter, isEnqueued⟩ := run
  have isLock := (InfoLock.lock_enqueued isEnqueued).1
  rw [← isAfter]
  refine ⟨isEnqueued, _, placed.transfer isContents (by simp) represents (Or.inr ⟨inst, rfl⟩)
    ?_ ?_ ?_ ?_ ?_ ?_ ?_ ?_ ?_⟩
  · intro t notWaiting notTask
    rw [← placed.listed] at notWaiting
    exact others t notWaiting fun isSame => notTask (List.mem_singleton.mpr isSame)
  · exact fun p notName _ notRunning => ⟨notRunning, notName⟩
  · rw [transferred_target, isLock, List.map_append, placed.listed]
    rfl
  · rw [transferred_other (by simp) (by simp), noChain]
    exact rfl
  · rw [transferred_source (by simp)]
    rfl
  · intro t _ owner isOwner
    cases isOwner
  · intro t isNone
    cases isNone
  · intro t isSame
    rw [← Activity.enqueued.inj isSame]
    refine ⟨?_, _, relocated_of_mem List.mem_cons_self, trivial⟩
    exact placed.own task _ e (placed.place_of_running isRunning) rfl
  · exact fun _ _ _ _ _ => trivial

/-- A task in execution is put on the idle list. -/
theorem unlocked [DecidableEq ε] (placed : Placed table m activity contents place queues) {e : ε}
    {task : Nat} (isUnlocking : activity e = .unlocking task) {after : TaskMemory ε}
    (run : m.toIdleList (table.owner task) task = .ok after) :
    ∃ contents' queues',
      Placed table after (Function.update activity e .free) contents'
        (relocated place (.on (.idle e)) [task]) queues' ∧
      ∀ inst, queues' (.waiting inst) = queues (.waiting inst) := by
  have isRunning : (activity e).running = some task := by
    rw [isUnlocking]
    rfl
  have isUnlinked : (activity e).unlinked = some task := by
    rw [isUnlocking]
    rfl
  have isContents : contents (.executing e) = [task] ++ [] :=
    placed.contents_of_running isRunning
  have noChain : contents (.signalled e) = [] := by
    have chain := placed.chain e
    rw [isUnlocking] at chain
    exact placed.noChain chain
  have isOwner := placed.own task _ e (placed.place_of_running isRunning) rfl
  rw [isOwner] at run
  have absent : task ∉ (queues (.idle e)).waiting.map Prod.fst := by
    rw [placed.listed]
    exact placed.not_mem_of_running isRunning (by simp)
  have notNull := placed.notNull_of_running isRunning
  have isNull := placed.unlinked e task isUnlinked
  obtain ⟨represents, others⟩ := (placed.list (.idle e)).append notNull isNull absent
  rw [TaskMemory.toIdleList, TaskMemory.push_of_unlinked isNull, Outcome.ok.injEq] at run
  rw [← run]
  refine ⟨_, _, placed.transfer isContents (by simp) represents (Or.inl ?_)
    ?_ ?_ ?_ ?_ ?_ ?_ ?_ ?_ ?_, ?_⟩
  · exact LockMemory.count_append task
  · intro t notIdle notTask
    rw [← placed.listed] at notIdle
    exact others t notIdle fun isSame => notTask (List.mem_singleton.mpr isSame)
  · exact fun p notName _ notRunning => ⟨notRunning, notName⟩
  · rw [transferred_target, List.map_append, placed.listed]
    rfl
  · rw [transferred_other (by simp) (by simp), noChain]
    exact rfl
  · rw [transferred_source (by simp)]
    rfl
  · intro t member owner isSame
    rw [List.mem_singleton.mp member, isOwner]
    exact Option.some.inj isSame
  · intro t isNone
    cases isNone
  · intro t isSame
    cases isSame
  · intro t member other different isEnqueued
    obtain ⟨sameOwner, _⟩ := placed.suspended other t isEnqueued
    rw [List.mem_singleton.mp member, isOwner] at sameOwner
    exact absurd sameOwner.symm different
  · intro inst
    exact Function.update_of_ne (by simp) _ _

/-- A lock is released, and the tasks of `granted` get it. -/
theorem unlock [DecidableEq ε] (placed : Placed table m activity contents place queues) {e : ε}
    {task : Nat} (isUnlocking : activity e = .unlocking task) {inst : InstanceId} {mode : LockMode}
    {next : InfoLock Nat} {granted handed : List Request}
    (isNext : (queues (.waiting inst)).unlock mode = some (next, granted))
    (whole : (queues (.waiting inst)).waiting = granted ++ next.waiting)
    {after : TaskMemory ε} {h : Nat}
    (run : Outcome.Returns (fun depth => m.unlock depth inst mode) (after, h))
    (chain : Chain after.next h (handed.map Prod.fst) 0)
    (isMode : ∀ w ∈ handed, LockMemory.modeOf (after.tasks w.1).readLock = w.2) :
    handed = granted ∧
      ∃ contents',
        Placed table after (Function.update activity e (.signalling task h)) contents'
          (relocated place (.signalled e) (granted.map Prod.fst))
          (Function.update queues (.waiting inst) next) := by
  have isRunning : (activity e).running = some task := by
    rw [isUnlocking]
    rfl
  have isUnlinked : (activity e).unlinked = some task := by
    rw [isUnlocking]
    rfl
  have noChain : contents (.signalled e) = [] := by
    have chain := placed.chain e
    rw [isUnlocking] at chain
    exact placed.noChain chain
  have isContents : contents (.on (.waiting inst)) =
      granted.map Prod.fst ++ next.waiting.map Prod.fst := by
    rw [← placed.listed, whole, List.map_append]
  obtain ⟨l, first, returns, represents, handsOver⟩ := (placed.list (.waiting inst)).unlock isNext
  have same := run.unique (TaskMemory.unlock_of_view returns)
  rw [Prod.mk.injEq] at same
  rw [same.1] at chain isMode ⊢
  rw [same.2] at chain ⊢
  refine ⟨?_, _, placed.transfer isContents (by simp) represents (Or.inr ⟨inst, rfl⟩)
    ?_ ?_ ?_ ?_ ?_ ?_ ?_ ?_ ?_⟩
  · exact LockProtocol.Described.handed_unique (m := l) chain handsOver.chain isMode
      fun w member => (handsOver.mode w member).2
  · intro t notWaiting _
    rw [← placed.listed] at notWaiting
    exact handsOver.others t notWaiting
  · exact fun p notName notChain _ => ⟨notName, notChain⟩
  · rw [transferred_source (by simp)]
  · rw [transferred_target, noChain]
    exact handsOver.chain
  · rw [transferred_other (by simp) (by simp), placed.contents_of_running isRunning]
    rfl
  · intro t _ owner isOwner
    cases isOwner
  · intro t isTask
    rw [← Option.some.inj isTask, handsOver.others task]
    · exact placed.unlinked e task isUnlinked
    · rw [placed.listed]
      exact placed.not_mem_of_running isRunning (by simp)
  · intro t isSame
    cases isSame
  · exact fun _ _ _ _ _ => trivial

/-- The first task of the chain is put on its ready list. -/
theorem signal [DecidableEq ε] (placed : Placed table m activity contents place queues) {e : ε}
    {task h : Nat} (isSignalling : activity e = .signalling task h) (notNull : h ≠ 0) :
    place h = some (.signalled e) ∧
      ∃ after next, m.signal table.owner h = .ok (after, next) ∧
        ∃ contents' queues',
          Placed table after (Function.update activity e (.signalling task next)) contents'
            (relocated place (.on (.ready (table.owner h))) [h]) queues' ∧
          ∀ inst, queues' (.waiting inst) = queues (.waiting inst) := by
  have isRunning : (activity e).running = some task := by
    rw [isSignalling]
    rfl
  have isUnlinked : (activity e).unlinked = some task := by
    rw [isSignalling]
    rfl
  have chain := placed.chain e
  rw [isSignalling] at chain
  obtain ⟨rest, successor, isChain, isNext, tail⟩ := chain.exists_cons notNull
  have isSuccessor : (m.tasks h).next = successor := (LockMemory.next_eq_some (m := m.view
    (.ready e)).mp isNext).2
  have isContents : contents (.signalled e) = [h] ++ rest := isChain
  have isFirst : h ∈ contents (.signalled e) := isChain ▸ List.mem_cons_self
  have nodup := placed.located.nodup (.signalled e)
  rw [isChain] at nodup
  have absent : h ∉ (queues (.ready (table.owner h))).waiting.map Prod.fst := by
    rw [placed.listed]
    exact placed.located.not_mem_of_ne isFirst (by simp)
  have cleared : ((m.setNext h 0).view (.ready (table.owner h))).Represents _ :=
    (placed.list (.ready (table.owner h))).setNext absent 0
  have isNull : ((m.setNext h 0).tasks h).next = 0 := by
    rw [TaskMemory.tasks_setNext_self]
  obtain ⟨represents, others⟩ := cleared.append notNull isNull absent
  have run : m.signal table.owner h = .ok (m.store (.ready (table.owner h))
      (((m.setNext h 0).view (.ready (table.owner h))).append h), successor) := by
    rw [TaskMemory.signal, TaskMemory.toReadyList, TaskMemory.push_of_unlinked isNull, isSuccessor]
    rfl
  -- a task that is neither on the ready list nor the first one keeps its link
  have unchanged : ∀ t, t ∉ contents (.on (.ready (table.owner h))) → t ≠ h →
      (((m.setNext h 0).view (.ready (table.owner h))).append h).tasks t = m.tasks t := by
    intro t notReady different
    rw [← placed.listed] at notReady
    exact (others t notReady different).trans (TaskMemory.tasks_setNext_other 0 different)
  refine ⟨placed.located.place_of_mem isFirst, _, _, run, _, _,
    placed.transfer isContents (by simp) represents (Or.inl ?_) ?_ ?_ ?_ ?_ ?_ ?_ ?_ ?_ ?_, ?_⟩
  · exact LockMemory.count_append h
  · intro t notReady notFirst
    exact unchanged t notReady fun isSame => notFirst (List.mem_singleton.mpr isSame)
  · exact fun p notName notChain _ => ⟨notChain, notName⟩
  · rw [transferred_target, List.map_append, placed.listed]
    rfl
  · rw [transferred_source (by simp)]
    apply tail.congr
    intro t member
    apply LockMemory.next_congr (m := m.view (.ready e))
    apply unchanged
    · apply placed.located.not_mem_of_ne (p := .signalled e) _ (by simp)
      rw [isChain]
      exact List.mem_cons_of_mem _ member
    · rintro rfl
      exact (List.nodup_cons.mp nodup).1 member
  · rw [transferred_other (by simp) (by simp), placed.contents_of_running isRunning]
    rfl
  · intro t member owner isOwner
    rw [List.mem_singleton.mp member]
    exact Option.some.inj isOwner
  · intro t isTask
    rw [← Option.some.inj isTask, unchanged task]
    · exact placed.unlinked e task isUnlinked
    · exact placed.not_mem_of_running isRunning (by simp)
    · rintro rfl
      exact placed.not_mem_of_running isRunning (by simp) isFirst
  · intro t isSame
    cases isSame
  · exact fun _ _ _ _ _ => trivial
  · intro inst
    exact Function.update_of_ne (by simp) _ _

end Placed

/-! ## The tasks that `init` creates -/

section Initialization

variable [DecidableEq ε] {table : TaskTable ε} {m : TaskMemory ε}
  {queues : ListName ε → InfoLock Nat}

/-- The lists once these tasks have been initialized. -/
def initialContents (table : TaskTable ε) (done : List Nat) : Place ε → List Nat
  | .on (.idle e) => done.filter fun task => table.owner task = e
  | _ => []

def initialPlace (table : TaskTable ε) (task : Nat) : Option (Place ε) :=
  if task ∈ table.tasks then some (.on (.idle (table.owner task))) else none

/-- These tasks have been initialized. -/
structure Initialized (table : TaskTable ε) (done : List Nat) (m : TaskMemory ε)
    (queues : ListName ε → InfoLock Nat) : Prop where
  list : ∀ name, (m.view name).Represents (queues name)
  listed : ∀ name, (queues name).waiting.map Prod.fst = initialContents table done (.on name)
  locks : ∀ inst, queues (.waiting inst) = InfoLock.initial
  unlinked : ∀ task, task ∉ done → (m.tasks task).next = 0

theorem initialized_nil : Initialized table [] TaskMemory.initial fun _ => InfoLock.initial where
  list name := by
    cases name with
    | idle e => exact LockMemory.initial_represents _
    | ready e => exact LockMemory.initial_represents _
    | waiting inst => exact LockMemory.initial_represents _
  listed name := by
    cases name with
    | idle e => rfl
    | ready e => rfl
    | waiting inst => rfl
  locks _ := rfl
  unlinked _ _ := rfl

theorem Initialized.toIdleList {done : List Nat} (initialized : Initialized table done m queues)
    {task : Nat} (notNull : task ≠ 0) (new : task ∉ done) :
    ∃ after queues', m.toIdleList (table.owner task) task = .ok after ∧
      Initialized table (done ++ [task]) after queues' := by
  have isNull := initialized.unlinked task new
  have elsewhere : ∀ name, task ∉ (queues name).waiting.map Prod.fst := by
    intro name
    rw [initialized.listed]
    cases name with
    | idle e => exact fun member => new (List.mem_filter.mp member).1
    | ready e => exact List.not_mem_nil
    | waiting inst => exact List.not_mem_nil
  obtain ⟨represents, others⟩ :=
    (initialized.list (.idle (table.owner task))).append notNull isNull (elsewhere _)
  have apart : ∀ name, name ≠ .idle (table.owner task) → ∀ t,
      t ∈ (queues name).waiting.map Prod.fst →
        t ∉ (queues (.idle (table.owner task))).waiting.map Prod.fst := by
    intro name different t here there
    rw [initialized.listed] at here there
    cases name with
    | idle e =>
        have isOwner := of_decide_eq_true (List.mem_filter.mp here).2
        have isOwner' := of_decide_eq_true (List.mem_filter.mp there).2
        exact different (congrArg ListName.idle (isOwner.symm.trans isOwner'))
    | ready e => exact List.not_mem_nil here
    | waiting inst => exact List.not_mem_nil here
  refine ⟨_, _, TaskMemory.push_of_unlinked isNull,
    represents_store initialized.list represents (Or.inl (LockMemory.count_append task)) ?_,
    ?_, ?_, ?_⟩
  · intro name different t here
    apply others t (apart name different t here)
    rintro rfl
    exact elsewhere name here
  · intro name
    by_cases isName : name = .idle (table.owner task)
    · rw [isName, Function.update_self, List.map_append, initialized.listed]
      simp [initialContents]
    · rw [Function.update_of_ne isName, initialized.listed]
      cases name with
      | idle e =>
          have notOwner : table.owner task ≠ e := fun same =>
            isName (congrArg ListName.idle same.symm)
          simp [initialContents, notOwner]
      | ready e => rfl
      | waiting inst => rfl
  · intro inst
    rw [Function.update_of_ne (by simp)]
    exact initialized.locks inst
  · intro t absent
    rw [List.mem_append, not_or, List.mem_singleton] at absent
    refine (congrArg TaskNode.next (others t ?_ absent.2)).trans (initialized.unlinked t absent.1)
    rw [initialized.listed]
    exact fun member => absent.1 (List.mem_filter.mp member).1

theorem Initialized.initializeTasks {rest : List Nat} :
    ∀ {done : List Nat} {m : TaskMemory ε} {queues : ListName ε → InfoLock Nat},
      Initialized table done m queues → (done ++ rest).Nodup → (∀ task ∈ rest, task ≠ 0) →
        ∃ after queues', initializeTasks table rest m = .ok after ∧
          Initialized table (done ++ rest) after queues' := by
  induction rest with
  | nil =>
      intro done m queues initialized _ _
      rw [List.append_nil]
      exact ⟨m, queues, rfl, initialized⟩
  | cons task rest inductionHypothesis =>
      intro done m queues initialized nodup notNull
      have new : task ∉ done := fun member =>
        (List.nodup_append.mp nodup).2.2 task member task List.mem_cons_self rfl
      obtain ⟨next, queues', isNext, initialized'⟩ :=
        initialized.toIdleList (notNull task List.mem_cons_self) new
      rw [← List.singleton_append, ← List.append_assoc] at nodup ⊢
      obtain ⟨after, queues'', isAfter, initialized''⟩ :=
        inductionHypothesis initialized' nodup fun t member =>
          notNull t (List.mem_cons_of_mem _ member)
      refine ⟨after, queues'', ?_, initialized''⟩
      rw [List.singleton_append, Scheduler.initializeTasks, isNext]
      exact isAfter

/-- `init` returns, with every task on the idle list of its executor. -/
theorem initial_placed (table : TaskTable ε) :
    ∃ after queues, initializeTasks table table.tasks TaskMemory.initial = .ok after ∧
      (∀ inst, queues (.waiting inst) = InfoLock.initial) ∧
      Placed table after (fun _ => .free) (initialContents table table.tasks) (initialPlace table)
        queues := by
  have nothing : Initialized table [] TaskMemory.initial fun _ => InfoLock.initial :=
    initialized_nil
  obtain ⟨after, queues, isAfter, initialized⟩ :=
    nothing.initializeTasks table.nodup table.notNull
  rw [List.nil_append] at initialized
  have isPlace : ∀ task p, initialPlace table task = some p ↔
      task ∈ table.tasks ∧ p = .on (.idle (table.owner task)) := by
    intro task p
    rw [initialPlace, Option.ite_none_right_eq_some, Option.some.injEq, eq_comm (a := p)]
  refine ⟨after, queues, isAfter, initialized.locks, ⟨?_, ?_⟩, ?_, ?_, initialized.list,
    initialized.listed, ?_, ?_, ?_, ?_⟩
  · intro p task
    rw [isPlace]
    cases p with
    | on name =>
        cases name with
        | idle e => simp [initialContents, eq_comm]
        | ready e => simp [initialContents]
        | waiting inst => simp [initialContents]
    | signalled e => simp [initialContents]
    | executing e => simp [initialContents]
  · intro p
    cases p with
    | on name =>
        cases name with
        | idle e => exact table.nodup.filter _
        | ready e => exact List.nodup_nil
        | waiting inst => exact List.nodup_nil
    | signalled e => exact List.nodup_nil
    | executing e => exact List.nodup_nil
  · intro task
    rw [Option.isSome_iff_exists]
    simp only [isPlace, exists_and_left, exists_eq, and_true]
  · intro task p e isSome isOwner
    rw [((isPlace task p).mp isSome).2] at isOwner
    exact Option.some.inj isOwner
  · exact fun _ => rfl
  · exact fun _ => rfl
  · intro e task isUnlinked
    cases isUnlinked
  · intro e task isEnqueued
    cases isEnqueued

end Initialization

end Rcgo.Scheduler
