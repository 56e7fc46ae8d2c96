import Rcgo.Scheduler.TaskPlaces

/-!
# No task is lost

In every interleaving of the executors each task is in one place.  The lists of
the scheduler carry out the locking steps of the tasks one by one, so what a
task holds is known from its place and its position.
-/

namespace Rcgo.Scheduler

open Rcgo.Foundation Rcgo.Composition

variable {ε : Type} {table : TaskTable ε} {s after : SchedulerState ε}

namespace SchedulerState

/-- The number of entries for which the task has asked; the position lags
behind while `resume` is about to return. -/
def reached (table : TaskTable ε) (s : SchedulerState ε) (task : Nat) : Nat :=
  if s.activity (table.owner task) = .enqueued task then s.pos task + 1 else s.pos task

/-- What a task does that its executor has taken. -/
def runningControl (pos : Nat) : Activity → TaskControl
  | .taken _ => .granted pos
  | .executing _ => .executing
  | .unlocking _ => .unlocking pos
  | .signalling _ _ => .unlocking (pos + 1)
  | _ => .locking pos

/-- What a task does at a place. -/
def controlAt (table : TaskTable ε) (s : SchedulerState ε) (task : Nat) :
    Option (Place ε) → TaskControl
  | none => .idle
  | some (.on (.idle _)) => .idle
  | some (.on (.ready _)) => .granted (s.reached table task)
  | some (.on (.waiting _)) => .waiting (s.reached table task)
  | some (.signalled _) => .granted (s.reached table task)
  | some (.executing e) => runningControl (s.pos task) (s.activity e)

/-- The tasks and the locks without the lists and the executors. -/
def locking (table : TaskTable ε) (s : SchedulerState ε) (place : Nat → Option (Place ε))
    (queues : ListName ε → InfoLock Nat) : LockingState Nat :=
  ⟨fun task => s.controlAt table task (place task), fun inst => queues (.waiting inst)⟩

/-- The tasks are in these places, and have got there by the steps of tasks
that lock their instances one after another. -/
structure Described (table : TaskTable ε) (s : SchedulerState ε) (contents : Place ε → List Nat)
    (place : Nat → Option (Place ε)) (queues : ListName ε → InfoLock Nat) : Prop where
  placed : Placed table s.memory s.activity contents place queues
  reachable : LockingState.Reachable table.set (s.locking table place queues)
  held :
    ∀ inst task mode, (task, mode) ∈ s.held inst ↔
      LockingState.Holds table.set (s.locking table place queues).control inst task mode

variable {contents contents' : Place ε → List Nat} {place place' : Nat → Option (Place ε)}
  {queues queues' : ListName ε → InfoLock Nat}

/-! ## What a step does not change -/

theorem reached_congr {e : ε} {task : Nat}
    (activity : ∀ other, other ≠ e → after.activity other = s.activity other)
    (pos : after.pos task = s.pos task) (notBefore : s.activity e ≠ .enqueued task)
    (notAfter : after.activity e ≠ .enqueued task) :
    after.reached table task = s.reached table task := by
  unfold reached
  by_cases isExecutor : table.owner task = e
  · rw [isExecutor, if_neg notBefore, if_neg notAfter, pos]
  · rw [activity _ isExecutor, pos]

theorem controlAt_congr {e : ε} {task : Nat}
    (activity : ∀ other, other ≠ e → after.activity other = s.activity other)
    (pos : after.pos task = s.pos task) (notBefore : s.activity e ≠ .enqueued task)
    (notAfter : after.activity e ≠ .enqueued task) {p : Option (Place ε)}
    (elsewhere : p ≠ some (.executing e)) :
    after.controlAt table task p = s.controlAt table task p := by
  have sameReached : after.reached table task = s.reached table task :=
    reached_congr activity pos notBefore notAfter
  cases p with
  | none => rfl
  | some p =>
      cases p with
      | on name =>
          cases name with
          | idle _ => rfl
          | ready _ => exact congrArg TaskControl.granted sameReached
          | waiting _ => exact congrArg TaskControl.waiting sameReached
      | signalled _ => exact congrArg TaskControl.granted sameReached
      | executing other =>
          have notExecutor : other ≠ e := fun same =>
            elsewhere (congrArg (fun e => some (Place.executing e)) same)
          rw [controlAt, controlAt, activity other notExecutor, pos]

theorem reached_of_not_enqueued {task : Nat}
    (notEnqueued : s.activity (table.owner task) ≠ .enqueued task) :
    s.reached table task = s.pos task :=
  if_neg notEnqueued

namespace Described

theorem place_of_running (described : s.Described table contents place queues) {e : ε} {task : Nat}
    (isRunning : (s.activity e).running = some task) : place task = some (.executing e) :=
  described.placed.place_of_running isRunning

theorem control_of_running (described : s.Described table contents place queues) {e : ε}
    {task : Nat} (isRunning : (s.activity e).running = some task) :
    (s.locking table place queues).control task = runningControl (s.pos task) (s.activity e) := by
  show s.controlAt table task (place task) = _
  rw [described.place_of_running isRunning]
  rfl

theorem keep (described : s.Described table contents place queues)
    (placed : Placed table after.memory after.activity contents' place' queues')
    (sameQueues : ∀ inst, queues' (.waiting inst) = queues (.waiting inst))
    (sameHeld : after.held = s.held)
    (sameControl : ∀ task, after.controlAt table task (place' task) =
      s.controlAt table task (place task)) :
    after.Described table contents' place' queues' := by
  have same : after.locking table place' queues' = s.locking table place queues := by
    rw [locking, locking, funext sameControl, funext sameQueues]
  refine ⟨placed, ?_, ?_⟩
  · rw [same]
    exact described.reachable
  · intro inst task mode
    rw [same, sameHeld]
    exact described.held inst task mode

theorem move (described : s.Described table contents place queues)
    (placed : Placed table after.memory after.activity contents' place' queues')
    (sameQueues : ∀ inst, queues' (.waiting inst) = queues (.waiting inst))
    (sameHeld : after.held = s.held) (task : Nat) (c : TaskControl)
    (event : LockingState.Event Nat)
    (others : ∀ t, t ≠ task →
      after.controlAt table t (place' t) = s.controlAt table t (place t))
    (isControl : after.controlAt table task (place' task) = c)
    (isNext : LockingState.next table.set (s.locking table place queues) event =
      some ⟨Function.update (s.locking table place queues).control task c,
        (s.locking table place queues).locks⟩)
    (sameEntries : LockingState.heldEntries (table.set task) c =
      LockingState.heldEntries (table.set task) ((s.locking table place queues).control task)) :
    after.Described table contents' place' queues' := by
  have isLocking : after.locking table place' queues' =
      ⟨Function.update (s.locking table place queues).control task c,
        (s.locking table place queues).locks⟩ := by
    have control : (fun t => after.controlAt table t (place' t)) =
        Function.update (s.locking table place queues).control task c := by
      funext t
      by_cases isTask : t = task
      · rw [isTask, Function.update_self, isControl]
      · rw [Function.update_of_ne isTask]
        exact others t isTask
    rw [locking, control, funext sameQueues]
    rfl
  refine ⟨placed, ?_, ?_⟩
  · rw [isLocking]
    exact described.reachable.step isNext
  · intro inst t mode
    rw [isLocking, sameHeld, described.held]
    exact (LockingState.holds_update_of_heldEntries sameEntries).symm

variable [DecidableEq ε]

theorem control_other (described : s.Described table contents place queues) {e : ε} {a : Activity}
    {task : Nat} (notBefore : s.activity e ≠ .enqueued task)
    (notRunning : (s.activity e).running ≠ some task)
    (activity : after.activity = Function.update s.activity e a) (notAfter : a ≠ .enqueued task)
    (pos : after.pos task = s.pos task) :
    after.controlAt table task (place task) = s.controlAt table task (place task) := by
  apply controlAt_congr _ pos notBefore
  · rw [activity, Function.update_self]
    exact notAfter
  · intro isPlace
    have here := (described.placed.located.mem_iff _ _).mpr isPlace
    rw [described.placed.running, Option.mem_toList] at here
    exact notRunning here
  · intro other different
    rw [activity, Function.update_of_ne different]

theorem control_of_free (described : s.Described table contents place queues) {e : ε}
    {a : Activity} {task : Nat} (isFree : s.activity e = .free)
    (activity : after.activity = Function.update s.activity e a) (notAfter : a ≠ .enqueued task)
    (pos : after.pos task = s.pos task) :
    after.controlAt table task (place task) = s.controlAt table task (place task) := by
  apply described.control_other _ _ activity notAfter pos
  · rw [isFree]
    exact Activity.noConfusion
  · rw [isFree]
    exact (Option.some_ne_none task).symm

theorem control_of_different (described : s.Described table contents place queues) {e : ε}
    {a : Activity} {task other : Nat} (isRunning : (s.activity e).running = some task)
    (different : other ≠ task) (activity : after.activity = Function.update s.activity e a)
    (notAfter : a ≠ .enqueued other) (pos : after.pos other = s.pos other) :
    after.controlAt table other (place other) = s.controlAt table other (place other) := by
  apply described.control_other _ _ activity notAfter pos
  · intro isEnqueued
    rw [isEnqueued] at isRunning
    cases isRunning
  · rw [isRunning]
    exact fun same => different (Option.some.inj same).symm

omit [DecidableEq ε] in
theorem notWaiting_of_free (described : s.Described table contents place queues) {e : ε}
    {task : Nat} (isFree : s.activity e = .free) {name : ListName ε}
    (isOwn : Place.executor (.on name) = some e) (isPlace : place task = some (.on name)) :
    s.reached table task = s.pos task := by
  apply reached_of_not_enqueued
  rw [described.placed.own task _ e isPlace isOwn, isFree]
  exact Activity.noConfusion

theorem takeReady (described : s.Described table contents place queues) {e : ε} {m : TaskMemory ε}
    {task : Nat} (isFree : s.activity e = .free) (isTaken : s.memory.getReadyTask e = (m, task))
    (isTask : task ≠ 0) :
    ∃ contents' place' queues', Described table
      { s with
        memory := m
        activity := Function.update s.activity e (.taken task) } contents' place' queues' := by
  obtain ⟨isPlace, _, _, placed, sameQueues⟩ := described.placed.takeReady isFree isTaken isTask
  refine ⟨_, _, _, described.keep placed sameQueues rfl ?_⟩
  intro t
  by_cases same : t = task
  · rw [same, relocated_of_mem List.mem_cons_self, isPlace]
    simp only [controlAt, runningControl, Function.update_self]
    rw [described.notWaiting_of_free isFree rfl isPlace]
  · rw [relocated_of_not_mem (by simpa using same)]
    apply described.control_of_free isFree
    · rfl
    · exact Activity.noConfusion
    · rfl

theorem resume (described : s.Described table contents place queues) {e : ε} {task : Nat}
    (isTaken : s.activity e = .taken task) :
    ∃ contents' place' queues', Described table
      { s with
        memory := s.memory.setNext task 0
        activity := Function.update s.activity e (.locking task) } contents' place' queues' := by
  have isRunning : (s.activity e).running = some task := by
    rw [isTaken]
    rfl
  have isControl := described.control_of_running isRunning
  rw [isTaken] at isControl
  refine ⟨_, _, _, described.move (described.placed.resume isTaken) (fun _ => rfl) rfl
    task (.locking (s.pos task)) (.resume task) ?_ ?_ ?_ ?_⟩
  · intro t different
    apply described.control_of_different isRunning different
    · rfl
    · exact Activity.noConfusion
    · rfl
  · rw [described.place_of_running isRunning]
    simp only [controlAt, runningControl, Function.update_self]
  · simp only [LockingState.next, isControl, runningControl]
  · rw [isControl]
    rfl

theorem takeIdle (described : s.Described table contents place queues) {e : ε} {m : TaskMemory ε}
    {task : Nat} (isFree : s.activity e = .free) (isTaken : s.memory.getIdleTask e = (m, task))
    (isTask : task ≠ 0) :
    ∃ contents' place' queues', Described table
      { s with
        memory := m
        pos := Function.update s.pos task 0
        activity := Function.update s.activity e (.locking task) } contents' place' queues' := by
  obtain ⟨isPlace, _, _, placed, sameQueues⟩ := described.placed.takeIdle isFree isTaken isTask
  have isControl : (s.locking table place queues).control task = .idle := by
    show s.controlAt table task (place task) = _
    rw [isPlace]
    rfl
  refine ⟨_, _, _, described.move placed sameQueues rfl task (.locking 0)
    (.start task) ?_ ?_ ?_ ?_⟩
  · intro t different
    rw [relocated_of_not_mem (by simpa using different)]
    apply described.control_of_free isFree
    · rfl
    · exact Activity.noConfusion
    · exact Function.update_of_ne different _ _
  · rw [relocated_of_mem List.mem_cons_self]
    simp only [controlAt, runningControl, Function.update_self]
  · simp only [LockingState.next, isControl]
  · rw [isControl]
    rfl

theorem locked (described : s.Described table contents place queues) {e : ε} {task : Nat}
    (isLocking : s.activity e = .locking task)
    (atEnd : (table.set task).entries[s.pos task]? = none) :
    ∃ contents' place' queues', Described table
      { s with activity := Function.update s.activity e (.executing task) } contents' place'
        queues' := by
  have isRunning : (s.activity e).running = some task := by
    rw [isLocking]
    rfl
  have isControl := described.control_of_running isRunning
  rw [isLocking] at isControl
  have placed : Placed table s.memory (Function.update s.activity e (.executing task)) contents
      place queues := by
    apply described.placed.act
    · rw [isRunning]
      rfl
    · rw [isLocking]
      rfl
    · intro t isUnlinked
      apply described.placed.unlinked e
      rw [isLocking]
      exact isUnlinked
    · exact fun _ => Activity.noConfusion
  refine ⟨_, _, _, described.move placed (fun _ => rfl) rfl task .executing
    (.lock task) ?_ ?_ ?_ ?_⟩
  · intro t different
    apply described.control_of_different isRunning different
    · rfl
    · exact Activity.noConfusion
    · rfl
  · rw [described.place_of_running isRunning]
    simp only [controlAt, runningControl, Function.update_self]
  · simp only [LockingState.next, isControl, runningControl, atEnd]
  · rw [isControl]
    exact (List.take_of_length_le (List.getElem?_eq_none_iff.mp atEnd)).symm

theorem executed (described : s.Described table contents place queues) {e : ε} {task : Nat}
    (isExecuting : s.activity e = .executing task) :
    ∃ contents' place' queues', Described table
      { s with
        pos := Function.update s.pos task 0
        activity := Function.update s.activity e (.unlocking task) } contents' place'
        queues' := by
  have isRunning : (s.activity e).running = some task := by
    rw [isExecuting]
    rfl
  have isControl := described.control_of_running isRunning
  rw [isExecuting] at isControl
  have placed : Placed table s.memory (Function.update s.activity e (.unlocking task)) contents
      place queues := by
    apply described.placed.act
    · rw [isRunning]
      rfl
    · rw [isExecuting]
      rfl
    · intro t isUnlinked
      apply described.placed.unlinked e
      rw [isExecuting]
      exact isUnlinked
    · exact fun _ => Activity.noConfusion
  refine ⟨_, _, _, described.move placed (fun _ => rfl) rfl task (.unlocking 0)
    (.execute task) ?_ ?_ ?_ ?_⟩
  · intro t different
    apply described.control_of_different isRunning different
    · rfl
    · exact Activity.noConfusion
    · exact Function.update_of_ne different _ _
  · rw [described.place_of_running isRunning]
    simp only [controlAt, runningControl, Function.update_self]
  · simp only [LockingState.next, isControl, runningControl]
  · rw [isControl]
    rfl

theorem returned (described : s.Described table contents place queues) {e : ε} {task : Nat}
    (isEnqueued : s.activity e = .enqueued task) :
    ∃ contents' place' queues', Described table
      { s with
        pos := Function.update s.pos task (s.pos task + 1)
        activity := Function.update s.activity e .free } contents' place' queues' := by
  obtain ⟨isOwner, p, isPlace, isSuspended⟩ := described.placed.suspended e task isEnqueued
  have placed : Placed table s.memory (Function.update s.activity e .free) contents place
      queues := by
    apply described.placed.act
    · rw [isEnqueued]
      rfl
    · rw [isEnqueued]
      rfl
    · intro t isUnlinked
      cases isUnlinked
    · exact fun _ => Activity.noConfusion
  refine ⟨_, _, _, described.keep placed (fun _ => rfl) rfl ?_⟩
  intro t
  by_cases same : t = task
  · rw [same, isPlace]
    have before : s.reached table task = s.pos task + 1 := if_pos (isOwner ▸ isEnqueued)
    have sameReached : reached table
        { s with
          pos := Function.update s.pos task (s.pos task + 1)
          activity := Function.update s.activity e .free } task = s.reached table task := by
      rw [before]
      apply (reached_of_not_enqueued _).trans (Function.update_self _ _ _)
      rw [isOwner]
      simp only [Function.update_self]
      exact Activity.noConfusion
    cases p with
    | on name =>
        cases name with
        | idle _ => exact isSuspended.elim
        | ready _ => exact congrArg TaskControl.granted sameReached
        | waiting _ => exact congrArg TaskControl.waiting sameReached
    | signalled _ => exact congrArg TaskControl.granted sameReached
    | executing _ => exact isSuspended.elim
  · apply described.control_other
    · rw [isEnqueued]
      exact fun isTask => same (Activity.enqueued.inj isTask).symm
    · rw [isEnqueued]
      exact (Option.some_ne_none t).symm
    · rfl
    · exact Activity.noConfusion
    · exact Function.update_of_ne same _ _

theorem signalled (described : s.Described table contents place queues) {e : ε} {task : Nat}
    (isSignalling : s.activity e = .signalling task 0) :
    ∃ contents' place' queues', Described table
      { s with
        pos := Function.update s.pos task (s.pos task + 1)
        activity := Function.update s.activity e (.unlocking task) } contents' place'
        queues' := by
  have isRunning : (s.activity e).running = some task := by
    rw [isSignalling]
    rfl
  have placed : Placed table s.memory (Function.update s.activity e (.unlocking task)) contents
      place queues := by
    apply described.placed.act
    · rw [isRunning]
      rfl
    · rw [isSignalling]
      rfl
    · intro t isUnlinked
      apply described.placed.unlinked e
      rw [isSignalling]
      exact isUnlinked
    · exact fun _ => Activity.noConfusion
  refine ⟨_, _, _, described.keep placed (fun _ => rfl) rfl ?_⟩
  intro t
  by_cases same : t = task
  · rw [same, described.place_of_running isRunning]
    simp only [controlAt, isSignalling, runningControl, Function.update_self]
  · apply described.control_of_different isRunning same
    · rfl
    · exact Activity.noConfusion
    · exact Function.update_of_ne same _ _

theorem signal (described : s.Described table contents place queues) {e : ε} {m : TaskMemory ε}
    {task h next : Nat} (isSignalling : s.activity e = .signalling task h) (notNull : h ≠ 0)
    (run : s.memory.signal table.owner h = .ok (m, next)) :
    ∃ contents' place' queues', Described table
      { s with
        memory := m
        activity := Function.update s.activity e (.signalling task next) } contents' place'
        queues' := by
  have isRunning : (s.activity e).running = some task := by
    rw [isSignalling]
    rfl
  obtain ⟨isPlace, _, _, isRun, _, _, placed, sameQueues⟩ :=
    described.placed.signal isSignalling notNull
  rw [run, Outcome.ok.injEq, Prod.mk.injEq] at isRun
  obtain ⟨rfl, rfl⟩ := isRun
  refine ⟨_, _, _, described.keep placed sameQueues rfl ?_⟩
  have sameReached : ∀ t, reached table
      { s with
        memory := m
        activity := Function.update s.activity e (.signalling task next) } t =
      s.reached table t := by
    intro t
    apply reached_congr
    · exact fun other different => Function.update_of_ne different _ _
    · rfl
    · rw [isSignalling]
      exact Activity.noConfusion
    · simp only [Function.update_self]
      exact Activity.noConfusion
  intro t
  by_cases isFirst : t = h
  · rw [isFirst, relocated_of_mem List.mem_cons_self, isPlace]
    exact congrArg TaskControl.granted (sameReached h)
  · rw [relocated_of_not_mem (by simpa using isFirst)]
    by_cases same : t = task
    · rw [same, described.place_of_running isRunning]
      simp only [controlAt, isSignalling, runningControl, Function.update_self]
    · apply described.control_of_different isRunning same
      · rfl
      · exact Activity.noConfusion
      · rfl

theorem unlocked (described : s.Described table contents place queues) {e : ε} {m : TaskMemory ε}
    {task : Nat} (isUnlocking : s.activity e = .unlocking task)
    (atEnd : (table.set task).entries[s.pos task]? = none)
    (run : s.memory.toIdleList (table.owner task) task = .ok m) :
    ∃ contents' place' queues', Described table
      { s with
        memory := m
        activity := Function.update s.activity e .free } contents' place' queues' := by
  have isRunning : (s.activity e).running = some task := by
    rw [isUnlocking]
    rfl
  have isControl := described.control_of_running isRunning
  rw [isUnlocking] at isControl
  obtain ⟨_, _, placed, sameQueues⟩ := described.placed.unlocked isUnlocking run
  refine ⟨_, _, _, described.move placed sameQueues rfl task .idle
    (.unlock task) ?_ ?_ ?_ ?_⟩
  · intro t different
    rw [relocated_of_not_mem (by simpa using different)]
    apply described.control_of_different isRunning different
    · rfl
    · exact Activity.noConfusion
    · rfl
  · rw [relocated_of_mem List.mem_cons_self]
    rfl
  · simp only [LockingState.next, isControl, runningControl, atEnd]
  · rw [isControl]
    exact (List.drop_eq_nil_of_le (List.getElem?_eq_none_iff.mp atEnd)).symm

/-! ## Steps that change a lock -/

omit [DecidableEq ε] in
theorem step (described : s.Described table contents place queues)
    (placed : Placed table after.memory after.activity contents' place' queues')
    (event : LockingState.Event Nat) (next : LockingState Nat)
    (isNext : LockingState.next table.set (s.locking table place queues) event = some next)
    (control : ∀ task, after.controlAt table task (place' task) = next.control task)
    (locks : ∀ inst, queues' (.waiting inst) = next.locks inst)
    (held : ∀ inst task mode, (task, mode) ∈ after.held inst ↔
      LockingState.Holds table.set next.control inst task mode) :
    after.Described table contents' place' queues' := by
  have isLocking : after.locking table place' queues' = next := by
    rw [locking, funext control, funext locks]
  refine ⟨placed, ?_, ?_⟩
  · rw [isLocking]
    exact described.reachable.step isNext
  · rw [isLocking]
    exact held

theorem update_waiting (inst other : InstanceId) (q : InfoLock Nat) :
    Function.update queues (.waiting inst) q (.waiting other) =
      Function.update (fun inst => queues (.waiting inst)) inst q other := by
  by_cases same : other = inst
  · rw [same, Function.update_self, Function.update_self]
  · rw [Function.update_of_ne same, Function.update_of_ne]
    exact fun isSame => same (ListName.waiting.inj isSame)

theorem granted (described : s.Described table contents place queues) {e : ε} {m : TaskMemory ε}
    {task : Nat} {entry : InstanceEntry} (isLocking : s.activity e = .locking task)
    (found : (table.set task).entries[s.pos task]? = some entry)
    (run : s.memory.lock entry.1 task (lockMode entry.2) = .ok (m, false)) :
    ∃ contents' place' queues', Described table
      { s with
        memory := m
        pos := Function.update s.pos task (s.pos task + 1)
        held :=
          Function.update s.held entry.1
            (s.held entry.1 ++ [(task, lockMode entry.2)]) } contents' place' queues' := by
  have isRunning : (s.activity e).running = some task := by
    rw [isLocking]
    rfl
  have isControl := described.control_of_running isRunning
  rw [isLocking] at isControl
  obtain ⟨isGranted, placed⟩ := described.placed.granted isLocking run
  refine ⟨_, _, _, described.step placed (.lock task)
    ⟨Function.update (s.locking table place queues).control task
        (.locking (s.pos task + 1)),
      Function.update (s.locking table place queues).locks entry.1
        ((queues (.waiting entry.1)).lock task (lockMode entry.2)).1⟩ ?_ ?_ ?_ ?_⟩
  · simp only [LockingState.next, isControl, runningControl, found]
    rw [show ((s.locking table place queues).locks entry.1).lock task (lockMode entry.2) =
      (((queues (.waiting entry.1)).lock task (lockMode entry.2)).1, false) from
      Prod.ext rfl isGranted]
    rfl
  · intro t
    by_cases same : t = task
    · rw [same, described.place_of_running isRunning]
      simp only [controlAt, isLocking, runningControl, Function.update_self]
    · simp only [Function.update_of_ne same]
      apply described.control_of_different isRunning same
      · exact (Function.update_eq_self e s.activity).symm
      · rw [isLocking]
        exact Activity.noConfusion
      · exact Function.update_of_ne same _ _
  · exact fun inst => update_waiting entry.1 inst _
  · intro inst t mode
    rw [LockingState.holds_locking_succ isControl found, ← described.held]
    by_cases isInst : inst = entry.1
    · rw [isInst]
      simp only [Function.update_self, List.mem_append, List.mem_singleton, Prod.mk.injEq, true_and]
    · simp only [Function.update_of_ne isInst, Ne.symm isInst, false_and, or_false]

theorem enqueued (described : s.Described table contents place queues) {e : ε} {m : TaskMemory ε}
    {task : Nat} {entry : InstanceEntry} (isLocking : s.activity e = .locking task)
    (found : (table.set task).entries[s.pos task]? = some entry)
    (run : s.memory.lock entry.1 task (lockMode entry.2) = .ok (m, true)) :
    ∃ contents' place' queues', Described table
      { s with
        memory := m
        activity := Function.update s.activity e (.enqueued task) } contents' place' queues' := by
  have isRunning : (s.activity e).running = some task := by
    rw [isLocking]
    rfl
  have isControl := described.control_of_running isRunning
  rw [isLocking] at isControl
  have isOwner := described.placed.own task _ e (described.place_of_running isRunning) rfl
  obtain ⟨isEnqueued, _, placed⟩ := described.placed.enqueued isLocking run
  refine ⟨_, _, _, described.step placed (.lock task)
    ⟨Function.update (s.locking table place queues).control task
        (.waiting (s.pos task + 1)),
      Function.update (s.locking table place queues).locks entry.1
        ((queues (.waiting entry.1)).lock task (lockMode entry.2)).1⟩ ?_ ?_ ?_ ?_⟩
  · simp only [LockingState.next, isControl, runningControl, found]
    rw [show ((s.locking table place queues).locks entry.1).lock task (lockMode entry.2) =
      (((queues (.waiting entry.1)).lock task (lockMode entry.2)).1, true) from
      Prod.ext rfl isEnqueued]
    rfl
  · intro t
    by_cases same : t = task
    · rw [same, relocated_of_mem List.mem_cons_self]
      simp only [controlAt, reached, isOwner, Function.update_self, if_true]
    · rw [relocated_of_not_mem (by simpa using same)]
      simp only [Function.update_of_ne same]
      apply described.control_of_different isRunning same
      · rfl
      · exact fun isTask => same (Activity.enqueued.inj isTask).symm
      · rfl
  · exact fun inst => update_waiting entry.1 inst _
  · intro inst t mode
    rw [described.held]
    apply (LockingState.holds_update_of_heldEntries _).symm
    rw [isControl]
    rfl

/-- The tasks to which a lock is handed over are on the chain of the executor. -/
theorem unlock (described : s.Described table contents place queues) {e : ε} {m : TaskMemory ε}
    {h task : Nat} {entry : InstanceEntry} {handed : List Request}
    (isUnlocking : s.activity e = .unlocking task)
    (found : (table.set task).entries[s.pos task]? = some entry)
    (run : Outcome.Returns
      (fun depth => s.memory.unlock depth entry.1 (lockMode entry.2)) (m, h))
    (chain : Chain m.next h (handed.map Prod.fst) 0)
    (isMode : ∀ w ∈ handed, LockMemory.modeOf (m.tasks w.1).readLock = w.2) :
    ∃ contents' place' queues', Described table
      { s with
        memory := m
        activity := Function.update s.activity e (.signalling task h)
        held :=
          Function.update s.held entry.1
            ((s.held entry.1).filter (fun grant => grant.1 ≠ task) ++ handed) }
      contents' place' queues' := by
  have isRunning : (s.activity e).running = some task := by
    rw [isUnlocking]
    rfl
  have isControl := described.control_of_running isRunning
  rw [isUnlocking] at isControl
  have invariant := described.reachable.invariant
  obtain ⟨next, granted, isNext, whole, _⟩ :=
    (invariant.lock entry.1).unlock (LockingState.holds_unlocking isControl found)
  have awaits := invariant.granted_await whole
  obtain ⟨isHanded, _, placed⟩ :=
    described.placed.unlock isUnlocking isNext whole run chain isMode
  rw [isHanded]
  have wasWaiting : ∀ t ∈ granted.map Prod.fst, place t = some (.on (.waiting entry.1)) := by
    intro t member
    apply described.placed.located.place_of_mem
    rw [← described.placed.listed]
    show t ∈ ((s.locking table place queues).locks entry.1).waiting.map Prod.fst
    rw [whole, List.map_append]
    exact List.mem_append_left _ member
  have notGranted : task ∉ granted.map Prod.fst := by
    intro member
    have isPlace := wasWaiting task member
    rw [described.place_of_running isRunning, Option.some.injEq] at isPlace
    cases isPlace
  refine ⟨_, _, _, described.step placed (.unlock task)
    ⟨Function.update
        (LockingState.grantAll (s.locking table place queues).control granted) task
        (.unlocking (s.pos task + 1)),
      Function.update (s.locking table place queues).locks entry.1 next⟩ ?_ ?_ ?_ ?_⟩
  · simp only [LockingState.next, isControl, runningControl, found, isNext]
  · intro t
    by_cases same : t = task
    · rw [same, relocated_of_not_mem notGranted, described.place_of_running isRunning]
      simp only [controlAt, runningControl, Function.update_self]
    · simp only [Function.update_of_ne same, LockingState.grantAll]
      by_cases isGranted : t ∈ granted.map Prod.fst
      · have sameReached : reached table
            { s with
              memory := m
              activity := Function.update s.activity e (.signalling task h)
              held :=
                Function.update s.held entry.1
                  ((s.held entry.1).filter (fun grant => grant.1 ≠ task) ++ granted) } t =
            s.reached table t := by
          apply reached_congr
          · exact fun other different => Function.update_of_ne different _ _
          · rfl
          · rw [isUnlocking]
            exact Activity.noConfusion
          · simp only [Function.update_self]
            exact Activity.noConfusion
        have wasControl : (s.locking table place queues).control t =
            .waiting (s.reached table t) := by
          show s.controlAt table t (place t) = _
          rw [wasWaiting t isGranted]
          rfl
        rw [relocated_of_mem isGranted, if_pos isGranted, wasControl]
        exact congrArg TaskControl.granted sameReached
      · rw [relocated_of_not_mem isGranted, if_neg isGranted]
        apply described.control_of_different isRunning same
        · rfl
        · exact Activity.noConfusion
        · rfl
  · exact fun inst => update_waiting entry.1 inst _
  · intro inst t mode
    rw [LockingState.holds_unlocked isControl found awaits, ← described.held]
    by_cases isInst : inst = entry.1
    · rw [isInst]
      simp [List.mem_filter]
    · simp only [Function.update_of_ne isInst, isInst, false_and, not_false_eq_true, and_true,
        or_false]

end Described

/-! ## Runs -/

variable [DecidableEq ε]

theorem initial_described {m : TaskMemory ε} {pos : Nat → Nat}
    (run : initializeTasks table table.tasks TaskMemory.initial = .ok m) :
    ∃ contents place queues,
      Described table ⟨m, pos, fun _ => .free, fun _ => []⟩ contents place queues := by
  obtain ⟨m', queues, isInitial, isLock, placed⟩ := initial_placed table
  rw [run, Outcome.ok.injEq] at isInitial
  obtain rfl := isInitial
  have isIdle : ∀ task, controlAt table ⟨m, pos, fun _ => .free, fun _ => []⟩ task
      (initialPlace table task) = .idle := by
    intro task
    unfold initialPlace
    split
    · rfl
    · rfl
  have isLocking : locking table ⟨m, pos, fun _ => .free, fun _ => []⟩ (initialPlace table) queues =
      LockingState.initial := by
    rw [locking, funext isIdle, funext isLock]
    rfl
  refine ⟨_, _, queues, placed, ?_, ?_⟩
  · rw [isLocking]
    exact LockingState.Reachable.initial
  · intro inst task mode
    rw [isLocking]
    refine iff_of_false List.not_mem_nil ?_
    rintro ⟨access, member, _⟩
    exact List.not_mem_nil member

theorem Step.described {e : ε} (step : Step table e s after)
    (described : s.Described table contents place queues) :
    ∃ contents' place' queues', after.Described table contents' place' queues' := by
  cases step with
  | takeReady isFree isTaken isTask => exact described.takeReady isFree isTaken isTask
  | resume isTaken => exact described.resume isTaken
  | takeIdle isFree isTaken isTask => exact described.takeIdle isFree isTaken isTask
  | granted isLocking found run => exact described.granted isLocking found run
  | enqueued isLocking found run => exact described.enqueued isLocking found run
  | returned isEnqueued => exact described.returned isEnqueued
  | locked isLocking atEnd => exact described.locked isLocking atEnd
  | executed isExecuting => exact described.executed isExecuting
  | unlock isUnlocking found run chain isMode =>
      exact described.unlock isUnlocking found run chain isMode
  | signal isSignalling notNull run => exact described.signal isSignalling notNull run
  | signalled isSignalling => exact described.signalled isSignalling
  | unlocked isUnlocking atEnd run => exact described.unlocked isUnlocking atEnd run

theorem Reachable.described (reachable : Reachable table s) :
    ∃ contents place queues, s.Described table contents place queues := by
  induction reachable with
  | initial run => exact initial_described run
  | step _ step inductionHypothesis =>
      obtain ⟨_, _, _, described⟩ := inductionHypothesis
      exact step.described described

/-! ## A task between two lists -/

/-- Two tasks that write the same instance, each with an executor of its own. -/
def writers : TaskTable Bool where
  tasks := [16, 32]
  nodup := by decide
  notNull := by decide
  owner task := task = 32
  set _ := InstanceSet.empty.insert (0, .accessWrite)

theorem writers_handOver :
    ∃ s : SchedulerState Bool, Reachable writers s ∧ s.IsAt 32 (.signalled false) := by
  have initially := @Reachable.initial Bool _ writers _ (fun _ => 0) rfl
  have first := initially.step (@Step.takeIdle _ _ _ false _ _ 16 rfl rfl (by decide))
  have holds := first.step (@Step.granted _ _ _ false _ _ 16 (0, .accessWrite) rfl rfl rfl)
  have second := holds.step (@Step.takeIdle _ _ _ true _ _ 32 rfl rfl (by decide))
  have waits := second.step (@Step.enqueued _ _ _ true _ _ 32 (0, .accessWrite) rfl rfl rfl)
  have returns := waits.step (@Step.returned _ _ _ true _ 32 rfl)
  have executes := returns.step (@Step.locked _ _ _ false _ 16 rfl rfl)
  have executed := executes.step (@Step.executed _ _ _ false _ 16 rfl)
  have releases := executed.step
    (@Step.unlock _ _ _ false _ _ 32 16 (0, .accessWrite) [(32, .write)] rfl rfl
      (Outcome.Returns.of_forall fun _ => rfl) ⟨rfl, 0, rfl, rfl⟩ (by decide))
  exact ⟨_, releases, [32], ⟨rfl, 0, rfl, rfl⟩, List.mem_cons_self⟩

/-! ## Conservation -/

/-- What the scheduler guarantees. -/
structure Conserved (table : TaskTable ε) (s : SchedulerState ε) : Prop where
  /-- every task is in one place, and nothing else is -/
  place : ∀ task ∈ table.tasks, ∃! p, s.IsAt task p
  tasks : ∀ task p, s.IsAt task p → task ∈ table.tasks
  /-- only its own executor has a task on its lists or in execution -/
  own : ∀ task p e, s.IsAt task p → p.executor = some e → table.owner task = e
  lists : ∀ name, s.IsWellFormed name
  /-- a task from a ready list holds the locks before its position -/
  resumed :
    ∀ e task, s.activity e = .taken task →
      s.HoldsExactly task ((table.set task).entries.take (s.pos task))
  /-- a task that is not being executed and does not wait holds no lock -/
  idle : ∀ e task, s.IsAt task (.on (.idle e)) → s.HoldsExactly task []
  /-- `count_` is about these locks -/
  counts :
    ∀ inst, CountsHolders (fun task mode => (task, mode) ∈ s.held inst) (s.memory.count inst)
  /-- no assertion fails and no member of `NULL` is used -/
  proceeds : ∀ e, s.activity e ≠ .free → ∃ after, Step table e s after

namespace Described

omit [DecidableEq ε]

theorem isAt_iff (described : s.Described table contents place queues) {task : Nat}
    {p : Place ε} : s.IsAt task p ↔ place task = some p := by
  rw [← described.placed.located.mem_iff]
  have noNext : s.memory.next 0 = none := if_pos rfl
  cases p with
  | on name =>
      have chain := (described.placed.list name).chain
      rw [described.placed.listed] at chain
      constructor
      · rintro ⟨tasks, found, member⟩
        rw [Chain.unique noNext chain found]
        exact member
      · exact fun member => ⟨_, chain, member⟩
  | signalled e =>
      have chain := described.placed.chain e
      constructor
      · rintro ⟨tasks, found, member⟩
        rw [Chain.unique noNext chain found]
        exact member
      · exact fun member => ⟨_, chain, member⟩
  | executing e =>
      rw [described.placed.running, Option.mem_toList]
      rfl

theorem holdsExactly (described : s.Described table contents place queues) (task : Nat) :
    s.HoldsExactly task (LockingState.heldEntries (table.set task)
      ((s.locking table place queues).control task)) :=
  fun inst mode => described.held inst task mode

theorem isWellFormed (described : s.Described table contents place queues) (name : ListName ε) :
    s.IsWellFormed name :=
  have represents := described.placed.list name
  ⟨_, represents.chain, represents.nodup, represents.tail⟩

theorem counts (described : s.Described table contents place queues) (inst : InstanceId) :
    CountsHolders (fun task mode => (task, mode) ∈ s.held inst) (s.memory.count inst) := by
  have isCount : s.memory.count inst = (queues (.waiting inst)).count :=
    (described.placed.list (.waiting inst)).count
  rw [isCount]
  exact (described.reachable.invariant.lock inst).counts.congr (described.held inst)

variable [DecidableEq ε]

/-- What an executor does next never fails. -/
theorem proceeds (described : s.Described table contents place queues) {e : ε}
    (notFree : s.activity e ≠ .free) : ∃ after, Step table e s after := by
  have placed := described.placed
  cases isActivity : s.activity e with
  | free => exact absurd isActivity notFree
  | taken task => exact ⟨_, Step.resume isActivity⟩
  | enqueued task => exact ⟨_, Step.returned isActivity⟩
  | executing task => exact ⟨_, Step.executed isActivity⟩
  | locking task =>
      have isRunning : (s.activity e).running = some task := by
        rw [isActivity]
        rfl
      have isUnlinked : (s.activity e).unlinked = some task := by
        rw [isActivity]
        rfl
      cases found : (table.set task).entries[s.pos task]? with
      | none => exact ⟨_, Step.locked isActivity found⟩
      | some entry =>
          have absent : task ∉ (queues (.waiting entry.1)).waiting.map Prod.fst := by
            rw [placed.listed]
            exact placed.not_mem_of_running isRunning (by simp)
          obtain ⟨l, result, _⟩ := (placed.list (.waiting entry.1)).lock
            (placed.notNull_of_running isRunning) (placed.unlinked e task isUnlinked) absent
            (lockMode entry.2)
          have run := TaskMemory.lock_of_view result
          cases isEnqueued : ((queues (.waiting entry.1)).lock task (lockMode entry.2)).2 with
          | false => exact ⟨_, Step.granted isActivity found (isEnqueued ▸ run)⟩
          | true => exact ⟨_, Step.enqueued isActivity found (isEnqueued ▸ run)⟩
  | unlocking task =>
      have isRunning : (s.activity e).running = some task := by
        rw [isActivity]
        rfl
      have isUnlinked : (s.activity e).unlinked = some task := by
        rw [isActivity]
        rfl
      cases found : (table.set task).entries[s.pos task]? with
      | none =>
          exact ⟨_, Step.unlocked isActivity found
            (TaskMemory.push_of_unlinked (placed.unlinked e task isUnlinked))⟩
      | some entry =>
          have isControl := described.control_of_running isRunning
          rw [isActivity] at isControl
          obtain ⟨next, granted, isNext, _⟩ :=
            (described.reachable.invariant.lock entry.1).unlock
              (LockingState.holds_unlocking isControl found)
          obtain ⟨l, h, returns, _, handsOver⟩ := (placed.list (.waiting entry.1)).unlock isNext
          exact ⟨_, Step.unlock isActivity found (TaskMemory.unlock_of_view returns)
            handsOver.chain fun w member => (handsOver.mode w member).2⟩
  | signalling task h =>
      by_cases isNull : h = 0
      · rw [isNull] at isActivity
        exact ⟨_, Step.signalled isActivity⟩
      · obtain ⟨_, m, next, run, _⟩ := placed.signal isActivity isNull
        exact ⟨_, Step.signal isActivity isNull run⟩

theorem conserved (described : s.Described table contents place queues) : s.Conserved table where
  place task member := by
    obtain ⟨p, isPlace⟩ := Option.isSome_iff_exists.mp ((described.placed.known task).mpr member)
    refine ⟨p, described.isAt_iff.mpr isPlace, ?_⟩
    intro other isThere
    rw [described.isAt_iff, isPlace, Option.some.injEq] at isThere
    exact isThere.symm
  tasks task p isThere := by
    rw [← described.placed.known, described.isAt_iff.mp isThere]
    rfl
  own task p e isThere := described.placed.own task p e (described.isAt_iff.mp isThere)
  lists := described.isWellFormed
  resumed e task isTaken := by
    have isRunning : (s.activity e).running = some task := by
      rw [isTaken]
      rfl
    have isControl := described.control_of_running isRunning
    rw [isTaken] at isControl
    have holds := described.holdsExactly task
    rw [isControl] at holds
    exact holds
  idle e task isIdle := by
    have isControl : (s.locking table place queues).control task = .idle := by
      show s.controlAt table task (place task) = _
      rw [described.isAt_iff.mp isIdle]
      rfl
    have holds := described.holdsExactly task
    rw [isControl] at holds
    exact holds
  counts := described.counts
  proceeds e := described.proceeds

end Described

/-- In every interleaving of the executors each task is in one place. -/
theorem Reachable.tasks_conserved (reachable : Reachable table s) : s.Conserved table := by
  obtain ⟨_, _, _, described⟩ := reachable.described
  exact described.conserved

/-- It is so while a lock is handed over. -/
theorem conserved_handOver :
    ∃ s : SchedulerState Bool, s.IsAt 32 (.signalled false) ∧ s.Conserved writers := by
  obtain ⟨s, reachable, isThere⟩ := writers_handOver
  exact ⟨s, isThere, reachable.tasks_conserved⟩

/-- The task that gets the lock is on no list and not in execution then. -/
theorem writers_betweenLists :
    ∃ s : SchedulerState Bool, Reachable writers s ∧ 32 ∈ writers.tasks ∧
      (∀ name, ¬s.IsAt 32 (.on name)) ∧ ∀ e, ¬s.IsAt 32 (.executing e) := by
  obtain ⟨s, reachable, isThere⟩ := writers_handOver
  obtain ⟨_, _, _, described⟩ := reachable.described
  have isPlace := described.isAt_iff.mp isThere
  refine ⟨s, reachable, by decide, ?_, ?_⟩
  · intro name isOn
    rw [described.isAt_iff, isPlace] at isOn
    cases isOn
  · intro e isExecuting
    rw [described.isAt_iff, isPlace] at isExecuting
    cases isExecuting

end SchedulerState

end Rcgo.Scheduler
