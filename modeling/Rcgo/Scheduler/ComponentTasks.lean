import Rcgo.Scheduler.ComponentSchedule

/-!
# Transactions under the partitioned scheduler

A task of the partitioned scheduler has the locks of its instance set from the end of the
locking loop to the beginning of the unlocking loop of `resume`, and in between its
executor calls `execute_i`.  In whatever order the tasks go on, the components end up as if
the transactions had been executed one after another.
-/

namespace Rcgo.Scheduler

open Rcgo.Foundation Rcgo.Composition Rcgo.Composition.Graph

/-- What the tasks do. -/
inductive TaskEvent (g : Graph) where
  /-- a step outside of `execute_i` -/
  | locking (event : LockingState.Event (Job g))
  /-- the precondition of an action, with the activations that the immutable phase executes
  if it is true -/
  | evaluate (a : g.NodeId) (outcome : Option (List g.NodeId))
  /-- the body of an activation -/
  | perform (task : Job g) (b : g.NodeId)
  /-- `execute_i` returns -/
  | finish (task : Job g)
  deriving DecidableEq

/-- The transaction that an event begins, with its outcome. -/
def TaskEvent.evaluation {g : Graph} : TaskEvent g → Option (g.NodeId × Option (List g.NodeId))
  | .evaluate a outcome => some (a, outcome)
  | _ => none

/-- The tasks of the partitioned scheduler with the states of the components. -/
structure ComponentTasks (c : Composed) (κ : Type) where
  locking : LockingState (Job c.graph)
  components : InstanceId → κ
  /-- the bodies that a task has left in `execute_i`, once the precondition is evaluated -/
  phase : Job c.graph → Option (List (KeptBody c.graph κ))

namespace ComponentTasks

variable {c : Composed} {κ : Type}

def initial (c : Composed) (components : InstanceId → κ) : ComponentTasks c κ where
  locking := LockingState.initial
  components := components
  phase _ := none

/-- `execute_i` returns when all bodies have run; a garbage collection has none. -/
def isDone (s : ComponentTasks c κ) : Job c.graph → Bool
  | .action a => (s.phase (.action a)).any List.isEmpty
  | .collectGarbage inst => (s.phase (.collectGarbage inst)).all List.isEmpty

/-- The step of a task, without a value when it is elsewhere.  There is a task for each
action and for the garbage collection of each instance. -/
def after (code : ComponentCode c κ) (s : ComponentTasks c κ) :
    TaskEvent c.graph → Option (ComponentTasks c κ)
  | .locking (.execute _) => none
  | .locking event =>
      (s.locking.next (Job.set c.memo) event).map fun locking => { s with locking := locking }
  | .evaluate a outcome =>
      if a ∈ c.graph.actions ∧ s.locking.control (.action a) = .executing ∧
          (s.phase (.action a)).isNone ∧ outcome = code.outcome a s.components then
        some
          { s with
            phase := Function.update s.phase (.action a)
              (some (ComponentCode.deferred (code.decision a s.components))) }
      else
        none
  | .perform task b =>
      match s.phase task with
      | some (body :: rest) =>
          if body.node = b then
            some
              { s with
                components := body.val.run s.components
                phase := Function.update s.phase task (some rest) }
          else
            none
      | _ => none
  | .finish task =>
      if s.isDone task then
        (s.locking.next (Job.set c.memo) (.execute task)).map fun locking =>
          { s with locking := locking, phase := Function.update s.phase task none }
      else
        none

def afterAll (code : ComponentCode c κ) (s : ComponentTasks c κ)
    (events : List (TaskEvent c.graph)) : Option (ComponentTasks c κ) :=
  events.foldlM (after code) s

end ComponentTasks

namespace LockingState

variable {τ : Type} [DecidableEq τ] {set : τ → InstanceSet} {s after : LockingState τ}

/-- A task stays in `execute_i` until it returns. -/
theorem executing_of_next {event : Event τ} (taken : s.next set event = some after) {t : τ}
    (isExecuting : s.control t = .executing) (goesOn : event ≠ .execute t) :
    after.control t = .executing := by
  have elsewhere : ∀ {u control}, u ≠ t → Function.update s.control u control t = .executing := by
    intro u control different
    rw [Function.update_of_ne different.symm, isExecuting]
  cases event with
  | start u =>
      simp only [next] at taken
      split at taken
      · next isIdle =>
        rw [← Option.some.inj taken]
        apply elsewhere
        rintro rfl
        rw [isExecuting] at isIdle
        cases isIdle
      · cases taken
  | resume u =>
      simp only [next] at taken
      split at taken
      · next isGranted =>
        rw [← Option.some.inj taken]
        apply elsewhere
        rintro rfl
        rw [isExecuting] at isGranted
        cases isGranted
      · cases taken
  | lock u =>
      simp only [next] at taken
      split at taken
      · next isLocking =>
        have different : u ≠ t := by
          rintro rfl
          rw [isExecuting] at isLocking
          cases isLocking
        split at taken
        · rw [← Option.some.inj taken]
          exact elsewhere different
        · rw [← Option.some.inj taken]
          exact elsewhere different
      · cases taken
  | execute u =>
      simp only [next] at taken
      split at taken
      · rw [← Option.some.inj taken]
        exact elsewhere fun same => goesOn (congrArg Event.execute same)
      · cases taken
  | unlock u =>
      simp only [next] at taken
      split at taken
      · next isUnlocking =>
        have different : u ≠ t := by
          rintro rfl
          rw [isExecuting] at isUnlocking
          cases isUnlocking
        split at taken
        · rw [← Option.some.inj taken]
          exact elsewhere different
        · split at taken
          · cases taken
          · rw [← Option.some.inj taken]
            show Function.update (grantAll s.control _) u _ t = .executing
            rw [Function.update_of_ne different.symm, grantAll]
            split
            · rw [isExecuting]
              rfl
            · exact isExecuting
      · cases taken

end LockingState

namespace ComponentTasks

variable {c : Composed} {κ : Type} {code : ComponentCode c κ} {s next : ComponentTasks c κ}

/-- What an event does. -/
inductive Move (code : ComponentCode c κ) (s next : ComponentTasks c κ) :
    TaskEvent c.graph → Prop where
  | locking (event : LockingState.Event (Job c.graph))
      (step : s.locking.next (Job.set c.memo) event = some next.locking)
      (goesOn : ∀ task, event ≠ .execute task) (components : next.components = s.components)
      (phase : next.phase = s.phase) : Move code s next (.locking event)
  | evaluate (a : c.graph.NodeId) (isAction : a ∈ c.graph.actions)
      (isExecuting : s.locking.control (.action a) = .executing)
      (isFirst : s.phase (.action a) = none) (locking : next.locking = s.locking)
      (components : next.components = s.components)
      (phase : next.phase = Function.update s.phase (.action a)
        (some (ComponentCode.deferred (code.decision a s.components)))) :
      Move code s next (.evaluate a (code.outcome a s.components))
  | perform (task : Job c.graph) (body : KeptBody c.graph κ) (rest : List (KeptBody c.graph κ))
      (isPhase : s.phase task = some (body :: rest)) (locking : next.locking = s.locking)
      (components : next.components = body.val.run s.components)
      (phase : next.phase = Function.update s.phase task (some rest)) :
      Move code s next (.perform task body.node)
  | finish (task : Job c.graph)
      (step : s.locking.next (Job.set c.memo) (.execute task) = some next.locking)
      (isDone : s.isDone task = true) (components : next.components = s.components)
      (phase : next.phase = Function.update s.phase task none) : Move code s next (.finish task)

theorem move_of_after {event : TaskEvent c.graph} (taken : s.after code event = some next) :
    Move code s next event := by
  cases event with
  | locking event =>
      have steps : (s.locking.next (Job.set c.memo) event).map
          (fun locking => { s with locking := locking }) = some next →
            (∀ task, event ≠ .execute task) → Move code s next (.locking event) := by
        intro taken goesOn
        rcases Option.map_eq_some_iff.mp taken with ⟨locking, step, isNext⟩
        rw [← isNext]
        exact .locking event step goesOn rfl rfl
      cases event with
      | execute task => cases taken
      | _ => exact steps taken nofun
  | evaluate a outcome =>
      rw [after, Option.ite_none_right_eq_some, Option.some.injEq] at taken
      rcases taken with ⟨⟨isAction, isExecuting, isFirst, rfl⟩, rfl⟩
      exact .evaluate a isAction isExecuting (Option.isNone_iff_eq_none.mp isFirst) rfl rfl rfl
  | perform task b =>
      simp only [after] at taken
      split at taken
      · next body rest isPhase =>
        rw [Option.ite_none_right_eq_some, Option.some.injEq] at taken
        rcases taken with ⟨rfl, rfl⟩
        exact .perform task body rest isPhase rfl rfl rfl
      · cases taken
  | finish task =>
      rw [after, Option.ite_none_right_eq_some] at taken
      rcases taken with ⟨isDone, taken⟩
      rcases Option.map_eq_some_iff.mp taken with ⟨locking, step, isNext⟩
      rw [← isNext]
      exact .finish task step isDone rfl rfl

/-- The tasks have the locks for the bodies that they have left. -/
structure Guarded (s : ComponentTasks c κ) : Prop where
  reachable : LockingState.Reachable (Job.set c.memo) s.locking
  covered : ∀ task bodies, s.phase task = some bodies →
    ∃ a ∈ c.graph.actions, task = .action a ∧ s.locking.control task = .executing ∧
      ∀ body ∈ bodies, ∀ inst, BodyWrites body.node inst → Accesses a inst .accessWrite

theorem Guarded.move {event : TaskEvent c.graph} (guarded : s.Guarded)
    (move : Move code s next event) : next.Guarded := by
  cases move with
  | locking event step goesOn _ phase =>
      refine ⟨guarded.reachable.step step, ?_⟩
      intro task bodies isPhase
      rw [phase] at isPhase
      rcases guarded.covered task bodies isPhase with ⟨a, isAction, isTask, isExecuting, writes⟩
      exact ⟨a, isAction, isTask,
        LockingState.executing_of_next step isExecuting (goesOn task), writes⟩
  | evaluate a isAction isExecuting _ locking _ phase =>
      refine ⟨locking ▸ guarded.reachable, ?_⟩
      intro task bodies isPhase
      rw [phase] at isPhase
      rw [locking]
      by_cases isHere : task = .action a
      · rw [isHere, Function.update_self, Option.some.injEq] at isPhase
        rw [isHere, ← isPhase]
        exact ⟨a, isAction, rfl, isExecuting,
          fun body isBody inst => code.accesses_of_deferred isAction isBody⟩
      · rw [Function.update_of_ne isHere] at isPhase
        exact guarded.covered task bodies isPhase
  | perform task body rest wasPhase locking _ phase =>
      refine ⟨locking ▸ guarded.reachable, ?_⟩
      intro other bodies isPhase
      rw [phase] at isPhase
      rw [locking]
      by_cases isHere : other = task
      · rw [isHere, Function.update_self, Option.some.injEq] at isPhase
        rw [isHere, ← isPhase]
        rcases guarded.covered task _ wasPhase with ⟨a, isAction, isTask, isExecuting, writes⟩
        exact ⟨a, isAction, isTask, isExecuting,
          fun body isBody => writes body (List.mem_cons_of_mem _ isBody)⟩
      · rw [Function.update_of_ne isHere] at isPhase
        exact guarded.covered other bodies isPhase
  | finish task step _ _ phase =>
      refine ⟨guarded.reachable.step step, ?_⟩
      intro other bodies isPhase
      rw [phase] at isPhase
      by_cases isHere : other = task
      · rw [isHere, Function.update_self] at isPhase
        cases isPhase
      · rw [Function.update_of_ne isHere] at isPhase
        rcases guarded.covered other bodies isPhase with ⟨a, isAction, isTask, isExecuting, writes⟩
        refine ⟨a, isAction, isTask, LockingState.executing_of_next step isExecuting ?_, writes⟩
        intro same
        injection same with same
        exact isHere same.symm

/-- The updates of the components that a task has left. -/
def pending (s : ComponentTasks c κ) (task : Job c.graph) : List (LocalUpdate InstanceId κ) :=
  ((s.phase task).getD []).map KeptBody.update

theorem pending_of_isDone {task : Job c.graph} (isDone : s.isDone task = true) :
    s.pending task = [] := by
  rw [pending]
  cases isPhase : s.phase task with
  | none => rfl
  | some bodies =>
      have isEmpty : bodies.isEmpty = true := by
        cases task with
        | action a =>
            rw [ComponentTasks.isDone, isPhase] at isDone
            exact isDone
        | collectGarbage inst =>
            rw [ComponentTasks.isDone, isPhase] at isDone
            exact isDone
      rw [List.isEmpty_iff.mp isEmpty]
      rfl

theorem exists_body_of_touches {task : Job c.graph} {inst : InstanceId}
    (touches : LocalUpdate.Touches (s.pending task) inst) :
    ∃ bodies, s.phase task = some bodies ∧ ∃ body ∈ bodies, BodyWrites body.node inst := by
  rcases touches with ⟨update, isUpdate, inScope⟩
  rcases List.mem_map.mp isUpdate with ⟨body, isBody, rfl⟩
  cases isPhase : s.phase task with
  | none =>
      rw [isPhase] at isBody
      exact absurd isBody List.not_mem_nil
  | some bodies =>
      rw [isPhase] at isBody
      exact ⟨bodies, rfl, body, isBody, inScope⟩

theorem Guarded.exclusive (guarded : s.Guarded) {a : c.graph.NodeId}
    (isAction : a ∈ c.graph.actions) (isExecuting : s.locking.control (.action a) = .executing)
    {other : Job c.graph} (different : other ≠ .action a) {inst : InstanceId}
    (reads : ReadsInstance a inst) : ¬LocalUpdate.Touches (s.pending other) inst := by
  intro touches
  rcases exists_body_of_touches touches with ⟨bodies, isPhase, body, isBody, writes⟩
  rcases guarded.covered other bodies isPhase with ⟨b, isOther, isTask, isExecutingToo, covered⟩
  rcases reads with ⟨access, isRead, accesses⟩
  have coversRead := (c.accepted_memo.covers isAction accesses).mono isRead
  have coversWrite := c.accepted_memo.covers isOther (covered body isBody inst writes)
  rw [isTask] at isExecutingToo different
  exact LockingState.isolated guarded.reachable different.symm isExecuting isExecutingToo
    ⟨inst, Or.inr ⟨coversRead, coversWrite⟩⟩

/-- What holds after each run. -/
structure Serializes (code : ComponentCode c κ) (start : InstanceId → κ)
    (events : List (TaskEvent c.graph)) (s : ComponentTasks c κ) : Prop where
  guarded : s.Guarded
  linearized : ∃ history, code.transactions.Linearized start history s.pending s.components ∧
    (history.map fun entry =>
      (entry.1.val, entry.2.map fun bodies => bodies.map KeptBody.node)) =
        events.filterMap TaskEvent.evaluation

theorem pending_update {task : Job c.graph} {phase : Option (List (KeptBody c.graph κ))}
    (isPhase : next.phase = Function.update s.phase task phase) :
    next.pending = Function.update s.pending task ((phase.getD []).map KeptBody.update) := by
  funext other
  rw [pending, isPhase]
  by_cases isHere : other = task
  · rw [isHere, Function.update_self, Function.update_self]
  · rw [Function.update_of_ne isHere, Function.update_of_ne isHere]
    rfl

theorem Serializes.move {start : InstanceId → κ} {past : List (TaskEvent c.graph)}
    {event : TaskEvent c.graph} (serializes : Serializes code start past s)
    (move : Move code s next event) : Serializes code start (past ++ [event]) next := by
  refine ⟨serializes.guarded.move move, ?_⟩
  rcases serializes.linearized with ⟨history, linearized, isHistory⟩
  rw [List.filterMap_append, ← isHistory]
  cases move with
  | locking _ _ _ components phase =>
      refine ⟨history, ?_, (List.append_nil _).symm⟩
      have isPending : next.pending = s.pending := by
        funext task
        rw [pending, pending, phase]
      rw [components, isPending]
      exact linearized
  | evaluate a isAction isExecuting isFirst _ components phase =>
      refine ⟨history ++ [(⟨a, isAction⟩, code.decision a s.components)], ?_, ?_⟩
      · rw [components, pending_update phase]
        apply linearized.decide ⟨a, isAction⟩
        · rw [pending, isFirst]
          rfl
        · exact fun other inst different reads =>
            serializes.guarded.exclusive isAction isExecuting different reads
        · intro other inst different touches
          rcases touches with ⟨update, isUpdate, inScope⟩
          rcases List.mem_map.mp isUpdate with ⟨body, isBody, rfl⟩
          apply serializes.guarded.exclusive isAction isExecuting different
          exact ⟨_, by decide, code.accesses_of_deferred isAction isBody inScope⟩
      · rw [List.map_append]
        rfl
  | perform task body rest isPhase _ components phase =>
      refine ⟨history, ?_, (List.append_nil _).symm⟩
      have isFirst : s.pending task = body.update :: rest.map KeptBody.update := by
        rw [pending, isPhase]
        rfl
      rw [components, pending_update phase]
      exact linearized.perform isFirst
  | finish task _ isDone components phase =>
      refine ⟨history, ?_, (List.append_nil _).symm⟩
      have isPending : next.pending = s.pending := by
        rw [pending_update phase, Option.getD_none, List.map_nil, ← pending_of_isDone isDone,
          Function.update_eq_self]
      rw [components, isPending]
      exact linearized

theorem serializes_initial (code : ComponentCode c κ) (start : InstanceId → κ) :
    Serializes code start [] (initial c start) where
  guarded := ⟨.initial, fun _ _ isPhase => nomatch isPhase⟩
  linearized := ⟨[], .initial start, rfl⟩

/-- Transactions under the partitioned scheduler are serializable: after each run of the
tasks, the transactions of which the preconditions have been evaluated, executed one after
another in the order of these evaluations, have the same outcomes, and they lead to the same
state of every component that no body is going to write. -/
theorem tasks_serializable {start : InstanceId → κ} {events : List (TaskEvent c.graph)}
    (runs : (initial c start).afterAll code events = some s) :
    ∃ serial, code.Serial start (events.filterMap TaskEvent.evaluation) serial ∧
      ∀ inst, (∀ task bodies, s.phase task = some bodies →
        ∀ body ∈ bodies, ¬BodyWrites body.node inst) → s.components inst = serial inst := by
  have serializes : Serializes code start events s :=
    history_invariant (Serializes code start) (fun _ => True)
      (fun _ _ _ _ serializes _ taken => serializes.move (move_of_after taken))
      (serializes_initial code start) (fun _ _ => trivial) runs
  rcases serializes.linearized with ⟨history, linearized, isHistory⟩
  rcases linearized.serial with ⟨serial, isSerial, ahead⟩
  refine ⟨serial, ?_, ?_⟩
  · rw [← isHistory]
    exact code.serial_of_serial isSerial
  · intro inst notWritten
    refine (ahead.free inst ?_).symm
    intro task touches
    rcases exists_body_of_touches touches with ⟨bodies, isPhase, body, isBody, writes⟩
    exact notWritten task bodies isPhase body isBody writes

open InstanceSchedule (observer observed counting countingBody looking lookingBody)

/-- The observer waits for the lock of the counter, and then sees that it has counted. -/
def counts : List (TaskEvent observer) :=
  let counter : Job observer := .action counting
  let looker : Job observer := .action looking
  [.locking (.start counter), .locking (.lock counter), .locking (.lock counter),
    .locking (.start looker), .locking (.lock looker),
    .evaluate counting (some [countingBody]), .perform counter countingBody, .finish counter,
    .locking (.unlock counter), .locking (.resume looker), .locking (.lock looker),
    .locking (.lock looker), .evaluate looking (some [lookingBody])]

theorem tasks_serializable_counts : ∃ s,
    (initial observed (fun _ => 0)).afterAll ComponentSchedule.countsOnce counts = some s ∧
    ∃ serial, ComponentSchedule.countsOnce.Serial (fun _ => 0)
        [((0 : Fin 6), some [(1 : Fin 6)]), ((2 : Fin 6), some [(3 : Fin 6)])] serial := by
  have isRun : ((initial observed (fun _ => 0)).afterAll ComponentSchedule.countsOnce
      counts).isSome = true := by
    decide +kernel
  rcases Option.isSome_iff_exists.mp isRun with ⟨s, runs⟩
  rcases tasks_serializable runs with ⟨serial, isSerial, _⟩
  exact ⟨s, runs, serial, isSerial⟩

end ComponentTasks

end Rcgo.Scheduler
