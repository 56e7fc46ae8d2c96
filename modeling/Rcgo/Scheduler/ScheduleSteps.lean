import Rcgo.Scheduler.LostWakeups
import Rcgo.Scheduler.Progress

/-!
# The steps of an executor of the instance scheduler

An event moves one executor in `run_i`, with at most one step of its locks.
-/

namespace Rcgo.Scheduler

open Rcgo.Foundation Rcgo.Composition Rcgo.Composition.Graph

namespace ScheduleEvent

variable {executors : Nat} {g : Graph}

/-- The transaction that an event begins, with its outcome. -/
def evaluation : ScheduleEvent executors g → Option (g.NodeId × Option (List g.NodeId))
  | .evaluate _ a outcome => some (a, outcome)
  | _ => none

/-- The executor that does the step. -/
def executor : ScheduleEvent executors g → Fin executors
  | .take e _ => e
  | .exit e => e
  | .start e => e
  | .lock e => e
  | .evaluate e _ _ => e
  | .perform e _ => e
  | .push e _ => e
  | .finish e => e
  | .unlock e => e
  | .release e => e

end ScheduleEvent

/-! ## The control of one executor -/

namespace RwlockState

variable {ε α : Type} [DecidableEq ε] {set : α → InstanceSet} {s after : RwlockState ε α} {e : ε}

theorem control_of_start {job : α} (taken : next set s (.start e job) = some after) :
    after.control e = .locking job 0 := by
  simp only [next] at taken
  split at taken
  · rw [← Option.some.inj taken]
    exact Function.update_self _ _ _
  · cases taken

theorem control_of_lock (taken : next set s (.lock e) = some after) :
    ∃ job, (∃ pos, s.control e = .locking job pos) ∧
      ((∃ pos, after.control e = .locking job pos) ∨ after.control e = .executing job) := by
  simp only [next] at taken
  split at taken
  · next job pos isLocking =>
    refine ⟨job, ⟨pos, isLocking⟩, ?_⟩
    split at taken
    · rw [← Option.some.inj taken]
      exact Or.inr (Function.update_self _ _ _)
    · left
      split at taken
      · rw [← Option.some.inj taken]
        exact ⟨pos + 1, Function.update_self _ _ _⟩
      · rcases Option.map_eq_some_iff.mp taken with ⟨count, _, isAfter⟩
        rw [← isAfter]
        exact ⟨pos + 1, Function.update_self _ _ _⟩
  · cases taken

theorem control_of_execute (taken : next set s (.execute e) = some after) :
    ∃ job, after.control e = .unlocking job 0 := by
  simp only [next] at taken
  split at taken
  · next job _ =>
    rw [← Option.some.inj taken]
    exact ⟨job, Function.update_self _ _ _⟩
  · cases taken

theorem control_of_unlock (taken : next set s (.unlock e) = some after) :
    (∃ job pos, s.control e = .unlocking job pos) ∧
      (after.control e = .idle ∨ ∃ job pos, after.control e = .unlocking job pos) := by
  simp only [next] at taken
  split at taken
  · next job pos isUnlocking =>
    refine ⟨⟨job, pos, isUnlocking⟩, ?_⟩
    split at taken
    · rw [← Option.some.inj taken]
      exact Or.inl (Function.update_self _ _ _)
    · right
      split at taken
      · rw [← Option.some.inj taken]
        exact ⟨job, pos + 1, Function.update_self _ _ _⟩
      · rw [← Option.some.inj taken]
        exact ⟨job, pos + 1, Function.update_self _ _ _⟩
  · cases taken

theorem control_of_next {event : Event ε α} (taken : next set s event = some after) {job : α}
    (isExecuting : s.control e = .executing job) (goesOn : event ≠ .execute e) :
    after.control e = .executing job := by
  by_cases isOther : RwlockQueues.executor event = e
  · cases event with
    | start f _ =>
        have same : f = e := isOther
        rw [next, same, isExecuting] at taken
        cases taken
    | lock f =>
        have same : f = e := isOther
        rw [next, same, isExecuting] at taken
        cases taken
    | execute f => exact absurd (congrArg Event.execute isOther) goesOn
    | unlock f =>
        have same : f = e := isOther
        rw [next, same, isExecuting] at taken
        cases taken
  · rw [RwlockQueues.control_next taken fun same => isOther same.symm, isExecuting]

end RwlockState

/-! ## Where an executor goes -/

/-- The bodies of the mutable phase that have not run. -/
def RunStage.bodies {g : Graph} : RunStage g → List g.NodeId
  | .performing _ _ _ bodies => bodies
  | _ => []

/-- What an executor does with its locks at a place in `run_i`. -/
def RunStage.Agrees {g : Graph} : RunStage g → ExecutorControl (Job g) → Prop
  | .waiting, control => control = .idle
  | .exited, control => control = .idle
  | .trying _ _, control => control = .idle ∨ ∃ job pos, control = .unlocking job pos
  | .leaving, control => control = .idle ∨ ∃ job pos, control = .unlocking job pos
  | .attempting _ a _, control =>
      (∃ pos, control = .locking (.action a) pos) ∨ control = .executing (.action a)
  | .performing _ _ _ _, control => ∃ job, control = .executing job
  | .collecting inst, control =>
      (∃ pos, control = .locking (.collectGarbage inst) pos) ∨
        control = .executing (.collectGarbage inst)

/-- From a place in `run_i` an executor goes with an event to another one, with a step of
its locks or without one. -/
inductive Goes {executors : Nat} (c : Composed) :
    RunStage c.graph → ExecutorControl (Job c.graph) → ScheduleEvent executors c.graph →
      RunStage c.graph → Option (RwlockState.Event (Fin executors) (Job c.graph)) → Prop where
  | take (e : Fin executors) (inst : InstanceId) {control : ExecutorControl (Job c.graph)} :
      Goes c .waiting control (.take e inst) (.trying inst (c.actionsOf inst)) none
  | exit (e : Fin executors) {control : ExecutorControl (Job c.graph)} :
      Goes c .waiting control (.exit e) .exited none
  | attempt (e : Fin executors) (inst : InstanceId) (a : c.graph.NodeId)
      (rest : List c.graph.NodeId) {control : ExecutorControl (Job c.graph)} :
      Goes c (.trying inst (a :: rest)) control (.start e) (.attempting inst a rest)
        (some (.start e (.action a)))
  | collect (e : Fin executors) (inst : InstanceId) {control : ExecutorControl (Job c.graph)} :
      Goes c (.trying inst []) control (.start e) (.collecting inst)
        (some (.start e (.collectGarbage inst)))
  | lock (e : Fin executors) (stage : RunStage c.graph) {control : ExecutorControl (Job c.graph)} :
      Goes c stage control (.lock e) stage (some (.lock e))
  | refuse (e : Fin executors) (inst : InstanceId) (a : c.graph.NodeId)
      (rest : List c.graph.NodeId) :
      Goes c (.attempting inst a rest) (.executing (.action a)) (.evaluate e a none)
        (.trying inst rest) (some (.execute e))
  | enable (e : Fin executors) (inst : InstanceId) (a : c.graph.NodeId)
      (rest executed : List c.graph.NodeId) :
      Goes c (.attempting inst a rest) (.executing (.action a)) (.evaluate e a (some executed))
        (.performing inst rest [] executed.reverse) none
  | perform (e : Fin executors) (inst : InstanceId) (rest : List c.graph.NodeId)
      (b : c.graph.NodeId) (bodies : List c.graph.NodeId)
      {control : ExecutorControl (Job c.graph)} :
      Goes c (.performing inst rest [] (b :: bodies)) control (.perform e b)
        (.performing inst rest (c.pushes b) bodies) none
  | push (e : Fin executors) (source : InstanceId) (rest : List c.graph.NodeId)
      (inst : InstanceId) (targets : List InstanceId) (bodies : List c.graph.NodeId)
      {control : ExecutorControl (Job c.graph)} :
      Goes c (.performing source rest (inst :: targets) bodies) control (.push e inst)
        (.performing source rest targets bodies) none
  | complete (e : Fin executors) (inst : InstanceId) (rest : List c.graph.NodeId)
      {control : ExecutorControl (Job c.graph)} :
      Goes c (.performing inst rest [] []) control (.finish e) (.trying inst rest)
        (some (.execute e))
  | leave (e : Fin executors) (inst : InstanceId) {control : ExecutorControl (Job c.graph)} :
      Goes c (.collecting inst) control (.finish e) .leaving (some (.execute e))
  | unlock (e : Fin executors) (stage : RunStage c.graph)
      {control : ExecutorControl (Job c.graph)} :
      Goes c stage control (.unlock e) stage (some (.unlock e))
  | release (e : Fin executors) : Goes c .leaving .idle (.release e) .waiting none

namespace Goes

variable {executors : Nat} {c : Composed} {stage place : RunStage c.graph}
  {control : ExecutorControl (Job c.graph)} {event : ScheduleEvent executors c.graph}
  {lockEvent : Option (RwlockState.Event (Fin executors) (Job c.graph))}

theorem acts (goes : Goes c stage control event place lockEvent) :
    ∀ step ∈ lockEvent, RwlockQueues.executor step = event.executor := by
  intro step isStep
  cases goes with
  | take | exit | enable | perform | push | release => cases isStep
  | _ =>
      rw [← Option.some.inj isStep]
      rfl

/-- Only the event `lock` takes a lock. -/
theorem calls (goes : Goes c stage control event place lockEvent) {e : Fin executors}
    (isLock : lockEvent = some (.lock e)) : event = .lock e := by
  cases goes with
  | lock e stage =>
      injection isLock with isLock
      injection isLock with same
      rw [same]
  | _ => cases isLock

theorem returns (goes : Goes c stage control event place lockEvent) {e : Fin executors}
    (isExecute : lockEvent = some (.execute e)) : stage.bodies = [] := by
  cases goes with
  | refuse | complete | leave => rfl
  | _ => cases isExecute

theorem mem_remaining (goes : Goes c stage control event place lockEvent) {a : c.graph.NodeId}
    (remains : a ∈ place.remaining) : a ∈ stage.remaining ∨ a ∈ c.graph.actions := by
  cases goes with
  | take e inst => exact Or.inr (List.mem_filter.mp remains).1
  | exit | release => exact absurd remains List.not_mem_nil
  | refuse | enable => exact Or.inl (List.mem_cons_of_mem _ remains)
  | collect => exact absurd remains List.not_mem_nil
  | leave => exact absurd remains List.not_mem_nil
  | _ => exact Or.inl remains

end Goes

namespace InstanceSchedule

variable {executors : Nat} {c : Composed} {s next : InstanceSchedule executors c.graph}
  {event : ScheduleEvent executors c.graph}

theorem locks_of_locksAfter {lockEvent : RwlockState.Event (Fin executors) (Job c.graph)}
    (taken : s.locksAfter lockEvent = some next) :
    RwlockState.next (Job.set c.memo) s.locks lockEvent = some next.locks := by
  rcases Option.map_eq_some_iff.mp taken with ⟨locks, step, isNext⟩
  rw [← isNext]
  exact step

/-- An event moves its executor, and does a step of its locks. -/
structure Moves (s next : InstanceSchedule executors c.graph)
    (event : ScheduleEvent executors c.graph) (place : RunStage c.graph)
    (lockEvent : Option (RwlockState.Event (Fin executors) (Job c.graph))) : Prop where
  goes : Goes c (s.stage event.executor) (s.locks.control event.executor) event place lockEvent
  stage : next.stage = Function.update s.stage event.executor place
  locks : lockEvent.elim (next.locks = s.locks) fun lockEvent =>
    RwlockState.next (Job.set c.memo) s.locks lockEvent = some next.locks

/-- What a step does to the executors and the locks. -/
theorem exists_moves_of_after (taken : s.after event = some next) :
    ∃ place lockEvent, Moves s next event place lockEvent := by
  have steps : ∀ {place lockEvent}, (s.goesTo event.executor place).locksAfter lockEvent = some next →
      Goes c (s.stage event.executor) (s.locks.control event.executor) event place (some lockEvent) →
        ∃ place lockEvent, Moves s next event place lockEvent := by
    intro place lockEvent taken goes
    have locks := locks_of_locksAfter taken
    exact ⟨place, some lockEvent, goes, (locksAfter_eq_some taken).2.2, locks⟩
  have stays : ∀ {lockEvent}, s.locksAfter lockEvent = some next →
      Goes c (s.stage event.executor) (s.locks.control event.executor) event
        (s.stage event.executor) (some lockEvent) →
        ∃ place lockEvent, Moves s next event place lockEvent := by
    intro lockEvent taken goes
    refine ⟨_, some lockEvent, goes, ?_, locks_of_locksAfter taken⟩
    rw [(locksAfter_eq_some taken).2.2, Function.update_eq_self]
  cases event with
  | take e inst =>
      simp only [after, Option.ite_none_right_eq_some, Option.some.injEq] at taken
      rcases taken with ⟨⟨isWaiting, _⟩, rfl⟩
      exact ⟨_, none, isWaiting ▸ .take e inst, rfl, rfl⟩
  | exit e =>
      simp only [after, Option.ite_none_right_eq_some, Option.some.injEq] at taken
      rcases taken with ⟨⟨isWaiting, _⟩, rfl⟩
      exact ⟨_, none, isWaiting ▸ .exit e, rfl, rfl⟩
  | start e =>
      simp only [after] at taken
      split at taken
      · next inst a rest isTrying => exact steps taken (isTrying ▸ .attempt e inst a rest)
      · next inst isTrying => exact steps taken (isTrying ▸ .collect e inst)
      · cases taken
  | lock e => exact stays taken (.lock e _)
  | evaluate e a outcome =>
      simp only [after] at taken
      split at taken
      · next inst action rest isAttempting =>
        rw [Option.ite_none_right_eq_some] at taken
        rcases taken with ⟨⟨rfl, isExecuting⟩, taken⟩
        cases outcome with
        | none =>
            apply steps taken
            show Goes c (s.stage e) (s.locks.control e) _ _ _
            rw [isAttempting, isExecuting]
            exact .refuse e inst action rest
        | some executed =>
            refine ⟨.performing inst rest [] executed.reverse, none, ?_, ?_, ?_⟩
            · show Goes c (s.stage e) (s.locks.control e) _ _ _
              rw [isAttempting, isExecuting]
              exact .enable e inst action rest executed
            · rw [← Option.some.inj taken]
              rfl
            · rw [← Option.some.inj taken]
              rfl
      · cases taken
  | perform e b =>
      simp only [after] at taken
      split at taken
      · next inst rest body bodies isPerforming =>
        rw [Option.ite_none_right_eq_some, Option.some.injEq] at taken
        rcases taken with ⟨rfl, rfl⟩
        exact ⟨_, none, isPerforming ▸ .perform e inst rest body bodies, rfl, rfl⟩
      · cases taken
  | push e inst =>
      simp only [after] at taken
      split at taken
      · next source rest target targets bodies isPerforming =>
        rw [Option.ite_none_right_eq_some, Option.some.injEq] at taken
        rcases taken with ⟨rfl, rfl⟩
        exact ⟨_, none, isPerforming ▸ .push e source rest target targets bodies, rfl, rfl⟩
      · cases taken
  | finish e =>
      simp only [after] at taken
      split at taken
      · next inst rest isPerforming => exact steps taken (isPerforming ▸ .complete e inst rest)
      · next inst isCollecting => exact steps taken (isCollecting ▸ .leave e inst)
      · cases taken
  | unlock e => exact stays taken (.unlock e _)
  | release e =>
      simp only [after, Option.ite_none_right_eq_some, Option.some.injEq] at taken
      rcases taken with ⟨⟨isLeaving, isIdle⟩, rfl⟩
      refine ⟨.waiting, none, ?_, rfl, rfl⟩
      show Goes c (s.stage e) (s.locks.control e) _ _ _
      rw [isLeaving, isIdle]
      exact .release e

def bodiesAfter {g : Graph} (bodies : Fin executors → List g.NodeId) :
    ScheduleEvent executors g → Fin executors → List g.NodeId
  | .evaluate e _ (some executed) => Function.update bodies e executed.reverse
  | .perform e _ => Function.update bodies e (bodies e).tail
  | _ => bodies

theorem bodiesAfter_other {g : Graph} (bodies : Fin executors → List g.NodeId)
    {event : ScheduleEvent executors g} {f : Fin executors} (isOther : event.executor ≠ f) :
    bodiesAfter bodies event f = bodies f := by
  cases event with
  | evaluate e a outcome =>
      cases outcome with
      | none => rfl
      | some executed => exact Function.update_of_ne isOther.symm _ _
  | perform e b => exact Function.update_of_ne isOther.symm _ _
  | _ => rfl

namespace Moves

variable {place : RunStage c.graph}
  {lockEvent : Option (RwlockState.Event (Fin executors) (Job c.graph))} {f : Fin executors}

theorem stage_self (moves : Moves s next event place lockEvent) :
    next.stage event.executor = place := by
  rw [moves.stage, Function.update_self]

theorem stage_other (moves : Moves s next event place lockEvent) (isOther : event.executor ≠ f) :
    next.stage f = s.stage f := by
  rw [moves.stage, Function.update_of_ne isOther.symm]

theorem reachable (moves : Moves s next event place lockEvent)
    (reachable : RwlockState.Reachable (Job.set c.memo) s.locks) :
    RwlockState.Reachable (Job.set c.memo) next.locks := by
  have locks := moves.locks
  cases lockEvent with
  | none =>
      have same : next.locks = s.locks := locks
      rw [same]
      exact reachable
  | some _ => exact reachable.step locks

theorem control_other (moves : Moves s next event place lockEvent)
    (isOther : event.executor ≠ f) : next.locks.control f = s.locks.control f := by
  have locks := moves.locks
  cases lockEvent with
  | none =>
      have same : next.locks = s.locks := locks
      rw [same]
  | some step =>
      apply RwlockQueues.control_next locks
      rw [moves.goes.acts step rfl]
      exact isOther.symm

theorem control_of_bodies (moves : Moves s next event place lockEvent) {job : Job c.graph}
    (isExecuting : s.locks.control f = .executing job) (hasBodies : (s.stage f).bodies ≠ []) :
    next.locks.control f = .executing job := by
  have locks := moves.locks
  cases lockEvent with
  | none =>
      have same : next.locks = s.locks := locks
      rw [same]
      exact isExecuting
  | some step =>
      apply RwlockState.control_of_next locks isExecuting
      intro isExecute
      rw [isExecute] at moves
      have isOwn : f = event.executor := moves.goes.acts (.execute f) rfl
      rw [isOwn] at hasBodies
      exact hasBodies (moves.goes.returns rfl)

/-- The place of an executor agrees with what it does with its locks. -/
theorem agrees (moves : Moves s next event place lockEvent)
    (agrees : (s.stage event.executor).Agrees (s.locks.control event.executor)) :
    place.Agrees (next.locks.control event.executor) := by
  rcases moves with ⟨goes, _, locks⟩
  generalize isStage : s.stage event.executor = here at goes agrees
  generalize isControl : s.locks.control event.executor = control at goes agrees
  cases goes with
  | take e inst =>
      have same : next.locks = s.locks := locks
      rw [same, isControl]
      exact Or.inl agrees
  | exit e =>
      have same : next.locks = s.locks := locks
      rw [same, isControl]
      exact agrees
  | attempt e inst a rest => exact Or.inl ⟨0, RwlockState.control_of_start locks⟩
  | collect e inst => exact Or.inl ⟨0, RwlockState.control_of_start locks⟩
  | lock e =>
      rcases RwlockState.control_of_lock locks with ⟨job, ⟨pos, isLocking⟩, goesOn⟩
      rw [← isControl, show s.locks.control (ScheduleEvent.lock e).executor = _ from isLocking]
        at agrees
      cases place with
      | attempting inst a rest =>
          rcases agrees with ⟨_, same⟩ | impossible
          · injection same with isJob _
            rw [isJob] at goesOn
            exact goesOn
          · cases impossible
      | collecting inst =>
          rcases agrees with ⟨_, same⟩ | impossible
          · injection same with isJob _
            rw [isJob] at goesOn
            exact goesOn
          · cases impossible
      | _ => simp [RunStage.Agrees] at agrees
  | refuse e inst a rest =>
      rcases RwlockState.control_of_execute locks with ⟨job, isUnlocking⟩
      exact Or.inr ⟨job, 0, isUnlocking⟩
  | enable e inst a rest executed =>
      have same : next.locks = s.locks := locks
      rw [same, isControl]
      exact ⟨.action a, rfl⟩
  | perform e inst rest b bodies =>
      have same : next.locks = s.locks := locks
      rw [same, isControl]
      exact agrees
  | push e source rest inst targets bodies =>
      have same : next.locks = s.locks := locks
      rw [same, isControl]
      exact agrees
  | complete e inst rest =>
      rcases RwlockState.control_of_execute locks with ⟨job, isUnlocking⟩
      exact Or.inr ⟨job, 0, isUnlocking⟩
  | leave e inst =>
      rcases RwlockState.control_of_execute locks with ⟨job, isUnlocking⟩
      exact Or.inr ⟨job, 0, isUnlocking⟩
  | unlock e =>
      rcases RwlockState.control_of_unlock locks with ⟨⟨job, pos, isUnlocking⟩, goesOn⟩
      rw [← isControl, show s.locks.control (ScheduleEvent.unlock e).executor = _ from isUnlocking]
        at agrees
      cases place with
      | trying => exact goesOn
      | leaving => exact goesOn
      | _ => simp [RunStage.Agrees] at agrees
  | release e =>
      have same : next.locks = s.locks := locks
      rw [same]
      exact isControl

theorem bodies (moves : Moves s next event place lockEvent) (f : Fin executors) :
    (next.stage f).bodies = bodiesAfter (fun e => (s.stage e).bodies) event f := by
  by_cases isOther : event.executor = f
  · rw [← isOther, moves.stage_self]
    have goes := moves.goes
    generalize isStage : s.stage event.executor = here at goes
    generalize s.locks.control event.executor = control at goes
    have stays : here.bodies = (s.stage event.executor).bodies := by rw [isStage]
    cases goes with
    | enable e _ _ _ executed =>
        show executed.reverse = Function.update (fun e => (s.stage e).bodies) e executed.reverse e
        rw [Function.update_self]
    | perform e inst rest b bodies =>
        show bodies = Function.update (fun e => (s.stage e).bodies) e (s.stage e).bodies.tail e
        rw [Function.update_self, show (s.stage e).bodies = b :: bodies from stays.symm]
        rfl
    | _ => exact stays
  · rw [moves.stage_other isOther, bodiesAfter_other _ isOther]

theorem mem_remaining (moves : Moves s next event place lockEvent) {a : c.graph.NodeId}
    (remains : a ∈ (next.stage f).remaining) :
    a ∈ (s.stage f).remaining ∨ a ∈ c.graph.actions := by
  by_cases isOther : event.executor = f
  · rw [← isOther, moves.stage_self] at remains
    rw [← isOther]
    exact moves.goes.mem_remaining remains
  · rw [moves.stage_other isOther] at remains
    exact Or.inl remains

theorem of_evaluate {e : Fin executors} {a : c.graph.NodeId}
    {outcome : Option (List c.graph.NodeId)}
    (moves : Moves s next (.evaluate e a outcome) place lockEvent) :
    a ∈ (s.stage e).remaining ∧ (s.stage e).bodies = [] ∧
      s.locks.control e = .executing (.action a) ∧ (outcome ≠ none → next.locks = s.locks) := by
  rcases moves with ⟨goes, _, locks⟩
  change Goes c (s.stage e) (s.locks.control e) _ _ _ at goes
  generalize s.stage e = here at goes
  generalize s.locks.control e = control at goes
  cases goes with
  | refuse => exact ⟨List.mem_cons_self, rfl, rfl, fun isTrue => absurd rfl isTrue⟩
  | enable => exact ⟨List.mem_cons_self, rfl, rfl, fun _ => locks⟩

end Moves

end InstanceSchedule

end Rcgo.Scheduler
