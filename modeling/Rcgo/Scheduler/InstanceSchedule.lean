import Rcgo.Composition.DependentInstances
import Rcgo.Composition.Isolation
import Rcgo.Foundation.EventHistory
import Rcgo.Foundation.LinkedQueue
import Rcgo.Foundation.StampedCount

/-!
# The schedule of the instance scheduler

The executors take instances from a list that they share, try the actions of each and
put the instances on the list that an action may have enabled.  What is done under
`list_mutex_` is one step.
-/

namespace Rcgo.Scheduler

open Rcgo.Foundation Rcgo.Composition Rcgo.Composition.Graph

/-- Where an executor is in `run_i`. -/
inductive RunStage (g : Graph) where
  /-- before the schedule is looked at, also in `pthread_cond_wait` -/
  | waiting
  /-- at the head of the loop over the actions, of which these are left -/
  | trying (inst : InstanceId) (rest : List g.NodeId)
  /-- from `lock` to the result of the precondition -/
  | attempting (inst : InstanceId) (a : g.NodeId) (rest : List g.NodeId)
  /-- in the mutable phase, with the instances that are pushed next and the bodies that
  have not run -/
  | performing (inst : InstanceId) (rest : List g.NodeId) (targets : List InstanceId)
      (bodies : List g.NodeId)
  /-- in `collect_garbage`, or at the lock before -/
  | collecting (inst : InstanceId)
  | leaving
  | exited
  deriving DecidableEq

/-- What the executors do. -/
inductive ScheduleEvent (executors : Nat) (g : Graph) where
  /-- the first instance is taken from the schedule -/
  | take (e : Fin executors) (inst : InstanceId)
  | exit (e : Fin executors)
  /-- the call of `lock` for the next action or the garbage collection -/
  | start (e : Fin executors)
  | lock (e : Fin executors)
  /-- `enabled`, with the activations that the immutable phase executes if it is true -/
  | evaluate (e : Fin executors) (a : g.NodeId) (outcome : Option (List g.NodeId))
  /-- the body of an activation -/
  | perform (e : Fin executors) (b : g.NodeId)
  | push (e : Fin executors) (inst : InstanceId)
  /-- the call of `unlock` -/
  | finish (e : Fin executors)
  | unlock (e : Fin executors)
  | release (e : Fin executors)
  deriving DecidableEq

/-- The members of `instance_scheduler_t`, the locks of the instances and the executors. -/
structure InstanceSchedule (executors : Nat) (g : Graph) where
  schedule : LinkedQueue InstanceId
  pending : Nat
  locks : RwlockState (Fin executors) (Job g)
  stage : Fin executors → RunStage g

namespace InstanceSchedule

/-- `init` pushes all instances. -/
def initial (executors : Nat) (c : Composed) : InstanceSchedule executors c.graph where
  schedule := c.instances.foldl LinkedQueue.push LinkedQueue.empty
  pending := 0
  locks := RwlockState.initial
  stage _ := .waiting

variable {executors : Nat} {c : Composed}

def goesTo {g : Graph} (s : InstanceSchedule executors g) (e : Fin executors)
    (stage : RunStage g) : InstanceSchedule executors g :=
  { s with stage := Function.update s.stage e stage }

def locksAfter (s : InstanceSchedule executors c.graph)
    (event : RwlockState.Event (Fin executors) (Job c.graph)) :
    Option (InstanceSchedule executors c.graph) :=
  (RwlockState.next (Job.set c.memo) s.locks event).map fun locks => { s with locks := locks }

/-- The step of an executor, without a value when it is elsewhere or blocks. -/
def after (s : InstanceSchedule executors c.graph) :
    ScheduleEvent executors c.graph → Option (InstanceSchedule executors c.graph)
  | .take e inst =>
      if s.stage e = .waiting ∧ s.schedule.head = .item inst then
        some
          { s.goesTo e (.trying inst (c.actionsOf inst)) with
            schedule := s.schedule.pop inst
            pending := s.pending + 1 }
      else
        none
  | .exit e =>
      if s.stage e = .waiting ∧ s.schedule.head = .null ∧ s.pending = 0 then
        some (s.goesTo e .exited)
      else
        none
  | .start e =>
      match s.stage e with
      | .trying inst (a :: rest) =>
          (s.goesTo e (.attempting inst a rest)).locksAfter (.start e (.action a))
      | .trying inst [] => (s.goesTo e (.collecting inst)).locksAfter (.start e (.collectGarbage inst))
      | _ => none
  | .lock e => s.locksAfter (.lock e)
  | .evaluate e a outcome =>
      match s.stage e with
      | .attempting inst action rest =>
          if action = a ∧ s.locks.control e = .executing (.action a) then
            match outcome with
            | none => (s.goesTo e (.trying inst rest)).locksAfter (.execute e)
            -- the activation that was executed last has its body run first
            | some executed => some (s.goesTo e (.performing inst rest [] executed.reverse))
          else
            none
      | _ => none
  | .perform e b =>
      match s.stage e with
      | .performing inst rest [] (body :: bodies) =>
          if body = b then some (s.goesTo e (.performing inst rest (c.pushes b) bodies)) else none
      | _ => none
  | .push e inst =>
      match s.stage e with
      | .performing source rest (target :: targets) bodies =>
          if target = inst then
            some
              { s.goesTo e (.performing source rest targets bodies) with
                schedule := s.schedule.push inst }
          else
            none
      | _ => none
  | .finish e =>
      match s.stage e with
      | .performing inst rest [] [] => (s.goesTo e (.trying inst rest)).locksAfter (.execute e)
      | .collecting _ => (s.goesTo e .leaving).locksAfter (.execute e)
      | _ => none
  | .unlock e => s.locksAfter (.unlock e)
  | .release e =>
      if s.stage e = .leaving ∧ s.locks.control e = .idle then
        some { s.goesTo e .waiting with pending := s.pending - 1 }
      else
        none

def afterAll (s : InstanceSchedule executors c.graph)
    (events : List (ScheduleEvent executors c.graph)) :
    Option (InstanceSchedule executors c.graph) :=
  events.foldlM after s

/-- The schedule is empty and nobody is running: an executor that sees this exits. -/
def IsIdle {g : Graph} (s : InstanceSchedule executors g) : Prop :=
  s.schedule.head = .null ∧ s.pending = 0

end InstanceSchedule

namespace ScheduleEvent

variable {executors : Nat} {g : Graph}

/-- The activations of a transaction are those of a run of its action. -/
def IsPossible : ScheduleEvent executors g → Prop
  | .evaluate _ a (some executed) => Run [a] executed
  | _ => True

/-- How an event changes the list of scheduled instances. -/
def Changes : ScheduleEvent executors g → List InstanceId → List InstanceId → Prop
  | .take _ inst, queue, changed => queue = inst :: changed
  | .push _ inst, queue, changed => changed = if inst ∈ queue then queue else queue ++ [inst]
  | _, queue, changed => changed = queue

/-- The event runs a body that writes what the precondition of the action reads. -/
def Disturbs (a : g.NodeId) (event : ScheduleEvent executors g) : Prop :=
  ∃ e b inst, event = .perform e b ∧ BodyWrites b inst ∧ PreconditionReads a inst

def Refuses (a : g.NodeId) (event : ScheduleEvent executors g) : Prop :=
  ∃ e, event = .evaluate e a none

/-- The precondition was false, or the action was executed silently. -/
def Settles (a : g.NodeId) (event : ScheduleEvent executors g) : Prop :=
  ∃ e outcome, event = .evaluate e a outcome ∧ ∀ executed, outcome = some executed → IsSilent executed

end ScheduleEvent

end Rcgo.Scheduler
