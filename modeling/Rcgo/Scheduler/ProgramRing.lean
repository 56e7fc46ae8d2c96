import Rcgo.Scheduler.ExecutorStages

/-!
# Executors with a program

The tasks are actions on components.  `execute_i` looks at the components and changes them
while the task has all its locks, and its executor counts the result later.
-/

namespace Rcgo.Scheduler

/-- What the tasks do to the components, where `execute_i` has all locks. -/
structure Program (σ : Type) where
  precondition : Nat → σ → Bool
  action : Nat → σ → σ

/-- The executors with the components, and what `execute_i` has returned to those that
have not gone on since then. -/
structure ProgramRing (last : Nat) (σ : Type) where
  ring : ExecutorRing last
  components : σ
  results : Fin (last + 1) → Option Bool

/-- What happens to executors and components. -/
inductive ProgramEvent (last : Nat) where
  | executeI (e : Fin (last + 1))
  | ring (event : RingEvent last)
  deriving DecidableEq

namespace ProgramRing

variable {last : Nat} {σ : Type}

def initial (tasks : Fin (last + 1) → List Nat) (components : σ) : ProgramRing last σ where
  ring := ExecutorRing.initial tasks
  components := components
  results _ := none

/-- `execute_i` of a task in the hands of an executor. -/
def executeI (program : Program σ) (running : ProgramRing last σ) (e : Fin (last + 1))
    (task : Nat) : ProgramRing last σ :=
  let hit := program.precondition task running.components
  { running with
    components := if hit then program.action task running.components else running.components
    results := Function.update running.results e (some hit) }

/-- An executor goes on with what `execute_i` has returned, and no descriptors are checked. -/
def Agrees (running : ProgramRing last σ) : RingEvent last → Prop
  | .step e (.executed hit checked) => running.results e = some hit ∧ checked = []
  | .step e _ => running.results e = none
  | .grant _ _ => True

instance (running : ProgramRing last σ) : ∀ event, Decidable (running.Agrees event)
  | .step e (.executed hit checked) =>
      inferInstanceAs (Decidable (running.results e = some hit ∧ checked = []))
  | .step e .go => inferInstanceAs (Decidable (running.results e = none))
  | .step e .blocked => inferInstanceAs (Decidable (running.results e = none))
  | .step e .spurious => inferInstanceAs (Decidable (running.results e = none))
  | .step e .fileReady => inferInstanceAs (Decidable (running.results e = none))
  | .grant _ _ => .isTrue trivial

def resultsAfter (running : ProgramRing last σ) : RingEvent last → Fin (last + 1) → Option Bool
  | .step e _ => Function.update running.results e none
  | .grant _ _ => running.results

/-- The executors and components after an event. -/
def after (program : Program σ) (running : ProgramRing last σ) :
    ProgramEvent last → Option (ProgramRing last σ)
  | .executeI e =>
      match (running.ring e).inHand, running.results e with
      | [task], none => some (running.executeI program e task)
      | _, _ => none
  | .ring event =>
      if running.Agrees event then
        (running.ring.after event).map fun ring =>
          { running with ring := ring, results := running.resultsAfter event }
      else none

/-- The executors and components after a list of events. -/
def afterAll (program : Program σ) (running : ProgramRing last σ) :
    List (ProgramEvent last) → Option (ProgramRing last σ)
  | [] => some running
  | event :: events => do
      let running ← running.after program event
      running.afterAll program events

def IsQuiet (program : Program σ) (tasks : Fin (last + 1) → List Nat)
    (running : ProgramRing last σ) : Prop :=
  ∀ e, (∀ task ∈ tasks e, program.precondition task running.components = false) ∧
    (running.ring e).suspended = []

/-! ## Runs -/

/-- The executor resets the others if a task in its hands is executed, or each of the
others that has left `WAIT1` is reset anyway. -/
def IsNoticed (running : ProgramRing last σ) (e : Fin (last + 1)) : Prop :=
  ((running.ring e).state = .shootDown ∨ (running.ring e).state = .doubleCheck) ∨
    ∀ other, (running.ring other).state.phase = .late → running.ring.IsRecalled other

/-- Each action that is executed is noticed, and no executor enters `DOUBLE_CHECK` with a
skip that looks new, nor `WAIT2` with a task at a lock or with an old message on the ring. -/
def Allows (program : Program σ) (tasks : Fin (last + 1) → List Nat)
    (running : ProgramRing last σ) : ProgramEvent last → Prop
  | .executeI e =>
      (∃ task ∈ (running.ring e).inHand, program.precondition task running.components = true) →
        running.IsNoticed e
  | .ring (.step e _) =>
      running.ring.StartsAfresh e ∧ (running.ring e).WaitsAlone ∧
        Executor.BeginsAfresh (tasks e) (running.ring e)
  | .ring (.grant _ _) => True

instance (ring : ExecutorRing last) (e : Fin (last + 1)) : Decidable (ring.IsRecalled e) :=
  inferInstanceAs (Decidable (∃ _, ∃ _, _ ∧ ∃ _, _ ∧ ∀ _, _ → _))

instance (running : ProgramRing last σ) (e : Fin (last + 1)) : Decidable (running.IsNoticed e) :=
  inferInstanceAs (Decidable ((_ ∨ _) ∨ ∀ _, _ → running.ring.IsRecalled _))

instance (program : Program σ) (tasks : Fin (last + 1) → List Nat) (running : ProgramRing last σ) :
    ∀ event, Decidable (running.Allows program tasks event)
  | .executeI e => inferInstanceAs (Decidable ((∃ _ ∈ _, _) → running.IsNoticed e))
  | .ring (.step e _) =>
      inferInstanceAs (Decidable (running.ring.StartsAfresh e ∧ (_ → _ → _ → _ → _ ∧ _) ∧
        (_ → ∀ origin, (running.ring e).LeadsOn origin → ∀ _ ∈ _, _)))
  | .ring (.grant _ _) => .isTrue trivial

def AllowsAll (program : Program σ) (tasks : Fin (last + 1) → List Nat)
    (running : ProgramRing last σ) : List (ProgramEvent last) → Prop
  | [] => True
  | event :: events => running.Allows program tasks event ∧
      ∀ next ∈ running.after program event, AllowsAll program tasks next events

instance decidableAllowsAll (program : Program σ) (tasks : Fin (last + 1) → List Nat) :
    ∀ (running : ProgramRing last σ) (events : List (ProgramEvent last)),
      Decidable (running.AllowsAll program tasks events)
  | _, [] => .isTrue trivial
  | running, event :: events =>
      have : DecidablePred fun next : ProgramRing last σ => next.AllowsAll program tasks events :=
        fun next => decidableAllowsAll program tasks next events
      inferInstanceAs (Decidable (running.Allows program tasks event ∧
        ∀ next ∈ running.after program event, AllowsAll program tasks next events))

end ProgramRing

end Rcgo.Scheduler
