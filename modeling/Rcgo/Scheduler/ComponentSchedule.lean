import Rcgo.Composition.ComponentCode
import Rcgo.Scheduler.ScheduleSteps

/-!
# Transactions under the instance scheduler

The executors of the instance scheduler run transactions on the components while they
hold the locks of their instance sets.  Whatever the executors do at the same time, the
components end up as if the transactions had been executed one after another.
-/

namespace Rcgo.Scheduler

open Rcgo.Foundation Rcgo.Composition Rcgo.Composition.Graph

/-- The instance scheduler with the states of the components and the bodies that the
executors have deferred. -/
structure ComponentSchedule (executors : Nat) (c : Composed) (κ : Type) where
  scheduler : InstanceSchedule executors c.graph
  components : InstanceId → κ
  bodies : Fin executors → List (KeptBody c.graph κ)

namespace ComponentSchedule

variable {executors : Nat} {c : Composed} {κ : Type}

def initial (executors : Nat) (c : Composed) (components : InstanceId → κ) :
    ComponentSchedule executors c κ where
  scheduler := InstanceSchedule.initial executors c
  components := components
  bodies _ := []

/-- The step of an executor: a precondition is evaluated on the components, and a body
changes them. -/
def after (code : ComponentCode c κ) (s : ComponentSchedule executors c κ)
    (event : ScheduleEvent executors c.graph) : Option (ComponentSchedule executors c κ) := do
  let scheduler ← s.scheduler.after event
  match event with
  | .evaluate e a outcome =>
      if outcome = code.outcome a s.components then
        some
          { s with
            scheduler := scheduler
            bodies := Function.update s.bodies e
              (ComponentCode.deferred (code.decision a s.components)) }
      else
        none
  | .perform e b =>
      match s.bodies e with
      | body :: rest =>
          if body.node = b then
            some
              { scheduler := scheduler
                components := body.val.run s.components
                bodies := Function.update s.bodies e rest }
          else
            none
      | [] => none
  | _ => some { s with scheduler := scheduler }

def afterAll (code : ComponentCode c κ) (s : ComponentSchedule executors c κ)
    (events : List (ScheduleEvent executors c.graph)) : Option (ComponentSchedule executors c κ) :=
  events.foldlM (after code) s

end ComponentSchedule

/-! ## Serializability -/

namespace ComponentSchedule

variable {executors : Nat} {c : Composed} {κ : Type} {code : ComponentCode c κ}
  {s next : ComponentSchedule executors c κ}

/-- What an event does to the components and the deferred bodies. -/
inductive ComponentMove (code : ComponentCode c κ) (s next : ComponentSchedule executors c κ) :
    ScheduleEvent executors c.graph → Prop where
  | evaluate (e : Fin executors) (a : c.graph.NodeId) (components : next.components = s.components)
      (bodies : next.bodies = Function.update s.bodies e
        (ComponentCode.deferred (code.decision a s.components))) :
      ComponentMove code s next (.evaluate e a (code.outcome a s.components))
  | perform (e : Fin executors) (body : KeptBody c.graph κ) (rest : List (KeptBody c.graph κ))
      (isPending : s.bodies e = body :: rest)
      (components : next.components = body.val.run s.components)
      (bodies : next.bodies = Function.update s.bodies e rest) :
      ComponentMove code s next (.perform e body.node)
  | keeps (event : ScheduleEvent executors c.graph) (components : next.components = s.components)
      (bodies : next.bodies = s.bodies) (notEvaluated : event.evaluation = none)
      (bodiesAfter : ∀ stages, InstanceSchedule.bodiesAfter stages event = stages) :
      ComponentMove code s next event

theorem move_of_after {event : ScheduleEvent executors c.graph}
    (taken : s.after code event = some next) :
    s.scheduler.after event = some next.scheduler ∧ ComponentMove code s next event := by
  unfold after at taken
  rcases Option.bind_eq_some_iff.mp taken with ⟨scheduler, scheduled, taken⟩
  cases event with
  | evaluate e a outcome =>
      rw [Option.ite_none_right_eq_some, Option.some.injEq] at taken
      rcases taken with ⟨rfl, rfl⟩
      exact ⟨scheduled, .evaluate e a rfl rfl⟩
  | perform e b =>
      dsimp only at taken
      split at taken
      · next body rest isPending =>
        rw [Option.ite_none_right_eq_some, Option.some.injEq] at taken
        rcases taken with ⟨rfl, rfl⟩
        exact ⟨scheduled, .perform e body rest isPending rfl rfl⟩
      · cases taken
  | _ =>
      rw [Option.some.injEq] at taken
      rw [← taken]
      exact ⟨scheduled, .keeps _ rfl rfl rfl fun _ => rfl⟩

/-- The executors hold the locks for the bodies that they have deferred. -/
structure Guarded (s : ComponentSchedule executors c κ) : Prop where
  reachable : RwlockState.Reachable (Job.set c.memo) s.scheduler.locks
  actions : ∀ e, ∀ a ∈ (s.scheduler.stage e).remaining, a ∈ c.graph.actions
  agrees : ∀ e, (s.scheduler.stage e).bodies = (s.bodies e).map KeptBody.node
  covered : ∀ e, s.bodies e ≠ [] → ∃ a ∈ c.graph.actions,
    s.scheduler.locks.control e = .executing (.action a) ∧
      ∀ body ∈ s.bodies e, ∀ inst, BodyWrites body.node inst → Accesses a inst .accessWrite

namespace Guarded

theorem bodies_ne_nil (guarded : s.Guarded) {e : Fin executors} (hasBodies : s.bodies e ≠ []) :
    (s.scheduler.stage e).bodies ≠ [] := by
  rw [guarded.agrees e]
  exact fun isEmpty => hasBodies (List.map_eq_nil_iff.mp isEmpty)

theorem covered_of_subset (guarded : s.Guarded)
    {event : ScheduleEvent executors c.graph}
    {place : RunStage c.graph}
    {lockEvent : Option (RwlockState.Event (Fin executors) (Job c.graph))}
    (moves : InstanceSchedule.Moves s.scheduler next.scheduler event place lockEvent)
    {f : Fin executors}
    (subset : next.bodies f ⊆ s.bodies f) (hasBodies : next.bodies f ≠ []) :
    ∃ a ∈ c.graph.actions, next.scheduler.locks.control f = .executing (.action a) ∧
      ∀ body ∈ next.bodies f, ∀ inst, BodyWrites body.node inst → Accesses a inst .accessWrite := by
  have hadBodies : s.bodies f ≠ [] := by
    intro isEmpty
    rw [isEmpty] at subset
    exact hasBodies (List.subset_nil.mp subset)
  rcases guarded.covered f hadBodies with ⟨a, isAction, isExecuting, writes⟩
  refine ⟨a, isAction, moves.control_of_bodies isExecuting (guarded.bodies_ne_nil hadBodies), ?_⟩
  exact fun body isBody => writes body (subset isBody)

theorem agrees_of_after {event : ScheduleEvent executors c.graph} (guarded : s.Guarded)
    (scheduled : s.scheduler.after event = some next.scheduler)
    (move : ComponentMove code s next event) (f : Fin executors) :
    (next.scheduler.stage f).bodies = (next.bodies f).map KeptBody.node := by
  have same : (fun e => (s.scheduler.stage e).bodies) = fun e => (s.bodies e).map KeptBody.node :=
    funext guarded.agrees
  rcases InstanceSchedule.exists_moves_of_after scheduled with ⟨place, lockEvent, moves⟩
  rw [moves.bodies, same]
  cases move with
  | evaluate e a _ bodies =>
      have isFree := moves.of_evaluate.2.1
      rw [bodies, ComponentCode.outcome]
      cases isDecision : code.decision a s.components with
      | none =>
          show (s.bodies f).map KeptBody.node = _
          by_cases isHere : f = e
          · rw [guarded.agrees e] at isFree
            rw [isHere, isFree, Function.update_self]
            rfl
          · rw [Function.update_of_ne isHere]
      | some executed =>
          show Function.update (fun e => (s.bodies e).map KeptBody.node) e
            (executed.map KeptBody.node).reverse f = _
          by_cases isHere : f = e
          · rw [isHere, Function.update_self, Function.update_self, ← List.map_reverse]
            rfl
          · rw [Function.update_of_ne isHere, Function.update_of_ne isHere]
  | perform e body rest isPending _ bodies =>
      rw [bodies]
      show Function.update (fun e => (s.bodies e).map KeptBody.node) e
        ((s.bodies e).map KeptBody.node).tail f = _
      by_cases isHere : f = e
      · rw [isHere, Function.update_self, Function.update_self, isPending]
        rfl
      · rw [Function.update_of_ne isHere, Function.update_of_ne isHere]
  | keeps _ _ bodies _ bodiesAfter => rw [bodiesAfter, bodies]

theorem move {event : ScheduleEvent executors c.graph} (guarded : s.Guarded)
    (scheduled : s.scheduler.after event = some next.scheduler)
    (move : ComponentMove code s next event) : next.Guarded := by
  rcases InstanceSchedule.exists_moves_of_after scheduled with ⟨place, lockEvent, moves⟩
  refine ⟨moves.reachable guarded.reachable, ?_, guarded.agrees_of_after scheduled move, ?_⟩
  · intro f a remains
    rcases moves.mem_remaining remains with earlier | isAction
    · exact guarded.actions f a earlier
    · exact isAction
  · intro f hasBodies
    have kept := guarded.covered_of_subset moves (f := f)
    cases move with
    | evaluate e a _ bodies =>
        by_cases isHere : f = e
        · rcases moves.of_evaluate with ⟨remains, _, isExecuting, keepsLocks⟩
          have isAction := guarded.actions e a remains
          rw [isHere, bodies, Function.update_self] at hasBodies ⊢
          refine ⟨a, isAction, ?_, fun body isBody inst => code.accesses_of_deferred isAction isBody⟩
          rw [keepsLocks, isExecuting]
          intro isRefused
          unfold ComponentCode.outcome at isRefused
          rw [Option.map_eq_none_iff.mp isRefused] at hasBodies
          exact hasBodies rfl
        · apply kept _ hasBodies
          rw [bodies, Function.update_of_ne isHere]
          exact List.Subset.refl _
    | perform e body rest isPending _ bodies =>
        apply kept _ hasBodies
        rw [bodies]
        by_cases isHere : f = e
        · rw [isHere, Function.update_self, isPending]
          exact List.subset_cons_self body rest
        · rw [Function.update_of_ne isHere]
          exact List.Subset.refl _
    | keeps _ _ bodies _ _ =>
        apply kept _ hasBodies
        rw [bodies]
        exact List.Subset.refl _

end Guarded

/-- The updates of the components that the executors have deferred. -/
def pending (s : ComponentSchedule executors c κ) (e : Fin executors) :
    List (LocalUpdate InstanceId κ) :=
  (s.bodies e).map KeptBody.update

theorem touches_map_update {bodies : List (KeptBody c.graph κ)} {inst : InstanceId}
    (touches : LocalUpdate.Touches (bodies.map KeptBody.update) inst) :
    ∃ body ∈ bodies, BodyWrites body.node inst := by
  rcases touches with ⟨update, isUpdate, inScope⟩
  rcases List.mem_map.mp isUpdate with ⟨body, isBody, rfl⟩
  exact ⟨body, isBody, inScope⟩

/-- While an executor is in the transaction of an action, no other executor has deferred a
body that writes what the action accesses. -/
theorem Guarded.exclusive (guarded : s.Guarded) {e f : Fin executors} {a : c.graph.NodeId}
    (isAction : a ∈ c.graph.actions)
    (isExecuting : s.scheduler.locks.control e = .executing (.action a)) (different : f ≠ e)
    {inst : InstanceId} (reads : ReadsInstance a inst) :
    ¬LocalUpdate.Touches (s.pending f) inst := by
  intro touches
  rcases touches_map_update touches with ⟨body, isBody, writes⟩
  rcases guarded.covered f (List.ne_nil_of_mem isBody) with
    ⟨other, isOther, isExecutingToo, covered⟩
  rcases reads with ⟨access, isRead, accesses⟩
  have coversRead := (c.accepted_memo.covers isAction accesses).mono isRead
  have coversWrite := c.accepted_memo.covers isOther (covered body isBody inst writes)
  exact RwlockState.isolated guarded.reachable different.symm isExecuting isExecutingToo
    ⟨inst, Or.inr ⟨coversRead, coversWrite⟩⟩

theorem ComponentMove.components_of_not_writes {event : ScheduleEvent executors c.graph}
    (move : ComponentMove code s next event) {inst : InstanceId}
    (notWritten : ∀ e b, event = .perform e b → ¬BodyWrites b inst) :
    next.components inst = s.components inst := by
  cases move with
  | evaluate _ _ components => rw [components]
  | perform e body rest _ components _ =>
      rw [components]
      exact body.property.frame s.components inst (notWritten e body.node rfl)
  | keeps _ components => rw [components]

/-- What holds after each run: the transactions that have begun could have been executed
one after another. -/
structure Serializes (code : ComponentCode c κ) (start : InstanceId → κ)
    (events : List (ScheduleEvent executors c.graph)) (s : ComponentSchedule executors c κ) :
    Prop where
  guarded : s.Guarded
  linearized : ∃ history, code.transactions.Linearized start history s.pending s.components ∧
    (history.map fun entry =>
      (entry.1.val, entry.2.map fun bodies => bodies.map KeptBody.node)) =
        events.filterMap ScheduleEvent.evaluation

theorem Serializes.move {start : InstanceId → κ} {past : List (ScheduleEvent executors c.graph)}
    {event : ScheduleEvent executors c.graph} (serializes : Serializes code start past s)
    (scheduled : s.scheduler.after event = some next.scheduler)
    (move : ComponentMove code s next event) :
    Serializes code start (past ++ [event]) next := by
  refine ⟨serializes.guarded.move scheduled move, ?_⟩
  rcases serializes.linearized with ⟨history, linearized, isHistory⟩
  rw [List.filterMap_append, ← isHistory]
  cases move with
  | evaluate e a components bodies =>
      rcases InstanceSchedule.exists_moves_of_after scheduled with ⟨place, lockEvent, moves⟩
      rcases moves.of_evaluate with ⟨remains, isFree, isExecuting, _⟩
      have isAction := serializes.guarded.actions e a remains
      have isPending : next.pending = Function.update s.pending e
          ((ComponentCode.deferred (code.decision a s.components)).map KeptBody.update) := by
        funext f
        rw [pending, bodies]
        by_cases isHere : f = e
        · rw [isHere, Function.update_self, Function.update_self]
        · rw [Function.update_of_ne isHere, Function.update_of_ne isHere]
          rfl
      have noPending : s.pending e = [] := by
        rw [serializes.guarded.agrees e] at isFree
        rw [pending, List.map_eq_nil_iff.mp isFree]
        rfl
      refine ⟨history ++ [(⟨a, isAction⟩, code.decision a s.components)], ?_, ?_⟩
      · rw [components, isPending]
        apply linearized.decide ⟨a, isAction⟩ noPending
        · exact fun f inst different reads =>
            serializes.guarded.exclusive isAction isExecuting different reads
        · intro f inst different touches
          rcases touches_map_update touches with ⟨body, isBody, writes⟩
          apply serializes.guarded.exclusive isAction isExecuting different
          exact ⟨_, by decide, code.accesses_of_deferred isAction isBody writes⟩
      · rw [List.map_append]
        rfl
  | perform e body rest isPending components bodies =>
      refine ⟨history, ?_, (List.append_nil _).symm⟩
      have isNext : next.pending = Function.update s.pending e (rest.map KeptBody.update) := by
        funext f
        rw [pending, bodies]
        by_cases isHere : f = e
        · rw [isHere, Function.update_self, Function.update_self]
        · rw [Function.update_of_ne isHere, Function.update_of_ne isHere]
          rfl
      rw [components, isNext]
      have isFirst : s.pending e = body.update :: rest.map KeptBody.update := by
        rw [pending, isPending]
        rfl
      exact linearized.perform isFirst
  | keeps event components bodies notEvaluated _ =>
      refine ⟨history, ?_, ?_⟩
      · have isPending : next.pending = s.pending := by
          funext f
          rw [pending, pending, bodies]
        rw [components, isPending]
        exact linearized
      · rw [List.filterMap_cons_none notEvaluated, List.filterMap_nil, List.append_nil]

theorem serializes_initial (code : ComponentCode c κ) (start : InstanceId → κ) :
    Serializes code start [] (initial executors c start) where
  guarded := ⟨.initial, fun _ _ => nofun, fun _ => rfl, fun _ hasBodies => absurd rfl hasBodies⟩
  linearized := ⟨[], .initial start, rfl⟩

theorem serializes {start : InstanceId → κ} {events : List (ScheduleEvent executors c.graph)}
    (runs : (initial executors c start).afterAll code events = some s) :
    Serializes code start events s :=
  history_invariant (Serializes code start) (fun _ => True)
    (fun _ _ _ _ serializes _ taken =>
      serializes.move (move_of_after taken).1 (move_of_after taken).2)
    (serializes_initial code start) (fun _ _ => trivial) runs

theorem ComponentMove.touches_of_perform {event : ScheduleEvent executors c.graph}
    (move : ComponentMove code s next event) {e : Fin executors} {b : c.graph.NodeId}
    (isPerform : event = .perform e b) {inst : InstanceId} (writes : BodyWrites b inst) :
    LocalUpdate.Touches (s.pending e) inst := by
  cases move with
  | evaluate => cases isPerform
  | perform f body rest isPending =>
      injection isPerform with sameExecutor sameNode
      rw [← sameExecutor, pending, isPending]
      rw [← sameNode] at writes
      exact ⟨body.update, List.mem_cons_self, writes⟩
  | keeps _ _ _ _ bodiesAfter =>
      rw [isPerform] at bodiesAfter
      have isShorter := congrFun (bodiesAfter fun _ => [b]) e
      rw [InstanceSchedule.bodiesAfter, Function.update_self] at isShorter
      cases isShorter

theorem Guarded.undisturbed (guarded : s.Guarded) {e : Fin executors} {a : c.graph.NodeId}
    (isAction : a ∈ c.graph.actions)
    (isExecuting : s.scheduler.locks.control e = .executing (.action a))
    {event : ScheduleEvent executors c.graph} (isOther : event.executor ≠ e)
    (move : ComponentMove code s next event) {inst : InstanceId} (reads : ReadsInstance a inst) :
    next.components inst = s.components inst := by
  apply move.components_of_not_writes
  intro f b isPerform writes
  have different : f ≠ e := by
    rw [isPerform] at isOther
    exact isOther
  exact guarded.exclusive isAction isExecuting different reads
    (move.touches_of_perform isPerform writes)

/-- Transactions are isolated: whatever the other executors do while an executor has the
locks of an action, the components that the transaction of the action reads or writes stay
as they are, and so do the truth of its precondition and what its immutable phase executes. -/
theorem transactions_isolated {start : InstanceId → κ} {events : List (ScheduleEvent executors c.graph)}
    (runs : (initial executors c start).afterAll code events = some s) {e : Fin executors}
    {a : c.graph.NodeId} (isAction : a ∈ c.graph.actions)
    (isExecuting : s.scheduler.locks.control e = .executing (.action a))
    {others : List (ScheduleEvent executors c.graph)} (areOthers : ∀ event ∈ others, event.executor ≠ e)
    (goesOn : s.afterAll code others = some next) :
    (∀ inst, ReadsInstance a inst → next.components inst = s.components inst) ∧
      code.decision a next.components = code.decision a s.components ∧
      next.scheduler.locks.control e = .executing (.action a) := by
  have keeps : next.Guarded ∧ next.scheduler.locks.control e = .executing (.action a) ∧
      ∀ inst, ReadsInstance a inst → next.components inst = s.components inst := by
    refine history_invariant
      (fun (_ : List (ScheduleEvent executors c.graph)) (t : ComponentSchedule executors c κ) =>
        t.Guarded ∧ t.scheduler.locks.control e = .executing (.action a) ∧
          ∀ inst, ReadsInstance a inst → t.components inst = s.components inst)
      (fun event => event.executor ≠ e) ?_
      ⟨(serializes runs).guarded, isExecuting, fun _ _ => rfl⟩ areOthers goesOn
    intro _ event t after invariant isOther taken
    rcases invariant with ⟨guarded, isStillExecuting, same⟩
    rcases move_of_after taken with ⟨scheduled, move⟩
    refine ⟨guarded.move scheduled move, ?_, ?_⟩
    · rcases InstanceSchedule.exists_moves_of_after scheduled with ⟨place, lockEvent, moves⟩
      rw [moves.control_other isOther]
      exact isStillExecuting
    · intro inst reads
      rw [guarded.undisturbed isAction isStillExecuting isOther move reads]
      exact same inst reads
  exact ⟨keeps.2.2, code.transactions.footprint ⟨a, isAction⟩ _ _ keeps.2.2, keeps.2.1⟩

/-- Transactions under the instance scheduler are serializable: after each run of the
executors, the transactions of which the preconditions have been evaluated, executed one
after another in the order of these evaluations, have the same outcomes, and they lead to
the same state of every component that no deferred body is going to write. -/
theorem serializable {start : InstanceId → κ} {events : List (ScheduleEvent executors c.graph)}
    (runs : (initial executors c start).afterAll code events = some s) :
    ∃ serial, code.Serial start (events.filterMap ScheduleEvent.evaluation) serial ∧
      ∀ inst, (∀ e, ∀ body ∈ s.bodies e, ¬BodyWrites body.node inst) →
        s.components inst = serial inst := by
  rcases (serializes runs).linearized with ⟨history, linearized, isHistory⟩
  rcases linearized.serial with ⟨serial, isSerial, ahead⟩
  refine ⟨serial, ?_, ?_⟩
  · rw [← isHistory]
    exact code.serial_of_serial isSerial
  · intro inst notWritten
    refine (ahead.free inst ?_).symm
    intro e touches
    rcases touches_map_update touches with ⟨body, isBody, writes⟩
    exact notWritten e body isBody writes

/-! ## The counter and its observer -/

open InstanceSchedule (observer observed observes)


/-- The body of the counter. -/
def countOn : KeptBody observed.graph Nat where
  val := ⟨InstanceSchedule.countingBody, fun state => Function.update state 0 (state 0 + 1)⟩
  property := by
    have writes : BodyWrites (g := observer) (1 : Fin 6) 0 := rfl
    constructor
    · intro state inst keeps
      apply Function.update_of_ne
      intro isCounter
      exact keeps (isCounter ▸ writes)
    · intro state other inst isWritten same
      have isCounter : inst = 0 := (NodeKind.activation.inj isWritten).1.symm
      rw [isCounter] at same
      show Function.update state 0 (state 0 + 1) inst = Function.update other 0 (other 0 + 1) inst
      rw [isCounter, Function.update_self, Function.update_self, same]

/-- The body of the observer leaves everything as it is. -/
def lookOn : KeptBody observed.graph Nat where
  val := ⟨InstanceSchedule.lookingBody, id⟩
  property := ⟨fun _ _ _ => rfl, fun _ _ _ _ same => same⟩

/-- The counter counts to one, and the observer acts when it has. -/
def countsOnce : ComponentCode observed Nat where
  precondition a state :=
    match a.val with
    | 0 => state 0 = 0
    | 2 => state 0 = 1
    | _ => false
  immutablePhase a _ :=
    match a.val with
    | 0 => [countOn]
    | _ => [lookOn]
  called := by
    show ∀ a ∈ observer.actions, ∀ n ∈ observer.preconditionNodes a, n ∈ observer.outgoing a
    decide
  executes a isAction state isEnabled := by
    have isEither : a = (0 : Fin 6) ∨ a = (2 : Fin 6) := by
      rcases List.mem_cons.mp isAction with isCounter | isOther
      · exact Or.inl isCounter
      · exact Or.inr (List.mem_singleton.mp isOther)
    rcases isEither with rfl | rfl
    · exact InstanceSchedule.run_activates (a := (0 : Fin 6)) (b := (1 : Fin 6))
        List.mem_cons_self rfl rfl
    · exact InstanceSchedule.run_activates (a := (2 : Fin 6)) (b := (3 : Fin 6))
        (List.mem_cons_of_mem _ List.mem_cons_self) rfl rfl
  preconditionReads a state other same := by
    have observes : PreconditionAccesses (g := observer) (2 : Fin 6) 0 :=
      Or.inr ⟨(4 : Fin 6), List.mem_cons_self, .accessRead, by decide, (5 : Fin 6),
        Relation.ReflTransGen.single List.mem_cons_self, List.mem_cons_self⟩
    match a with
    | (0 : Fin 6) =>
        have sameCount := same 0 (Or.inl ⟨.accessRead, .accessNone, rfl, by decide⟩)
        exact congrArg (fun count => decide (count = 0)) sameCount
    | (2 : Fin 6) => exact congrArg (fun count => decide (count = 1)) (same 0 observes)
    | (1 : Fin 6) => rfl
    | (3 : Fin 6) => rfl
    | (4 : Fin 6) => rfl
    | (5 : Fin 6) => rfl
  immutablePhaseReads a state other same := rfl

/-- The observer sees that the counter has counted, and all bodies have run. -/
theorem serializable_counts : ∃ s,
    (initial 2 observed (fun _ => 0)).afterAll countsOnce (observes 0 1) = some s ∧
    ∃ serial, countsOnce.Serial (fun _ => 0)
        [((0 : Fin 6), some [(1 : Fin 6)]), ((2 : Fin 6), some [(3 : Fin 6)]), ((0 : Fin 6), none)]
        serial ∧
      s.components 0 = serial 0 := by
  have isEnd : ((initial 2 observed (fun _ => 0)).afterAll countsOnce (observes 0 1)).map
      (fun s => (s.bodies 0).isEmpty && (s.bodies 1).isEmpty) = some true := by
    decide +kernel
  rcases Option.map_eq_some_iff.mp isEnd with ⟨s, runs, areDone⟩
  rw [Bool.and_eq_true, List.isEmpty_iff, List.isEmpty_iff] at areDone
  rcases serializable runs with ⟨serial, isSerial, same⟩
  refine ⟨s, runs, serial, isSerial, same 0 ?_⟩
  intro e body isBody
  match e with
  | 0 =>
      rw [areDone.1] at isBody
      exact absurd isBody List.not_mem_nil
  | 1 =>
      rw [areDone.2] at isBody
      exact absurd isBody List.not_mem_nil


/-- The observer is taken while the counter counts. -/
theorem transactions_isolated_counts : ∃ s next : ComponentSchedule 2 observed Nat,
    s.scheduler.locks.control 0 = .executing (.action (0 : Fin 6)) ∧
      s.afterAll countsOnce [.take 1 1, .start 1] = some next ∧
      next.components 0 = s.components 0 ∧
      countsOnce.decision (0 : Fin 6) next.components =
        countsOnce.decision (0 : Fin 6) s.components := by
  have isReady : (((initial 2 observed (fun _ => 0)).afterAll countsOnce
      [.take 0 0, .start 0, .lock 0, .lock 0]).bind fun s =>
        (s.afterAll countsOnce [.take 1 1, .start 1]).map fun _ => s.scheduler.locks.control 0) =
      some (.executing (.action (0 : Fin 6))) := by
    decide +kernel
  rcases Option.bind_eq_some_iff.mp isReady with ⟨s, runs, goesOn⟩
  rcases Option.map_eq_some_iff.mp goesOn with ⟨next, goesOn, isExecuting⟩
  have reads : ReadsInstance (g := observer) (0 : Fin 6) 0 :=
    ⟨.accessRead, by decide, (0 : Fin 6), Relation.ReflTransGen.refl, List.mem_cons_self⟩
  have areOthers : ∀ event ∈ ([.take 1 1, .start 1] : List (ScheduleEvent 2 observer)),
      event.executor ≠ 0 := by
    decide
  rcases transactions_isolated runs (a := (0 : Fin 6)) List.mem_cons_self isExecuting areOthers goesOn with
    ⟨same, sameDecision, _⟩
  exact ⟨s, next, isExecuting, goesOn, same 0 reads, sameDecision⟩

end ComponentSchedule

end Rcgo.Scheduler
