import Rcgo.Scheduler.ComponentSchedule

/-!
# Quiescence

The executors exit when the schedule is empty and nobody is running.  Then no action is
left whose precondition is true, except those that were executed without any effect.
-/

namespace Rcgo.Scheduler

open Rcgo.Foundation Rcgo.Composition Rcgo.Composition.Graph

/-- The action was executed, without a write and without a call of a push port. -/
def ScheduleEvent.ExecutesSilently {executors : Nat} {g : Graph} (a : g.NodeId)
    (event : ScheduleEvent executors g) : Prop :=
  ∃ e executed, event = .evaluate e a (some executed) ∧ IsSilent executed

namespace ComponentSchedule

variable {executors : Nat} {c : Composed} {κ : Type} {code : ComponentCode c κ}
  {s next : ComponentSchedule executors c κ} {event : ScheduleEvent executors c.graph}

theorem Guarded.isPossible (guarded : s.Guarded)
    (scheduled : s.scheduler.after event = some next.scheduler)
    (move : ComponentMove code s next event) : event.IsPossible := by
  cases move with
  | evaluate e a components bodies =>
      rcases InstanceSchedule.exists_moves_of_after scheduled with ⟨place, lockEvent, moves⟩
      have isAction := guarded.actions e a moves.of_evaluate.1
      unfold ComponentCode.outcome ComponentCode.decision
      split
      · next isEnabled => exact code.executes a isAction s.components isEnabled
      · trivial
  | perform => trivial
  | keeps event _ _ notEvaluated =>
      cases event with
      | evaluate => cases notEvaluated
      | _ => trivial

theorem ComponentMove.precondition (move : ComponentMove code s next event)
    {a : c.graph.NodeId} (notDisturbed : ¬event.Disturbs a) :
    code.precondition a next.components = code.precondition a s.components := by
  apply code.preconditionReads
  intro inst accesses
  apply move.components_of_not_writes
  intro e b isPerform writes
  exact notDisturbed ⟨e, b, inst, isPerform, writes, accesses.preconditionReads⟩

theorem ComponentMove.executesSilently (move : ComponentMove code s next event)
    {a : c.graph.NodeId} (settles : event.Settles a)
    (isEnabled : code.precondition a next.components = true) : event.ExecutesSilently a := by
  rcases settles with ⟨e, outcome, rfl, isSilent⟩
  cases move with
  | evaluate _ _ components _ =>
      rw [components] at isEnabled
      refine ⟨e, (code.immutablePhase a s.components).map KeptBody.node, ?_, ?_⟩
      · rw [ComponentCode.outcome, ComponentCode.decision, if_pos isEnabled]
        rfl
      · apply isSilent
        rw [ComponentCode.outcome, ComponentCode.decision, if_pos isEnabled]
        rfl
  | keeps _ _ _ notEvaluated => cases notEvaluated

/-- What holds after each run: an action that has been settled and not disturbed has a
false precondition, or has been executed without effect. -/
structure Quiets (code : ComponentCode c κ) (events : List (ScheduleEvent executors c.graph))
    (s : ComponentSchedule executors c κ) : Prop where
  guarded : s.Guarded
  sound : ∃ queue, InstanceSchedule.Sound events queue s.scheduler
  settled : ∀ a ∈ c.graph.actions,
    Since (ScheduleEvent.Settles a) (ScheduleEvent.Disturbs a) events →
      code.precondition a s.components = true →
        Since (ScheduleEvent.ExecutesSilently a) (ScheduleEvent.Disturbs a) events

theorem Quiets.move {past : List (ScheduleEvent executors c.graph)}
    (quiets : Quiets code past s) (scheduled : s.scheduler.after event = some next.scheduler)
    (move : ComponentMove code s next event) : Quiets code (past ++ [event]) next := by
  refine ⟨quiets.guarded.move scheduled move, ?_, ?_⟩
  · rcases quiets.sound with ⟨queue, sound⟩
    have isPossible := quiets.guarded.isPossible scheduled move
    rcases sound.move isPossible (InstanceSchedule.move_of_after scheduled) with
      ⟨changed, _, sound⟩
    exact ⟨changed, sound⟩
  · intro a isAction since isEnabled
    rcases since.of_append_singleton with settles | ⟨since, notDisturbed⟩
    · exact Since.last (move.executesSilently settles isEnabled)
    · rw [move.precondition notDisturbed] at isEnabled
      exact (quiets.settled a isAction since isEnabled).append_singleton notDisturbed

theorem quiets {start : InstanceId → κ} {events : List (ScheduleEvent executors c.graph)}
    (runs : (initial executors c start).afterAll code events = some s) :
    Quiets code events s :=
  history_invariant (Quiets code) (fun _ => True)
    (fun _ _ _ _ quiets _ taken => quiets.move (move_of_after taken).1 (move_of_after taken).2)
    ⟨(serializes_initial code start).guarded, InstanceSchedule.exists_sound_initial executors c,
      fun _ _ since => absurd since Since.not_nil⟩
    (fun _ _ => trivial) runs

/-- When the executors stop, every precondition is false in the components that they leave,
except that of an action which was executed without a write and without a call of a push
port after the last write to what its precondition reads. -/
theorem disabled_of_exited {start : InstanceId → κ}
    {events : List (ScheduleEvent executors c.graph)}
    (runs : (initial executors c start).afterAll code events = some s) {e : Fin executors}
    (isExited : s.scheduler.stage e = .exited) :
    ∀ a ∈ c.graph.actions, code.precondition a s.components = true →
      Since (ScheduleEvent.ExecutesSilently a) (ScheduleEvent.Disturbs a) events := by
  intro a isAction isEnabled
  have quiets := quiets runs
  rcases quiets.sound with ⟨queue, sound⟩
  have isIdle := sound.exits e isExited
  have since := (sound.covers a isAction).resolve_right (sound.not_awaits isIdle a)
  exact quiets.settled a isAction since isEnabled

/-- The precondition of the observer is true at the end. -/
theorem disabled_of_exited_counts : ∃ s,
    (initial 2 InstanceSchedule.observed (fun _ => 0)).afterAll countsOnce
      (InstanceSchedule.observes 0 1) = some s ∧
    countsOnce.precondition (2 : Fin 6) s.components = true ∧
    Since (ScheduleEvent.ExecutesSilently (2 : Fin 6)) (ScheduleEvent.Disturbs (2 : Fin 6))
      (InstanceSchedule.observes 0 1 : List (ScheduleEvent 2 InstanceSchedule.observer)) := by
  have isEnd : ((initial 2 InstanceSchedule.observed (fun _ => 0)).afterAll countsOnce
      (InstanceSchedule.observes 0 1)).map
        (fun s => (s.scheduler.stage 0, countsOnce.precondition (2 : Fin 6) s.components)) =
      some (.exited, true) := by
    decide +kernel
  rcases Option.map_eq_some_iff.mp isEnd with ⟨s, runs, isPair⟩
  have isEnabled := congrArg Prod.snd isPair
  refine ⟨s, runs, isEnabled, ?_⟩
  exact disabled_of_exited runs (congrArg Prod.fst isPair) (2 : Fin 6)
    (List.mem_cons_of_mem _ List.mem_cons_self) isEnabled

end ComponentSchedule

end Rcgo.Scheduler
