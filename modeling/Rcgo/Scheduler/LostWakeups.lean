import Rcgo.Scheduler.InstanceSchedule

/-!
# Lost wake-ups

An action whose precondition may have become true is either tried by an executor, or its
instance is on the schedule or about to be pushed.  So nothing is overlooked when the
schedule is empty and no executor is running.
-/

namespace Rcgo.Scheduler

open Rcgo.Foundation Rcgo.Composition Rcgo.Composition.Graph

namespace RunStage

variable {c : Composed}

/-- The actions that are tried before the executor takes another instance. -/
def remaining {g : Graph} : RunStage g → List g.NodeId
  | .trying _ rest => rest
  | .attempting _ a rest => a :: rest
  | .performing _ rest _ _ => rest
  | _ => []

/-- The instances that are pushed in the rest of the transaction. -/
def targets : RunStage c.graph → List InstanceId
  | .performing _ _ targets bodies => targets ++ bodies.flatMap c.pushes
  | _ => []

/-- The executor is counted in `pending_`. -/
def isWorking {g : Graph} : RunStage g → Bool
  | .waiting => false
  | .exited => false
  | _ => true

/-- Another place at which the same is left to do. -/
structure SameWork (stage next : RunStage c.graph) : Prop where
  remaining : next.remaining = stage.remaining
  targets : next.targets = stage.targets
  isWorking : next.isWorking = stage.isWorking
  exits : next = .exited → stage = .exited

end RunStage

namespace ScheduleEvent

variable {executors : Nat} {g : Graph}

/-- The events with which an executor goes on by itself. -/
def IsInner : ScheduleEvent executors g → Prop
  | .start _ => True
  | .lock _ => True
  | .finish _ => True
  | .unlock _ => True
  | _ => False

theorem IsInner.eq_of_changes {event : ScheduleEvent executors g} (isInner : event.IsInner)
    {queue changed : List InstanceId} (changes : event.Changes queue changed) :
    changed = queue := by
  cases event with
  | start _ => exact changes
  | lock _ => exact changes
  | finish _ => exact changes
  | unlock _ => exact changes
  | _ => exact absurd isInner id

theorem IsInner.changes {event : ScheduleEvent executors g} (isInner : event.IsInner)
    (queue : List InstanceId) : event.Changes queue queue := by
  cases event with
  | start _ => rfl
  | lock _ => rfl
  | finish _ => rfl
  | unlock _ => rfl
  | _ => exact absurd isInner id

end ScheduleEvent

namespace InstanceSchedule

variable {executors : Nat} {c : Composed} {s next : InstanceSchedule executors c.graph}

/-- What an event does to all but the locks. -/
inductive Move (s next : InstanceSchedule executors c.graph) :
    ScheduleEvent executors c.graph → Prop where
  | take (e : Fin executors) (inst : InstanceId) (isWaiting : s.stage e = .waiting)
      (isHead : s.schedule.head = .item inst) (schedule : next.schedule = s.schedule.pop inst)
      (pending : next.pending = s.pending + 1)
      (stage : next.stage = Function.update s.stage e (.trying inst (c.actionsOf inst))) :
      Move s next (.take e inst)
  | exit (e : Fin executors) (isWaiting : s.stage e = .waiting) (isIdle : s.IsIdle)
      (schedule : next.schedule = s.schedule) (pending : next.pending = s.pending)
      (stage : next.stage = Function.update s.stage e .exited) : Move s next (.exit e)
  | evaluate (e : Fin executors) (a : c.graph.NodeId) (outcome : Option (List c.graph.NodeId))
      (inst : InstanceId) (rest : List c.graph.NodeId)
      (isAttempting : s.stage e = .attempting inst a rest) (schedule : next.schedule = s.schedule)
      (pending : next.pending = s.pending)
      (stage : next.stage = Function.update s.stage e
        (match outcome with
          | none => .trying inst rest
          | some executed => .performing inst rest [] executed.reverse)) :
      Move s next (.evaluate e a outcome)
  | perform (e : Fin executors) (b : c.graph.NodeId) (inst : InstanceId)
      (rest bodies : List c.graph.NodeId)
      (isPerforming : s.stage e = .performing inst rest [] (b :: bodies))
      (schedule : next.schedule = s.schedule) (pending : next.pending = s.pending)
      (stage : next.stage = Function.update s.stage e (.performing inst rest (c.pushes b) bodies)) :
      Move s next (.perform e b)
  | push (e : Fin executors) (inst source : InstanceId) (rest bodies : List c.graph.NodeId)
      (targets : List InstanceId)
      (isPerforming : s.stage e = .performing source rest (inst :: targets) bodies)
      (schedule : next.schedule = s.schedule.push inst) (pending : next.pending = s.pending)
      (stage : next.stage = Function.update s.stage e (.performing source rest targets bodies)) :
      Move s next (.push e inst)
  | release (e : Fin executors) (isLeaving : s.stage e = .leaving)
      (schedule : next.schedule = s.schedule) (pending : next.pending = s.pending - 1)
      (stage : next.stage = Function.update s.stage e .waiting) : Move s next (.release e)
  | goesOn (event : ScheduleEvent executors c.graph) (e : Fin executors)
      (stage : RunStage c.graph) (same : (s.stage e).SameWork stage)
      (keepsSchedule : next.schedule = s.schedule) (keepsPending : next.pending = s.pending)
      (isStage : next.stage = Function.update s.stage e stage) (isInner : event.IsInner) :
      Move s next event

theorem locksAfter_eq_some {event : RwlockState.Event (Fin executors) (Job c.graph)}
    (taken : s.locksAfter event = some next) :
    next.schedule = s.schedule ∧ next.pending = s.pending ∧ next.stage = s.stage := by
  rcases Option.map_eq_some_iff.mp taken with ⟨locks, _, isNext⟩
  rw [← isNext]
  exact ⟨rfl, rfl, rfl⟩

theorem Move.of_sameWork {event : ScheduleEvent executors c.graph} {e : Fin executors}
    {stage : RunStage c.graph} (same : (s.stage e).SameWork stage)
    (taken : next.schedule = s.schedule ∧ next.pending = s.pending ∧
      next.stage = (s.goesTo e stage).stage)
    (isInner : event.IsInner) : Move s next event :=
  .goesOn event e stage same taken.1 taken.2.1 taken.2.2 isInner

theorem Move.of_locksAfter {event : ScheduleEvent executors c.graph} (e : Fin executors)
    {lockEvent : RwlockState.Event (Fin executors) (Job c.graph)}
    (taken : s.locksAfter lockEvent = some next) (isInner : event.IsInner) :
    Move s next event := by
  rcases locksAfter_eq_some taken with ⟨schedule, pending, stage⟩
  refine .goesOn event e (s.stage e) ⟨rfl, rfl, rfl, id⟩ schedule pending ?_ isInner
  rw [stage, Function.update_eq_self]

/-- What a step does. -/
theorem move_of_after {event : ScheduleEvent executors c.graph} (taken : s.after event = some next) :
    Move s next event := by
  cases event with
  | take e inst =>
      simp only [after, Option.ite_none_right_eq_some, Option.some.injEq] at taken
      rcases taken with ⟨⟨isWaiting, isHead⟩, rfl⟩
      exact .take e inst isWaiting isHead rfl rfl rfl
  | exit e =>
      simp only [after, Option.ite_none_right_eq_some, Option.some.injEq] at taken
      rcases taken with ⟨⟨isWaiting, isIdle⟩, rfl⟩
      exact .exit e isWaiting isIdle rfl rfl rfl
  | start e =>
      simp only [after] at taken
      split at taken
      · next inst a rest isTrying =>
        refine .of_sameWork ?_ (locksAfter_eq_some taken) trivial
        rw [isTrying]
        exact ⟨rfl, rfl, rfl, nofun⟩
      · next inst isTrying =>
        refine .of_sameWork ?_ (locksAfter_eq_some taken) trivial
        rw [isTrying]
        exact ⟨rfl, rfl, rfl, nofun⟩
      · cases taken
  | lock e =>
      exact .of_locksAfter e taken trivial
  | evaluate e a outcome =>
      simp only [after] at taken
      split at taken
      · next inst action rest isAttempting =>
        rw [Option.ite_none_right_eq_some] at taken
        rcases taken with ⟨⟨rfl, _⟩, taken⟩
        cases outcome with
        | none =>
            rcases locksAfter_eq_some taken with ⟨schedule, pending, stage⟩
            exact .evaluate e action none inst rest isAttempting schedule pending stage
        | some executed =>
            rw [Option.some.injEq] at taken
            subst taken
            exact .evaluate e action (some executed) inst rest isAttempting rfl rfl rfl
      · cases taken
  | perform e b =>
      simp only [after] at taken
      split at taken
      · next inst rest body bodies isPerforming =>
        rw [Option.ite_none_right_eq_some, Option.some.injEq] at taken
        rcases taken with ⟨rfl, rfl⟩
        exact .perform e body inst rest bodies isPerforming rfl rfl rfl
      · cases taken
  | push e inst =>
      simp only [after] at taken
      split at taken
      · next source rest target targets bodies isPerforming =>
        rw [Option.ite_none_right_eq_some, Option.some.injEq] at taken
        rcases taken with ⟨rfl, rfl⟩
        exact .push e target source rest bodies targets isPerforming rfl rfl rfl
      · cases taken
  | finish e =>
      simp only [after] at taken
      split at taken
      · next inst rest isPerforming =>
        refine .of_sameWork ?_ (locksAfter_eq_some taken) trivial
        rw [isPerforming]
        exact ⟨rfl, rfl, rfl, nofun⟩
      · next inst isCollecting =>
        refine .of_sameWork ?_ (locksAfter_eq_some taken) trivial
        rw [isCollecting]
        exact ⟨rfl, rfl, rfl, nofun⟩
      · cases taken
  | unlock e =>
      exact .of_locksAfter e taken trivial
  | release e =>
      simp only [after, Option.ite_none_right_eq_some, Option.some.injEq] at taken
      rcases taken with ⟨⟨isLeaving, _⟩, rfl⟩
      exact .release e isLeaving rfl rfl rfl

/-! ## The counter of the executors -/

/-- `pending_` counts the executors that have an instance. -/
def IsCounted (s : InstanceSchedule executors c.graph) : Prop :=
  s.pending = countMarked (List.finRange executors) (RunStage.isWorking ∘ s.stage) true

theorem IsCounted.pos (counted : s.IsCounted) {e : Fin executors}
    (isWorking : (s.stage e).isWorking = true) : 0 < s.pending := by
  rw [counted, countMarked, List.countP_pos_iff]
  exact ⟨e, List.mem_finRange e, decide_eq_true isWorking⟩

theorem IsCounted.update (counted : s.IsCounted) {e : Fin executors} {stage : RunStage c.graph}
    (isStage : next.stage = Function.update s.stage e stage)
    (follows : next.pending + (if (s.stage e).isWorking = true then 1 else 0) =
      s.pending + if stage.isWorking = true then 1 else 0) : next.IsCounted := by
  have counts :
      countMarked (List.finRange executors)
          (Function.update (RunStage.isWorking ∘ s.stage) e stage.isWorking) true +
          (if (s.stage e).isWorking = true then 1 else 0) =
        countMarked (List.finRange executors) (RunStage.isWorking ∘ s.stage) true +
          if stage.isWorking = true then 1 else 0 :=
    countMarked_update (List.nodup_finRange executors) (List.mem_finRange e) stage.isWorking
  rw [← Function.comp_update, ← isStage] at counts
  rw [counted] at follows
  exact Nat.add_right_cancel (follows.trans counts.symm)

theorem IsCounted.move {event : ScheduleEvent executors c.graph} (counted : s.IsCounted)
    (move : Move s next event) : next.IsCounted := by
  cases move with
  | take e inst isWaiting _ _ pending stage =>
      apply counted.update stage
      rw [isWaiting, pending]
      rfl
  | exit e isWaiting _ _ pending stage =>
      apply counted.update stage
      rw [isWaiting, pending]
      rfl
  | evaluate e a outcome inst rest isAttempting _ pending stage =>
      apply counted.update stage
      rw [isAttempting, pending]
      cases outcome <;> rfl
  | perform e b inst rest bodies isPerforming _ pending stage =>
      apply counted.update stage
      rw [isPerforming, pending]
      rfl
  | push e inst source rest bodies targets isPerforming _ pending stage =>
      apply counted.update stage
      rw [isPerforming, pending]
      rfl
  | release e isLeaving _ pending stage =>
      have isPositive : 0 < s.pending := counted.pos (e := e) (by rw [isLeaving]; rfl)
      apply counted.update stage
      rw [isLeaving, pending]
      exact Nat.sub_add_cancel isPositive
  | goesOn _ e stage same _ pending isStage =>
      apply counted.update isStage
      rw [same.isWorking, pending]

/-! ## The list of scheduled instances -/

theorem Move.exists_changed {event : ScheduleEvent executors c.graph} {queue : List InstanceId}
    (move : Move s next event) (represents : s.schedule.Represents queue) :
    ∃ changed, event.Changes queue changed ∧ next.schedule.Represents changed := by
  cases move with
  | take e inst _ isHead schedule =>
      rcases represents.exists_cons isHead with ⟨changed, isQueue⟩
      rw [isQueue] at represents
      refine ⟨changed, isQueue, ?_⟩
      rw [schedule]
      exact represents.pop
  | exit _ _ _ schedule =>
      rw [schedule]
      exact ⟨queue, rfl, represents⟩
  | evaluate _ _ _ _ _ _ schedule =>
      rw [schedule]
      exact ⟨queue, rfl, represents⟩
  | perform _ _ _ _ _ _ schedule =>
      rw [schedule]
      exact ⟨queue, rfl, represents⟩
  | push e inst _ _ _ _ _ schedule =>
      rw [schedule]
      exact ⟨_, rfl, represents.push inst⟩
  | release _ _ schedule =>
      rw [schedule]
      exact ⟨queue, rfl, represents⟩
  | goesOn _ _ _ _ schedule _ _ isInner =>
      rw [schedule]
      exact ⟨queue, isInner.changes queue, represents⟩

/-- Executors exit from an idle schedule, and it stays idle. -/
def ExitsIdle (s : InstanceSchedule executors c.graph) : Prop :=
  ∀ e, s.stage e = .exited → s.IsIdle

theorem IsIdle.move {event : ScheduleEvent executors c.graph} (isIdle : s.IsIdle)
    (move : Move s next event) (counted : s.IsCounted) : next.IsIdle := by
  have keeps : next.schedule = s.schedule → next.pending = s.pending → next.IsIdle := by
    intro schedule pending
    rwa [IsIdle, schedule, pending]
  cases move with
  | take e inst _ isHead =>
      rw [isIdle.1] at isHead
      cases isHead
  | exit _ _ _ schedule pending => exact keeps schedule pending
  | evaluate _ _ _ _ _ _ schedule pending => exact keeps schedule pending
  | perform _ _ _ _ _ _ schedule pending => exact keeps schedule pending
  | push e inst source rest bodies targets isPerforming =>
      have isPositive : 0 < s.pending := counted.pos (e := e) (by rw [isPerforming]; rfl)
      exact absurd isIdle.2 (Nat.ne_of_gt isPositive)
  | release _ _ schedule pending =>
      refine keeps schedule ?_
      rw [pending, isIdle.2]
  | goesOn _ _ _ _ schedule pending => exact keeps schedule pending

theorem Move.exited {event : ScheduleEvent executors c.graph} (move : Move s next event)
    {f : Fin executors} (isExited : next.stage f = .exited) :
    s.stage f = .exited ∨ s.IsIdle := by
  have earlier : ∀ {e stage}, next.stage = Function.update s.stage e stage →
      (stage = .exited → s.stage e = .exited ∨ s.IsIdle) → s.stage f = .exited ∨ s.IsIdle := by
    intro e stage isStage exits
    by_cases same : f = e
    · rw [isStage, same, Function.update_self] at isExited
      rw [same]
      exact exits isExited
    · rw [isStage, Function.update_of_ne same] at isExited
      exact Or.inl isExited
  cases move with
  | take _ _ _ _ _ _ stage => exact earlier stage nofun
  | exit _ _ isIdle => exact Or.inr isIdle
  | evaluate _ _ outcome _ _ _ _ _ stage =>
      apply earlier stage
      cases outcome <;> exact nofun
  | perform _ _ _ _ _ _ _ _ stage => exact earlier stage nofun
  | push _ _ _ _ _ _ _ _ _ stage => exact earlier stage nofun
  | release _ _ _ _ stage => exact earlier stage nofun
  | goesOn _ _ _ same _ _ isStage =>
      exact earlier isStage fun isExited => Or.inl (same.exits isExited)

theorem ExitsIdle.move {event : ScheduleEvent executors c.graph} (exits : s.ExitsIdle)
    (move : Move s next event) (counted : s.IsCounted) : next.ExitsIdle := by
  intro e isExited
  rcases move.exited isExited with already | isIdle
  · exact (exits e already).move move counted
  · exact isIdle.move move counted

/-! ## What is left to do -/

/-- The action is going to be tried: its instance is on the schedule or about to be pushed,
or an executor comes to it. -/
inductive Awaits (s : InstanceSchedule executors c.graph) (queue : List InstanceId)
    (a : c.graph.NodeId) : Prop where
  | scheduled (inst : InstanceId) (isOwner : c.graph.owner a = some inst)
      (isScheduled : inst ∈ queue)
  | targeted (inst : InstanceId) (isOwner : c.graph.owner a = some inst) (e : Fin executors)
      (isTarget : inst ∈ (s.stage e).targets)
  | tried (e : Fin executors) (remains : a ∈ (s.stage e).remaining)

theorem Awaits.update {queue changed : List InstanceId} {a : c.graph.NodeId} {e : Fin executors}
    {stage : RunStage c.graph} (awaits : s.Awaits queue a)
    (isStage : next.stage = Function.update s.stage e stage)
    (scheduled : ∀ inst, c.graph.owner a = some inst → inst ∈ queue →
      inst ∈ changed ∨ a ∈ stage.remaining)
    (targeted : ∀ inst ∈ (s.stage e).targets, inst ∈ changed ∨ inst ∈ stage.targets)
    (tried : a ∈ (s.stage e).remaining → a ∈ stage.remaining) : next.Awaits changed a := by
  have here : next.stage e = stage := by rw [isStage, Function.update_self]
  have others : ∀ f, f ≠ e → next.stage f = s.stage f := by
    intro f different
    rw [isStage, Function.update_of_ne different]
  cases awaits with
  | scheduled inst isOwner isScheduled =>
      rcases scheduled inst isOwner isScheduled with stays | remains
      · exact .scheduled inst isOwner stays
      · exact .tried e (here ▸ remains)
  | targeted inst isOwner f isTarget =>
      by_cases same : f = e
      · rw [same] at isTarget
        rcases targeted inst isTarget with isPushed | stays
        · exact .scheduled inst isOwner isPushed
        · exact .targeted inst isOwner e (here ▸ stays)
      · exact .targeted inst isOwner f (others f same ▸ isTarget)
  | tried f remains =>
      by_cases same : f = e
      · rw [same] at remains
        exact .tried e (here ▸ tried remains)
      · exact .tried f (others f same ▸ remains)

/-- What is left to do stays to be done, except for the action that is evaluated. -/
theorem Awaits.move {event : ScheduleEvent executors c.graph} {queue changed : List InstanceId}
    {a : c.graph.NodeId} (awaits : s.Awaits queue a) (isAction : a ∈ c.graph.actions)
    (move : Move s next event) (changes : event.Changes queue changed)
    (notEvaluated : ∀ e outcome, event ≠ .evaluate e a outcome) : next.Awaits changed a := by
  cases move with
  | take e inst isWaiting _ _ _ stage =>
      have isQueue : queue = inst :: changed := changes
      apply awaits.update stage
      · intro owner isOwner isScheduled
        rw [isQueue] at isScheduled
        rcases List.mem_cons.mp isScheduled with isTaken | isLater
        · rw [isTaken] at isOwner
          exact Or.inr (List.mem_filter.mpr ⟨isAction, decide_eq_true isOwner⟩)
        · exact Or.inl isLater
      · rw [isWaiting]
        exact fun _ isTarget => absurd isTarget List.not_mem_nil
      · rw [isWaiting]
        exact fun remains => absurd remains List.not_mem_nil
  | exit e isWaiting _ _ _ stage =>
      have isQueue : changed = queue := changes
      apply awaits.update stage
      · exact fun _ _ isScheduled => Or.inl (isQueue ▸ isScheduled)
      · rw [isWaiting]
        exact fun _ isTarget => absurd isTarget List.not_mem_nil
      · rw [isWaiting]
        exact fun remains => absurd remains List.not_mem_nil
  | evaluate e b outcome inst rest isAttempting _ _ stage =>
      have isQueue : changed = queue := changes
      apply awaits.update stage
      · exact fun _ _ isScheduled => Or.inl (isQueue ▸ isScheduled)
      · rw [isAttempting]
        exact fun _ isTarget => absurd isTarget List.not_mem_nil
      · rw [isAttempting]
        intro remains
        rcases List.mem_cons.mp remains with isNow | isLater
        · exact absurd (congrArg (ScheduleEvent.evaluate e · outcome) isNow.symm)
            (notEvaluated e outcome)
        · cases outcome <;> exact isLater
  | perform e b inst rest bodies isPerforming _ _ stage =>
      have isQueue : changed = queue := changes
      apply awaits.update stage
      · exact fun _ _ isScheduled => Or.inl (isQueue ▸ isScheduled)
      · rw [isPerforming]
        exact fun _ isTarget => Or.inr isTarget
      · rw [isPerforming]
        exact id
  | push e inst source rest bodies targets isPerforming _ _ stage =>
      have isQueue : changed = if inst ∈ queue then queue else queue ++ [inst] := changes
      have isKept : ∀ other, other = inst ∨ other ∈ queue → other ∈ changed := by
        intro other
        rw [isQueue]
        grind
      apply awaits.update stage
      · exact fun other _ isScheduled => Or.inl (isKept other (Or.inr isScheduled))
      · rw [isPerforming]
        intro other isTarget
        rcases List.mem_cons.mp isTarget with isNow | isLater
        · exact Or.inl (isKept other (Or.inl isNow))
        · exact Or.inr isLater
      · rw [isPerforming]
        exact id
  | release e isLeaving _ _ stage =>
      have isQueue : changed = queue := changes
      apply awaits.update stage
      · exact fun _ _ isScheduled => Or.inl (isQueue ▸ isScheduled)
      · rw [isLeaving]
        exact fun _ isTarget => absurd isTarget List.not_mem_nil
      · rw [isLeaving]
        exact fun remains => absurd remains List.not_mem_nil
  | goesOn _ e stage same _ _ isStage isInner =>
      have isQueue : changed = queue := isInner.eq_of_changes changes
      apply awaits.update isStage
      · exact fun _ _ isScheduled => Or.inl (isQueue ▸ isScheduled)
      · rw [same.targets]
        exact fun _ isTarget => Or.inr isTarget
      · rw [same.remaining]
        exact id

theorem Move.awaits_of_evaluate {a : c.graph.NodeId} {e : Fin executors}
    {outcome : Option (List c.graph.NodeId)} {changed : List InstanceId}
    (isAction : a ∈ c.graph.actions) (move : Move s next (.evaluate e a outcome))
    (isPossible : (ScheduleEvent.evaluate e a outcome).IsPossible)
    (notSettled : ¬(ScheduleEvent.evaluate e a outcome).Settles a) : next.Awaits changed a := by
  cases outcome with
  | none => exact absurd ⟨e, none, rfl, nofun⟩ notSettled
  | some executed =>
      have notSilent : ¬IsSilent executed := by
        intro isSilent
        refine notSettled ⟨e, some executed, rfl, ?_⟩
        rintro _ ⟨⟩
        exact isSilent
      rcases c.owned a isAction with ⟨inst, _, isOwner⟩
      rcases Composed.exists_pushes_of_run isAction isPossible isOwner notSilent with
        ⟨b, isExecuted, isPush⟩
      cases move with
      | evaluate e a outcome source rest _ _ _ stage =>
          apply Awaits.targeted inst isOwner e
          rw [stage, Function.update_self]
          exact List.mem_flatMap.mpr ⟨b, List.mem_reverse.mpr isExecuted, isPush⟩
      | goesOn _ _ _ _ _ _ _ isInner => exact absurd isInner id

theorem Move.awaits_of_disturbs {event : ScheduleEvent executors c.graph} {a : c.graph.NodeId}
    {changed : List InstanceId} (isAction : a ∈ c.graph.actions) (move : Move s next event)
    (disturbs : event.Disturbs a) : next.Awaits changed a := by
  rcases disturbs with ⟨e, b, inst, rfl, writes, reads⟩
  rcases c.owned a isAction with ⟨target, _, isOwner⟩
  have isPush := Composed.mem_pushes_of_writes isAction isOwner reads writes
  cases move with
  | perform _ _ source rest bodies _ _ _ stage =>
      apply Awaits.targeted target isOwner e
      rw [stage, Function.update_self]
      exact List.mem_append_left _ isPush
  | goesOn _ _ _ _ _ _ _ isInner => exact absurd isInner id

/-- What holds after each run, with the instances on the schedule. -/
structure Sound (events : List (ScheduleEvent executors c.graph)) (queue : List InstanceId)
    (s : InstanceSchedule executors c.graph) : Prop where
  represents : s.schedule.Represents queue
  counted : s.IsCounted
  exits : s.ExitsIdle
  covers : ∀ a ∈ c.graph.actions,
    Since (ScheduleEvent.Settles a) (ScheduleEvent.Disturbs a) events ∨ s.Awaits queue a

theorem Sound.move {past : List (ScheduleEvent executors c.graph)} {queue : List InstanceId}
    {event : ScheduleEvent executors c.graph} (sound : Sound past queue s)
    (isPossible : event.IsPossible) (move : Move s next event) :
    ∃ changed, event.Changes queue changed ∧ Sound (past ++ [event]) changed next := by
  rcases move.exists_changed sound.represents with ⟨changed, changes, represents⟩
  refine ⟨changed, changes, represents, sound.counted.move move,
    sound.exits.move move sound.counted, ?_⟩
  intro a isAction
  by_cases settles : event.Settles a
  · exact Or.inl (Since.last settles)
  by_cases disturbs : event.Disturbs a
  · exact Or.inr (move.awaits_of_disturbs isAction disturbs)
  rcases sound.covers a isAction with since | awaits
  · exact Or.inl (since.append_singleton disturbs)
  by_cases evaluated : ∃ e outcome, event = .evaluate e a outcome
  · rcases evaluated with ⟨e, outcome, rfl⟩
    exact Or.inr (move.awaits_of_evaluate isAction isPossible settles)
  · have notEvaluated : ∀ e outcome, event ≠ .evaluate e a outcome :=
      fun e outcome isEvaluated => evaluated ⟨e, outcome, isEvaluated⟩
    exact Or.inr (awaits.move isAction move changes notEvaluated)

theorem exists_sound_initial (executors : Nat) (c : Composed) :
    ∃ queue, Sound [] queue (initial executors c) := by
  rcases LinkedQueue.empty_represents.foldl_push c.instances with ⟨queue, represents, arePushed⟩
  refine ⟨queue, represents, ?_, ?_, ?_⟩
  · rw [IsCounted, countMarked_eq_zero]
    · rfl
    · intro e _
      exact nofun
  · intro e isExited
    cases isExited
  · intro a isAction
    rcases c.owned a isAction with ⟨inst, isInstance, isOwner⟩
    exact Or.inr (.scheduled inst isOwner (arePushed inst (Or.inr isInstance)))

theorem exists_sound {events : List (ScheduleEvent executors c.graph)}
    (arePossible : ∀ event ∈ events, event.IsPossible)
    (runs : (initial executors c).afterAll events = some s) : ∃ queue, Sound events queue s :=
  history_invariant (fun events s => ∃ queue, Sound events queue s) ScheduleEvent.IsPossible
    (by
      rintro past event state next ⟨queue, sound⟩ isPossible taken
      rcases sound.move isPossible (move_of_after taken) with ⟨changed, _, sound⟩
      exact ⟨changed, sound⟩)
    (exists_sound_initial executors c) arePossible runs

theorem Sound.not_awaits {events : List (ScheduleEvent executors c.graph)}
    {queue : List InstanceId} (sound : Sound events queue s) (isIdle : s.IsIdle)
    (a : c.graph.NodeId) : ¬s.Awaits queue a := by
  have isEmpty : queue = [] := sound.represents.head_eq_null_iff.mp isIdle.1
  have notWorking : ∀ e, ¬(s.stage e).isWorking = true :=
    fun e isWorking => absurd isIdle.2 (Nat.ne_of_gt (sound.counted.pos isWorking))
  intro awaits
  cases awaits with
  | scheduled inst _ isScheduled =>
      rw [isEmpty] at isScheduled
      exact List.not_mem_nil isScheduled
  | targeted inst _ e isTarget =>
      apply notWorking e
      cases isStage : s.stage e with
      | performing _ _ _ _ => rfl
      | _ =>
          rw [isStage] at isTarget
          exact absurd isTarget List.not_mem_nil
  | tried e remains =>
      apply notWorking e
      cases isStage : s.stage e with
      | trying _ _ => rfl
      | attempting _ _ _ => rfl
      | performing _ _ _ _ => rfl
      | _ =>
          rw [isStage] at remains
          exact absurd remains List.not_mem_nil

/-- In every run the schedule is a list of different instances that end with the sentinel,
from which the first one is taken and to which a pushed one is appended if it is not there.
When it is empty and nobody is running, each action has been evaluated after the last write
to an instance that its precondition reads, and then the precondition was false or the
action was executed without a write and without a call of a push port. -/
theorem settled_of_isIdle {events : List (ScheduleEvent executors c.graph)}
    (arePossible : ∀ event ∈ events, event.IsPossible)
    (runs : (initial executors c).afterAll events = some s) :
    (∃ queue, s.schedule.Represents queue ∧
      ∀ event next, s.after event = some next →
        ∃ changed, event.Changes queue changed ∧ next.schedule.Represents changed) ∧
    (∀ e, s.stage e = .exited → s.IsIdle) ∧
    (s.IsIdle → ∀ a ∈ c.graph.actions,
      Since (ScheduleEvent.Settles a) (ScheduleEvent.Disturbs a) events) := by
  rcases exists_sound arePossible runs with ⟨queue, sound⟩
  refine ⟨⟨queue, sound.represents, ?_⟩, sound.exits, ?_⟩
  · intro event next taken
    exact (move_of_after taken).exists_changed sound.represents
  · intro isIdle a isAction
    exact (sound.covers a isAction).resolve_right (sound.not_awaits isIdle a)

/-! ## A silent action -/

/-- A counter, and an observer whose action asks for the count in its precondition and
neither writes nor calls a port. -/
def observer : Graph where
  size := 6
  kind n :=
    match n.val with
    | 0 => .action 0 .accessRead .accessNone
    | 1 => .activation 0 .accessWrite
    | 2 => .action 1 .accessRead .accessNone
    | 3 => .activation 1 .accessNone
    | 4 => .pullPort
    | _ => .getter 0 .accessRead
  outgoing n :=
    match n.val with
    | 0 => [1]
    | 2 => [4, 3]
    | 4 => [5]
    | _ => []
  preconditionNodes n := if n = 2 then [4] else []
  actions := [0, 2]
  wellKinded := by decide
  actionsComplete := by decide

theorem observer_accepted : ∃ memo, observer.analyze 6 = .ok memo := by
  have isOk : (observer.analyze 6).satisfies (fun _ => true) = true := by decide
  rcases Outcome.satisfies_iff.mp isOk with ⟨memo, run, _⟩
  exact ⟨memo, run⟩

def observed : Composed where
  graph := observer
  instances := [0, 1]
  depth := 6
  accepted := observer_accepted
  owned := by decide
  activates := by decide

/-- The action of the counter, its body, the action that observes it, and the body of that. -/
abbrev counting : observer.NodeId := (0 : Fin 6)

abbrev countingBody : observer.NodeId := (1 : Fin 6)

abbrev looking : observer.NodeId := (2 : Fin 6)

abbrev lookingBody : observer.NodeId := (3 : Fin 6)

def locked (e : Fin executors) (steps : Nat) (events : List (ScheduleEvent executors observer)) :
    List (ScheduleEvent executors observer) :=
  .start e :: (List.replicate steps (.lock e) ++ events ++ List.replicate steps (.unlock e))

/-- An executor takes an instance, has one action and collects garbage. -/
def serves (e : Fin executors) (inst : InstanceId) (steps : Nat)
    (events : List (ScheduleEvent executors observer)) : List (ScheduleEvent executors observer) :=
  .take e inst :: (locked e steps events ++ locked e 2 [.finish e] ++ [.release e])

/-- The counter counts once, the observer sees it, the counter refuses to count on, and both
executors exit. -/
def observes (e f : Fin executors) : List (ScheduleEvent executors observer) :=
  serves e 0 2
    [.evaluate e (0 : Fin 6) (some [(1 : Fin 6)]), .perform e (1 : Fin 6), .push e 0, .push e 1,
      .finish e] ++
  serves e 1 3
    [.evaluate e (2 : Fin 6) (some [(3 : Fin 6)]), .perform e (3 : Fin 6), .finish e] ++
  serves e 0 2 [.evaluate e (0 : Fin 6) none] ++ [.exit e, .exit f]

theorem run_activates {a b : observer.NodeId} (isEdge : b ∈ observer.outgoing a)
    (isActivated : isActivation b = true) (noPorts : observer.outgoing b = []) : Run [a] [b] := by
  have below : Run (activatedReactions b) [] := by
    rw [activatedReactions, noPorts]
    exact Run.nil
  exact Run.activate isEdge isActivated below Run.nil

theorem isPossible_observes (e f : Fin executors) : ∀ event ∈ observes e f, event.IsPossible := by
  have counts : Run [(0 : Fin 6)] [(1 : Fin 6)] :=
    run_activates List.mem_cons_self rfl rfl
  have looks : Run [(2 : Fin 6)] [(3 : Fin 6)] :=
    run_activates (List.mem_cons_of_mem _ List.mem_cons_self) rfl rfl
  simp only [observes, serves, locked, List.replicate, List.cons_append, List.nil_append,
    List.forall_mem_cons, ScheduleEvent.IsPossible, true_and]
  exact ⟨counts, looks, fun _ isMember => absurd isMember List.not_mem_nil⟩

theorem afterAll_observes : ∃ s, (initial 2 observed).afterAll (observes 0 1) = some s ∧
    ∀ e, s.stage e = .exited := by
  have isEnd : ((initial 2 observed).afterAll (observes 0 1)).map
      (fun s => (s.stage 0, s.stage 1)) = some (.exited, .exited) := by
    decide +kernel
  rcases Option.map_eq_some_iff.mp isEnd with ⟨s, runs, areExited⟩
  refine ⟨s, runs, ?_⟩
  intro e
  match e with
  | 0 => exact congrArg Prod.fst areExited
  | 1 => exact congrArg Prod.snd areExited

theorem settled_of_isIdle_observes : ∃ s, (initial 2 observed).afterAll (observes 0 1) = some s ∧
    s.IsIdle ∧
      Since (ScheduleEvent.Settles (2 : Fin 6)) (ScheduleEvent.Disturbs (2 : Fin 6))
        (observes 0 1 : List (ScheduleEvent 2 observer)) := by
  rcases afterAll_observes with ⟨s, runs, areExited⟩
  have settled := settled_of_isIdle (isPossible_observes 0 1) runs
  have isIdle := settled.2.1 0 (areExited 0)
  exact ⟨s, runs, isIdle, settled.2.2 isIdle (2 : Fin 6) (List.mem_cons_of_mem _ List.mem_cons_self)⟩

/-- The executors exit although the precondition of the observer was true when it was
evaluated. -/
theorem exists_not_refused : ∃ s, (∀ event ∈ (observes 0 1 : List (ScheduleEvent 2 observer)),
      event.IsPossible) ∧
    (initial 2 observed).afterAll (observes 0 1) = some s ∧ (∀ e, s.stage e = .exited) ∧
    ∃ a ∈ observer.actions, ¬Since (ScheduleEvent.Refuses a) (ScheduleEvent.Disturbs a)
      (observes 0 1 : List (ScheduleEvent 2 observer)) := by
  rcases afterAll_observes with ⟨s, runs, areExited⟩
  refine ⟨s, isPossible_observes 0 1, runs, areExited, (2 : Fin 6),
    List.mem_cons_of_mem _ List.mem_cons_self, ?_⟩
  intro since
  rcases since.exists_mem with ⟨event, isEvent, e, rfl⟩
  have notRefused : ∀ e, ScheduleEvent.evaluate e (2 : Fin 6) none ∉
      (observes 0 1 : List (ScheduleEvent 2 observer)) := by
    decide
  exact notRefused e isEvent

end InstanceSchedule

end Rcgo.Scheduler
