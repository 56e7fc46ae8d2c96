import Rcgo.Scheduler.ProgramRing

/-!
# What is left when the executors return

When an executor returns, no task is enabled and none waits for a lock, provided that no
action goes unnoticed by the executors that have looked at their tasks for the last time.
-/

namespace Rcgo.Scheduler

/-! ## The invariant -/

namespace Executor

variable {ι σ : Type}

/-- What an executor has skipped in the generation is not enabled, and neither is the task
that it is about to skip. -/
structure Clean (program : Program σ) (components : σ) (tasks : List Nat) (result : Option Bool)
    (e : Executor ι) : Prop where
  skips : ∀ task ∈ tasks, e.records task = ⟨.skip, e.generation⟩ →
    program.precondition task components = false
  skipping : result = some false → ∀ task ∈ e.inHand, program.precondition task components = false

variable {program : Program σ} {components : σ} {tasks : List Nat} {result : Option Bool}
  {e next : Executor ι} {sent : Option (Message ι)} {choice : Choice}

theorem Clean.received (clean : e.Clean program components tasks result) (message : Message ι) :
    (e.receive message).Clean program components tasks result := by
  obtain ⟨_, isRecords, isGeneration, _⟩ := receive_same e message
  refine ⟨fun task isTask isSkip => ?_, fun isResult task held => ?_⟩
  · rw [isRecords, isGeneration] at isSkip
    exact clean.skips task isTask isSkip
  · rw [inHand_receive] at held
    exact clean.skipping isResult task held

theorem Clean.granted (clean : e.Clean program components tasks result) (task : Nat) :
    (e.grant task).Clean program components tasks result := by
  have areRecords : (e.grant task).records = e.records ∧
      (e.grant task).generation = e.generation := by
    rw [grant, toReadyList]
    split <;> exact ⟨rfl, rfl⟩
  refine ⟨fun other isTask isSkip => ?_, fun isResult other held => ?_⟩
  · rw [areRecords.1, areRecords.2] at isSkip
    exact clean.skips other isTask isSkip
  · rw [inHand_grant] at held
    exact clean.skipping isResult other held

theorem Clean.step [DecidableEq ι] (clean : e.Clean program components tasks result)
    (agrees : ∀ hit checked, choice = .executed hit checked → result = some hit)
    (notHit : ∀ checked, choice ≠ .executed true checked)
    (steps : e.step choice = some (next, sent)) (isGeneration : next.generation = e.generation) :
    next.Clean program components tasks none := by
  refine ⟨fun task isTask isSkip => ?_, by rintro ⟨⟩⟩
  rw [isGeneration, records_step steps task] at isSkip
  cases choice with
  | executed hit checked =>
      cases hit with
      | true => exact absurd rfl (notHit checked)
      | false =>
          rw [completedBy] at isSkip
          dsimp only at isSkip
          split at isSkip
          · next held => exact clean.skipping (agrees false checked rfl) task held
          · exact clean.skips task isTask isSkip
  | _ => exact clean.skips task isTask isSkip

end Executor

namespace ProgramRing

variable {last : Nat} {σ : Type} {program : Program σ} {tasks : Fin (last + 1) → List Nat}
  {running next : ProgramRing last σ}

def IsResetting (running : ProgramRing last σ) (e : Fin (last + 1)) : Prop :=
  running.results e = some true ∧
    ((running.ring e).state = .shootDown ∨ (running.ring e).state = .doubleCheck)

/-- What an executor behind `WAIT1` has skipped is not enabled, or the executor is reset. -/
inductive Trusts (program : Program σ) (tasks : Fin (last + 1) → List Nat)
    (running : ProgramRing last σ) (e : Fin (last + 1)) : Prop where
  | recalled (isRecalled : running.ring.round.Recalled (· + 1) e)
  | resetting (other : Fin (last + 1)) (isResetting : running.IsResetting other)
  | clean (clean : (running.ring e).Clean program running.components (tasks e) (running.results e))

/-- The invariant of executors and components. -/
structure Watched (program : Program σ) (tasks : Fin (last + 1) → List Nat)
    (running : ProgramRing last σ) : Prop where
  coordinated : running.ring.Coordinated
  asserted : running.ring.Asserted
  leaves : ∀ e, (running.ring e).Leaves
  owning : ∀ e, Executor.Owning (tasks e) (running.ring e)
  noDescriptors : ∀ e, (running.ring e).fileDescriptorMap = []
  notPoll : ∀ e, (running.ring e).state ≠ .poll
  checks : ∀ e, Executor.Checks (tasks e) (running.ring e)
  trusts : ∀ e, (running.ring e).state.phase = .late → running.Trusts program tasks e
  returns : (∃ e, (running.ring e).location = .returned) →
    ∃ place, Message.terminate ∈ (running.ring place).pending

theorem watched_initial (program : Program σ) (tasks : Fin (last + 1) → List Nat)
    (components : σ) : Watched program tasks (initial tasks components) where
  coordinated := ExecutorRing.coordinated_initial tasks
  asserted _ := by rintro ⟨⟩
  leaves _ isLeaving := by cases isLeaving
  owning e := Executor.owning_initial e (tasks e)
  noDescriptors _ := rfl
  notPoll _ := by rintro ⟨⟩
  checks _ := ⟨by rintro ⟨⟩, by rintro ⟨⟩⟩
  trusts _ isLate := by cases isLate
  returns := by rintro ⟨_, ⟨⟩⟩

/-! ## The steps -/

section Stepping

variable {e : Fin (last + 1)} {choice : Executor.Choice} {after : Executor (Fin (last + 1))}
  {sent : Option (Message (Fin (last + 1)))}

def stepped (running : ProgramRing last σ) (e : Fin (last + 1)) (after : Executor (Fin (last + 1)))
    (sent : Option (Message (Fin (last + 1)))) : ProgramRing last σ where
  ring := ExecutorRing.send (Function.update running.ring e after) e sent
  components := running.components
  results := Function.update running.results e none

theorem executes_of_agrees (agrees : running.Agrees (.step e choice)) :
    (∀ hit checked, choice = .executed hit checked → running.results e = some hit) ∧
      (∀ hit checked, choice = .executed hit checked → checked = []) ∧
      (∀ hit, running.results e = some hit → choice = .executed hit []) := by
  cases choice with
  | executed hit checked =>
      obtain ⟨isResult, isChecked⟩ := agrees
      refine ⟨?_, ?_, ?_⟩
      · rintro _ _ ⟨⟩
        exact isResult
      · rintro _ _ ⟨⟩
        exact isChecked
      · intro other isOther
        rw [isResult] at isOther
        cases isOther
        rw [isChecked]
  | _ =>
      refine ⟨by rintro _ _ ⟨⟩, by rintro _ _ ⟨⟩, fun hit isResult => ?_⟩
      have := agrees.symm.trans isResult
      cases this

theorem state_stepped {other : Fin (last + 1)} (notNode : other ≠ e) :
    ((running.stepped e after sent).ring other).state = (running.ring other).state := by
  rw [stepped]
  dsimp only
  rw [ExecutorRing.state_send, Function.update_of_ne notNode]

theorem IsResetting.stepped {other : Fin (last + 1)} (isResetting : running.IsResetting other)
    (notNode : other ≠ e) : (running.stepped e after sent).IsResetting other := by
  refine ⟨?_, ?_⟩
  · exact (Function.update_of_ne notNode ..).trans isResetting.1
  · rw [state_stepped notNode]
    exact isResetting.2

theorem clean_stepped {other : Fin (last + 1)} {components : σ} {result : Option Bool}
    (clean : (Function.update running.ring e after other).Clean program components
      (tasks other) result) :
    ((running.stepped e after sent).ring other).Clean program components (tasks other) result := by
  rw [stepped]
  dsimp only
  cases sent with
  | none => exact clean
  | some message =>
      by_cases isNext : other = e + 1
      · rw [isNext] at clean ⊢
        rw [ExecutorRing.send, Function.update_self]
        exact clean.received message
      · rw [ExecutorRing.send_of_ne _ _ _ isNext]
        exact clean

theorem recalled_of_reset {other : Fin (last + 1)} (isSent : sent = some (.reset e))
    (notNode : other ≠ e) : (running.stepped e after sent).ring.round.Recalled (· + 1) other := by
  refine ⟨e + 1, e, List.mem_append_left _ ?_,
    Foundation.travels_of_ne ExecutorRing.goesRound notNode⟩
  rw [stepped, ExecutorRing.roundNotices_send_next, isSent]
  exact List.mem_append_right _ (List.mem_singleton_self _)

theorem Watched.resets (watched : Watched program tasks running)
    (isResetting : running.IsResetting e) (agrees : running.Agrees (.step e choice))
    (steps : (running.ring e).step choice = some (after, sent)) :
    after.state = .normal ∧ sent = some (.reset e) := by
  rw [(executes_of_agrees agrees).2.2 true isResetting.1] at steps
  have isHit := Executor.step_of_hit steps isResetting.2
  rw [watched.coordinated.ids e] at isHit
  exact isHit

/-- No task is executed that is not noticed where the executor stays behind `WAIT1`. -/
theorem Watched.not_hit (watched : Watched program tasks running)
    (steps : (running.ring e).step choice = some (after, sent))
    (wasState : (running.ring e).state = .doubleCheck ∨ (running.ring e).state = .wait2)
    (notNormal : after.state ≠ .normal) : ∀ checked, choice ≠ .executed true checked := by
  intro checked isHit
  rw [isHit] at steps
  rcases wasState with isDoubleCheck | isWait2
  · exact notNormal (Executor.step_of_hit steps (Or.inr isDoubleCheck)).1
  · obtain ⟨task, _, isHeld, _⟩ := Executor.step_executed steps
    have := ((watched.checks e).waits isWait2).1.inHand.symm.trans isHeld
    cases this

theorem Watched.recalled_step (watched : Watched program tasks running)
    (steps : (running.ring e).step choice = some (after, sent))
    (notUnreachable : after.location ≠ .unreachable) {other : Fin (last + 1)}
    (isRecalled : running.ring.round.Recalled (· + 1) other)
    (notReset : other = e → after.state.phase ≠ .early) :
    (running.stepped e after sent).ring.round.Recalled (· + 1) other := by
  obtain ⟨notice, turn, sends⟩ := Executor.turn_ownStep (watched.coordinated.alert e)
    (watched.leaves e) (Executor.ownStep_of_step steps) notUnreachable
  rw [stepped, ExecutorRing.round_send sends]
  refine isRecalled.after (ExecutorRing.move_of_turn (watched.coordinated.ids e) turn) ?_
  intro isNode origin isSent
  cases turn with
  | stay _ _ => cases isSent
  | drop _ _ _ _ _ => cases isSent
  | settle _ _ _ => cases isSent
  | start _ _ _ _ => cases isSent
  | join _ _ _ _ _ _ => cases isSent
  | relay _ _ isEarly _ => exact notReset isNode isEarly
  | raise _ isEarly _ => exact notReset isNode isEarly

theorem Watched.state_of_late (watched : Watched program tasks running)
    (isLate : (running.ring e).state.phase = .late) :
    (running.ring e).state = .doubleCheck ∨ (running.ring e).state = .wait2 := by
  cases isState : (running.ring e).state with
  | doubleCheck => exact Or.inl rfl
  | wait2 => exact Or.inr rfl
  | poll => exact absurd isState (watched.notPoll e)
  | _ =>
      rw [isState] at isLate
      cases isLate

theorem Watched.trusts_node (watched : Watched program tasks running)
    (agrees : running.Agrees (.step e choice))
    (afresh : Executor.BeginsAfresh (tasks e) (running.ring e))
    (steps : (running.ring e).step choice = some (after, sent))
    (notUnreachable : after.location ≠ .unreachable) (isLate : after.state.phase = .late) :
    (running.stepped e after sent).Trusts program tasks e := by
  have own := Executor.ownStep_of_step steps
  have results : (running.stepped e after sent).results e = none := Function.update_self ..
  have cleans : after.Clean program running.components (tasks e) none →
      (running.stepped e after sent).Trusts program tasks e := by
    intro clean
    refine .clean (clean_stepped ?_)
    rw [Function.update_self, results]
    exact clean
  have stays : (running.ring e).state.phase = .late → after.generation = (running.ring e).generation →
      (running.stepped e after sent).Trusts program tasks e := by
    intro wasLate isGeneration
    rcases watched.trusts e wasLate with isRecalled | ⟨other, isResetting⟩ | clean
    · refine .recalled (watched.recalled_step steps notUnreachable isRecalled fun _ isEarly => ?_)
      have := isEarly.symm.trans isLate
      cases this
    · by_cases isNode : other = e
      · rw [isNode] at isResetting
        rw [(watched.resets isResetting agrees steps).1] at isLate
        cases isLate
      · exact .resetting other (isResetting.stepped isNode)
    · refine cleans (clean.step (executes_of_agrees agrees).1 ?_ steps isGeneration)
      refine watched.not_hit steps (watched.state_of_late wasLate) fun isNormal => ?_
      rw [isNormal] at isLate
      cases isLate
  cases Executor.stage_ownStep own with
  | before notLate => exact absurd isLate notLate
  | begins origin wasWaiting leads isState generation _ records =>
      refine cleans ⟨fun task isTask isSkip => ?_, by rintro ⟨⟩⟩
      rw [records, generation] at isSkip
      exact absurd (congrArg ExecutionRecord.generation isSkip)
        (afresh wasWaiting origin leads task isTask)
  | launches wasState _ _ _ isNext =>
      exact stays (wasState ▸ rfl) (by rw [isNext])
  | polls _ watches => exact absurd (watched.noDescriptors e) watches
  | stays isState generation => exact stays (isState ▸ isLate) generation

theorem Watched.trusts_other (watched : Watched program tasks running)
    (agrees : running.Agrees (.step e choice))
    (steps : (running.ring e).step choice = some (after, sent))
    (notUnreachable : after.location ≠ .unreachable) {other : Fin (last + 1)} (notNode : other ≠ e)
    (isLate : (running.ring other).state.phase = .late) :
    (running.stepped e after sent).Trusts program tasks other := by
  have results : (running.stepped e after sent).results other = running.results other :=
    Function.update_of_ne notNode ..
  rcases watched.trusts other isLate with isRecalled | ⟨third, isResetting⟩ | clean
  · exact .recalled (watched.recalled_step steps notUnreachable isRecalled
      fun isNode => absurd isNode notNode)
  · by_cases isNode : third = e
    · rw [isNode] at isResetting
      exact .recalled (recalled_of_reset (watched.resets isResetting agrees steps).2 notNode)
    · exact .resetting third (isResetting.stepped isNode)
  · refine .clean (clean_stepped ?_)
    rw [Function.update_of_ne notNode, results]
    exact clean

theorem returned_of_send {ring : ExecutorRing last} {place : Fin (last + 1)}
    (isReturned : (ExecutorRing.send ring e sent place).location = .returned) :
    (ring place).location = .returned := by
  cases sent with
  | none => exact isReturned
  | some message =>
      by_cases isNext : place = e + 1
      · rw [isNext, ExecutorRing.send, Function.update_self] at isReturned
        rw [isNext]
        exact Executor.location_receive (by rintro _ ⟨⟩) isReturned
      · rw [ExecutorRing.send_of_ne _ _ _ isNext] at isReturned
        exact isReturned

/-- `TERMINATE` is passed on. -/
theorem Watched.returns_step (watched : Watched program tasks running)
    (steps : (running.ring e).step choice = some (after, sent))
    (notUnreachable : after.location ≠ .unreachable)
    (isReturned : ∃ place, ((running.stepped e after sent).ring place).location = .returned) :
    ∃ place, Message.terminate ∈ ((running.stepped e after sent).ring place).pending := by
  have own := Executor.ownStep_of_step steps
  have isSent : sent = some .terminate →
      ∃ place, Message.terminate ∈ ((running.stepped e after sent).ring place).pending := by
    intro isSent
    rw [stepped, isSent]
    exact ⟨e + 1, ExecutorRing.mem_pending_sent _ e _⟩
  have stays : ∀ place, Message.terminate ∈ (Function.update running.ring e after place).pending →
      ∃ place, Message.terminate ∈ ((running.stepped e after sent).ring place).pending :=
    fun place isPending => ⟨place, ExecutorRing.mem_pending_send sent isPending⟩
  by_cases wasReturned : ∃ place, (running.ring place).location = .returned
  · obtain ⟨place, isTerminate⟩ := watched.returns wasReturned
    by_cases isNode : place = e
    · rw [isNode] at isTerminate
      rcases Executor.mem_pending_ownStep own notUnreachable isTerminate with
        isPending | ⟨_, isHandled⟩
      · refine stays e ?_
        rw [Function.update_self]
        exact isPending
      · apply isSent
        rw [isHandled, Executor.handle]
        dsimp only
        rw [if_pos (watched.coordinated.terminates e isTerminate)]
    · refine stays place ?_
      rw [Function.update_of_ne isNode]
      exact isTerminate
  · obtain ⟨place, isReturned⟩ := isReturned
    have wasUpdated := returned_of_send isReturned
    by_cases isNode : place = e
    · rw [isNode, Function.update_self] at wasUpdated
      exact isSent (Executor.sent_of_returned own wasUpdated)
    · rw [Function.update_of_ne isNode] at wasUpdated
      exact absurd ⟨place, wasUpdated⟩ wasReturned

theorem Watched.step (watched : Watched program tasks running) (nodup : ∀ e, (tasks e).Nodup)
    (fits : ∀ e, (tasks e).length < 2 ^ 64) (agrees : running.Agrees (.step e choice))
    (allowed : running.Allows program tasks (.ring (.step e choice)))
    (steps : (running.ring e).step choice = some (after, sent)) :
    Watched program tasks (running.stepped e after sent) := by
  obtain ⟨afresh, alone, beginsAfresh⟩ := allowed
  have own := Executor.ownStep_of_step steps
  have pollsAlone : (running.ring e).PollsAlone := fun _ _ _ watches =>
    absurd (watched.noDescriptors e) watches
  have isRing : running.ring.after (.step e choice) =
      some (running.stepped e after sent).ring := by
    rw [ExecutorRing.after, steps]
    rfl
  have isAllowed : running.ring.Allows (.step e choice) := ⟨pollsAlone, afresh⟩
  obtain ⟨coordinated, asserted⟩ :=
    ExecutorRing.asserted_after watched.coordinated watched.asserted isAllowed isRing
  have notUnreachable := Executor.location_ownStep (watched.coordinated.orderly e)
    (watched.coordinated.terminates e) own
  have noDescriptors := Executor.descriptors_step steps (executes_of_agrees agrees).2.1
    (watched.noDescriptors e)
  have notPoll := (Executor.stage_ownStep own).not_poll (watched.noDescriptors e)
    (watched.notPoll e)
  have isTurn : (running.ring e).turn (.step choice) = some after := by
    rw [Executor.turn, steps]
    rfl
  have owning := (Executor.tally_turn (watched.owning e) isTurn).2
  have checks := (watched.checks e).step (nodup e) (fits e) (watched.owning e)
    (watched.coordinated.orderly e) alone beginsAfresh steps
  refine ⟨coordinated, asserted, ?_, ?_, ?_, ?_, ?_, ?_, ?_⟩
  · exact ExecutorRing.forall_send (motive := fun _ executor => executor.Leaves) watched.leaves
      (Executor.leaves_ownStep (watched.leaves e) own)
      (fun _ _ message leaves => ExecutorRing.leaves_receive leaves message) sent
  · exact ExecutorRing.forall_send (motive := fun e executor => executor.Owning (tasks e))
      watched.owning owning
      (fun other executor message owning =>
        (Executor.receive_spec executor message).2 (tasks other) owning) sent
  · exact ExecutorRing.forall_send (motive := fun _ executor => executor.fileDescriptorMap = [])
      watched.noDescriptors noDescriptors
      (fun _ executor message isEmpty =>
        (Executor.receive_same executor message).2.2.2.2.2.2.trans isEmpty) sent
  · exact ExecutorRing.forall_send (motive := fun _ executor => executor.state ≠ .poll)
      watched.notPoll notPoll
      (fun _ executor message notPoll isPoll =>
        notPoll ((Executor.receive_same executor message).1.symm.trans isPoll)) sent
  · exact ExecutorRing.forall_send (motive := fun e executor => executor.Checks (tasks e))
      watched.checks checks (fun _ _ message checks => checks.received message) sent
  · intro other isLate
    by_cases isNode : other = e
    · rw [isNode] at isLate ⊢
      refine watched.trusts_node agrees beginsAfresh steps notUnreachable ?_
      rw [stepped, ExecutorRing.state_send, Function.update_self] at isLate
      exact isLate
    · refine watched.trusts_other agrees steps notUnreachable isNode ?_
      rw [state_stepped isNode] at isLate
      exact isLate
  · exact watched.returns_step steps notUnreachable

end Stepping

/-! ## Other events -/

theorem Watched.granted (watched : Watched program tasks running) {e : Fin (last + 1)} {task : Nat}
    (isSuspended : task ∈ (running.ring e).suspended) :
    Watched program tasks
      { running with
        ring := Function.update running.ring e ((running.ring e).grant task) } := by
  have isState : ∀ place, (Function.update running.ring e ((running.ring e).grant task) place).state =
      (running.ring place).state :=
    ExecutorRing.apply_grant Executor.state e task (Executor.state_grant _ task)
  have isPending : ∀ place, (Function.update running.ring e ((running.ring e).grant task) place).pending =
      (running.ring place).pending :=
    ExecutorRing.apply_grant Executor.pending e task (Executor.pending_grant _ task)
  refine ⟨watched.coordinated.granted isSuspended, ?_, ?_, ?_, ?_, ?_, ?_, ?_, ?_⟩
  · exact ExecutorRing.forall_update (motive := fun _ executor => executor.location ≠ .unreachable)
      watched.asserted fun isReached =>
        watched.asserted e (Executor.location_grant (by rintro _ ⟨⟩) isReached)
  · exact ExecutorRing.forall_update (motive := fun _ executor => executor.Leaves) watched.leaves
      (ExecutorRing.leaves_grant (watched.leaves e) task)
  · exact ExecutorRing.forall_update (motive := fun e executor => executor.Owning (tasks e))
      watched.owning ((Executor.grant_spec isSuspended).2 _ (watched.owning e))
  · exact ExecutorRing.forall_update (motive := fun _ executor => executor.fileDescriptorMap = [])
      watched.noDescriptors ((Executor.descriptors_grant _ task).trans (watched.noDescriptors e))
  · exact fun other => isState other ▸ watched.notPoll other
  · exact ExecutorRing.forall_update (motive := fun e executor => executor.Checks (tasks e))
      watched.checks ((watched.checks e).granted isSuspended)
  · intro other isLate
    rcases watched.trusts other (isState other ▸ isLate) with
      isRecalled | ⟨third, isResetting⟩ | clean
    · exact .recalled (ExecutorRing.round_grant running.ring e task ▸ isRecalled)
    · exact .resetting third ⟨isResetting.1, isState third ▸ isResetting.2⟩
    · refine .clean ?_
      by_cases isNode : other = e
      · rw [isNode] at clean ⊢
        dsimp only
        rw [Function.update_self]
        exact clean.granted task
      · dsimp only
        rw [Function.update_of_ne isNode]
        exact clean
  · rintro ⟨place, isReturned⟩
    have wasReturned : (running.ring place).location = .returned := by
      by_cases isNode : place = e
      · dsimp only at isReturned
        rw [isNode, Function.update_self] at isReturned
        rw [isNode]
        exact Executor.location_grant (by rintro _ ⟨⟩) isReturned
      · dsimp only at isReturned
        rw [Function.update_of_ne isNode] at isReturned
        exact isReturned
    obtain ⟨other, isTerminate⟩ := watched.returns ⟨place, wasReturned⟩
    exact ⟨other, isPending other ▸ isTerminate⟩

theorem Watched.executed (watched : Watched program tasks running) {e : Fin (last + 1)} {task : Nat}
    (isHeld : (running.ring e).inHand = [task]) (notYet : running.results e = none)
    (allowed : running.Allows program tasks (.executeI e)) :
    Watched program tasks (running.executeI program e task) := by
  refine ⟨watched.coordinated, watched.asserted, watched.leaves, watched.owning,
    watched.noDescriptors, watched.notPoll, watched.checks, fun other isLate => ?_, watched.returns⟩
  have resets : ∀ third, running.IsResetting third →
      (running.executeI program e task).IsResetting third := by
    intro third isResetting
    have notNode : third ≠ e := by
      intro isNode
      have := (isNode ▸ isResetting.1).symm.trans notYet
      cases this
    exact ⟨(Function.update_of_ne notNode ..).trans isResetting.1, isResetting.2⟩
  cases isHit : program.precondition task running.components with
  | true =>
      rcases allowed ⟨task, isHeld ▸ List.mem_singleton_self task, isHit⟩ with raises | areRecalled
      · refine .resetting e ⟨?_, raises⟩
        rw [executeI, isHit]
        exact Function.update_self ..
      · exact .recalled (ExecutorRing.recalled_of_isRecalled (areRecalled other isLate))
  | false =>
      have sameComponents : (running.executeI program e task).components = running.components := by
        rw [executeI, isHit]
        rfl
      rcases watched.trusts other isLate with isRecalled | ⟨third, isResetting⟩ | clean
      · exact .recalled isRecalled
      · exact .resetting third (resets third isResetting)
      · refine .clean ?_
        rw [sameComponents]
        refine ⟨clean.skips, fun isResult held isMember => ?_⟩
        by_cases isNode : other = e
        · have isMember : held ∈ (running.ring e).inHand := isNode ▸ isMember
          rw [isHeld, List.mem_singleton] at isMember
          rw [isMember]
          exact isHit
        · refine clean.skipping ?_ held isMember
          exact (Function.update_of_ne isNode ..).symm.trans isResult

theorem Watched.after (watched : Watched program tasks running) (nodup : ∀ e, (tasks e).Nodup)
    (fits : ∀ e, (tasks e).length < 2 ^ 64) {event : ProgramEvent last}
    (allowed : running.Allows program tasks event)
    (runs : running.after program event = some next) : Watched program tasks next := by
  cases event with
  | executeI e =>
      rw [ProgramRing.after] at runs
      split at runs
      · next task isHeld notYet =>
          cases runs
          exact watched.executed isHeld notYet allowed
      · cases runs
  | ring event =>
      rw [ProgramRing.after] at runs
      split at runs
      · next agrees =>
          cases event with
          | step e choice =>
              rw [ExecutorRing.after, Option.map_map, Option.map_eq_some_iff] at runs
              obtain ⟨⟨after, sent⟩, steps, isNext⟩ := runs
              rw [← isNext]
              exact watched.step nodup fits agrees allowed steps
          | grant e task =>
              rw [ExecutorRing.after] at runs
              split at runs
              · next isSuspended =>
                  cases runs
                  exact watched.granted isSuspended
              · cases runs
      · cases runs

theorem Watched.afterAll (nodup : ∀ e, (tasks e).Nodup) (fits : ∀ e, (tasks e).length < 2 ^ 64)
    (events : List (ProgramEvent last)) : ∀ {running next : ProgramRing last σ},
      Watched program tasks running → running.AllowsAll program tasks events →
        running.afterAll program events = some next → Watched program tasks next := by
  induction events with
  | nil =>
      intro running next watched _ runs
      cases runs
      exact watched
  | cons event events inductionHypothesis =>
      intro running next watched allowed runs
      rw [ProgramRing.afterAll, Option.bind_eq_bind, Option.bind_eq_some_iff] at runs
      obtain ⟨middle, first, rest⟩ := runs
      exact inductionHypothesis (watched.after nodup fits allowed.1 first)
        (allowed.2 middle first) rest

/-! ## The result -/

theorem Watched.isQuiet (watched : Watched program tasks running) {e : Fin (last + 1)}
    (isReturned : (running.ring e).location = .returned) : running.IsQuiet program tasks := by
  obtain ⟨place, isTerminate⟩ := watched.returns ⟨e, isReturned⟩
  have finished := watched.coordinated.detects.finished place
    (List.mem_filterMap.mpr ⟨_, isTerminate, rfl⟩)
  have isWait2 : ∀ e, (running.ring e).state = .wait2 := fun e => (finished e).1
  have notRecalled : ∀ e, ¬running.ring.round.Recalled (· + 1) e := by
    rintro e ⟨place, origin, isAlarm, _⟩
    rcases List.mem_append.mp isAlarm with isPending | isAnnounced
    · obtain ⟨message, isMessage, isNotice⟩ := List.mem_filterMap.mp isPending
      cases message with
      | reset id => exact (finished place).2 (List.mem_filterMap.mpr ⟨_, isMessage, rfl⟩)
      | startShootDown id => cases isNotice
      | startWaiting1 id => cases isNotice
      | startDoubleCheck id => cases isNotice
      | startWaiting2 id => cases isNotice
      | terminate => cases isNotice
    · rw [Executor.announced] at isAnnounced
      split at isAnnounced
      · next isLeaving =>
          have := (isWait2 _).symm.trans (watched.leaves _ isLeaving)
          cases this
      · cases isAnnounced
  have notResetting : ∀ e, ¬running.IsResetting e := by
    rintro e ⟨_, isState | isState⟩
    · have := (isWait2 e).symm.trans isState
      cases this
    · have := (isWait2 e).symm.trans isState
      cases this
  intro e
  obtain ⟨rests, areSkipped⟩ := (watched.checks e).waits (isWait2 e)
  refine ⟨fun task isTask => ?_, rests.suspended⟩
  rcases watched.trusts e (congrArg RunState.phase (isWait2 e)) with
    isRecalled | ⟨other, isResetting⟩ | clean
  · exact absurd isRecalled (notRecalled e)
  · exact absurd isResetting (notResetting other)
  · exact clean.skips task isTask (areSkipped task isTask)

/-- Where every action that is executed is noticed, an executor returns when no task is
enabled and none waits for a lock. -/
theorem isQuiet_of_allowsAll (program : Program σ) (tasks : Fin (last + 1) → List Nat)
    (components : σ) (nodup : ∀ e, (tasks e).Nodup) (fits : ∀ e, (tasks e).length < 2 ^ 64)
    (events : List (ProgramEvent last))
    (allowed : (initial tasks components).AllowsAll program tasks events)
    (runs : (initial tasks components).afterAll program events = some next) {e : Fin (last + 1)}
    (isReturned : (next.ring e).location = .returned) : next.IsQuiet program tasks :=
  (Watched.afterAll nodup fits events (watched_initial program tasks components) allowed
    runs).isQuiet isReturned

/-! ## Two actions that take turns -/

def goes (e : Fin (last + 1)) (count : Nat) : List (ProgramEvent last) :=
  (ExecutorRing.goes e count).map .ring

/-- An executor that has found its queues empty takes the first task of its idle list. -/
def tries (e : Fin (last + 1)) (hit : Bool) : List (ProgramEvent last) :=
  goes e 1 ++ [.executeI e, .ring (.step e (.executed hit []))]

/-- One action is enabled after an even number of activations and the other after an odd
one, up to a limit. -/
def turns (limit : Nat) : Program Nat where
  precondition task activations := activations % 2 = task && activations < limit
  action _ activations := activations + 1

/-- Each executor executes its task once. -/
def finish (first second : Fin (last + 1)) : List (ProgramEvent last) :=
  goes first 1 ++ tries first true ++ goes second 1 ++ tries second true ++
  goes first 1 ++ tries first false ++ goes first 3 ++ tries first false ++ goes first 1 ++
  goes second 3 ++ tries second false ++ goes second 2 ++ goes first 5 ++ goes second 4 ++
  -- both check again
  goes first 4 ++ goes second 2 ++ goes first 1 ++ tries first false ++ goes first 1 ++
  goes second 1 ++ tries second false ++ goes second 2 ++ goes first 3 ++ goes second 2 ++
  goes first 2

theorem isQuiet_of_allowsAll_finish :
    (initial (fun e => [e.val]) 0).AllowsAll (turns 2) (fun e => [e.val])
        (finish 0 1 : List (ProgramEvent 1)) ∧
      ∃ next : ProgramRing 1 Nat,
        (initial (fun e => [e.val]) 0).afterAll (turns 2) (finish 0 1) = some next ∧
        (next.ring 0).location = .returned ∧ next.components = 2 ∧
        next.IsQuiet (turns 2) (fun e => [e.val]) := by
  have allowed : (initial (fun e => [e.val]) 0).AllowsAll (turns 2) (fun e => [e.val])
      (finish 0 1 : List (ProgramEvent 1)) := by
    decide +kernel
  have isReturned : ((initial (fun e => [e.val]) 0).afterAll (turns 2)
      (finish 0 1 : List (ProgramEvent 1))).map (fun next =>
        ((next.ring 0).location, next.components)) = some (.returned, 2) := by
    decide +kernel
  obtain ⟨next, runs, isEnd⟩ := Option.map_eq_some_iff.mp isReturned
  obtain ⟨isLocation, isComponents⟩ := Prod.mk.inj isEnd
  have fits : ∀ e : Fin 2, [e.val].length < 2 ^ 64 := by
    intro e
    rw [List.length_singleton]
    exact Nat.one_lt_two_pow (by decide)
  exact ⟨allowed, next, runs, isLocation, isComponents,
    isQuiet_of_allowsAll (turns 2) _ 0 (fun e => List.nodup_singleton e.val) fits _ allowed runs
      isLocation⟩

/-- Three executors, the third without a task. -/
def overlook (first second third : Fin (last + 1)) : List (ProgramEvent last) :=
  -- the first executor has a hit in `SHOOT_DOWN`, and its `RESET` is at the second one
  goes third 2 ++ goes first 2 ++ goes second 3 ++ tries second false ++ goes second 1 ++
  goes first 1 ++ tries first true ++ goes first 1 ++ tries first false ++ goes first 3 ++
  -- the second one sends `START_WAITING1`, is reset and has a hit, and waits again
  goes third 4 ++ goes second 6 ++ tries first false ++ goes first 4 ++
  tries second true ++ goes second 3 ++ tries second false ++ goes second 3 ++
  tries second false ++ goes second 2 ++
  -- its old `START_WAITING1` goes round before both resets, and it enters `WAIT2`
  goes third 8 ++ goes first 9 ++ goes third 6 ++ goes second 5 ++ tries second false ++
  goes second 2 ++
  -- the first one has a hit in `NORMAL`, and the others follow to `WAIT2`
  tries first true ++ goes first 5 ++ tries first false ++ goes first 1 ++ goes third 5 ++
  goes first 4 ++ tries first false ++ goes first 2 ++ goes second 8 ++ goes third 3 ++
  goes first 4

/-- The first executor returns when the task of the second one is enabled. -/
theorem exists_not_isQuiet : ∃ next : ProgramRing 2 Nat,
    (initial (fun e => if e = 2 then [] else [e.val]) 0).afterAll (turns 4) (overlook 0 1 2) =
        some next ∧
      (next.ring 0).location = .returned ∧
      ¬next.IsQuiet (turns 4) (fun e => if e = 2 then [] else [e.val]) := by
  have isReturned : ((initial (fun e => if e = 2 then [] else [e.val]) 0).afterAll (turns 4)
      (overlook 0 1 2 : List (ProgramEvent 2))).map (fun next =>
        ((next.ring 0).location, (turns 4).precondition 1 next.components)) =
          some (.returned, true) := by
    decide +kernel
  obtain ⟨next, runs, isEnd⟩ := Option.map_eq_some_iff.mp isReturned
  obtain ⟨isLocation, isEnabled⟩ := Prod.mk.inj isEnd
  refine ⟨next, runs, isLocation, fun isQuiet => ?_⟩
  have notEnabled := (isQuiet 1).1 1 (List.mem_singleton_self 1)
  rw [isEnabled] at notEnabled
  cases notEnabled

end ProgramRing

end Rcgo.Scheduler
