import Rcgo.Scheduler.SkipCounting
import Rcgo.Scheduler.StuckRounds

/-!
# The stages behind `WAIT1`

An executor goes from `WAIT1` to `DOUBLE_CHECK` with a new generation and from there to
`WAIT2` with all points.  In `WAIT2` it rests if no lock holds back one of its tasks.
-/

namespace Rcgo.Scheduler.Executor

variable {ι : Type} {e next : Executor ι} {sent : Option (Message ι)}

/-- How an executor comes to the states behind `WAIT1`. -/
inductive Stage (e next : Executor ι) : Prop where
  | before (notLate : next.state.phase ≠ .late)
  | begins (origin : ι) (wasWaiting : e.state = .wait1) (leads : e.LeadsOn origin)
      (isState : next.state = .doubleCheck) (generation : next.generation = e.generation + 1)
      (points : next.points = 0) (records : next.records = e.records)
  | launches (wasState : e.state = .doubleCheck) (isLocation : e.location = .deciding)
      (isPoints : e.points = e.taskCount) (noDescriptors : e.fileDescriptorMap = [])
      (isNext : next = { e with state := .wait2, location := .loop })
  | polls (isState : next.state = .poll) (watches : e.fileDescriptorMap ≠ [])
  | stays (isState : next.state = e.state) (generation : next.generation = e.generation)

/-- The executor has no task but those of its idle list. -/
structure Rests (e : Executor ι) : Prop where
  suspended : e.suspended = []
  ready : e.ready = []
  inHand : e.inHand = []

/-! ## Results -/

/-- The result changes the points, or the executor goes back to `NORMAL`. -/
theorem count_eq (e : Executor ι) (result : ExecutionResult) :
    (∃ points, e.count result = ({ e with points := points }, none)) ∨
      e.count result = (e.backToNormal, some (.reset e.id)) := by
  unfold count
  split
  · split
    · exact Or.inl ⟨_, rfl⟩
    · exact Or.inl ⟨_, rfl⟩
    · exact Or.inl ⟨e.points, rfl⟩
  · split
    · exact Or.inl ⟨_, rfl⟩
    · exact Or.inr rfl
    · exact Or.inr rfl
    · exact Or.inl ⟨e.points, rfl⟩
  · split
    · exact Or.inl ⟨_, rfl⟩
    · exact Or.inr rfl
    · exact Or.inr rfl
    · exact Or.inl ⟨e.points, rfl⟩
  · exact Or.inl ⟨e.points, rfl⟩

theorem execute_fst_of_hit (record : ExecutionRecord) (generation : SizeT) :
    (record.execute generation true).1 = .hit ∨ (record.execute generation true).1 = .firstHit := by
  unfold ExecutionRecord.execute
  dsimp only
  split
  · exact Or.inl rfl
  · next isFalse =>
      cases isFalse
  · exact Or.inr rfl
  · next isFalse =>
      cases isFalse

/-- An action that is executed in `SHOOT_DOWN` or `DOUBLE_CHECK` resets the others. -/
theorem count_of_hit {result : ExecutionResult} (isHit : result = .hit ∨ result = .firstHit)
    (raises : e.state = .shootDown ∨ e.state = .doubleCheck) :
    e.count result = (e.backToNormal, some (.reset e.id)) := by
  unfold count
  rcases raises with isState | isState <;> rcases isHit with isResult | isResult <;>
    rw [isState, isResult]

theorem step_executed [DecidableEq ι] {hit : Bool} {checked : List Nat}
    (steps : e.step (.executed hit checked) = some (next, sent)) :
    ∃ task location, e.inHand = [task] ∧
      next = { ((e.complete task hit checked).1.count (e.complete task hit checked).2).1 with
        location := location } ∧
      sent = ((e.complete task hit checked).1.count (e.complete task hit checked).2).2 := by
  unfold step at steps
  split at steps
  case h_2 task message isLocation =>
    split at steps
    · cases steps
    · cases steps
      exact ⟨task, _, by rw [inHand, isLocation], rfl, rfl⟩
  case h_6 task _ _ isLocation isChoice =>
    cases isChoice
    cases steps
    exact ⟨task, _, by rw [inHand, isLocation], rfl, rfl⟩
  all_goals contradiction

theorem step_of_hit [DecidableEq ι] {checked : List Nat}
    (steps : e.step (.executed true checked) = some (next, sent))
    (raises : e.state = .shootDown ∨ e.state = .doubleCheck) :
    next.state = .normal ∧ sent = some (.reset e.id) := by
  obtain ⟨task, location, _, isNext, isSent⟩ := step_executed steps
  have counted := count_of_hit (e := (e.complete task true checked).1)
    (execute_fst_of_hit (e.records task) e.generation) raises
  rw [isNext, isSent]
  exact ⟨congrArg (fun counted => counted.1.state) counted, congrArg Prod.snd counted⟩

theorem descriptors_handle [DecidableEq ι] (message : Message ι)
    (noDescriptors : e.fileDescriptorMap = []) : (e.handle message).1.fileDescriptorMap = [] := by
  cases message with
  | startWaiting1 id =>
      rw [handle]
      dsimp only
      split
      · split
        · exact noDescriptors
        · rfl
      · exact noDescriptors
  | startDoubleCheck id =>
      rw [handle]
      dsimp only
      split
      · rfl
      · exact noDescriptors
  | startWaiting2 id =>
      rw [handle]
      dsimp only
      split
      · split <;> exact noDescriptors
      · exact noDescriptors
  | _ =>
      rw [handle]
      dsimp only
      split <;> exact noDescriptors

theorem descriptors_proceed (e : Executor ι) :
    e.proceed.1.fileDescriptorMap = e.fileDescriptorMap := by
  rw [proceed]
  split
  · split
    · rfl
    · rfl
    · rfl
    · split <;> rfl
    · rfl
    · rfl
  · split
    · rfl
    · split <;> rfl

theorem descriptors_executed (task : Nat) (hit : Bool) (noDescriptors : e.fileDescriptorMap = []) :
    ((e.complete task hit []).1.count (e.complete task hit []).2).1.fileDescriptorMap = [] := by
  have isSame : (e.complete task hit []).1.fileDescriptorMap = [] := by
    rw [complete, checkDescriptors]
    dsimp only
    rw [noDescriptors, List.append_nil, ite_self]
  rcases count_eq (e.complete task hit []).1 (e.complete task hit []).2 with
    ⟨points, counted⟩ | counted
  · rw [counted]
    exact isSame
  · rw [counted]
    exact isSame

theorem descriptors_step [DecidableEq ι] {choice : Choice}
    (steps : e.step choice = some (next, sent))
    (checksNone : ∀ hit checked, choice = .executed hit checked → checked = [])
    (noDescriptors : e.fileDescriptorMap = []) : next.fileDescriptorMap = [] := by
  unfold step at steps
  split at steps
  case h_2 task message isLocation =>
    split at steps
    · split at steps
      · cases steps
        exact noDescriptors
      · cases steps
    · split at steps
      · cases steps
        exact noDescriptors
      · next hit checked =>
          cases steps
          rw [checksNone hit checked rfl]
          exact descriptors_executed task hit noDescriptors
      · cases steps
  case h_3 message isLocation =>
    have isNext : (e.handle message).1 = next := congrArg Prod.fst (Option.some.inj steps)
    rw [← isNext]
    exact descriptors_handle message noDescriptors
  case h_4 isLocation =>
    have isNext : e.proceed.1 = next := congrArg Prod.fst (Option.some.inj steps)
    rw [← isNext]
    exact (descriptors_proceed e).trans noDescriptors
  case h_6 task hit checked isLocation =>
    cases steps
    rw [checksNone hit checked rfl]
    exact descriptors_executed task hit noDescriptors
  case h_11 =>
    split at steps
    · cases steps
      exact noDescriptors
    · cases steps
  case h_12 =>
    rw [if_pos noDescriptors] at steps
    cases steps
  case h_15 => cases steps
  all_goals
    cases steps
    exact noDescriptors

/-! ## Stages -/

theorem stage_executed (task : Nat) (hit : Bool) (checked : List Nat) (location : Location ι) :
    Stage e
      { ((e.complete task hit checked).1.count (e.complete task hit checked).2).1 with
        location := location } := by
  rcases count_eq (e.complete task hit checked).1 (e.complete task hit checked).2 with
    ⟨points, counted⟩ | counted
  · rw [counted]
    exact .stays rfl rfl
  · rw [counted]
    exact .before (by rintro ⟨⟩)

theorem stage_proceed (isLocation : e.location = .deciding) : Stage e e.proceed.1 := by
  rw [proceed]
  split
  · next isPoints =>
      split
      · exact .before (by rintro ⟨⟩)
      · exact .before (by rintro ⟨⟩)
      · exact .stays rfl rfl
      · next isState =>
          split
          · next noDescriptors => exact .launches isState isLocation isPoints noDescriptors rfl
          · next watches => exact .polls rfl watches
      · exact .stays rfl rfl
      · exact .stays rfl rfl
  · split
    · exact .stays rfl rfl
    · split <;> exact .stays rfl rfl

variable [DecidableEq ι]

theorem stage_handle {message : Message ι} (isLocation : e.location = .taken none (some message)) :
    Stage e (e.handle message).1 := by
  cases message with
  | startShootDown id =>
      rw [handle]
      dsimp only
      split
      · exact .before (by rintro ⟨⟩)
      · exact .stays rfl rfl
  | startWaiting1 id =>
      rw [handle]
      dsimp only
      split
      · next isWait1 =>
          split
          · exact .stays rfl rfl
          · next isSame =>
              rw [not_not.mp isSame] at isLocation
              exact .begins e.id isWait1 (Or.inl ⟨isLocation, rfl⟩) rfl rfl rfl rfl
      · exact .stays rfl rfl
  | startDoubleCheck id =>
      rw [handle]
      dsimp only
      split
      · next joins =>
          exact .begins id joins.2 (Or.inr ⟨isLocation, joins.1⟩) rfl rfl rfl rfl
      · exact .stays rfl rfl
  | startWaiting2 id =>
      rw [handle]
      dsimp only
      split
      · split <;> exact .stays rfl rfl
      · exact .stays rfl rfl
  | terminate =>
      rw [handle]
      dsimp only
      split <;> exact .stays rfl rfl
  | reset id =>
      rw [handle]
      dsimp only
      split
      · exact .before (by rintro ⟨⟩)
      · exact .stays rfl rfl

theorem stage_ownStep (own : OwnStep e next sent) : Stage e next := by
  cases own with
  | resume hit checked _ _ => exact stage_executed _ hit checked _
  | execute hit checked _ => exact stage_executed _ hit checked _
  | handle isLocation => exact stage_handle isLocation
  | proceed isLocation => exact stage_proceed isLocation
  | fileReady _ _ => exact .before (by rintro ⟨⟩)
  | announce _ => exact .before (by rintro ⟨⟩)
  | _ => exact .stays rfl rfl

omit [DecidableEq ι] in
theorem Stage.not_poll (stage : Stage e next) (noDescriptors : e.fileDescriptorMap = [])
    (notPoll : e.state ≠ .poll) : next.state ≠ .poll := by
  intro isPoll
  cases stage with
  | before notLate =>
      rw [isPoll] at notLate
      exact notLate rfl
  | begins _ _ _ isState _ _ _ =>
      have := isPoll.symm.trans isState
      cases this
  | launches _ _ _ _ isNext =>
      rw [isNext] at isPoll
      cases isPoll
  | polls _ watches => exact watches noDescriptors
  | stays isState _ => exact notPoll (isState.symm.trans isPoll)

/-! ## Rests -/

omit [DecidableEq ι] in
theorem rests_get (rests : e.Rests) : e.getReadyTaskAndMessage.Rests where
  suspended := rests.suspended
  ready := by
    rw [getReadyTaskAndMessage, rests.ready, List.tail_nil]
  inHand := by
    rw [inHand, getReadyTaskAndMessage, rests.ready]
    dsimp only
    cases e.mailbox with
    | nil => rfl
    | cons message rest => rfl

omit [DecidableEq ι] in
theorem rests_proceed (rests : e.Rests) (counts : e.points = e.taskCount) : e.proceed.1.Rests := by
  rw [proceed, if_pos counts]
  split
  · exact ⟨rests.suspended, rests.ready, rfl⟩
  · exact ⟨rests.suspended, rests.ready, rfl⟩
  · exact ⟨rests.suspended, rests.ready, rfl⟩
  · split <;> exact ⟨rests.suspended, rests.ready, rfl⟩
  · exact ⟨rests.suspended, rests.ready, rfl⟩
  · exact ⟨rests.suspended, rests.ready, rfl⟩

theorem Rests.ownStep (rests : e.Rests) (counts : e.points = e.taskCount)
    (own : OwnStep e next sent) : next.Rests := by
  have notHeld : ∀ {task : Nat} {other : Prop}, e.inHand = [task] → other := by
    intro task other isHeld
    have := rests.inHand.symm.trans isHeld
    cases this
  cases own with
  | get _ => exact rests_get rests
  | straggle isLocation _ => exact notHeld (by rw [Executor.inHand, isLocation])
  | resumeBlocked isLocation _ => exact notHeld (by rw [Executor.inHand, isLocation])
  | resume _ _ isLocation _ => exact notHeld (by rw [Executor.inHand, isLocation])
  | @handle message _ =>
      refine ⟨(handle_lists e message).2.1.trans rests.suspended,
        (handle_spec e message).1.ready.trans rests.ready, ?_⟩
      rw [Executor.inHand]
      rcases (handle_spec e message).2.2 with isNext | isNext | isNext <;> rw [isNext]
  | proceed _ => exact rests_proceed rests counts
  | executeBlocked isLocation => exact notHeld (by rw [Executor.inHand, isLocation])
  | execute _ _ isLocation => exact notHeld (by rw [Executor.inHand, isLocation])
  | sleep _ =>
      refine ⟨rests.suspended, rests.ready, ?_⟩
      rw [Executor.inHand, sleep]
      by_cases isEmpty : e.ready = [] ∧ e.mailbox = []
      · rw [if_pos isEmpty]
      · rw [if_neg isEmpty]
  | _ => exact ⟨rests.suspended, rests.ready, rfl⟩

/-! ## Checks -/

/-- An executor that enters `WAIT2` has no task that waits for a lock or was granted it. -/
def WaitsAlone (e : Executor ι) : Prop :=
  e.location = .deciding → e.state = .doubleCheck → e.points = e.taskCount →
    e.fileDescriptorMap = [] → e.suspended = [] ∧ e.ready = []

/-- No task carries the number of the generation that begins behind `WAIT1`. -/
def BeginsAfresh (tasks : List Nat) (e : Executor ι) : Prop :=
  e.state = .wait1 → ∀ origin, e.LeadsOn origin →
    ∀ task ∈ tasks, (e.records task).generation ≠ e.generation + 1

/-- In `DOUBLE_CHECK` the points are the tasks that were last skipped in the generation,
and in `WAIT2` these are all. -/
structure Checks (tasks : List Nat) (e : Executor ι) : Prop where
  counts : e.state = .doubleCheck → e.points = BitVec.ofNat 64 (skipped tasks e)
  waits : e.state = .wait2 → e.Rests ∧ ∀ task ∈ tasks, e.records task = ⟨.skip, e.generation⟩

variable {tasks : List Nat} {choice : Choice}

theorem records_of_rests (rests : e.Rests) (steps : e.step choice = some (next, sent)) :
    next.records = e.records := by
  funext task
  have notCompleted : completedBy task ⟨e, .step choice, next⟩ = none := by
    cases choice with
    | executed hit checked =>
        rw [completedBy]
        dsimp only
        rw [rests.inHand, if_neg List.not_mem_nil]
    | _ => rfl
  rw [records_step steps task, notCompleted, Option.getD_none]

omit [DecidableEq ι] in
theorem all_skipped (owning : Owning tasks e) (fits : tasks.length < 2 ^ 64)
    (isPoints : e.points = e.taskCount) (counts : e.points = BitVec.ofNat 64 (skipped tasks e)) :
    ∀ task ∈ tasks, e.records task = ⟨.skip, e.generation⟩ := by
  have isLength : skipped tasks e = tasks.length := by
    apply Foundation.serial_injective ((Foundation.countMarked_le _ _ _).trans_lt fits) fits
    exact (counts.symm.trans isPoints).trans owning.taskCount
  intro task isTask
  exact of_decide_eq_true (List.countP_eq_length.mp isLength task isTask)

theorem Checks.counts_step (checks : Checks tasks e) (nodup : tasks.Nodup)
    (owning : Owning tasks e) (afresh : BeginsAfresh tasks e)
    (own : OwnStep e next sent) (isState : next.state = .doubleCheck) :
    next.points = BitVec.ofNat 64 (skipped tasks next) := by
  cases stage_ownStep own with
  | before notLate =>
      rw [isState] at notLate
      exact absurd rfl notLate
  | begins origin wasWaiting leads _ generation points records =>
      have nobody : skipped tasks next = 0 := by
        apply Foundation.countMarked_eq_zero
        intro task isTask isSkip
        rw [records] at isSkip
        apply afresh wasWaiting origin leads task isTask
        rw [isSkip, generation]
      rw [nobody, points]
      rfl
  | launches _ _ _ _ isNext =>
      rw [isNext] at isState
      cases isState
  | polls isPoll _ =>
      have := isState.symm.trans isPoll
      cases this
  | stays sameState sameGeneration =>
      have counts := checks.counts (sameState.symm.trans isState)
      cases tally_ownStep own owning.executes owning.alert.polls with
      | still generation records points _ =>
          rw [points, counts, skipped, skipped, records, generation]
      | @executed task hit held generation records points _ =>
          have notWaiting : e.state ≠ .wait1 ∧ e.state ≠ .wait2 := by
            rw [← sameState, isState]
            exact ⟨by rintro ⟨⟩, by rintro ⟨⟩⟩
          exact points_executed nodup (owning.places (e.inHand_subset_places held)) counts
            generation records (points notWaiting.1 notWaiting.2)
      | renewed generation _ _ =>
          have := sameGeneration.symm.trans generation
          simp at this

theorem Checks.step (checks : Checks tasks e) (nodup : tasks.Nodup) (fits : tasks.length < 2 ^ 64)
    (owning : Owning tasks e) (orderly : e.Orderly) (alone : e.WaitsAlone)
    (afresh : BeginsAfresh tasks e) (steps : e.step choice = some (next, sent)) :
    Checks tasks next where
  counts isState := checks.counts_step nodup owning afresh (ownStep_of_step steps) isState
  waits isState := by
    cases stage_ownStep (ownStep_of_step steps) with
    | before notLate =>
        rw [isState] at notLate
        exact absurd rfl notLate
    | begins _ _ _ isDoubleCheck _ _ _ =>
        have := isState.symm.trans isDoubleCheck
        cases this
    | launches wasState isLocation isPoints noDescriptors isNext =>
        obtain ⟨noneSuspended, noneReady⟩ := alone isLocation wasState isPoints noDescriptors
        have areSkipped := all_skipped owning fits isPoints (checks.counts wasState)
        rw [isNext]
        exact ⟨⟨noneSuspended, noneReady, rfl⟩, areSkipped⟩
    | polls isPoll _ =>
        have := isState.symm.trans isPoll
        cases this
    | stays sameState sameGeneration =>
        have wasState : e.state = .wait2 := sameState.symm.trans isState
        obtain ⟨rests, areSkipped⟩ := checks.waits wasState
        refine ⟨rests.ownStep (orderly.counts (Or.inr (Or.inl wasState))) (ownStep_of_step steps), ?_⟩
        rw [records_of_rests rests steps, sameGeneration]
        exact areSkipped

/-! ## Messages and locks -/

omit [DecidableEq ι] in
theorem inHand_receive (e : Executor ι) (message : Message ι) :
    (e.receive message).inHand = e.inHand := by
  rw [receive]
  split
  · exact inHand_wake e
  · rfl

omit [DecidableEq ι] in
theorem inHand_grant (e : Executor ι) (task : Nat) : (e.grant task).inHand = e.inHand := by
  rw [grant, toReadyList]
  split
  · exact inHand_wake _
  · rfl

omit [DecidableEq ι] in
theorem descriptors_grant (e : Executor ι) (task : Nat) :
    (e.grant task).fileDescriptorMap = e.fileDescriptorMap := by
  rw [grant, toReadyList]
  split <;> rfl

omit [DecidableEq ι] in
theorem receive_same (e : Executor ι) (message : Message ι) :
    (e.receive message).state = e.state ∧ (e.receive message).records = e.records ∧
      (e.receive message).generation = e.generation ∧ (e.receive message).points = e.points ∧
      (e.receive message).suspended = e.suspended ∧ (e.receive message).ready = e.ready ∧
      (e.receive message).fileDescriptorMap = e.fileDescriptorMap := by
  rw [receive]
  split
  · exact ⟨rfl, rfl, rfl, rfl, rfl, rfl, rfl⟩
  · exact ⟨rfl, rfl, rfl, rfl, rfl, rfl, rfl⟩

omit [DecidableEq ι] in
theorem Checks.received (checks : Checks tasks e) (message : Message ι) :
    Checks tasks (e.receive message) := by
  obtain ⟨isState, isRecords, isGeneration, isPoints, isSuspended, isReady, _⟩ :=
    receive_same e message
  refine ⟨fun isDoubleCheck => ?_, fun isWait2 => ?_⟩
  · rw [isPoints, skipped, isRecords, isGeneration]
    exact checks.counts (isState.symm.trans isDoubleCheck)
  · obtain ⟨rests, areSkipped⟩ := checks.waits (isState.symm.trans isWait2)
    rw [isRecords, isGeneration]
    exact ⟨⟨isSuspended.trans rests.suspended, isReady.trans rests.ready,
      (inHand_receive e message).trans rests.inHand⟩, areSkipped⟩

omit [DecidableEq ι] in
theorem Checks.granted (checks : Checks tasks e) {task : Nat} (isSuspended : task ∈ e.suspended) :
    Checks tasks (e.grant task) := by
  have notWait2 : e.state ≠ .wait2 := by
    intro isWait2
    rw [(checks.waits isWait2).1.suspended] at isSuspended
    cases isSuspended
  rw [grant, toReadyList]
  split
  · exact ⟨checks.counts, fun isWait2 => absurd isWait2 notWait2⟩
  · exact ⟨checks.counts, fun isWait2 => absurd isWait2 notWait2⟩

theorem sent_handle {message : Message ι} (isReturned : (e.handle message).1.location = .returned) :
    (e.handle message).2 = some .terminate := by
  cases message with
  | startWaiting1 id =>
      rw [handle] at isReturned
      dsimp only at isReturned
      split at isReturned
      · split at isReturned <;> cases isReturned
      · cases isReturned
  | startWaiting2 id =>
      rw [handle] at isReturned ⊢
      dsimp only at isReturned ⊢
      split at isReturned
      · next isWait2 =>
          rw [if_pos isWait2]
          split at isReturned
          · cases isReturned
          · next isSame => rw [if_neg isSame]
      · cases isReturned
  | terminate =>
      rw [handle] at isReturned ⊢
      dsimp only at isReturned ⊢
      split at isReturned
      · next isWait2 => rw [if_pos isWait2]
      · cases isReturned
  | _ =>
      rw [handle] at isReturned
      dsimp only at isReturned
      split at isReturned <;> cases isReturned

omit [DecidableEq ι] in
theorem proceed_ne_returned (e : Executor ι) : e.proceed.1.location ≠ .returned := by
  rw [proceed]
  split
  · split
    · rintro ⟨⟩
    · rintro ⟨⟩
    · rintro ⟨⟩
    · split <;> rintro ⟨⟩
    · rintro ⟨⟩
    · rintro ⟨⟩
  · split
    · rintro ⟨⟩
    · split <;> rintro ⟨⟩

/-- An executor that returns sends `TERMINATE`. -/
theorem sent_of_returned (own : OwnStep e next sent) (isReturned : next.location = .returned) :
    sent = some .terminate := by
  have notBehindTask : ∀ message : Option (Message ι), behindTask message ≠ .returned := by
    intro message
    cases message with
    | none => rintro ⟨⟩
    | some message => rintro ⟨⟩
  cases own with
  | get _ =>
      rw [getReadyTaskAndMessage] at isReturned
      dsimp only at isReturned
      split at isReturned <;> cases isReturned
  | resumeBlocked _ _ => exact absurd isReturned (notBehindTask _)
  | resume _ _ _ _ => exact absurd isReturned (notBehindTask _)
  | handle _ => exact sent_handle isReturned
  | proceed _ => exact absurd isReturned (proceed_ne_returned e)
  | sleep _ =>
      rw [sleep] at isReturned
      dsimp only at isReturned
      split at isReturned <;> cases isReturned
  | _ => cases isReturned

end Rcgo.Scheduler.Executor
