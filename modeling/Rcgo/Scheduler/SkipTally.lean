import Rcgo.Scheduler.ExecutorRing

/-!
# What the steps of an executor do to its points

Each task of an executor carries the generation of its last execution, and the points
are to count those that were last skipped in the current generation.
-/

namespace Rcgo.Scheduler.Executor

variable {ι : Type}

/-- The tasks that the executor is executing or about to resume. -/
def inHand (e : Executor ι) : List Nat :=
  match e.location with
  | .taken (some task) _ => [task]
  | .executing task => [task]
  | _ => []

def places (e : Executor ι) : List Nat :=
  e.idle ++ e.suspended ++ e.ready ++ e.inHand

/-- The states in which tasks are executed and counted. -/
def isCounting (e : Executor ι) : Bool :=
  match e.state with
  | .normal | .shootDown | .doubleCheck => true
  | _ => false

/-- What a result does to the points where it does not end the phase. -/
def tally (points : SizeT) : ExecutionResult → SizeT
  | .firstSkip => points + 1
  | .firstHit => points - 1
  | _ => points

/-- What a step does to the points. -/
inductive Tally (e next : Executor ι) : Prop where
  | still (generation : next.generation = e.generation) (records : next.records = e.records)
      (points : next.points = e.points)
      (counts : next.state ≠ .wait1 → next.state ≠ .wait2 → e.state ≠ .wait1 ∧ e.state ≠ .wait2)
  | executed {task : Nat} (hit : Bool) (held : task ∈ e.inHand)
      (generation : next.generation = e.generation)
      (records : next.records =
        Function.update e.records task ((e.records task).execute e.generation hit).2)
      (points : e.state ≠ .wait1 → e.state ≠ .wait2 →
        next.points = tally e.points ((e.records task).execute e.generation hit).1)
      (state : next.state = e.state)
  | renewed (generation : next.generation = e.generation + 1) (points : next.points = 0)
      (stamps : ∀ task, (next.records task).generation = (e.records task).generation ∨
        (next.records task).generation = e.generation)

theorem execute_snd (record : ExecutionRecord) (generation : SizeT) (hit : Bool) :
    (record.execute generation hit).2 = ⟨if hit then .hit else .skip, generation⟩ := by
  obtain ⟨kind, stamp⟩ := record
  unfold ExecutionRecord.execute
  by_cases same : generation = stamp
  · cases kind <;> cases hit <;> simp [same]
  · cases kind <;> cases hit <;> simp [same]

theorem tally_execute (points : SizeT) (record : ExecutionRecord) (generation : SizeT)
    (hit : Bool) :
    tally points (record.execute generation hit).1 +
        (if record = ⟨.skip, generation⟩ then 1 else 0) =
      points + if (record.execute generation hit).2 = ⟨.skip, generation⟩ then 1 else 0 := by
  rw [execute_snd]
  obtain ⟨kind, stamp⟩ := record
  unfold ExecutionRecord.execute
  by_cases same : generation = stamp
  · cases kind <;> cases hit <;> simp [same, tally, BitVec.sub_add_cancel]
  · cases kind <;> cases hit <;> simp [same, tally, Ne.symm same]

/-! ## The steps -/

variable {e next : Executor ι} {sent : Option (Message ι)}

theorem records_complete (e : Executor ι) (task : Nat) (hit : Bool) (checked : List Nat) :
    (e.complete task hit checked).1.records =
      Function.update e.records task ((e.records task).execute e.generation hit).2 := by
  funext other
  rw [Function.update_apply]
  rfl

theorem stamp_complete (e : Executor ι) (task : Nat) (hit : Bool) (checked : List Nat)
    (other : Nat) :
    ((e.complete task hit checked).1.records other).generation = (e.records other).generation ∨
      ((e.complete task hit checked).1.records other).generation = e.generation := by
  rw [records_complete]
  by_cases isTask : other = task
  · rw [isTask, Function.update_self, execute_snd]
    exact Or.inr rfl
  · rw [Function.update_of_ne isTask]
    exact Or.inl rfl

theorem tally_of_ne {result : ExecutionResult} (points : SizeT) (notSkip : result ≠ .firstSkip)
    (notHit : result ≠ .firstHit) : tally points result = points := by
  cases result with
  | firstSkip => exact absurd rfl notSkip
  | firstHit => exact absurd rfl notHit
  | _ => rfl

theorem count_points (e : Executor ι) (result : ExecutionResult) :
    (e.count result).1.records = e.records ∧
      ((e.count result).1.generation = e.generation ∧ (e.count result).1.state = e.state ∧
          (e.isCounting = true → (e.count result).1.points = tally e.points result) ∨
        (e.count result).1.generation = e.generation + 1 ∧ (e.count result).1.points = 0) := by
  unfold count
  split
  · split
    · exact ⟨rfl, Or.inl ⟨rfl, rfl, fun _ => rfl⟩⟩
    · exact ⟨rfl, Or.inl ⟨rfl, rfl, fun _ => rfl⟩⟩
    · next notSkip notHit =>
        exact ⟨rfl, Or.inl ⟨rfl, rfl, fun _ => (tally_of_ne _ notSkip notHit).symm⟩⟩
  · split
    · exact ⟨rfl, Or.inl ⟨rfl, rfl, fun _ => rfl⟩⟩
    · exact ⟨rfl, Or.inr ⟨rfl, rfl⟩⟩
    · exact ⟨rfl, Or.inr ⟨rfl, rfl⟩⟩
    · next notSkip _ notHit =>
        exact ⟨rfl, Or.inl ⟨rfl, rfl, fun _ => (tally_of_ne _ notSkip notHit).symm⟩⟩
  · split
    · exact ⟨rfl, Or.inl ⟨rfl, rfl, fun _ => rfl⟩⟩
    · exact ⟨rfl, Or.inr ⟨rfl, rfl⟩⟩
    · exact ⟨rfl, Or.inr ⟨rfl, rfl⟩⟩
    · next notSkip _ notHit =>
        exact ⟨rfl, Or.inl ⟨rfl, rfl, fun _ => (tally_of_ne _ notSkip notHit).symm⟩⟩
  · next notNormal notShootDown notDoubleCheck =>
      refine ⟨rfl, Or.inl ⟨rfl, rfl, fun counting => ?_⟩⟩
      rw [isCounting] at counting
      split at counting
      · next isNormal => exact absurd isNormal notNormal
      · next isShootDown => exact absurd isShootDown notShootDown
      · next isDoubleCheck => exact absurd isDoubleCheck notDoubleCheck
      · cases counting

theorem isCounting_of_ne (notWait1 : e.state ≠ .wait1) (notWait2 : e.state ≠ .wait2)
    (notPoll : e.state ≠ .poll) : e.isCounting = true := by
  rw [isCounting]
  cases isState : e.state with
  | wait1 => exact absurd isState notWait1
  | wait2 => exact absurd isState notWait2
  | poll => exact absurd isState notPoll
  | _ => rfl

/-- A task is executed; an action ends `SHOOT_DOWN` and `DOUBLE_CHECK`. -/
theorem tally_executed {task : Nat} (held : task ∈ e.inHand) (notPoll : e.state ≠ .poll)
    (hit : Bool) (checked : List Nat) (location : Location ι) :
    Tally e
      { ((e.complete task hit checked).1.count (e.complete task hit checked).2).1 with
        location := location } := by
  obtain ⟨isRecords, counted | begins⟩ :=
    count_points (e.complete task hit checked).1 (e.complete task hit checked).2
  · refine .executed hit held counted.1 (isRecords.trans (records_complete e task hit checked)) ?_
      counted.2.1
    intro notWait1 notWait2
    exact counted.2.2 (isCounting_of_ne (e := e) notWait1 notWait2 notPoll)
  · refine .renewed begins.1 begins.2 fun other => ?_
    have isStamp := stamp_complete e task hit checked other
    rwa [← isRecords] at isStamp

theorem tally_handle [DecidableEq ι] (message : Message ι) : Tally e (e.handle message).1 := by
  have renews : ∀ next : Executor ι, next.generation = e.generation + 1 → next.points = 0 →
      next.records = e.records → Tally e next :=
    fun next isGeneration isPoints isRecords =>
      .renewed isGeneration isPoints fun task => Or.inl (by rw [isRecords])
  have stays : ∀ next : Executor ι, next.generation = e.generation → next.points = e.points →
      next.records = e.records → next.state = e.state → Tally e next :=
    fun next isGeneration isPoints isRecords isState =>
      .still isGeneration isRecords isPoints fun notWait1 notWait2 =>
        ⟨isState ▸ notWait1, isState ▸ notWait2⟩
  cases message with
  | startShootDown id =>
      rw [handle]
      dsimp only
      split
      · exact renews _ rfl rfl rfl
      · exact stays _ rfl rfl rfl rfl
  | startWaiting1 id =>
      rw [handle]
      dsimp only
      split
      · split
        · exact stays _ rfl rfl rfl rfl
        · exact renews _ rfl rfl rfl
      · exact stays _ rfl rfl rfl rfl
  | startDoubleCheck id =>
      rw [handle]
      dsimp only
      split
      · exact renews _ rfl rfl rfl
      · exact stays _ rfl rfl rfl rfl
  | startWaiting2 id =>
      rw [handle]
      dsimp only
      split
      · split
        · exact stays _ rfl rfl rfl rfl
        · exact stays _ rfl rfl rfl rfl
      · exact stays _ rfl rfl rfl rfl
  | terminate =>
      rw [handle]
      dsimp only
      split
      · exact stays _ rfl rfl rfl rfl
      · exact stays _ rfl rfl rfl rfl
  | reset id =>
      rw [handle]
      dsimp only
      split
      · exact renews _ rfl rfl rfl
      · exact stays _ rfl rfl rfl rfl

theorem tally_proceed (e : Executor ι) : Tally e e.proceed.1 := by
  have renews : ∀ next : Executor ι, next.generation = e.generation + 1 → next.points = 0 →
      next.records = e.records → Tally e next :=
    fun next isGeneration isPoints isRecords =>
      .renewed isGeneration isPoints fun task => Or.inl (by rw [isRecords])
  have stays : ∀ next : Executor ι, next.generation = e.generation → next.points = e.points →
      next.records = e.records →
      (next.state ≠ .wait1 → next.state ≠ .wait2 → e.state ≠ .wait1 ∧ e.state ≠ .wait2) →
      Tally e next :=
    fun next isGeneration isPoints isRecords counts => .still isGeneration isRecords isPoints counts
  rw [proceed]
  split
  · split
    · exact renews _ rfl rfl rfl
    · exact stays _ rfl rfl rfl fun notWait1 _ => absurd rfl notWait1
    · exact stays _ rfl rfl rfl fun notWait1 notWait2 => ⟨notWait1, notWait2⟩
    · next isState =>
        split
        · exact stays _ rfl rfl rfl fun _ notWait2 => absurd rfl notWait2
        · exact stays _ rfl rfl rfl fun _ _ =>
            ⟨isState ▸ (by rintro ⟨⟩), isState ▸ (by rintro ⟨⟩)⟩
    · exact stays _ rfl rfl rfl fun notWait1 notWait2 => ⟨notWait1, notWait2⟩
    · exact stays _ rfl rfl rfl fun notWait1 notWait2 => ⟨notWait1, notWait2⟩
  · split
    · exact stays _ rfl rfl rfl fun notWait1 notWait2 => ⟨notWait1, notWait2⟩
    · split
      · exact stays _ rfl rfl rfl fun notWait1 notWait2 => ⟨notWait1, notWait2⟩
      · exact stays _ rfl rfl rfl fun notWait1 notWait2 => ⟨notWait1, notWait2⟩
      · exact stays _ rfl rfl rfl fun notWait1 notWait2 => ⟨notWait1, notWait2⟩
      · exact stays _ rfl rfl rfl fun notWait1 notWait2 => ⟨notWait1, notWait2⟩

/-- A task of the idle list is not executed in `POLL`. -/
def Executes (e : Executor ι) : Prop :=
  ∀ task, e.location = .executing task → e.state ≠ .poll

theorem tally_ownStep [DecidableEq ι] (own : OwnStep e next sent) (executes : e.Executes)
    (polls : e.location = .polling → e.state = .poll) : Tally e next := by
  have moves : ∀ next : Executor ι, next.generation = e.generation → next.points = e.points →
      next.records = e.records → next.state = e.state → Tally e next :=
    fun next isGeneration isPoints isRecords isState =>
      .still isGeneration isRecords isPoints fun notWait1 notWait2 =>
        ⟨isState ▸ notWait1, isState ▸ notWait2⟩
  cases own with
  | get _ => exact moves _ rfl rfl rfl rfl
  | straggle _ _ => exact moves _ rfl rfl rfl rfl
  | resumeBlocked _ _ => exact moves _ rfl rfl rfl rfl
  | @resume task message hit checked isLocation isState =>
      have held : task ∈ e.inHand := by
        rw [inHand, isLocation]
        exact List.mem_singleton_self task
      exact tally_executed held isState hit checked _
  | handle _ => exact tally_handle _
  | proceed _ => exact tally_proceed e
  | executeBlocked _ => exact moves _ rfl rfl rfl rfl
  | @execute task hit checked isLocation =>
      have held : task ∈ e.inHand := by
        rw [inHand, isLocation]
        exact List.mem_singleton_self task
      exact tally_executed held (executes task isLocation) hit checked _
  | enterPoll _ => exact moves _ rfl rfl rfl rfl
  | sleep _ => exact moves _ rfl rfl rfl rfl
  | wakeUp _ => exact moves _ rfl rfl rfl rfl
  | polled _ _ => exact moves _ rfl rfl rfl rfl
  | fileReady isLocation _ =>
      exact .still rfl rfl rfl fun _ _ =>
        ⟨polls isLocation ▸ (by rintro ⟨⟩), polls isLocation ▸ (by rintro ⟨⟩)⟩
  | leavePoll _ => exact moves _ rfl rfl rfl rfl
  | announce _ => exact .renewed rfl rfl fun _ => Or.inl rfl

theorem executes_of_location (notExecuting : ∀ task, e.location ≠ .executing task) :
    e.Executes :=
  fun task isLocation => absurd isLocation (notExecuting task)

theorem behindTask_ne_executing (message : Option (Message ι)) (task : Nat) :
    behindTask message ≠ .executing task := by
  cases message with
  | none => rintro ⟨⟩
  | some message => rintro ⟨⟩

theorem executes_proceed (e : Executor ι) : e.proceed.1.Executes := by
  rw [proceed]
  split
  · split
    · exact executes_of_location (by rintro _ ⟨⟩)
    · exact executes_of_location (by rintro _ ⟨⟩)
    · exact executes_of_location (by rintro _ ⟨⟩)
    · split <;> exact executes_of_location (by rintro _ ⟨⟩)
    · exact executes_of_location (by rintro _ ⟨⟩)
    · exact executes_of_location (by rintro _ ⟨⟩)
  · split
    · exact executes_of_location (by rintro _ ⟨⟩)
    · split
      · next isState => exact fun _ _ => isState ▸ (by rintro ⟨⟩)
      · next isState => exact fun _ _ => isState ▸ (by rintro ⟨⟩)
      · next isState => exact fun _ _ => isState ▸ (by rintro ⟨⟩)
      · exact executes_of_location (by rintro _ ⟨⟩)

theorem executes_ownStep [DecidableEq ι] (own : OwnStep e next sent) : next.Executes := by
  cases own with
  | get _ =>
      apply executes_of_location
      intro task
      rw [getReadyTaskAndMessage]
      dsimp only
      split
      · rintro ⟨⟩
      · rintro ⟨⟩
  | resumeBlocked _ _ => exact executes_of_location (behindTask_ne_executing _)
  | resume _ _ _ _ => exact executes_of_location (behindTask_ne_executing _)
  | @handle message _ =>
      apply executes_of_location
      intro task isExecuting
      rcases (handle_spec e message).2.2 with isNext | isNext | isNext <;>
        rw [isNext] at isExecuting <;> cases isExecuting
  | proceed _ => exact executes_proceed e
  | sleep _ =>
      apply executes_of_location
      intro task
      rw [sleep]
      dsimp only
      split
      · rintro ⟨⟩
      · rintro ⟨⟩
  | _ => exact executes_of_location (by rintro _ ⟨⟩)

/-! ## The tasks stay where they belong -/

theorem mem_places {task : Nat} :
    task ∈ e.places ↔ task ∈ e.idle ∨ task ∈ e.suspended ∨ task ∈ e.ready ∨ task ∈ e.inHand := by
  rw [places, List.mem_append, List.mem_append, List.mem_append, or_assoc, or_assoc]

theorem inHand_behindTask {message : Option (Message ι)}
    (isLocation : e.location = behindTask message) : e.inHand = [] := by
  rw [inHand, isLocation]
  cases message with
  | none => rfl
  | some message => rfl

theorem count_lists (e : Executor ι) (result : ExecutionResult) :
    (e.count result).1.idle = e.idle ∧ (e.count result).1.suspended = e.suspended := by
  unfold count
  split
  · split <;> exact ⟨rfl, rfl⟩
  · split <;> exact ⟨rfl, rfl⟩
  · split <;> exact ⟨rfl, rfl⟩
  · exact ⟨rfl, rfl⟩

theorem handle_lists [DecidableEq ι] (e : Executor ι) (message : Message ι) :
    (e.handle message).1.idle = e.idle ∧ (e.handle message).1.suspended = e.suspended ∧
      (e.handle message).1.records = e.records := by
  cases message with
  | startWaiting1 id =>
      rw [handle]
      dsimp only
      split
      · split <;> exact ⟨rfl, rfl, rfl⟩
      · exact ⟨rfl, rfl, rfl⟩
  | startWaiting2 id =>
      rw [handle]
      dsimp only
      split
      · split <;> exact ⟨rfl, rfl, rfl⟩
      · exact ⟨rfl, rfl, rfl⟩
  | _ =>
      rw [handle]
      dsimp only
      split <;> exact ⟨rfl, rfl, rfl⟩

theorem places_subset (isIdle : next.idle ⊆ e.places) (isSuspended : next.suspended ⊆ e.suspended)
    (isReady : next.ready ⊆ e.ready) (isInHand : next.inHand ⊆ e.places) :
    next.places ⊆ e.places := by
  intro task isPlace
  rcases mem_places.mp isPlace with inIdle | inSuspended | inReady | held
  · exact isIdle inIdle
  · exact mem_places.mpr (Or.inr (Or.inl (isSuspended inSuspended)))
  · exact mem_places.mpr (Or.inr (Or.inr (Or.inl (isReady inReady))))
  · exact isInHand held

theorem idle_subset_places (e : Executor ι) : e.idle ⊆ e.places :=
  fun _ inIdle => mem_places.mpr (Or.inl inIdle)

theorem inHand_subset_places (e : Executor ι) : e.inHand ⊆ e.places :=
  fun _ held => mem_places.mpr (Or.inr (Or.inr (Or.inr held)))

theorem places_of_moved (isIdle : next.idle = e.idle) (isSuspended : next.suspended = e.suspended)
    (isReady : next.ready = e.ready) (isInHand : next.inHand = []) : next.places ⊆ e.places :=
  places_subset (isIdle ▸ e.idle_subset_places) (isSuspended ▸ List.Subset.refl _)
    (isReady ▸ List.Subset.refl _) (isInHand ▸ List.nil_subset _)

theorem places_blocked {task : Nat} {location : Location ι} (held : task ∈ e.inHand)
    (isInHand : Executor.inHand { e.block task with location := location } = []) :
    ({ e.block task with location := location } : Executor ι).places ⊆ e.places := by
  intro other isPlace
  rcases mem_places.mp isPlace with inIdle | inSuspended | inReady | holds
  · exact e.idle_subset_places inIdle
  · rcases List.mem_append.mp inSuspended with inSuspended | isTask
    · exact mem_places.mpr (Or.inr (Or.inl inSuspended))
    · rw [List.mem_singleton.mp isTask]
      exact e.inHand_subset_places held
  · exact mem_places.mpr (Or.inr (Or.inr (Or.inl inReady)))
  · rw [isInHand] at holds
    exact absurd holds List.not_mem_nil

theorem places_executed {task : Nat} (held : task ∈ e.inHand) (hit : Bool) (checked : List Nat)
    {location : Location ι}
    (isInHand : Executor.inHand
      { ((e.complete task hit checked).1.count (e.complete task hit checked).2).1 with
        location := location } = []) :
    ({ ((e.complete task hit checked).1.count (e.complete task hit checked).2).1 with
        location := location } : Executor ι).places ⊆ e.places := by
  have lists := count_lists (e.complete task hit checked).1 (e.complete task hit checked).2
  have same := (count_spec (e.complete task hit checked).1 (e.complete task hit checked).2).1
  refine places_subset ?_ (lists.2 ▸ List.Subset.refl _) (same.ready ▸ List.Subset.refl _)
    (isInHand ▸ List.nil_subset _)
  intro other inIdle
  have inIdle : other ∈ (e.complete task hit checked).1.idle := lists.1 ▸ inIdle
  rcases List.mem_append.mp inIdle with inIdle | isTask
  · exact e.idle_subset_places inIdle
  · rw [List.mem_singleton.mp isTask]
    exact e.inHand_subset_places held

theorem places_get (e : Executor ι) : e.getReadyTaskAndMessage.places ⊆ e.places := by
  refine places_subset e.idle_subset_places (List.Subset.refl _) (fun _ => List.mem_of_mem_tail) ?_
  intro task held
  rw [inHand, getReadyTaskAndMessage] at held
  dsimp only at held
  split at held
  · next first message isLocation =>
      split at isLocation
      · cases isLocation
      · injection isLocation with isFirst _
        rw [List.mem_singleton.mp held]
        exact mem_places.mpr (Or.inr (Or.inr (Or.inl (List.mem_of_head? isFirst))))
  · next isLocation =>
      split at isLocation <;> cases isLocation
  · exact absurd held List.not_mem_nil

theorem places_proceed (e : Executor ι) : e.proceed.1.places ⊆ e.places := by
  rw [proceed]
  split
  · split
    · exact places_of_moved rfl rfl rfl rfl
    · exact places_of_moved rfl rfl rfl rfl
    · exact places_of_moved rfl rfl rfl rfl
    · split <;> exact places_of_moved rfl rfl rfl rfl
    · exact places_of_moved rfl rfl rfl rfl
    · exact places_of_moved rfl rfl rfl rfl
  · split
    · exact places_of_moved rfl rfl rfl rfl
    · next task rest isIdle =>
        have inIdle : task :: rest ⊆ e.places := isIdle ▸ e.idle_subset_places
        have isRest : rest ⊆ e.places := fun _ inRest => inIdle (List.mem_cons_of_mem task inRest)
        have isTask : [task] ⊆ e.places := by
          intro other isOther
          rw [List.mem_singleton.mp isOther]
          exact inIdle List.mem_cons_self
        split
        · exact places_subset isRest (List.Subset.refl _) (List.Subset.refl _) isTask
        · exact places_subset isRest (List.Subset.refl _) (List.Subset.refl _) isTask
        · exact places_subset isRest (List.Subset.refl _) (List.Subset.refl _) isTask
        · exact places_subset isRest (List.Subset.refl _) (List.Subset.refl _) (List.nil_subset _)

theorem places_ownStep [DecidableEq ι] (own : OwnStep e next sent) : next.places ⊆ e.places := by
  have isHeld : ∀ {task : Nat}, e.inHand = [task] → task ∈ e.inHand :=
    fun isHand => isHand ▸ List.mem_singleton_self _
  cases own with
  | get _ => exact places_get e
  | straggle _ _ => exact places_of_moved rfl rfl rfl rfl
  | resumeBlocked isLocation _ =>
      exact places_blocked (isHeld (by rw [inHand, isLocation])) (inHand_behindTask rfl)
  | resume hit checked isLocation _ =>
      exact places_executed (isHeld (by rw [inHand, isLocation])) hit checked
        (inHand_behindTask rfl)
  | @handle message _ =>
      have lists := handle_lists e message
      refine places_of_moved lists.1 lists.2.1 (handle_spec e message).1.ready ?_
      rw [inHand]
      rcases (handle_spec e message).2.2 with isNext | isNext | isNext <;> rw [isNext]
  | proceed _ => exact places_proceed e
  | executeBlocked isLocation =>
      exact places_blocked (isHeld (by rw [inHand, isLocation])) rfl
  | execute hit checked isLocation =>
      exact places_executed (isHeld (by rw [inHand, isLocation])) hit checked rfl
  | sleep _ =>
      refine places_of_moved rfl rfl rfl ?_
      rw [inHand, sleep]
      by_cases isEmpty : e.ready = [] ∧ e.mailbox = []
      · rw [if_pos isEmpty]
      · rw [if_neg isEmpty]
  | _ => exact places_of_moved rfl rfl rfl rfl

end Rcgo.Scheduler.Executor
