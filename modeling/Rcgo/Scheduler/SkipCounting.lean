import Rcgo.Foundation.StampedCount
import Rcgo.Foundation.Transition
import Rcgo.Scheduler.SkipTally

/-!
# The points of an executor

In every run the points are the number of tasks that were last skipped in the current
generation, until the generations, which are machine words, wrap around.
-/

namespace Rcgo.Scheduler.Executor

open Foundation

variable {ι : Type} {e next : Executor ι} {sent : Option (Message ι)}

/-- How many of the tasks were skipped in their last execution, in this generation. -/
def skipped (tasks : List Nat) (e : Executor ι) : Nat :=
  countMarked tasks e.records ⟨.skip, e.generation⟩

/-! ## The invariant -/

/-- The points and the stamps after some changes of the generation. -/
structure Stamped (tasks : List Nat) (changes : Nat) (e : Executor ι) : Prop where
  generation : e.generation = BitVec.ofNat 64 changes
  stamps : ∀ task, ∃ stamp ≤ changes, (e.records task).generation = BitVec.ofNat 64 stamp
  points : e.state ≠ .wait1 → e.state ≠ .wait2 → e.points = BitVec.ofNat 64 (skipped tasks e)

variable {tasks : List Nat} {changes : Nat}

theorem stamped_initial (id : ι) (tasks : List Nat) : Stamped tasks 0 (initial id tasks) where
  generation := rfl
  stamps _ := ⟨0, le_rfl, rfl⟩
  points _ _ := by
    have nobody : skipped tasks (initial id tasks) = 0 :=
      countMarked_eq_zero fun _ _ => by rintro ⟨⟩
    rw [nobody]
    rfl

theorem points_executed (nodup : tasks.Nodup) {task : Nat} {hit : Bool} (isTask : task ∈ tasks)
    (counts : e.points = BitVec.ofNat 64 (skipped tasks e))
    (generation : next.generation = e.generation)
    (records : next.records =
      Function.update e.records task ((e.records task).execute e.generation hit).2)
    (points : next.points = tally e.points ((e.records task).execute e.generation hit).1) :
    next.points = BitVec.ofNat 64 (skipped tasks next) := by
  rw [skipped, generation, records]
  apply ofNat_countMarked_update nodup isTask _ counts
  rw [points]
  exact tally_execute e.points (e.records task) e.generation hit

theorem Stamped.executed (stamped : Stamped tasks changes e) (nodup : tasks.Nodup) {task : Nat}
    {hit : Bool} (isTask : task ∈ tasks) (generation : next.generation = e.generation)
    (records : next.records =
      Function.update e.records task ((e.records task).execute e.generation hit).2)
    (points : e.state ≠ .wait1 → e.state ≠ .wait2 →
      next.points = tally e.points ((e.records task).execute e.generation hit).1)
    (state : next.state = e.state) : Stamped tasks changes next where
  generation := generation.trans stamped.generation
  stamps other := by
    rw [records]
    by_cases isOther : other = task
    · rw [isOther, Function.update_self, execute_snd]
      exact ⟨changes, le_rfl, stamped.generation⟩
    · rw [Function.update_of_ne isOther]
      exact stamped.stamps other
  points notWait1 notWait2 := by
    rw [state] at notWait1 notWait2
    exact points_executed nodup isTask (stamped.points notWait1 notWait2) generation records
      (points notWait1 notWait2)

theorem Stamped.renewed (stamped : Stamped tasks changes e) (few : changes + 1 < 2 ^ 64)
    (generation : next.generation = e.generation + 1) (points : next.points = 0)
    (stamps : ∀ task, (next.records task).generation = (e.records task).generation ∨
      (next.records task).generation = e.generation) :
    Stamped tasks (changes + 1) next ∧ skipped tasks next = 0 := by
  have isGeneration : next.generation = BitVec.ofNat 64 (changes + 1) := by
    rw [generation, stamped.generation, BitVec.ofNat_add]
    rfl
  have areStamps : ∀ task, ∃ stamp ≤ changes,
      (next.records task).generation = BitVec.ofNat 64 stamp := by
    intro task
    cases stamps task with
    | inl isOld => exact isOld ▸ stamped.stamps task
    | inr isLast => exact ⟨changes, le_rfl, isLast.trans stamped.generation⟩
  have nobody : skipped tasks next = 0 := by
    apply countMarked_eq_zero
    intro task _ isCurrent
    obtain ⟨stamp, notLater, isStamp⟩ := areStamps task
    rw [isCurrent] at isStamp
    have same := serial_injective few (by omega) (isGeneration.symm.trans isStamp)
    omega
  refine ⟨⟨isGeneration, fun task => ?_, fun _ _ => ?_⟩, nobody⟩
  · obtain ⟨stamp, notLater, isStamp⟩ := areStamps task
    exact ⟨stamp, Nat.le_succ_of_le notLater, isStamp⟩
  · rw [nobody, points]
    rfl

theorem Stamped.tallied (stamped : Stamped tasks changes e) (nodup : tasks.Nodup)
    (owns : e.places ⊆ tasks) (talliedStep : Tally e next) :
    next.generation = e.generation ∧ Stamped tasks changes next ∨
      next.generation = e.generation + 1 ∧ (changes + 1 < 2 ^ 64 →
        Stamped tasks (changes + 1) next ∧ skipped tasks next = 0) := by
  cases talliedStep with
  | still generation records points counts =>
      refine Or.inl ⟨generation, generation.trans stamped.generation, ?_, ?_⟩
      · rw [records]
        exact stamped.stamps
      · intro notWait1 notWait2
        have counted := counts notWait1 notWait2
        rw [points, stamped.points counted.1 counted.2, skipped, skipped, records, generation]
  | executed hit held generation records points state =>
      exact Or.inl ⟨generation, stamped.executed nodup (owns (e.inHand_subset_places held))
        generation records points state⟩
  | renewed generation points stamps =>
      exact Or.inr ⟨generation, fun few => stamped.renewed few generation points stamps⟩

/-! ## The runs -/

/-- The executor with its tasks. -/
structure Owning (tasks : List Nat) (e : Executor ι) : Prop where
  alert : e.Alert
  executes : e.Executes
  taskCount : e.taskCount = BitVec.ofNat 64 tasks.length
  places : e.places ⊆ tasks

theorem owning_initial (id : ι) (tasks : List Nat) : Owning tasks (initial id tasks) where
  alert := alert_initial id tasks
  executes := executes_of_location (by rintro _ ⟨⟩)
  taskCount := rfl
  places := by
    intro task isPlace
    rw [mem_places] at isPlace
    simpa [initial, inHand] using isPlace

theorem inHand_wake (e : Executor ι) : e.wake.inHand = e.inHand := by
  rw [inHand, inHand, wake]
  cases e.location with
  | waiting signalled => rfl
  | _ => rfl

theorem executes_wake (executes : e.Executes) : e.wake.Executes := by
  intro task isLocation
  apply executes task
  rw [wake] at isLocation
  dsimp only at isLocation
  split at isLocation
  · cases isLocation
  · exact isLocation

theorem receive_spec (e : Executor ι) (message : Message ι) :
    Tally e (e.receive message) ∧
      ∀ tasks, Owning tasks e → Owning tasks (e.receive message) := by
  have isInHand : (e.receive message).inHand = e.inHand := by
    rw [receive]
    split
    · exact inHand_wake e
    · rfl
  constructor
  · rw [receive]
    split <;> exact .still rfl rfl rfl fun notWait1 notWait2 => ⟨notWait1, notWait2⟩
  · intro tasks owning
    refine ⟨alert_receive owning.alert message, ?_, ?_, ?_⟩
    · rw [receive]
      split
      · exact executes_wake owning.executes
      · exact owning.executes
    · rw [receive]
      split <;> exact owning.taskCount
    · refine fun task isPlace => owning.places ?_
      rw [mem_places, isInHand] at isPlace
      rw [mem_places]
      rw [receive] at isPlace
      split at isPlace <;> exact isPlace

theorem grant_spec {task : Nat} (isSuspended : task ∈ e.suspended) :
    Tally e (e.grant task) ∧ ∀ tasks, Owning tasks e → Owning tasks (e.grant task) := by
  have isInHand : (e.grant task).inHand = e.inHand := by
    rw [grant, toReadyList]
    split
    · exact inHand_wake _
    · rfl
  constructor
  · rw [grant, toReadyList]
    split <;> exact .still rfl rfl rfl fun notWait1 notWait2 => ⟨notWait1, notWait2⟩
  · intro tasks owning
    have alert : Alert { e with suspended := e.suspended.erase task } := by
      obtain ⟨sleeps, usesEventfd, polls, leaves, takes, notices⟩ := owning.alert
      exact ⟨sleeps, usesEventfd, polls, leaves, takes, notices⟩
    refine ⟨alert_toReadyList alert task, ?_, ?_, ?_⟩
    · rw [grant, toReadyList]
      split
      · exact executes_wake owning.executes
      · exact owning.executes
    · rw [grant, toReadyList]
      split <;> exact owning.taskCount
    · intro other isPlace
      apply owning.places
      have isErased : other ∈ e.suspended.erase task → other ∈ e.suspended :=
        List.mem_of_mem_erase
      have isAdded : other ∈ e.ready ++ [task] → other ∈ e.suspended ∨ other ∈ e.ready := by
        intro isReady
        cases List.mem_append.mp isReady with
        | inl isReady => exact Or.inr isReady
        | inr isTask => exact Or.inl (List.mem_singleton.mp isTask ▸ isSuspended)
      rw [mem_places, isInHand] at isPlace
      rw [mem_places]
      rw [grant, toReadyList] at isPlace
      split at isPlace
      · rcases isPlace with inIdle | inSuspended | inReady | held
        · exact Or.inl inIdle
        · exact Or.inr (Or.inl (isErased inSuspended))
        · exact Or.inr ((isAdded inReady).imp_right Or.inl)
        · exact Or.inr (Or.inr (Or.inr held))
      · rcases isPlace with inIdle | inSuspended | inReady | held
        · exact Or.inl inIdle
        · exact Or.inr (Or.inl (isErased inSuspended))
        · exact Or.inr ((isAdded inReady).imp_right Or.inl)
        · exact Or.inr (Or.inr (Or.inr held))

theorem Stamped.toNat_points (stamped : Stamped tasks changes e) (fits : tasks.length < 2 ^ 64)
    (counting : e.isCounting = true) : e.points.toNat = skipped tasks e := by
  have notWaiting : e.state ≠ .wait1 ∧ e.state ≠ .wait2 := by
    rw [isCounting] at counting
    constructor
    · intro isWait1
      rw [isWait1] at counting
      cases counting
    · intro isWait2
      rw [isWait2] at counting
      cases counting
  rw [stamped.points notWaiting.1 notWaiting.2, BitVec.toNat_ofNat]
  exact Nat.mod_eq_of_lt ((countMarked_le _ _ _).trans_lt fits)

theorem records_proceed (e : Executor ι) : e.proceed.1.records = e.records := by
  rw [proceed]
  split
  · split
    · rfl
    · rfl
    · rfl
    · split <;> rfl
    · rfl
    · rfl
  · split
    · rfl
    · split <;> rfl

/-- The execution of a task that a transition completes. -/
def completedBy (task : Nat) (transition : Transition (Executor ι) (Event ι)) :
    Option ExecutionRecord :=
  match transition.event with
  | .step (.executed hit _) =>
      if task ∈ transition.before.inHand then
        some ⟨if hit then .hit else .skip, transition.before.generation⟩
      else none
  | _ => none

/-- The last execution of a task that a run has completed. -/
def lastCompleted (transitions : List (Transition (Executor ι) (Event ι))) (task : Nat) :
    Option ExecutionRecord :=
  (transitions.filterMap (completedBy task)).getLast?

theorem countP_lastCompleted {transitions : List (Transition (Executor ι) (Event ι))}
    (areRecords : ∀ task, e.records task = (lastCompleted transitions task).getD ⟨.hit, 0⟩) :
    (tasks.countP fun task => lastCompleted transitions task = some ⟨.skip, e.generation⟩) =
      skipped tasks e := by
  apply List.countP_congr
  intro task _
  rw [decide_eq_true_eq, decide_eq_true_eq, areRecords task]
  cases lastCompleted transitions task with
  | none => simp
  | some record => simp

theorem records_executed {task : Nat} (isInHand : e.inHand = [task]) (hit : Bool)
    (checked : List Nat) {location : Location ι} (other : Nat) :
    ({ ((e.complete task hit checked).1.count (e.complete task hit checked).2).1 with
        location := location } : Executor ι).records other =
      (if other ∈ e.inHand then
        some (⟨if hit then .hit else .skip, e.generation⟩ : ExecutionRecord) else none).getD
        (e.records other) := by
  have isRecords := (count_points (e.complete task hit checked).1
    (e.complete task hit checked).2).1.trans (records_complete e task hit checked)
  have isRecord := congrFun isRecords other
  refine isRecord.trans ?_
  rw [isInHand, execute_snd]
  by_cases isTask : other = task
  · rw [isTask, Function.update_self, if_pos (List.mem_singleton_self task)]
    rfl
  · rw [Function.update_of_ne isTask, if_neg (mt List.mem_singleton.mp isTask)]
    rfl

section Runs

variable [DecidableEq ι]

theorem taskCount_ownStep (own : OwnStep e next sent) : next.taskCount = e.taskCount := by
  cases own with
  | resume hit checked _ _ => exact (count_spec _ _).1.taskCount
  | handle _ => exact (handle_spec e _).1.taskCount
  | proceed _ => exact (proceed_spec e).1.taskCount
  | execute hit checked _ => exact (count_spec _ _).1.taskCount
  | _ => rfl

/-- What happens to an executor, where a lock gives it only tasks that the lock has
enqueued. -/
def turn (e : Executor ι) : Event ι → Option (Executor ι)
  | .step choice => (e.step choice).map Prod.fst
  | .receive message => some (e.receive message)
  | .toReadyList task => if task ∈ e.suspended then some (e.grant task) else none

abbrev Run (e : Executor ι) (transitions : List (Transition (Executor ι) (Event ι)))
    (finish : Executor ι) : Prop :=
  Trace (fun before event after => before.turn event = some after) e transitions finish

def changesGeneration (transition : Transition (Executor ι) (Event ι)) : Bool :=
  transition.after.generation ≠ transition.before.generation

theorem tally_turn (owning : Owning tasks e) {event : Event ι} (runs : e.turn event = some next) :
    Tally e next ∧ Owning tasks next := by
  cases event with
  | step choice =>
      rw [turn, Option.map_eq_some_iff] at runs
      obtain ⟨⟨result, sent⟩, steps, isNext⟩ := runs
      have own := ownStep_of_step steps
      rw [← isNext]
      refine ⟨tally_ownStep own owning.executes owning.alert.polls,
        alert_ownStep owning.alert own, executes_ownStep own, ?_, ?_⟩
      · exact (taskCount_ownStep own).trans owning.taskCount
      · exact fun task isPlace => owning.places (places_ownStep own isPlace)
  | receive message =>
      cases runs
      have received := receive_spec e message
      exact ⟨received.1, received.2 tasks owning⟩
  | toReadyList task =>
      rw [turn] at runs
      split at runs
      · next isSuspended =>
          cases runs
          have granted := grant_spec isSuspended
          exact ⟨granted.1, granted.2 tasks owning⟩
      · cases runs

theorem records_step {choice : Choice} (steps : e.step choice = some (next, sent)) (task : Nat) :
    next.records task = (completedBy task ⟨e, .step choice, next⟩).getD (e.records task) := by
  unfold step at steps
  split at steps
  case h_2 held message isLocation =>
    split at steps
    · split at steps
      · cases steps
        rfl
      · cases steps
    · split at steps
      · cases steps
        rfl
      · cases steps
        exact records_executed (by rw [inHand, isLocation]) _ _ task
      · cases steps
  case h_3 message isLocation =>
    have isNext : (e.handle message).1 = next := congrArg Prod.fst (Option.some.inj steps)
    rw [← isNext]
    exact congrFun (handle_lists e message).2.2 task
  case h_4 isLocation =>
    have isNext : e.proceed.1 = next := congrArg Prod.fst (Option.some.inj steps)
    rw [← isNext]
    exact congrFun (records_proceed e) task
  case h_6 held hit checked isLocation =>
    cases steps
    exact records_executed (by rw [inHand, isLocation]) hit checked task
  case h_11 =>
    split at steps
    · cases steps
      rfl
    · cases steps
  case h_12 =>
    split at steps
    · cases steps
    · cases steps
      rfl
  case h_15 => cases steps
  all_goals
    cases steps
    rfl

theorem records_turn {event : Event ι} (runs : e.turn event = some next) (task : Nat) :
    next.records task = (completedBy task ⟨e, event, next⟩).getD (e.records task) := by
  cases event with
  | step choice =>
      rw [turn, Option.map_eq_some_iff] at runs
      obtain ⟨⟨result, sent⟩, steps, isNext⟩ := runs
      rw [← isNext]
      exact records_step steps task
  | receive message =>
      cases runs
      rw [receive]
      split <;> rfl
  | toReadyList granted =>
      rw [turn] at runs
      split at runs
      · cases runs
        rw [grant, toReadyList]
        split <;> rfl
      · cases runs

theorem records_run {transitions : List (Transition (Executor ι) (Event ι))}
    (run : Run e transitions next) (task : Nat) :
    next.records task = (lastCompleted transitions task).getD (e.records task) := by
  induction run with
  | nil _ => rfl
  | @cons before after finish event rest first _ inductionHypothesis =>
      rw [inductionHypothesis, records_turn first task, lastCompleted, lastCompleted]
      cases isCompleted : completedBy task ⟨before, event, after⟩ with
      | none => rw [List.filterMap_cons_none isCompleted, Option.getD_none]
      | some record =>
          rw [List.filterMap_cons_some isCompleted, List.getLast?_cons, Option.getD_some,
            Option.getD_some]

theorem stamped_turn (stamped : Stamped tasks changes e) (nodup : tasks.Nodup)
    (owning : Owning tasks e) {event : Event ι} (runs : e.turn event = some next)
    {last : Nat} (few : last < 2 ^ 64)
    (isLast : last = changes + if changesGeneration ⟨e, event, next⟩ then 1 else 0) :
    Stamped tasks last next ∧
      (changesGeneration ⟨e, event, next⟩ = true → skipped tasks next = 0) := by
  cases stamped.tallied nodup owning.places (tally_turn owning runs).1 with
  | inl stays =>
      have isSame : changesGeneration ⟨e, event, next⟩ = false := by
        simp [changesGeneration, stays.1]
      rw [isSame] at isLast ⊢
      exact ⟨isLast ▸ stays.2, (by rintro ⟨⟩)⟩
  | inr renews =>
      have isOther : changesGeneration ⟨e, event, next⟩ = true := by
        simp [changesGeneration, renews.1]
      rw [isOther, if_pos rfl] at isLast
      rw [isLast] at few ⊢
      exact ⟨(renews.2 few).1, fun _ => (renews.2 few).2⟩

theorem stamped_run {transitions : List (Transition (Executor ι) (Event ι))}
    (nodup : tasks.Nodup) (run : Run e transitions next) :
    ∀ changes, Stamped tasks changes e → Owning tasks e →
      changes + transitions.countP changesGeneration < 2 ^ 64 →
      Stamped tasks (changes + transitions.countP changesGeneration) next ∧
        Owning tasks next ∧ ∀ transition ∈ transitions,
          changesGeneration transition = true → skipped tasks transition.after = 0 := by
  induction run with
  | nil _ =>
      intro changes stamped owning _
      exact ⟨stamped, owning, fun _ isTransition => absurd isTransition List.not_mem_nil⟩
  | @cons before after finish event rest first _ inductionHypothesis =>
      intro changes stamped owning few
      rw [List.countP_cons, Nat.add_comm (rest.countP _), ← Nat.add_assoc] at few ⊢
      have stepped := stamped_turn stamped nodup owning first (by omega) rfl
      have finished := inductionHypothesis _ stepped.1 (tally_turn owning first).2 few
      exact ⟨finished.1, finished.2.1, List.forall_mem_cons.mpr ⟨stepped.2, finished.2.2⟩⟩

/-- What the points of an executor say about its run. -/
structure Counted (tasks : List Nat) (transitions : List (Transition (Executor ι) (Event ι)))
    (e : Executor ι) : Prop where
  points : e.isCounting = true → e.points.toNat =
    tasks.countP fun task => lastCompleted transitions task = some ⟨.skip, e.generation⟩
  bound : e.isCounting = true → e.points.toNat ≤ e.taskCount.toNat
  records : ∀ task, e.records task = (lastCompleted transitions task).getD ⟨.hit, 0⟩
  renews : ∀ transition ∈ transitions, changesGeneration transition = true →
    ∀ task ∈ tasks, transition.after.records task ≠ ⟨.skip, transition.after.generation⟩

/-- The points of an executor, whatever its tasks do and whichever messages it gets, and
no skip from before a change of the generation counts after it. -/
theorem run_counted {transitions : List (Transition (Executor ι) (Event ι))} (id : ι)
    (nodup : tasks.Nodup) (fits : tasks.length < 2 ^ 64)
    (run : Run (initial id tasks) transitions e)
    (few : transitions.countP changesGeneration < 2 ^ 64) :
    Counted tasks transitions e := by
  have finished := stamped_run nodup run 0 (stamped_initial id tasks) (owning_initial id tasks)
    (by omega)
  have areRecords := records_run run
  refine ⟨fun counting => ?_, fun counting => ?_, areRecords, ?_⟩
  · rw [finished.1.toNat_points fits counting, countP_lastCompleted areRecords]
  · rw [finished.1.toNat_points fits counting, finished.2.1.taskCount, BitVec.toNat_ofNat,
      Nat.mod_eq_of_lt fits]
    exact countMarked_le _ _ _
  · intro transition isTransition changes task isTask isSkip
    have nobody := finished.2.2 transition isTransition changes
    rw [skipped, countMarked, List.countP_eq_zero] at nobody
    exact nobody task isTask (decide_eq_true isSkip)

/-- A task is skipped in two generations. -/
theorem run_counted_twice : ∃ (transitions : List (Transition (Executor Nat) (Event Nat)))
    (e : Executor Nat), Run (initial 0 [7]) transitions e ∧ e.state = .shootDown ∧ e.points = 1 ∧
      Counted [7] transitions e := by
  have run : Run (initial 0 [7])
      [⟨_, .step .go, _⟩, ⟨_, .step .go, _⟩, ⟨_, .step (.executed false []), _⟩, ⟨_, .step .go, _⟩,
        ⟨_, .step .go, _⟩, ⟨_, .step .go, _⟩, ⟨_, .step .go, _⟩,
        ⟨_, .step (.executed false []), _⟩] _ :=
    .cons rfl <| .cons rfl <| .cons rfl <| .cons rfl <| .cons rfl <| .cons rfl <| .cons rfl <|
      .cons rfl <| .nil _
  exact ⟨_, _, run, rfl, rfl, run_counted 0 (List.nodup_singleton 7) (by decide) run (by decide)⟩

/-! ## The generations wrap around -/

theorem run_round {first : Executor ι} {transitions : List (Transition (Executor ι) (Event ι))}
    (run : Run first transitions e) {other : ι} (isOther : other ≠ e.id)
    (isLocation : e.location = .loop) (isReady : e.ready = []) (isMailbox : e.mailbox = [])
    (notUsing : e.usingEventfd = false) :
    ∃ transitions, Run first transitions e.backToNormal := by
  have receives : e.turn (.receive (.reset other)) =
      some { e with location := .loop, mailbox := [.reset other] } := by
    simp [turn, receive, wake, isMailbox, isLocation, notUsing]
  have takes : ({ e with location := .loop, mailbox := [.reset other] } : Executor ι).turn
      (.step .go) =
        some { e with location := .taken none (some (.reset other)), ready := [], mailbox := [] } := by
    simp [turn, step, getReadyTaskAndMessage, isReady, notUsing]
  have goes : ({ e with location := .taken none (some (.reset other)), ready := [], mailbox := [] } :
      Executor ι).turn (.step .go) = some e.backToNormal := by
    simp [turn, step, handle, isOther, backToNormal, isLocation, isReady, isMailbox]
  exact ⟨_, ((run.snoc receives).snoc takes).snoc goes⟩

theorem run_rounds {first : Executor ι} {transitions : List (Transition (Executor ι) (Event ι))}
    (run : Run first transitions e) (other : ι) (isOther : other ≠ e.id)
    (isLocation : e.location = .loop) (isReady : e.ready = []) (isMailbox : e.mailbox = [])
    (notUsing : e.usingEventfd = false) (rounds : Nat) :
    ∃ transitions, Run first transitions
      { e with
        state := .normal
        trackFileDescriptors := false
        generation := e.generation + BitVec.ofNat 64 (rounds + 1)
        points := 0 } := by
  induction rounds with
  | zero => exact run_round run isOther isLocation isReady isMailbox notUsing
  | succ rounds inductionHypothesis =>
      obtain ⟨_, longer⟩ := inductionHypothesis
      obtain ⟨transitions, longest⟩ := run_round longer isOther isLocation isReady isMailbox notUsing
      refine ⟨transitions, ?_⟩
      rw [backToNormal] at longest
      dsimp only at longest
      rw [BitVec.add_assoc] at longest
      rw [BitVec.ofNat_add (rounds + 1)]
      exact longest

/-- After the last generation comes the first again, and with it the skip of a task that
the points do not count. -/
theorem exists_overlooked_skip :
    ∃ (transitions : List (Transition (Executor Nat) (Event Nat))) (e : Executor Nat),
      Run (initial 0 [7, 8]) transitions e ∧ e.state = .normal ∧ e.points.toNat = 0 ∧
        ([7, 8].countP fun task =>
          lastCompleted transitions task = some ⟨.skip, e.generation⟩) = 1 := by
  have run : Run (initial 0 [7, 8])
      [⟨_, .step .go, _⟩, ⟨_, .step .go, _⟩, ⟨_, .step (.executed false []), _⟩] _ :=
    .cons rfl <| .cons rfl <| .cons rfl <| .nil _
  obtain ⟨transitions, rounds⟩ := run_rounds run 1 (by decide) rfl rfl rfl rfl (2 ^ 64 - 1)
  refine ⟨transitions, _, rounds, rfl, rfl, ?_⟩
  rw [countP_lastCompleted (records_run rounds), skipped]
  rfl

end Runs

end Rcgo.Scheduler.Executor
