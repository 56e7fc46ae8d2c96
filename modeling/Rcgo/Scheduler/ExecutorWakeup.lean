import Rcgo.Scheduler.ExecutorControl

/-!
# Waking up an executor

An executor waits for a signal in `sleep` and for its event descriptor in `poll`.
It never waits there for something that is already on its queues.
-/

namespace Rcgo.Scheduler.Executor

variable {ι : Type}

/-- The queues and the event descriptor. -/
structure SameQueues (e other : Executor ι) : Prop where
  id : other.id = e.id
  taskCount : other.taskCount = e.taskCount
  ready : other.ready = e.ready
  mailbox : other.mailbox = e.mailbox
  usingEventfd : other.usingEventfd = e.usingEventfd
  eventCount : other.eventCount = e.eventCount

theorem SameQueues.refl (e : Executor ι) : SameQueues e e :=
  ⟨rfl, rfl, rfl, rfl, rfl, rfl⟩

theorem count_spec (e : Executor ι) (result : ExecutionResult) :
    SameQueues e (e.count result).1 ∧
      ((e.count result).1.state = e.state ∨ (e.count result).1.state = .normal) := by
  unfold count
  split
  · next isNormal => split <;> exact ⟨⟨rfl, rfl, rfl, rfl, rfl, rfl⟩, .inl rfl⟩
  · split <;> exact ⟨⟨rfl, rfl, rfl, rfl, rfl, rfl⟩, by first | exact .inl rfl | exact .inr rfl⟩
  · split <;> exact ⟨⟨rfl, rfl, rfl, rfl, rfl, rfl⟩, by first | exact .inl rfl | exact .inr rfl⟩
  · exact ⟨.refl e, .inl rfl⟩

/-- The steps of an executor, by the places in `run_i`. -/
inductive OwnStep [DecidableEq ι] (e : Executor ι) : Executor ι → Option (Message ι) → Prop where
  | get (isLocation : e.location = .loop) : OwnStep e e.getReadyTaskAndMessage none
  | straggle {task : Nat} {message : Option (Message ι)}
      (isLocation : e.location = .taken (some task) message) (isState : e.state = .poll) :
      OwnStep e { e with location := .unreachable } none
  | resumeBlocked {task : Nat} {message : Option (Message ι)}
      (isLocation : e.location = .taken (some task) message) (isState : e.state ≠ .poll) :
      OwnStep e { e.block task with location := behindTask message } none
  | resume {task : Nat} {message : Option (Message ι)} (hit : Bool) (checked : List Nat)
      (isLocation : e.location = .taken (some task) message) (isState : e.state ≠ .poll) :
      OwnStep e
        { ((e.complete task hit checked).1.count (e.complete task hit checked).2).1 with
          location := behindTask message }
        ((e.complete task hit checked).1.count (e.complete task hit checked).2).2
  | handle {message : Message ι} (isLocation : e.location = .taken none (some message)) :
      OwnStep e (e.handle message).1 (e.handle message).2
  | proceed (isLocation : e.location = .deciding) : OwnStep e e.proceed.1 e.proceed.2
  | executeBlocked {task : Nat} (isLocation : e.location = .executing task) :
      OwnStep e { e.block task with location := .loop } none
  | execute {task : Nat} (hit : Bool) (checked : List Nat)
      (isLocation : e.location = .executing task) :
      OwnStep e
        { ((e.complete task hit checked).1.count (e.complete task hit checked).2).1 with
          location := .loop }
        ((e.complete task hit checked).1.count (e.complete task hit checked).2).2
  | enterPoll (isLocation : e.location = .enteringPoll) :
      OwnStep e { e with usingEventfd := true, location := .loop } none
  | sleep (isLocation : e.location = .sleeping) : OwnStep e e.sleep none
  | wakeUp {signalled : Bool} (isLocation : e.location = .waiting signalled) :
      OwnStep e { e with location := .sleeping } none
  | polled (isLocation : e.location = .polling) (readable : 0 < e.eventCount) :
      OwnStep e { e with location := .loop } none
  | fileReady (isLocation : e.location = .polling) (watched : e.fileDescriptorMap ≠ []) :
      OwnStep e { e with state := .normal, location := .leavingPoll } none
  | leavePoll (isLocation : e.location = .leavingPoll) :
      OwnStep e { e with usingEventfd := false, location := .announcing } none
  | announce (isLocation : e.location = .announcing) :
      OwnStep e { e.backToNormal with location := .loop } (some (.reset e.id))

variable {e next : Executor ι} {sent : Option (Message ι)} {choice : Choice}

theorem ownStep_of_step [DecidableEq ι] (runs : e.step choice = some (next, sent)) :
    OwnStep e next sent := by
  unfold step at runs
  split at runs
  case h_1 isLocation =>
    cases runs
    exact .get isLocation
  case h_2 task message isLocation =>
    split at runs
    case isTrue isState =>
      split at runs
      · cases runs
        exact .straggle isLocation isState
      · cases runs
    case isFalse isState =>
      split at runs
      · cases runs
        exact .resumeBlocked isLocation isState
      · cases runs
        exact .resume _ _ isLocation isState
      · cases runs
  case h_3 message isLocation =>
    have isResult := Option.some.inj runs
    rw [show next = (e.handle message).1 by rw [isResult],
      show sent = (e.handle message).2 by rw [isResult]]
    exact .handle isLocation
  case h_4 isLocation =>
    have isResult := Option.some.inj runs
    rw [show next = e.proceed.1 by rw [isResult], show sent = e.proceed.2 by rw [isResult]]
    exact .proceed isLocation
  case h_5 task isLocation =>
    cases runs
    exact .executeBlocked isLocation
  case h_6 task hit checked isLocation =>
    cases runs
    exact .execute hit checked isLocation
  case h_7 isLocation =>
    cases runs
    exact .enterPoll isLocation
  case h_8 isLocation =>
    cases runs
    exact .sleep isLocation
  case h_9 isLocation =>
    cases runs
    exact .wakeUp isLocation
  case h_10 isLocation =>
    cases runs
    exact .wakeUp isLocation
  case h_11 isLocation =>
    split at runs
    case isTrue readable =>
      cases runs
      exact .polled isLocation readable
    case isFalse => cases runs
  case h_12 isLocation =>
    split at runs
    case isTrue => cases runs
    case isFalse watched =>
      cases runs
      exact .fileReady isLocation watched
  case h_13 isLocation =>
    cases runs
    exact .leavePoll isLocation
  case h_14 isLocation =>
    cases runs
    exact .announce isLocation
  case h_15 => cases runs

/-! ## The invariant -/

def IsEmpty (e : Executor ι) : Prop :=
  e.ready = [] ∧ e.mailbox = []

/-- The executor has seen the queues empty and does not look again by itself. -/
def isWatching (e : Executor ι) : Bool :=
  match e.location with
  | .waiting false | .deciding | .polling | .taken none none => true
  | _ => false

/-- Nothing gets on the queues behind the back of the executor. -/
structure Alert (e : Executor ι) : Prop where
  sleeps : e.location = .waiting false → e.IsEmpty
  usesEventfd : e.state = .poll → e.location ≠ .enteringPoll → e.usingEventfd = true
  polls : e.location = .polling → e.state = .poll
  leaves : e.location = .leavingPoll → e.state = .normal
  takes : e.location ≠ .taken none none
  notices : e.location = .deciding ∨ e.location = .polling → e.usingEventfd = true →
    e.IsEmpty ∨ 0 < e.eventCount

theorem alert_initial (id : ι) (tasks : List Nat) : (initial id tasks).Alert where
  sleeps _ := ⟨rfl, rfl⟩
  usesEventfd isState := by cases isState
  polls isLocation := by cases isLocation
  leaves isLocation := by cases isLocation
  takes isLocation := by cases isLocation
  notices _ _ := Or.inl ⟨rfl, rfl⟩

theorem alert_of_notWatching
    (usesEventfd : e.state = .poll → e.location ≠ .enteringPoll → e.usingEventfd = true)
    (leaves : e.location = .leavingPoll → e.state = .normal)
    (notWatching : e.isWatching = false) : e.Alert where
  sleeps isLocation := by
    rw [isWatching, isLocation] at notWatching
    cases notWatching
  usesEventfd := usesEventfd
  polls isLocation := by
    rw [isWatching, isLocation] at notWatching
    cases notWatching
  leaves := leaves
  takes isLocation := by
    rw [isWatching, isLocation] at notWatching
    cases notWatching
  notices isLocation _ := by
    rw [isWatching] at notWatching
    cases isLocation with
    | inl isDeciding =>
        rw [isDeciding] at notWatching
        cases notWatching
    | inr isPolling =>
        rw [isPolling] at notWatching
        cases notWatching

theorem Alert.move (alert : e.Alert) (same : SameQueues e next)
    (isState : next.state = .poll → next.location ≠ .enteringPoll →
      e.state = .poll ∧ e.location ≠ .enteringPoll)
    (leaves : next.location = .leavingPoll → next.state = .normal)
    (notWatching : next.isWatching = false) : next.Alert := by
  refine alert_of_notWatching ?_ leaves notWatching
  intro isPoll notEntering
  have before := isState isPoll notEntering
  rw [same.usingEventfd]
  exact alert.usesEventfd before.1 before.2

theorem Alert.woken (alert : e.Alert) (isState : next.state = e.state)
    (isUsing : next.usingEventfd = e.usingEventfd) (isLocation : next.location = e.wake.location)
    (isCount : next.eventCount = e.wake.eventCount) : next.Alert := by
  have isPlace : ∀ place, (∀ signalled, place ≠ .waiting signalled) → next.location = place →
      e.location = place := by
    intro place notWaiting isNext
    rw [isLocation, wake] at isNext
    dsimp only at isNext
    split at isNext
    · exact absurd isNext.symm (notWaiting true)
    · exact isNext
  refine ⟨?_, ?_, ?_, ?_, ?_, ?_⟩
  · intro isWaiting
    rw [isLocation, wake] at isWaiting
    dsimp only at isWaiting
    split at isWaiting
    · cases isWaiting
    · next notWaiting => exact absurd isWaiting (notWaiting false)
  · intro isPoll notEntering
    rw [isUsing]
    apply alert.usesEventfd (isState ▸ isPoll)
    intro isEntering
    apply notEntering
    rw [isLocation, wake, isEntering]
  · intro isPolling
    rw [isState]
    exact alert.polls (isPlace _ (by simp) isPolling)
  · intro isLeaving
    rw [isState]
    exact alert.leaves (isPlace _ (by simp) isLeaving)
  · intro isTaken
    exact alert.takes (isPlace _ (by simp) isTaken)
  · intro _ uses
    rw [isUsing] at uses
    rw [isCount, wake]
    dsimp only
    rw [if_pos uses]
    exact Or.inr (Nat.succ_pos _)

theorem Alert.joined (alert : e.Alert) (notEmpty : ¬e.IsEmpty) (isState : next.state = e.state)
    (isUsing : next.usingEventfd = e.usingEventfd) (isLocation : next.location = e.location)
    (isCount : next.eventCount = e.eventCount) : next.Alert := by
  refine ⟨?_, ?_, ?_, ?_, isLocation ▸ alert.takes, ?_⟩
  · intro isWaiting
    exact absurd (alert.sleeps (isLocation ▸ isWaiting)) notEmpty
  · rw [isState, isLocation, isUsing]
    exact alert.usesEventfd
  · rw [isLocation, isState]
    exact alert.polls
  · rw [isLocation, isState]
    exact alert.leaves
  · rw [isLocation, isUsing, isCount]
    intro isWatching uses
    exact Or.inr ((alert.notices isWatching uses).resolve_left notEmpty)

theorem alert_receive (alert : e.Alert) (message : Message ι) : (e.receive message).Alert := by
  rw [receive]
  by_cases isEmpty : e.mailbox = []
  · rw [if_pos isEmpty]
    exact alert.woken rfl rfl rfl rfl
  · rw [if_neg isEmpty]
    exact alert.joined (fun empty => isEmpty empty.2) rfl rfl rfl rfl

theorem alert_toReadyList (alert : e.Alert) (task : Nat) : (e.toReadyList task).Alert := by
  rw [toReadyList]
  by_cases isEmpty : e.ready = []
  · rw [if_pos isEmpty]
    exact alert.woken rfl rfl rfl rfl
  · rw [if_neg isEmpty]
    exact alert.joined (fun empty => isEmpty empty.1) rfl rfl rfl rfl

/-! ## The steps -/

/-- Only `POLL` leads to `poll`, and only to enter `POLL` does the state become it. -/
theorem proceed_spec (e : Executor ι) :
    SameQueues e e.proceed.1 ∧ e.proceed.1.location ≠ .leavingPoll ∧
      (e.proceed.1.state = .poll → e.proceed.1.location ≠ .enteringPoll → e.state = .poll) ∧
      (e.proceed.1.isWatching = true → e.proceed.1.location = .polling ∧ e.state = .poll ∧
        e.proceed.1.state = .poll) := by
  have toPlace : ∀ next : Executor ι, SameQueues e next → next.location ≠ .leavingPoll →
      (next.state = .poll → next.location ≠ .enteringPoll → e.state = .poll) →
      next.isWatching = false → SameQueues e next ∧ next.location ≠ .leavingPoll ∧
      (next.state = .poll → next.location ≠ .enteringPoll → e.state = .poll) ∧
      (next.isWatching = true → next.location = .polling ∧ e.state = .poll ∧
        next.state = .poll) := by
    intro next same notLeaving isState notWatching
    refine ⟨same, notLeaving, isState, fun isWatching => ?_⟩
    rw [isWatching] at notWatching
    cases notWatching
  rw [proceed]
  split
  · split
    · exact toPlace _ ⟨rfl, rfl, rfl, rfl, rfl, rfl⟩ (by rintro ⟨⟩) (by rintro ⟨⟩) rfl
    · exact toPlace _ ⟨rfl, rfl, rfl, rfl, rfl, rfl⟩ (by rintro ⟨⟩) (by rintro ⟨⟩) rfl
    · exact toPlace _ ⟨rfl, rfl, rfl, rfl, rfl, rfl⟩ (by rintro ⟨⟩) (fun isPoll _ => isPoll) rfl
    · split
      · exact toPlace _ ⟨rfl, rfl, rfl, rfl, rfl, rfl⟩ (by rintro ⟨⟩) (by rintro ⟨⟩) rfl
      · exact toPlace _ ⟨rfl, rfl, rfl, rfl, rfl, rfl⟩ (by rintro ⟨⟩)
          (fun _ notEntering => absurd rfl notEntering) rfl
    · exact toPlace _ ⟨rfl, rfl, rfl, rfl, rfl, rfl⟩ (by rintro ⟨⟩) (fun isPoll _ => isPoll) rfl
    · next isPoll =>
        exact ⟨⟨rfl, rfl, rfl, rfl, rfl, rfl⟩, (by rintro ⟨⟩), fun _ _ => isPoll,
          fun _ => ⟨rfl, isPoll, isPoll⟩⟩
  · split
    · exact toPlace _ ⟨rfl, rfl, rfl, rfl, rfl, rfl⟩ (by rintro ⟨⟩) (fun isPoll _ => isPoll) rfl
    · split
      · exact toPlace _ ⟨rfl, rfl, rfl, rfl, rfl, rfl⟩ (by rintro ⟨⟩) (fun isPoll _ => isPoll)
          rfl
      · exact toPlace _ ⟨rfl, rfl, rfl, rfl, rfl, rfl⟩ (by rintro ⟨⟩) (fun isPoll _ => isPoll)
          rfl
      · exact toPlace _ ⟨rfl, rfl, rfl, rfl, rfl, rfl⟩ (by rintro ⟨⟩) (fun isPoll _ => isPoll)
          rfl
      · exact toPlace _ ⟨rfl, rfl, rfl, rfl, rfl, rfl⟩ (by rintro ⟨⟩) (fun isPoll _ => isPoll)
          rfl

theorem isWatching_behindTask (message : Option (Message ι))
    (isLocation : e.location = behindTask message) : e.isWatching = false := by
  cases message with
  | none => rw [isWatching, isLocation, behindTask]
  | some message => rw [isWatching, isLocation, behindTask]

theorem behindTask_ne_leavingPoll (message : Option (Message ι)) :
    behindTask message ≠ .leavingPoll := by
  cases message with
  | none => rintro ⟨⟩
  | some message => rintro ⟨⟩

theorem alert_executed (alert : e.Alert) (task : Nat) (hit : Bool) (checked : List Nat)
    (notEntering : e.location ≠ .enteringPoll) (message : Option (Message ι)) :
    Alert { ((e.complete task hit checked).1.count (e.complete task hit checked).2).1 with
      location := behindTask message } := by
  have counted := count_spec (e.complete task hit checked).1 (e.complete task hit checked).2
  have uses := counted.1.usingEventfd
  have isLeaving := behindTask_ne_leavingPoll message
  refine alert_of_notWatching ?_ (fun isLocation => absurd isLocation isLeaving)
    (isWatching_behindTask message rfl)
  intro isPoll _
  refine uses.trans (alert.usesEventfd ?_ notEntering)
  cases counted.2 with
  | inl isState => exact isState.symm.trans isPoll
  | inr isNormal =>
      have := isNormal.symm.trans isPoll
      cases this

theorem alert_getReadyTaskAndMessage (alert : e.Alert) (isLocation : e.location = .loop) :
    e.getReadyTaskAndMessage.Alert := by
  have uses : e.state = .poll → e.usingEventfd = true := fun isPoll =>
    alert.usesEventfd isPoll (isLocation ▸ (by rintro ⟨⟩))
  by_cases isEmpty : e.ready = [] ∧ e.mailbox = []
  · have isNext : e.getReadyTaskAndMessage.location = .deciding := if_pos isEmpty
    have staysEmpty : e.getReadyTaskAndMessage.IsEmpty :=
      ⟨by rw [getReadyTaskAndMessage, isEmpty.1, List.tail_nil],
        by rw [getReadyTaskAndMessage, isEmpty.2, List.tail_nil]⟩
    refine ⟨fun _ => staysEmpty, fun isPoll _ => uses isPoll, ?_, ?_, ?_,
      fun _ _ => Or.inl staysEmpty⟩
    · rw [isNext]
      rintro ⟨⟩
    · rw [isNext]
      rintro ⟨⟩
    · rw [isNext]
      rintro ⟨⟩
  · have isNext : e.getReadyTaskAndMessage.location =
        .taken e.ready.head? e.mailbox.head? := if_neg isEmpty
    refine alert_of_notWatching (fun isPoll _ => uses isPoll) ?_ ?_
    · rw [isNext]
      rintro ⟨⟩
    · rw [isWatching, isNext]
      cases isReady : e.ready with
      | cons task rest => rfl
      | nil =>
          cases isMailbox : e.mailbox with
          | nil => exact absurd ⟨isReady, isMailbox⟩ isEmpty
          | cons message rest => rfl

theorem alert_proceed (alert : e.Alert) (isLocation : e.location = .deciding) :
    e.proceed.1.Alert := by
  have notEntering : e.location ≠ .enteringPoll := isLocation ▸ (by rintro ⟨⟩)
  obtain ⟨same, notLeaving, isState, watches⟩ := proceed_spec e
  cases isNext : e.proceed.1.isWatching with
  | false =>
      exact alert.move same (fun isPoll isPlace => ⟨isState isPoll isPlace, notEntering⟩)
        (fun isLeaving => absurd isLeaving notLeaving) isNext
  | true =>
      obtain ⟨isPolling, wasPoll, isPoll⟩ := watches isNext
      refine ⟨?_, ?_, fun _ => isPoll, fun isLeaving => absurd isLeaving notLeaving, ?_, ?_⟩
      · rw [isPolling]
        rintro ⟨⟩
      · intro _ _
        rw [same.usingEventfd]
        exact alert.usesEventfd wasPoll notEntering
      · rw [isPolling]
        rintro ⟨⟩
      · intro _ uses
        rw [IsEmpty, same.ready, same.mailbox, same.eventCount]
        exact alert.notices (Or.inl isLocation) (same.usingEventfd ▸ uses)

/-- The test in `sleep` and the wait are one critical section. -/
theorem alert_sleep (alert : e.Alert) (isLocation : e.location = .sleeping) : e.sleep.Alert := by
  have uses : e.state = .poll → e.usingEventfd = true := fun isPoll =>
    alert.usesEventfd isPoll (isLocation ▸ (by rintro ⟨⟩))
  by_cases isEmpty : e.ready = [] ∧ e.mailbox = []
  · have isNext : e.sleep.location = .waiting false := if_pos isEmpty
    refine ⟨fun _ => isEmpty, fun isPoll _ => uses isPoll, ?_, ?_, ?_,
      fun _ _ => Or.inl isEmpty⟩
    · rw [isNext]
      rintro ⟨⟩
    · rw [isNext]
      rintro ⟨⟩
    · rw [isNext]
      rintro ⟨⟩
  · have isNext : e.sleep.location = .loop := if_neg isEmpty
    refine alert_of_notWatching (fun isPoll _ => uses isPoll) ?_ ?_
    · rw [isNext]
      rintro ⟨⟩
    · rw [isWatching, isNext]

/-- How many steps a place is from the loop. -/
def stepsToLoop : Location ι → Nat
  | .loop | .returned | .unreachable => 0
  | .taken (some _) (some _) => 2
  | .taken _ _ => 1
  | .deciding => 4
  | .executing _ => 1
  | .enteringPoll => 1
  | .sleeping => 1
  | .waiting _ => 2
  | .polling => 3
  | .leavingPoll => 2
  | .announcing => 1

theorem stepsToLoop_behindTask (task : Nat) (message : Option (Message ι)) :
    stepsToLoop (behindTask message) < stepsToLoop (.taken (some task) message) := by
  cases message with
  | none => exact Nat.zero_lt_one
  | some message => exact Nat.one_lt_two

theorem stepsToLoop_proceed (e : Executor ι) : stepsToLoop e.proceed.1.location < 4 := by
  rw [proceed]
  split
  · split
    · exact Nat.zero_lt_succ 3
    · exact Nat.zero_lt_succ 3
    · exact Nat.one_lt_succ_succ 2
    · split
      · exact Nat.zero_lt_succ 3
      · exact Nat.one_lt_succ_succ 2
    · exact Nat.one_lt_succ_succ 2
    · exact Nat.lt_succ_self 3
  · split
    · exact Nat.one_lt_succ_succ 2
    · split
      · exact Nat.one_lt_succ_succ 2
      · exact Nat.one_lt_succ_succ 2
      · exact Nat.one_lt_succ_succ 2
      · exact Nat.zero_lt_succ 3

variable [DecidableEq ι]

/-- A message leads to the loop or out of it. -/
theorem handle_spec (e : Executor ι) (message : Message ι) :
    SameQueues e (e.handle message).1 ∧
      ((e.handle message).1.state = .poll → e.state = .poll) ∧
      ((e.handle message).1.location = .loop ∨ (e.handle message).1.location = .returned ∨
        (e.handle message).1.location = .unreachable) := by
  cases message with
  | startShootDown id =>
      rw [handle]
      dsimp only
      split
      · exact ⟨⟨rfl, rfl, rfl, rfl, rfl, rfl⟩, (by rintro ⟨⟩), Or.inl rfl⟩
      · exact ⟨⟨rfl, rfl, rfl, rfl, rfl, rfl⟩, fun isPoll => isPoll, Or.inl rfl⟩
  | startWaiting1 id =>
      rw [handle]
      dsimp only
      split
      · split
        · exact ⟨⟨rfl, rfl, rfl, rfl, rfl, rfl⟩, fun isPoll => isPoll, Or.inl rfl⟩
        · exact ⟨⟨rfl, rfl, rfl, rfl, rfl, rfl⟩, (by rintro ⟨⟩), Or.inl rfl⟩
      · exact ⟨⟨rfl, rfl, rfl, rfl, rfl, rfl⟩, fun isPoll => isPoll, Or.inl rfl⟩
  | startDoubleCheck id =>
      rw [handle]
      dsimp only
      split
      · exact ⟨⟨rfl, rfl, rfl, rfl, rfl, rfl⟩, (by rintro ⟨⟩), Or.inl rfl⟩
      · exact ⟨⟨rfl, rfl, rfl, rfl, rfl, rfl⟩, fun isPoll => isPoll, Or.inl rfl⟩
  | startWaiting2 id =>
      rw [handle]
      dsimp only
      split
      · split
        · exact ⟨⟨rfl, rfl, rfl, rfl, rfl, rfl⟩, fun isPoll => isPoll, Or.inl rfl⟩
        · exact ⟨⟨rfl, rfl, rfl, rfl, rfl, rfl⟩, fun isPoll => isPoll, Or.inr (Or.inl rfl)⟩
      · exact ⟨⟨rfl, rfl, rfl, rfl, rfl, rfl⟩, fun isPoll => isPoll, Or.inl rfl⟩
  | terminate =>
      rw [handle]
      dsimp only
      split
      · exact ⟨⟨rfl, rfl, rfl, rfl, rfl, rfl⟩, fun isPoll => isPoll, Or.inr (Or.inl rfl)⟩
      · exact ⟨⟨rfl, rfl, rfl, rfl, rfl, rfl⟩, fun isPoll => isPoll, Or.inr (Or.inr rfl)⟩
  | reset id =>
      rw [handle]
      dsimp only
      split
      · exact ⟨⟨rfl, rfl, rfl, rfl, rfl, rfl⟩, (by rintro ⟨⟩), Or.inl rfl⟩
      · exact ⟨⟨rfl, rfl, rfl, rfl, rfl, rfl⟩, fun isPoll => isPoll, Or.inl rfl⟩

theorem alert_handle (alert : e.Alert) (message : Message ι)
    (notEntering : e.location ≠ .enteringPoll) : (e.handle message).1.Alert := by
  obtain ⟨same, isState, isNext⟩ := handle_spec e message
  refine alert.move same (fun isPoll _ => ⟨isState isPoll, notEntering⟩) ?_ ?_
  · intro isLeaving
    rw [isLeaving] at isNext
    simp at isNext
  · rcases isNext with isNext | isNext | isNext <;> rw [isWatching, isNext]

theorem alert_ownStep (alert : e.Alert) (own : OwnStep e next sent) :
    next.Alert := by
  -- a step to the loop or to an assertion, from outside of the entry to `POLL`
  have keeps : ∀ place, e.location ≠ .enteringPoll → place ≠ .leavingPoll →
      isWatching { e with location := place } = false → Alert { e with location := place } :=
    fun place notEntering notLeaving notWatching =>
      alert.move ⟨rfl, rfl, rfl, rfl, rfl, rfl⟩ (fun isPoll _ => ⟨isPoll, notEntering⟩)
        (fun isLeaving => absurd isLeaving notLeaving) notWatching
  cases own with
  | get isLocation => exact alert_getReadyTaskAndMessage alert isLocation
  | straggle isLocation _ =>
      exact keeps _ (isLocation ▸ (by rintro ⟨⟩)) (by rintro ⟨⟩) rfl
  | @resumeBlocked task message isLocation isState =>
      exact alert.move ⟨rfl, rfl, rfl, rfl, rfl, rfl⟩ (fun isPoll _ => absurd isPoll isState)
        (fun isLeaving => absurd isLeaving (behindTask_ne_leavingPoll message))
        (isWatching_behindTask message rfl)
  | resume hit checked isLocation _ =>
      exact alert_executed alert _ hit checked (isLocation ▸ (by rintro ⟨⟩)) _
  | handle isLocation => exact alert_handle alert _ (isLocation ▸ (by rintro ⟨⟩))
  | proceed isLocation => exact alert_proceed alert isLocation
  | executeBlocked isLocation =>
      exact alert.move ⟨rfl, rfl, rfl, rfl, rfl, rfl⟩
        (fun isPoll _ => ⟨isPoll, isLocation ▸ (by rintro ⟨⟩)⟩) (by rintro ⟨⟩) rfl
  | execute hit checked isLocation =>
      exact alert_executed alert _ hit checked (isLocation ▸ (by rintro ⟨⟩)) none
  | enterPoll _ => exact alert_of_notWatching (fun _ _ => rfl) (by rintro ⟨⟩) rfl
  | sleep isLocation => exact alert_sleep alert isLocation
  | wakeUp isLocation =>
      exact keeps _ (isLocation ▸ (by rintro ⟨⟩)) (by rintro ⟨⟩) rfl
  | polled isLocation _ =>
      exact keeps _ (isLocation ▸ (by rintro ⟨⟩)) (by rintro ⟨⟩) rfl
  | fileReady _ _ =>
      exact alert_of_notWatching (by rintro ⟨⟩) (fun _ => rfl) rfl
  | leavePoll isLocation =>
      refine alert_of_notWatching ?_ (by rintro ⟨⟩) rfl
      intro isPoll _
      have := (alert.leaves isLocation).symm.trans isPoll
      cases this
  | announce _ => exact alert_of_notWatching (by rintro ⟨⟩) (by rintro ⟨⟩) rfl

theorem alert_after (alert : e.Alert) (event : Event ι)
    (runs : e.after event = some next) : next.Alert := by
  cases event with
  | step choice =>
      rw [after, Option.map_eq_some_iff] at runs
      obtain ⟨⟨result, sent⟩, steps, isNext⟩ := runs
      exact isNext ▸ alert_ownStep alert (ownStep_of_step steps)
  | receive message =>
      cases runs
      exact alert_receive alert message
  | toReadyList task =>
      cases runs
      exact alert_toReadyList alert task

theorem alert_afterAll (events : List (Event ι)) : ∀ {e next : Executor ι},
    e.Alert → e.afterAll events = some next → next.Alert := by
  induction events with
  | nil =>
      intro e next alert runs
      cases runs
      exact alert
  | cons event events inductionHypothesis =>
      intro e next alert runs
      rw [afterAll, Option.bind_eq_bind, Option.bind_eq_some_iff] at runs
      obtain ⟨middle, first, rest⟩ := runs
      exact inductionHypothesis (alert_after alert event first) rest

/-! ## Progress -/

/-- A step outside of the loop leads towards it and leaves the queues alone; only the
test in `sleep` may lead to the wait. -/
theorem ownStep_approaches (own : OwnStep e next sent) (notLoop : e.location ≠ .loop) :
    (stepsToLoop next.location < stepsToLoop e.location ∨ next.location = .waiting false) ∧
      next.ready = e.ready ∧ next.mailbox = e.mailbox := by
  cases own with
  | get isLocation => exact absurd isLocation notLoop
  | @straggle task message isLocation _ =>
      refine ⟨Or.inl ?_, rfl, rfl⟩
      rw [isLocation]
      exact Nat.zero_lt_of_lt (stepsToLoop_behindTask task message)
  | @resumeBlocked task message isLocation _ =>
      refine ⟨Or.inl ?_, rfl, rfl⟩
      rw [isLocation]
      exact stepsToLoop_behindTask task message
  | @resume task message hit checked isLocation _ =>
      have same := (count_spec (e.complete task hit checked).1
        (e.complete task hit checked).2).1
      refine ⟨Or.inl ?_, same.ready, same.mailbox⟩
      rw [isLocation]
      exact stepsToLoop_behindTask task message
  | @handle message isLocation =>
      obtain ⟨same, _, isNext⟩ := handle_spec e message
      refine ⟨Or.inl ?_, same.ready, same.mailbox⟩
      rw [isLocation]
      rcases isNext with isNext | isNext | isNext <;> rw [isNext] <;> exact Nat.zero_lt_one
  | proceed isLocation =>
      have same := (proceed_spec e).1
      refine ⟨Or.inl ?_, same.ready, same.mailbox⟩
      rw [isLocation]
      exact stepsToLoop_proceed e
  | executeBlocked isLocation =>
      refine ⟨Or.inl ?_, rfl, rfl⟩
      rw [isLocation]
      exact Nat.zero_lt_one
  | @execute task hit checked isLocation =>
      have same := (count_spec (e.complete task hit checked).1
        (e.complete task hit checked).2).1
      refine ⟨Or.inl ?_, same.ready, same.mailbox⟩
      rw [isLocation]
      exact Nat.zero_lt_one
  | enterPoll isLocation =>
      refine ⟨Or.inl ?_, rfl, rfl⟩
      rw [isLocation]
      exact Nat.zero_lt_one
  | sleep isLocation =>
      refine ⟨?_, rfl, rfl⟩
      by_cases isEmpty : e.ready = [] ∧ e.mailbox = []
      · exact Or.inr (if_pos isEmpty)
      · have isNext : e.sleep.location = .loop := if_neg isEmpty
        rw [isNext, isLocation]
        exact Or.inl Nat.zero_lt_one
  | wakeUp isLocation =>
      refine ⟨Or.inl ?_, rfl, rfl⟩
      rw [isLocation]
      exact Nat.one_lt_two
  | polled isLocation _ =>
      refine ⟨Or.inl ?_, rfl, rfl⟩
      rw [isLocation]
      exact Nat.zero_lt_succ 2
  | fileReady isLocation _ =>
      refine ⟨Or.inl ?_, rfl, rfl⟩
      rw [isLocation]
      exact Nat.lt_succ_self 2
  | leavePoll isLocation =>
      refine ⟨Or.inl ?_, rfl, rfl⟩
      rw [isLocation]
      exact Nat.one_lt_two
  | announce isLocation =>
      refine ⟨Or.inl ?_, rfl, rfl⟩
      rw [isLocation]
      exact Nat.zero_lt_one

theorem exists_step (alert : e.Alert) (notEmpty : ¬e.IsEmpty) (notReturned : e.location ≠ .returned)
    (notUnreachable : e.location ≠ .unreachable) :
    ∃ choice, choice ≠ .spurious ∧ choice ≠ .fileReady ∧ (e.step choice).isSome = true := by
  have goes : (e.step .go).isSome = true →
      ∃ choice, choice ≠ .spurious ∧ choice ≠ .fileReady ∧ (e.step choice).isSome = true :=
    fun isSome => ⟨.go, (by rintro ⟨⟩), (by rintro ⟨⟩), isSome⟩
  cases isLocation : e.location with
  | loop => exact goes (by simp only [step, isLocation, Option.isSome_some])
  | taken task message =>
      cases task with
      | none =>
          cases message with
          | none => exact absurd isLocation alert.takes
          | some message => exact goes (by simp only [step, isLocation, Option.isSome_some])
      | some task =>
          by_cases isPoll : e.state = .poll
          · exact goes (by simp only [step, isLocation, if_pos isPoll, Option.isSome_some])
          · exact ⟨.blocked, (by rintro ⟨⟩), (by rintro ⟨⟩), by
              simp only [step, isLocation, if_neg isPoll, Option.isSome_some]⟩
  | deciding => exact goes (by simp only [step, isLocation, Option.isSome_some])
  | executing task =>
      exact ⟨.blocked, (by rintro ⟨⟩), (by rintro ⟨⟩), by
        simp only [step, isLocation, Option.isSome_some]⟩
  | enteringPoll => exact goes (by simp only [step, isLocation, Option.isSome_some])
  | sleeping => exact goes (by simp only [step, isLocation, Option.isSome_some])
  | waiting signalled =>
      cases signalled with
      | false => exact absurd (alert.sleeps isLocation) notEmpty
      | true => exact goes (by simp only [step, isLocation, Option.isSome_some])
  | polling =>
      have uses := alert.usesEventfd (alert.polls isLocation) (isLocation ▸ (by rintro ⟨⟩))
      have readable := (alert.notices (Or.inr isLocation) uses).resolve_left notEmpty
      exact goes (by simp only [step, isLocation, if_pos readable, Option.isSome_some])
  | leavingPoll => exact goes (by simp only [step, isLocation, Option.isSome_some])
  | announcing => exact goes (by simp only [step, isLocation, Option.isSome_some])
  | returned => exact absurd isLocation notReturned
  | unreachable => exact absurd isLocation notUnreachable

/-- Nothing on the queues is left there. -/
structure Attended (e : Executor ι) : Prop where
  sleeps : ∀ signalled, e.location = .waiting signalled → e.IsEmpty ∨ signalled = true
  polls : e.location = .polling → ¬e.IsEmpty → 0 < e.eventCount
  steps : ¬e.IsEmpty → e.location ≠ .returned → e.location ≠ .unreachable →
    ∃ choice, choice ≠ .spurious ∧ choice ≠ .fileReady ∧ (e.step choice).isSome = true
  approaches : ∀ choice next sent, e.step choice = some (next, sent) → ¬e.IsEmpty →
    e.location ≠ .loop → stepsToLoop next.location < stepsToLoop e.location ∧
      next.ready = e.ready ∧ next.mailbox = e.mailbox
  takes : ∀ choice next sent, e.step choice = some (next, sent) → ¬e.IsEmpty →
    e.location = .loop → next.location = .taken e.ready.head? e.mailbox.head? ∧
      next.ready = e.ready.tail ∧ next.mailbox = e.mailbox.tail

/-- No message and no granted task is lost, whatever arrives between the steps of an
executor. -/
theorem afterAll_attended (id : ι) (tasks : List Nat) (events : List (Event ι))
    (runs : (initial id tasks).afterAll events = some e) : e.Attended := by
  have alert := alert_afterAll events (alert_initial id tasks) runs
  refine ⟨?_, ?_, exists_step alert, ?_, ?_⟩
  · intro signalled isLocation
    cases signalled with
    | false => exact Or.inl (alert.sleeps isLocation)
    | true => exact Or.inr rfl
  · intro isLocation notEmpty
    have uses := alert.usesEventfd (alert.polls isLocation) (isLocation ▸ (by rintro ⟨⟩))
    exact (alert.notices (Or.inr isLocation) uses).resolve_left notEmpty
  · intro choice next sent steps notEmpty notLoop
    obtain ⟨approaches, isReady, isMailbox⟩ := ownStep_approaches (ownStep_of_step steps) notLoop
    refine ⟨approaches.resolve_right ?_, isReady, isMailbox⟩
    intro isWaiting
    have isEmpty := (alert_ownStep alert (ownStep_of_step steps)).sleeps isWaiting
    rw [IsEmpty, isReady, isMailbox] at isEmpty
    exact notEmpty isEmpty
  · intro choice next sent steps notEmpty isLoop
    cases choice with
    | go =>
        simp only [step, isLoop] at steps
        cases steps
        exact ⟨if_neg notEmpty, rfl, rfl⟩
    | _ => simp only [step, isLoop, reduceCtorEq] at steps

/-- A task arrives while the executor waits. -/
theorem afterAll_attended_waiting : ∃ e : Executor (Fin 2),
    (initial 0 [0]).afterAll [.step .go, .step .go, .step .blocked, .step .go, .step .go,
      .step .go, .toReadyList 0] = some e ∧ e.location = .waiting true ∧ e.Attended :=
  ⟨_, rfl, rfl, afterAll_attended 0 [0] [.step .go, .step .go, .step .blocked, .step .go,
    .step .go, .step .go, .toReadyList 0] rfl⟩

end Rcgo.Scheduler.Executor
