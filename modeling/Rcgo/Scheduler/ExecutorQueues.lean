import Rcgo.Scheduler.ExecutorWakeup

/-!
# The queues of an executor

Granted tasks and messages leave the queues of an executor in the order in which
they have arrived, each of them once.
-/

namespace Rcgo.Scheduler.Executor

variable {ι α : Type} {e next last : Executor ι}

@[simp]
theorem mailbox_receive (e : Executor ι) (message : Message ι) :
    (e.receive message).mailbox = e.mailbox ++ [message] := by
  unfold receive
  split <;> rfl

@[simp]
theorem ready_receive (e : Executor ι) (message : Message ι) :
    (e.receive message).ready = e.ready := by
  unfold receive
  split <;> rfl

@[simp]
theorem ready_toReadyList (e : Executor ι) (task : Nat) :
    (e.toReadyList task).ready = e.ready ++ [task] := by
  unfold toReadyList
  split <;> rfl

@[simp]
theorem mailbox_toReadyList (e : Executor ι) (task : Nat) :
    (e.toReadyList task).mailbox = e.mailbox := by
  unfold toReadyList
  split <;> rfl

def Event.message : Event ι → Option (Message ι)
  | .receive message => some message
  | _ => none

def Event.task : Event ι → Option Nat
  | .toReadyList task => some task
  | _ => none

/-- What `get_ready_task_and_message` takes off a queue when the event is its call. -/
def takenBy (queue : Executor ι → List α) (e : Executor ι) (event : Event ι) : List α :=
  match event, e.location with
  | .step _, .loop => (queue e).head?.toList
  | _, _ => []

theorem takenBy_loop (queue : Executor ι → List α) (choice : Choice) (isLoop : e.location = .loop) :
    takenBy queue e (.step choice) = (queue e).head?.toList := by
  rw [takenBy]
  exact isLoop

theorem takenBy_elsewhere (queue : Executor ι → List α) (event : Event ι)
    (notLoop : e.location ≠ .loop) : takenBy queue e event = [] := by
  rw [takenBy]
  intro _ _
  exact notLoop

theorem head_append_tail (queue : List α) : queue.head?.toList ++ queue.tail = queue := by
  cases queue <;> rfl

section Runs

variable [DecidableEq ι]

/-- What is taken off a queue while the events happen. -/
def takenByAll (queue : Executor ι → List α) (e : Executor ι) : List (Event ι) → List α
  | [] => []
  | event :: events =>
      takenBy queue e event ++
        match e.after event with
        | none => []
        | some next => next.takenByAll queue events

/-- What has been on a queue or arrives leaves it in this order. -/
def InOrder (queue : Executor ι → List α) (arrival : Event ι → Option α) : Prop :=
  ∀ (e next : Executor ι) (event : Event ι), e.after event = some next →
    queue e ++ (arrival event).toList = takenBy queue e event ++ queue next

theorem InOrder.afterAll {queue : Executor ι → List α} {arrival : Event ι → Option α}
    (inOrder : InOrder queue arrival) (events : List (Event ι)) :
    ∀ {e last : Executor ι}, e.afterAll events = some last →
      queue e ++ events.filterMap arrival = e.takenByAll queue events ++ queue last := by
  induction events with
  | nil =>
      intro e last runs
      rw [← Option.some.inj runs, List.filterMap_nil, List.append_nil, takenByAll, List.nil_append]
  | cons event events inductionHypothesis =>
      intro e last runs
      obtain ⟨next, isNext, runs⟩ := Option.bind_eq_some_iff.mp runs
      have first := inOrder e next event isNext
      have rest := inductionHypothesis runs
      have isArrival :
          (event :: events).filterMap arrival = (arrival event).toList ++ events.filterMap arrival := by
        rw [List.filterMap_cons]
        cases arrival event <;> rfl
      rw [takenByAll, isNext, isArrival, ← List.append_assoc, first, List.append_assoc, rest,
        List.append_assoc]

theorem step_queues {choice : Choice} {sent : Option (Message ι)}
    (runs : e.step choice = some (next, sent)) :
    e.ready = takenBy ready e (.step choice) ++ next.ready ∧
      e.mailbox = takenBy mailbox e (.step choice) ++ next.mailbox := by
  by_cases isLoop : e.location = .loop
  case pos =>
    rw [takenBy_loop _ _ isLoop, takenBy_loop _ _ isLoop]
    cases choice with
    | go =>
        simp only [step, isLoop, Option.some.injEq, Prod.mk.injEq] at runs
        rw [← runs.1]
        exact ⟨(head_append_tail e.ready).symm, (head_append_tail e.mailbox).symm⟩
    | _ => simp only [step, isLoop, reduceCtorEq] at runs
  case neg =>
    obtain ⟨_, isReady, isMailbox⟩ := ownStep_approaches (ownStep_of_step runs) isLoop
    rw [takenBy_elsewhere _ _ isLoop, takenBy_elsewhere _ _ isLoop, isReady, isMailbox]
    exact ⟨rfl, rfl⟩

theorem inOrder_mailbox : InOrder (mailbox : Executor ι → List (Message ι)) Event.message := by
  intro e next event isNext
  cases event with
  | step choice =>
      obtain ⟨result, runs, isResult⟩ := Option.map_eq_some_iff.mp isNext
      rw [← isResult, (step_queues runs).2]
      exact List.append_nil _
  | receive message =>
      rw [← Option.some.inj isNext, mailbox_receive]
      rfl
  | toReadyList task =>
      rw [← Option.some.inj isNext, mailbox_toReadyList]
      exact List.append_nil _

theorem inOrder_ready : InOrder (ready : Executor ι → List Nat) Event.task := by
  intro e next event isNext
  cases event with
  | step choice =>
      obtain ⟨result, runs, isResult⟩ := Option.map_eq_some_iff.mp isNext
      rw [← isResult, (step_queues runs).1]
      exact List.append_nil _
  | receive message =>
      rw [← Option.some.inj isNext, ready_receive]
      exact List.append_nil _
  | toReadyList task =>
      rw [← Option.some.inj isNext, ready_toReadyList]
      rfl

/-- Whatever arrives between the steps of an executor, what has arrived is what has
been taken, in the same order, and behind it what is still on the queues. -/
theorem afterAll_arrived (id : ι) (tasks : List Nat) (events : List (Event ι))
    (runs : (initial id tasks).afterAll events = some e) :
    events.filterMap Event.message = (initial id tasks).takenByAll mailbox events ++ e.mailbox ∧
      events.filterMap Event.task = (initial id tasks).takenByAll ready events ++ e.ready :=
  ⟨inOrder_mailbox.afterAll events runs, inOrder_ready.afterAll events runs⟩

end Runs

end Rcgo.Scheduler.Executor
