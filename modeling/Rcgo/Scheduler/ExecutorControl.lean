import Mathlib.Tactic.Common

/-!
# The control of an executor

`run_i` of `partitioned_scheduler.cpp` with the mailbox and the ready list of the
executor, one step for each critical section.  What the locks and the
preconditions of tasks say is a choice, and other executors put messages and
tasks on the queues at any time.
-/

namespace Rcgo.Scheduler

/-- `size_t`. -/
abbrev SizeT := BitVec 64

/-- `Message`. -/
inductive Message (ι : Type) where
  | startShootDown (id : ι)
  | startWaiting1 (id : ι)
  | startDoubleCheck (id : ι)
  | startWaiting2 (id : ι)
  | terminate
  | reset (id : ι)
  deriving DecidableEq

/-- `State` of `run_i`. -/
inductive RunState where
  | normal
  | shootDown
  | wait1
  | doubleCheck
  | wait2
  | poll
  deriving DecidableEq

/-- `ExecutionResult`. -/
inductive ExecutionResult where
  | nothing
  | skip
  | hit
  | firstSkip
  | firstHit
  deriving DecidableEq

/-- `task_t::ExecutionKind`. -/
inductive ExecutionKind where
  | hit
  | skip
  deriving DecidableEq

/-- `last_execution_kind_` and `generation_`. -/
structure ExecutionRecord where
  lastExecutionKind : ExecutionKind
  generation : SizeT
  deriving DecidableEq

/-- The part of `resume` behind the locks, where the precondition was true or not. -/
def ExecutionRecord.execute (record : ExecutionRecord) (generation : SizeT) (hit : Bool) :
    ExecutionResult × ExecutionRecord :=
  let record := if generation = record.generation then record else ⟨.hit, generation⟩
  match record.lastExecutionKind, hit with
  | .hit, true => (.hit, { record with lastExecutionKind := .hit })
  | .hit, false => (.firstSkip, { record with lastExecutionKind := .skip })
  | .skip, true => (.firstHit, { record with lastExecutionKind := .hit })
  | .skip, false => (.skip, { record with lastExecutionKind := .skip })

/-- Where an executor is in `run_i`. -/
inductive Location (ι : Type) where
  /-- before `get_ready_task_and_message` -/
  | loop
  /-- with what it has returned -/
  | taken (task : Option Nat) (message : Option (Message ι))
  /-- it has returned neither a task nor a message -/
  | deciding
  /-- in `execute` of a task of the idle list -/
  | executing (task : Nat)
  /-- before `using_eventfd_` is set -/
  | enteringPoll
  /-- in `sleep`, before the test -/
  | sleeping
  /-- in `pthread_cond_wait` -/
  | waiting (signalled : Bool)
  /-- in `::poll` -/
  | polling
  /-- before `using_eventfd_` is cleared -/
  | leavingPoll
  /-- before everyone is woken up -/
  | announcing
  | returned
  /-- a failed assertion or `NOT_REACHED` -/
  | unreachable
  deriving DecidableEq

/-- An executor with the local variables of `run_i`.  The suspended tasks have been
enqueued by a lock and not been put on the ready list since then. -/
structure Executor (ι : Type) where
  id : ι
  taskCount : SizeT
  location : Location ι
  state : RunState
  generation : SizeT
  points : SizeT
  idle : List Nat
  suspended : List Nat
  ready : List Nat
  mailbox : List (Message ι)
  records : Nat → ExecutionRecord
  trackFileDescriptors : Bool
  fileDescriptorMap : List Nat
  usingEventfd : Bool
  eventCount : Nat

namespace Executor

variable {ι : Type}

/-- An executor that has been given its tasks. -/
def initial (id : ι) (tasks : List Nat) : Executor ι where
  id := id
  taskCount := BitVec.ofNat 64 tasks.length
  location := .loop
  state := .normal
  generation := 0
  points := 0
  idle := tasks
  suspended := []
  ready := []
  mailbox := []
  records _ := ⟨.hit, 0⟩
  trackFileDescriptors := false
  fileDescriptorMap := []
  usingEventfd := false
  eventCount := 0

/-! ## The queues -/

/-- A signal and, where it is used, a write to the event descriptor. -/
def wake (e : Executor ι) : Executor ι :=
  { e with
    eventCount := if e.usingEventfd then e.eventCount + 1 else e.eventCount
    location :=
      match e.location with
      | .waiting _ => .waiting true
      | location => location }

/-- `receive`. -/
def receive (e : Executor ι) (message : Message ι) : Executor ι :=
  let e := if e.mailbox = [] then e.wake else e
  { e with mailbox := e.mailbox ++ [message] }

/-- `to_ready_list`. -/
def toReadyList (e : Executor ι) (task : Nat) : Executor ι :=
  let e := if e.ready = [] then e.wake else e
  { e with ready := e.ready ++ [task] }

/-- `get_ready_task_and_message`. -/
def getReadyTaskAndMessage (e : Executor ι) : Executor ι :=
  { e with
    ready := e.ready.tail
    mailbox := e.mailbox.tail
    eventCount := if e.usingEventfd then 0 else e.eventCount
    location :=
      if e.ready = [] ∧ e.mailbox = [] then .deciding
      else .taken e.ready.head? e.mailbox.head? }

/-- The test in `sleep`. -/
def sleep (e : Executor ι) : Executor ι :=
  { e with location := if e.ready = [] ∧ e.mailbox = [] then .waiting false else .loop }

/-! ## Phases -/

/-- `disableFileDescriptorTracking`, the next generation, and back to `NORMAL`. -/
def backToNormal (e : Executor ι) : Executor ι :=
  { e with
    state := .normal
    trackFileDescriptors := false
    generation := e.generation + 1
    points := 0 }

/-- `SHOOT_DOWN` with the next generation. -/
def startShootDown (e : Executor ι) : Executor ι :=
  { e with state := .shootDown, generation := e.generation + 1, points := 0 }

/-- `DOUBLE_CHECK` with `enableFileDescriptorTracking` and the next generation. -/
def startDoubleCheck (e : Executor ι) : Executor ι :=
  { e with
    state := .doubleCheck
    trackFileDescriptors := true
    fileDescriptorMap := []
    generation := e.generation + 1
    points := 0 }

/-! ## Tasks -/

/-- `resume` up to a lock that enqueues the task. -/
def block (e : Executor ι) (task : Nat) : Executor ι :=
  { e with suspended := e.suspended ++ [task] }

/-- `checked_for_readability` and `checked_for_writability`. -/
def checkDescriptors (e : Executor ι) (checked : List Nat) : Executor ι :=
  { e with
    fileDescriptorMap :=
      if e.trackFileDescriptors then e.fileDescriptorMap ++ checked else e.fileDescriptorMap }

/-- The rest of `resume` for a task that has all locks, with its result. -/
def complete (e : Executor ι) (task : Nat) (hit : Bool) (checked : List Nat) :
    Executor ι × ExecutionResult :=
  let executed := (e.records task).execute e.generation hit
  ({ e.checkDescriptors checked with
      records := fun other => if other = task then executed.2 else e.records other
      idle := e.idle ++ [task] }, executed.1)

/-- What `run_i` does with the result; in the other states it is dropped. -/
def count (e : Executor ι) (result : ExecutionResult) : Executor ι × Option (Message ι) :=
  match e.state with
  | .normal =>
      match result with
      | .firstSkip => ({ e with points := e.points + 1 }, none)
      | .firstHit => ({ e with points := e.points - 1 }, none)
      | _ => (e, none)
  | .shootDown | .doubleCheck =>
      match result with
      | .firstSkip => ({ e with points := e.points + 1 }, none)
      | .hit | .firstHit => (e.backToNormal, some (.reset e.id))
      | _ => (e, none)
  | _ => (e, none)

/-! ## The loop -/

/-- What `run_i` does with a message. -/
def handle [DecidableEq ι] (e : Executor ι) (message : Message ι) :
    Executor ι × Option (Message ι) :=
  let e := { e with location := .loop }
  match message with
  | .startShootDown id =>
      if id ≠ e.id ∧ e.state = .normal then (e.startShootDown, some message) else (e, none)
  | .startWaiting1 id =>
      if e.state = .wait1 then
        if id ≠ e.id then (e, some message)
        else (e.startDoubleCheck, some (.startDoubleCheck e.id))
      else (e, none)
  | .startDoubleCheck id =>
      if id ≠ e.id ∧ e.state = .wait1 then (e.startDoubleCheck, some message) else (e, none)
  | .startWaiting2 id =>
      if e.state = .wait2 then
        if id ≠ e.id then (e, some message)
        else ({ e with location := .returned }, some .terminate)
      else (e, none)
  | .terminate =>
      if e.state = .wait2 then ({ e with location := .returned }, some .terminate)
      else ({ e with location := .unreachable }, none)
  | .reset id => if id ≠ e.id then (e.backToNormal, some message) else (e, none)

/-- What `run_i` does when there is neither a ready task nor a message. -/
def proceed (e : Executor ι) : Executor ι × Option (Message ι) :=
  if e.points = e.taskCount then
    match e.state with
    | .normal => ({ e.startShootDown with location := .loop }, some (.startShootDown e.id))
    | .shootDown => ({ e with state := .wait1, location := .loop }, some (.startWaiting1 e.id))
    | .wait1 => ({ e with location := .sleeping }, none)
    | .doubleCheck =>
        if e.fileDescriptorMap = [] then
          ({ e with state := .wait2, location := .loop }, some (.startWaiting2 e.id))
        else ({ e with state := .poll, location := .enteringPoll }, none)
    | .wait2 => ({ e with location := .sleeping }, none)
    | .poll => ({ e with location := .polling }, none)
  else
    match e.idle with
    | [] => ({ e with location := .sleeping }, none)
    | task :: rest =>
        match e.state with
        | .normal | .shootDown | .doubleCheck =>
            ({ e with idle := rest, location := .executing task }, none)
        | _ => ({ e with idle := rest, location := .unreachable }, none)

/-- What is left of what `get_ready_task_and_message` has returned. -/
def behindTask (message : Option (Message ι)) : Location ι :=
  match message with
  | none => .loop
  | some message => .taken none (some message)

/-- What the steps of an executor depend on besides the executor. -/
inductive Choice where
  | go
  /-- a lock enqueues the task -/
  | blocked
  /-- the task is executed, and these descriptors are checked -/
  | executed (hit : Bool) (checked : List Nat)
  /-- `pthread_cond_wait` returns without a signal -/
  | spurious
  /-- `::poll` reports one of the other descriptors -/
  | fileReady
  deriving DecidableEq

/-- A step of the executor, with the message that it sends. -/
def step [DecidableEq ι] (e : Executor ι) (choice : Choice) :
    Option (Executor ι × Option (Message ι)) :=
  match e.location, choice with
  | .loop, .go => some (e.getReadyTaskAndMessage, none)
  | .taken (some task) message, choice =>
      if e.state = .poll then
        match choice with
        | .go => some ({ e with location := .unreachable }, none)
        | _ => none
      else
        match choice with
        | .blocked => some ({ e.block task with location := behindTask message }, none)
        | .executed hit checked =>
            let completed := e.complete task hit checked
            let counted := completed.1.count completed.2
            some ({ counted.1 with location := behindTask message }, counted.2)
        | _ => none
  | .taken none (some message), .go => some (e.handle message)
  | .deciding, .go => some e.proceed
  | .executing task, .blocked => some ({ e.block task with location := .loop }, none)
  | .executing task, .executed hit checked =>
      let completed := e.complete task hit checked
      let counted := completed.1.count completed.2
      some ({ counted.1 with location := .loop }, counted.2)
  | .enteringPoll, .go => some ({ e with usingEventfd := true, location := .loop }, none)
  | .sleeping, .go => some (e.sleep, none)
  | .waiting true, .go => some ({ e with location := .sleeping }, none)
  | .waiting false, .spurious => some ({ e with location := .sleeping }, none)
  | .polling, .go =>
      if 0 < e.eventCount then some ({ e with location := .loop }, none) else none
  | .polling, .fileReady =>
      if e.fileDescriptorMap = [] then none
      else some ({ e with state := .normal, location := .leavingPoll }, none)
  | .leavingPoll, .go =>
      some ({ e with usingEventfd := false, location := .announcing }, none)
  | .announcing, .go => some ({ e.backToNormal with location := .loop }, some (.reset e.id))
  | _, _ => none

/-- What happens to an executor. -/
inductive Event (ι : Type) where
  | step (choice : Choice)
  | receive (message : Message ι)
  | toReadyList (task : Nat)

def after [DecidableEq ι] (e : Executor ι) : Event ι → Option (Executor ι)
  | .step choice => (e.step choice).map Prod.fst
  | .receive message => some (e.receive message)
  | .toReadyList task => some (e.toReadyList task)

def afterAll [DecidableEq ι] (e : Executor ι) : List (Event ι) → Option (Executor ι)
  | [] => some e
  | event :: events => do
      let e ← e.after event
      e.afterAll events

end Executor

end Rcgo.Scheduler
