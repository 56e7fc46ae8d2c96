import Rcgo.Foundation.TokenRing
import Rcgo.Scheduler.ExecutorWakeup
import Mathlib.Data.Fin.Basic

/-!
# The executors on their ring

Each executor sends to its neighbour.  A task that a lock has enqueued is put on the
ready list of its executor by whoever releases the lock, at any time.
-/

namespace Rcgo.Scheduler

open Foundation (Notice RingState)

/-- A lock gives a task that it has enqueued to the executor of the task. -/
def Executor.grant {ι : Type} (e : Executor ι) (task : Nat) : Executor ι :=
  { e with suspended := e.suspended.erase task }.toReadyList task

/-- `executors_`, with at least one thread. -/
abbrev ExecutorRing (last : Nat) := Fin (last + 1) → Executor (Fin (last + 1))

/-- What happens on the ring. -/
inductive RingEvent (last : Nat) where
  | step (e : Fin (last + 1)) (choice : Executor.Choice)
  | grant (e : Fin (last + 1)) (task : Nat)
  deriving DecidableEq

namespace ExecutorRing

variable {last : Nat}

/-- The executors that have been given their tasks. -/
def initial (tasks : Fin (last + 1) → List Nat) : ExecutorRing last :=
  fun e => Executor.initial e (tasks e)

/-- `send` to the neighbour `(id_ + 1) % thread_count`. -/
def send (ring : ExecutorRing last) (e : Fin (last + 1))
    (message : Option (Message (Fin (last + 1)))) : ExecutorRing last :=
  match message with
  | none => ring
  | some message => Function.update ring (e + 1) ((ring (e + 1)).receive message)

/-- The executors after an event. -/
def after (ring : ExecutorRing last) : RingEvent last → Option (ExecutorRing last)
  | .step e choice =>
      ((ring e).step choice).map fun result => send (Function.update ring e result.1) e result.2
  | .grant e task =>
      if task ∈ (ring e).suspended then some (Function.update ring e ((ring e).grant task))
      else none

def afterAll (ring : ExecutorRing last) : List (RingEvent last) → Option (ExecutorRing last)
  | [] => some ring
  | event :: events => do
      let ring ← ring.after event
      ring.afterAll events

end ExecutorRing

/-- The part of a message that the detection of the end depends on. -/
def Message.notice {ι : Type} : Message ι → Option (Notice ι)
  | .startWaiting2 id => some (.token id)
  | .terminate => some .finish
  | .reset _ => some .alarm
  | _ => none

namespace Executor

variable {ι : Type} {e next : Executor ι} {sent : Option (Message ι)}

/-- The messages that an executor has still to look at. -/
def pending (e : Executor ι) : List (Message ι) :=
  match e.location with
  | .taken _ (some message) => message :: e.mailbox
  | _ => e.mailbox

def holdsTask (e : Executor ι) : Bool :=
  match e.location with
  | .taken (some _) _ | .executing _ => true
  | _ => false

/-- What an executor knows by itself. -/
structure Orderly (e : Executor ι) : Prop where
  counts : e.state = .wait1 ∨ e.state = .wait2 ∨ e.state = .poll → e.points = e.taskCount
  polls : e.state = .poll → e.suspended = [] ∧ e.ready = [] ∧ e.holdsTask = false
  announces : e.location = .announcing → e.state = .normal

/-- What a step of an executor does to the detection of the end. -/
inductive Effect (e next : Executor ι) : Option (Message ι) → Prop where
  | quiet (sent : Option (Message ι)) (isState : next.state = .wait2 ↔ e.state = .wait2)
      (isPending : next.pending = e.pending) (isSent : sent.bind Message.notice = none) :
      Effect e next sent
  | drop (message : Message ι) (sent : Option (Message ι))
      (isState : next.state = .wait2 ↔ e.state = .wait2)
      (isPending : e.pending = message :: next.pending)
      (isSent : sent.bind Message.notice = none) : Effect e next sent
  | launch (wasState : e.state = .doubleCheck) (isState : next.state = .wait2)
      (isLocation : e.location = .deciding) (isPoints : e.points = e.taskCount)
      (noDescriptors : e.fileDescriptorMap = []) (isPending : next.pending = e.pending) :
      Effect e next (some (.startWaiting2 e.id))
  | alarm (wasState : e.state ≠ .wait2) (isState : next.state = .normal)
      (isPending : next.pending = e.pending) : Effect e next (some (.reset e.id))
  | relay (id : ι) (isState : next.state = .normal)
      (isPending : e.pending = .reset id :: next.pending) : Effect e next (some (.reset id))
  | forward (id : ι) (isOther : id ≠ e.id) (wasState : e.state = .wait2)
      (isState : next.state = .wait2) (isPending : e.pending = .startWaiting2 id :: next.pending) :
      Effect e next (some (.startWaiting2 id))
  | finish (wasState : e.state = .wait2) (isState : next.state = .wait2)
      (isPending : e.pending = .startWaiting2 e.id :: next.pending) :
      Effect e next (some .terminate)
  | passOn (wasState : e.state = .wait2) (isState : next.state = .wait2)
      (isPending : e.pending = .terminate :: next.pending) : Effect e next (some .terminate)

theorem pending_of_location {other : Executor ι} (isMailbox : other.mailbox = e.mailbox)
    (isLocation : ∀ task message, other.location ≠ .taken task (some message))
    (wasLocation : ∀ task message, e.location ≠ .taken task (some message)) :
    other.pending = e.pending := by
  have atMailbox : ∀ e : Executor ι, (∀ task message, e.location ≠ .taken task (some message)) →
      e.pending = e.mailbox := by
    intro e notTaken
    rw [pending]
    split
    · next isTaken => exact absurd isTaken (notTaken _ _)
    · rfl
  rw [atMailbox _ isLocation, atMailbox _ wasLocation, isMailbox]

theorem pending_behindTask {task : Nat} (message : Option (Message ι))
    (wasLocation : e.location = .taken (some task) message)
    (isMailbox : next.mailbox = e.mailbox) (isLocation : next.location = behindTask message) :
    next.pending = e.pending := by
  rw [pending, pending, wasLocation, isLocation, isMailbox]
  cases message with
  | none => rfl
  | some message => rfl

theorem pending_getReadyTaskAndMessage (isLocation : e.location = .loop) :
    e.getReadyTaskAndMessage.pending = e.pending := by
  rw [pending, pending, isLocation, getReadyTaskAndMessage]
  dsimp only
  cases e.mailbox with
  | nil =>
      cases e.ready with
      | nil => rfl
      | cons task rest => rfl
  | cons message rest =>
      rw [if_neg (by simp)]
      rfl

/-- The result of a task is counted, or it makes the executor go back to `NORMAL`. -/
theorem count_cases (e : Executor ι) (result : ExecutionResult) :
    (e.count result).2 = none ∧ (e.count result).1.state = e.state ∨
      (e.count result).2 = some (.reset e.id) ∧ (e.count result).1.state = .normal ∧
        (e.state = .shootDown ∨ e.state = .doubleCheck) := by
  unfold count
  split
  · split <;> exact Or.inl ⟨rfl, rfl⟩
  · next isState =>
      split
      · exact Or.inl ⟨rfl, rfl⟩
      · exact Or.inr ⟨rfl, rfl, Or.inl isState⟩
      · exact Or.inr ⟨rfl, rfl, Or.inl isState⟩
      · exact Or.inl ⟨rfl, rfl⟩
  · next isState =>
      split
      · exact Or.inl ⟨rfl, rfl⟩
      · exact Or.inr ⟨rfl, rfl, Or.inr isState⟩
      · exact Or.inr ⟨rfl, rfl, Or.inr isState⟩
      · exact Or.inl ⟨rfl, rfl⟩
  · exact Or.inl ⟨rfl, rfl⟩

theorem effect_executed (task : Nat) (hit : Bool) (checked : List Nat) (location : Location ι)
    (isPending : ∀ other : Executor ι, other.mailbox = e.mailbox → other.location = location →
      other.pending = e.pending) :
    Effect e
      { ((e.complete task hit checked).1.count (e.complete task hit checked).2).1 with
        location := location }
      ((e.complete task hit checked).1.count (e.complete task hit checked).2).2 := by
  have same := (count_spec (e.complete task hit checked).1 (e.complete task hit checked).2).1
  cases count_cases (e.complete task hit checked).1 (e.complete task hit checked).2 with
  | inl counted =>
      rw [counted.1]
      refine .quiet none ?_ (isPending _ same.mailbox rfl) rfl
      exact counted.2 ▸ Iff.rfl
  | inr goesBack =>
      rw [goesBack.1]
      refine .alarm ?_ goesBack.2.1 (isPending _ same.mailbox rfl)
      intro isWait
      cases goesBack.2.2 with
      | inl isShootDown =>
          have := isShootDown.symm.trans isWait
          cases this
      | inr isDoubleCheck =>
          have := isDoubleCheck.symm.trans isWait
          cases this

theorem effect_handle [DecidableEq ι] {message : Message ι}
    (isLocation : e.location = .taken none (some message)) :
    Effect e (e.handle message).1 (e.handle message).2 := by
  have isPending : e.pending = message :: e.mailbox := by rw [pending, isLocation]
  -- in all states but `WAIT2` the message is dropped by the detection of the end
  have drops : ∀ (next : Executor ι) (sent : Option (Message ι)), next.pending = e.mailbox →
      (next.state = .wait2 ↔ e.state = .wait2) → sent.bind Message.notice = none →
      Effect e next sent :=
    fun next sent isMailbox isState isSent =>
      .drop message sent isState (isMailbox ▸ isPending) isSent
  have leaves : ∀ state : RunState, state ≠ .wait2 → e.state ≠ .wait2 →
      (state = .wait2 ↔ e.state = .wait2) :=
    fun _ notWait wasNot => ⟨fun isWait => absurd isWait notWait, fun wasWait => absurd wasWait wasNot⟩
  cases message with
  | startShootDown id =>
      rw [handle]
      dsimp only
      split
      · next isNormal =>
          exact drops _ _ rfl (leaves _ (by rintro ⟨⟩) (isNormal.2 ▸ (by rintro ⟨⟩))) rfl
      · exact drops _ _ rfl Iff.rfl rfl
  | startWaiting1 id =>
      rw [handle]
      dsimp only
      split
      · next isWait1 =>
          split
          · exact drops _ _ rfl Iff.rfl rfl
          · exact drops _ _ rfl (leaves _ (by rintro ⟨⟩) (isWait1 ▸ (by rintro ⟨⟩))) rfl
      · exact drops _ _ rfl Iff.rfl rfl
  | startDoubleCheck id =>
      rw [handle]
      dsimp only
      split
      · next isWait1 =>
          exact drops _ _ rfl (leaves _ (by rintro ⟨⟩) (isWait1.2 ▸ (by rintro ⟨⟩))) rfl
      · exact drops _ _ rfl Iff.rfl rfl
  | startWaiting2 id =>
      rw [handle]
      dsimp only
      split
      · next isWait2 =>
          split
          · next isOther => exact .forward id isOther isWait2 isWait2 isPending
          · next isSame =>
              rw [not_not.mp isSame] at isPending
              exact .finish isWait2 isWait2 isPending
      · exact drops _ _ rfl Iff.rfl rfl
  | terminate =>
      rw [handle]
      dsimp only
      split
      · next isWait2 => exact .passOn isWait2 isWait2 isPending
      · exact drops _ _ rfl Iff.rfl rfl
  | reset id =>
      rw [handle]
      dsimp only
      split
      · exact .relay id rfl isPending
      · exact drops _ _ rfl Iff.rfl rfl

theorem effect_proceed (isLocation : e.location = .deciding) :
    Effect e e.proceed.1 e.proceed.2 := by
  have wasPending : e.pending = e.mailbox := by rw [pending, isLocation]
  have keeps : ∀ (next : Executor ι) (sent : Option (Message ι)), next.pending = e.mailbox →
      (next.state = .wait2 ↔ e.state = .wait2) → sent.bind Message.notice = none →
      Effect e next sent :=
    fun next sent isMailbox isState isSent =>
      .quiet sent isState (isMailbox.trans wasPending.symm) isSent
  have leaves : ∀ state : RunState, state ≠ .wait2 → e.state ≠ .wait2 →
      (state = .wait2 ↔ e.state = .wait2) :=
    fun _ notWait wasNot => ⟨fun isWait => absurd isWait notWait, fun wasWait => absurd wasWait wasNot⟩
  rw [proceed]
  split
  · next isPoints =>
      split
      · next isState => exact keeps _ _ rfl (leaves _ (by rintro ⟨⟩) (isState ▸ (by rintro ⟨⟩))) rfl
      · next isState => exact keeps _ _ rfl (leaves _ (by rintro ⟨⟩) (isState ▸ (by rintro ⟨⟩))) rfl
      · exact keeps _ _ rfl Iff.rfl rfl
      · next isState =>
          split
          · next noDescriptors =>
              exact .launch isState rfl isLocation isPoints noDescriptors wasPending.symm
          · exact keeps _ _ rfl (leaves _ (by rintro ⟨⟩) (isState ▸ (by rintro ⟨⟩))) rfl
      · exact keeps _ _ rfl Iff.rfl rfl
      · exact keeps _ _ rfl Iff.rfl rfl
  · split
    · exact keeps _ _ rfl Iff.rfl rfl
    · split <;> exact keeps _ _ rfl Iff.rfl rfl

theorem effect_ownStep [DecidableEq ι] (orderly : e.Orderly) (alert : e.Alert) (own : OwnStep e next sent) :
    Effect e next sent := by
  have stays : ∀ location, (∀ task message, location ≠ .taken task (some message)) →
      (∀ task message, e.location ≠ .taken task (some message)) →
      Effect e { e with location := location } none :=
    fun _ isLocation wasLocation =>
      .quiet none Iff.rfl (pending_of_location rfl isLocation wasLocation) rfl
  cases own with
  | get isLocation =>
      exact .quiet none Iff.rfl (pending_getReadyTaskAndMessage isLocation) rfl
  | straggle isLocation isState =>
      have holds := (orderly.polls isState).2.2
      rw [holdsTask, isLocation] at holds
      cases holds
  | @resumeBlocked task message isLocation _ =>
      exact .quiet none Iff.rfl (pending_behindTask message isLocation rfl rfl) rfl
  | resume hit checked isLocation _ =>
      exact effect_executed _ hit checked _ fun other isMailbox isNext =>
        pending_behindTask _ isLocation isMailbox isNext
  | handle isLocation => exact effect_handle isLocation
  | proceed isLocation => exact effect_proceed isLocation
  | executeBlocked isLocation =>
      exact .quiet none Iff.rfl (pending_of_location rfl (by rintro _ _ ⟨⟩)
        (isLocation ▸ (by rintro _ _ ⟨⟩))) rfl
  | execute hit checked isLocation =>
      exact effect_executed _ hit checked _ fun other isMailbox isNext =>
        pending_of_location isMailbox (isNext ▸ (by rintro _ _ ⟨⟩))
          (isLocation ▸ (by rintro _ _ ⟨⟩))
  | enterPoll isLocation =>
      exact .quiet none Iff.rfl (pending_of_location rfl (by rintro _ _ ⟨⟩)
        (isLocation ▸ (by rintro _ _ ⟨⟩))) rfl
  | sleep isLocation =>
      refine .quiet none Iff.rfl (pending_of_location rfl ?_ (isLocation ▸ (by rintro _ _ ⟨⟩))) rfl
      intro task message
      rw [sleep]
      dsimp only
      split
      · rintro ⟨⟩
      · rintro ⟨⟩
  | wakeUp isLocation => exact stays _ (by rintro _ _ ⟨⟩) (isLocation ▸ (by rintro _ _ ⟨⟩))
  | polled isLocation _ => exact stays _ (by rintro _ _ ⟨⟩) (isLocation ▸ (by rintro _ _ ⟨⟩))
  | fileReady isLocation _ =>
      refine .quiet none ⟨(by rintro ⟨⟩), fun isWait => ?_⟩ (pending_of_location rfl
        (by rintro _ _ ⟨⟩) (isLocation ▸ (by rintro _ _ ⟨⟩))) rfl
      have := isWait.symm.trans (alert.polls isLocation)
      cases this
  | leavePoll isLocation =>
      exact .quiet none Iff.rfl (pending_of_location rfl (by rintro _ _ ⟨⟩)
        (isLocation ▸ (by rintro _ _ ⟨⟩))) rfl
  | announce isLocation =>
      refine .alarm ?_ rfl (pending_of_location rfl (by rintro _ _ ⟨⟩)
        (isLocation ▸ (by rintro _ _ ⟨⟩)))
      rw [orderly.announces isLocation]
      rintro ⟨⟩

/-! ## The invariant of an executor -/

/-- Nothing is on its way to the ready list where the executor starts to poll. -/
def PollsAlone (e : Executor ι) : Prop :=
  e.location = .deciding → e.state = .doubleCheck → e.points = e.taskCount →
    e.fileDescriptorMap ≠ [] → e.suspended = [] ∧ e.ready = []

instance [DecidableEq ι] (e : Executor ι) : Decidable e.PollsAlone :=
  inferInstanceAs (Decidable (_ → _ → _ → _ → _ ∧ _))

theorem orderly_initial (id : ι) (tasks : List Nat) : (initial id tasks).Orderly where
  counts isState := by rcases isState with ⟨⟨⟩⟩ | ⟨⟨⟩⟩ | ⟨⟨⟩⟩
  polls isState := by cases isState
  announces isLocation := by cases isLocation

theorem Orderly.move (orderly : e.Orderly) (isState : next.state = e.state)
    (isPoints : next.points = e.points) (isCount : next.taskCount = e.taskCount)
    (isSuspended : next.suspended = e.suspended) (isReady : next.ready = e.ready)
    (notHolding : next.holdsTask = false) (notAnnouncing : next.location ≠ .announcing) :
    next.Orderly where
  counts := isState ▸ isPoints ▸ isCount ▸ orderly.counts
  polls isPoll := by
    have before := orderly.polls (isState ▸ isPoll)
    exact ⟨isSuspended ▸ before.1, isReady ▸ before.2.1, notHolding⟩
  announces isLocation := absurd isLocation notAnnouncing

theorem orderly_of_state
    (isState : e.state = .normal ∨ e.state = .shootDown ∨ e.state = .doubleCheck)
    (notAnnouncing : e.location = .announcing → e.state = .normal) : e.Orderly where
  counts isWaiting := by
    rcases isState with isState | isState | isState
    · rw [isState] at isWaiting
      simp at isWaiting
    · rw [isState] at isWaiting
      simp at isWaiting
    · rw [isState] at isWaiting
      simp at isWaiting
  polls isPoll := by
    rw [isPoll] at isState
    simp at isState
  announces := notAnnouncing

theorem state_of_not_waiting (e : Executor ι) :
    (e.state = .normal ∨ e.state = .shootDown ∨ e.state = .doubleCheck) ∨
      e.state = .wait1 ∨ e.state = .wait2 ∨ e.state = .poll := by
  cases e.state <;> simp

theorem behindTask_ne_announcing (message : Option (Message ι)) :
    behindTask message ≠ .announcing := by
  cases message with
  | none => rintro ⟨⟩
  | some message => rintro ⟨⟩

theorem Orderly.blocked (orderly : e.Orderly) (task : Nat) {location : Location ι}
    (notPoll : e.state ≠ .poll) (notAnnouncing : location ≠ .announcing) :
    Orderly { e.block task with location := location } where
  counts := orderly.counts
  polls isPoll := absurd isPoll notPoll
  announces isLocation := absurd isLocation notAnnouncing

theorem Orderly.executed (orderly : e.Orderly) (task : Nat) (hit : Bool) (checked : List Nat)
    {location : Location ι} (notPoll : e.state ≠ .poll) (notAnnouncing : location ≠ .announcing) :
    Orderly { ((e.complete task hit checked).1.count (e.complete task hit checked).2).1 with
      location := location } := by
  cases state_of_not_waiting e with
  | inl isState =>
      refine orderly_of_state ?_ fun isLocation => absurd isLocation notAnnouncing
      cases count_cases (e.complete task hit checked).1 (e.complete task hit checked).2 with
      | inl counted =>
          rw [show (_ : Executor ι).state = e.state from counted.2]
          exact isState
      | inr goesBack => exact Or.inl goesBack.2.1
  | inr isWaiting =>
      have dropped : (e.complete task hit checked).1.count (e.complete task hit checked).2 =
          ((e.complete task hit checked).1, none) := by
        have isState : (e.complete task hit checked).1.state = e.state := rfl
        unfold count
        rcases isWaiting with isWait | isWait | isPoll
        · rw [isState, isWait]
        · rw [isState, isWait]
        · exact absurd isPoll notPoll
      rw [dropped]
      exact ⟨orderly.counts, fun isPoll => absurd isPoll notPoll,
        fun isLocation => absurd isLocation notAnnouncing⟩

theorem Orderly.got (orderly : e.Orderly) : e.getReadyTaskAndMessage.Orderly where
  counts := orderly.counts
  polls isPoll := by
    obtain ⟨noneSuspended, noneReady, _⟩ := orderly.polls isPoll
    refine ⟨noneSuspended, ?_, ?_⟩
    · rw [getReadyTaskAndMessage, noneReady, List.tail_nil]
    · cases isMailbox : e.mailbox with
      | nil => simp only [holdsTask, getReadyTaskAndMessage, noneReady, isMailbox, and_self, if_true]
      | cons message rest =>
          simp only [holdsTask, getReadyTaskAndMessage, noneReady, isMailbox, reduceCtorEq,
            and_false, if_false, List.head?_nil]
  announces isLocation := by
    rw [getReadyTaskAndMessage] at isLocation
    dsimp only at isLocation
    split at isLocation
    · cases isLocation
    · cases isLocation

theorem Orderly.handled [DecidableEq ι] (orderly : e.Orderly) (message : Message ι)
    (isLocation : e.location = .taken none (some message)) : (e.handle message).1.Orderly := by
  have keeps : ∀ location : Location ι, location ≠ .announcing →
      holdsTask { e with location := location } = false →
      Orderly { e with location := location } :=
    fun _ notAnnouncing notHolding => orderly.move rfl rfl rfl rfl rfl notHolding notAnnouncing
  cases message with
  | startShootDown id =>
      rw [handle]
      dsimp only
      split
      · exact orderly_of_state (Or.inr (Or.inl rfl)) (by rintro ⟨⟩)
      · exact keeps _ (by rintro ⟨⟩) rfl
  | startWaiting1 id =>
      rw [handle]
      dsimp only
      split
      · split
        · exact keeps _ (by rintro ⟨⟩) rfl
        · exact orderly_of_state (Or.inr (Or.inr rfl)) (by rintro ⟨⟩)
      · exact keeps _ (by rintro ⟨⟩) rfl
  | startDoubleCheck id =>
      rw [handle]
      dsimp only
      split
      · exact orderly_of_state (Or.inr (Or.inr rfl)) (by rintro ⟨⟩)
      · exact keeps _ (by rintro ⟨⟩) rfl
  | startWaiting2 id =>
      rw [handle]
      dsimp only
      split
      · split
        · exact keeps _ (by rintro ⟨⟩) rfl
        · exact keeps _ (by rintro ⟨⟩) rfl
      · exact keeps _ (by rintro ⟨⟩) rfl
  | terminate =>
      rw [handle]
      dsimp only
      split
      · exact keeps _ (by rintro ⟨⟩) rfl
      · exact keeps _ (by rintro ⟨⟩) rfl
  | reset id =>
      rw [handle]
      dsimp only
      split
      · exact orderly_of_state (Or.inl rfl) (by rintro ⟨⟩)
      · exact keeps _ (by rintro ⟨⟩) rfl

theorem Orderly.proceeded (orderly : e.Orderly) (alone : e.PollsAlone)
    (isLocation : e.location = .deciding) : e.proceed.1.Orderly := by
  have keeps : ∀ location : Location ι, location ≠ .announcing →
      holdsTask { e with location := location } = false →
      Orderly { e with location := location } :=
    fun _ notAnnouncing notHolding => orderly.move rfl rfl rfl rfl rfl notHolding notAnnouncing
  rw [proceed]
  split
  · next isPoints =>
      split
      · exact orderly_of_state (Or.inr (Or.inl rfl)) (by rintro ⟨⟩)
      · exact ⟨fun _ => isPoints, by rintro ⟨⟩, by rintro ⟨⟩⟩
      · exact keeps _ (by rintro ⟨⟩) rfl
      · next isState =>
          split
          · exact ⟨fun _ => isPoints, by rintro ⟨⟩, by rintro ⟨⟩⟩
          · next watches =>
              have none := alone isLocation isState isPoints watches
              exact ⟨fun _ => isPoints, fun _ => ⟨none.1, none.2, rfl⟩, by rintro ⟨⟩⟩
      · exact keeps _ (by rintro ⟨⟩) rfl
      · exact keeps _ (by rintro ⟨⟩) rfl
  · next notPoints =>
      have notWaiting : ¬(e.state = .wait1 ∨ e.state = .wait2 ∨ e.state = .poll) :=
        fun isWaiting => notPoints (orderly.counts isWaiting)
      have isState := (state_of_not_waiting e).resolve_right notWaiting
      split
      · exact keeps _ (by rintro ⟨⟩) rfl
      · split <;> exact orderly_of_state isState (by rintro ⟨⟩)

theorem Orderly.ownStep [DecidableEq ι] (orderly : e.Orderly) (alert : e.Alert)
    (alone : e.PollsAlone) (own : OwnStep e next sent) : next.Orderly := by
  have notPoll : e.holdsTask = true → e.state ≠ .poll := by
    intro holds isPoll
    rw [(orderly.polls isPoll).2.2] at holds
    cases holds
  have keeps : ∀ location : Location ι, location ≠ .announcing →
      holdsTask { e with location := location } = false →
      Orderly { e with location := location } :=
    fun _ notAnnouncing notHolding => orderly.move rfl rfl rfl rfl rfl notHolding notAnnouncing
  cases own with
  | get isLocation => exact orderly.got
  | straggle isLocation isState => exact keeps _ (by rintro ⟨⟩) rfl
  | resumeBlocked _ isState => exact orderly.blocked _ isState (behindTask_ne_announcing _)
  | resume hit checked _ isState =>
      exact orderly.executed _ hit checked isState (behindTask_ne_announcing _)
  | handle isLocation => exact orderly.handled _ isLocation
  | proceed isLocation => exact orderly.proceeded alone isLocation
  | executeBlocked isLocation =>
      exact orderly.blocked _ (notPoll (by rw [holdsTask, isLocation])) (by rintro ⟨⟩)
  | execute hit checked isLocation =>
      exact orderly.executed _ hit checked (notPoll (by rw [holdsTask, isLocation]))
        (by rintro ⟨⟩)
  | enterPoll isLocation => exact orderly.move rfl rfl rfl rfl rfl rfl (by rintro ⟨⟩)
  | sleep isLocation =>
      rw [sleep]
      split
      · exact keeps _ (by rintro ⟨⟩) rfl
      · exact keeps _ (by rintro ⟨⟩) rfl
  | wakeUp isLocation => exact keeps _ (by rintro ⟨⟩) rfl
  | polled isLocation _ => exact keeps _ (by rintro ⟨⟩) rfl
  | fileReady isLocation _ => exact orderly_of_state (Or.inl rfl) (by rintro ⟨⟩)
  | leavePoll isLocation =>
      exact orderly_of_state (Or.inl (alert.leaves isLocation)) fun _ => alert.leaves isLocation
  | announce isLocation => exact orderly_of_state (Or.inl rfl) (by rintro ⟨⟩)

theorem OwnStep.id_eq [DecidableEq ι] (own : OwnStep e next sent) : next.id = e.id := by
  cases own with
  | resume hit checked _ _ => exact (count_spec _ _).1.id
  | execute hit checked _ => exact (count_spec _ _).1.id
  | handle _ => exact (handle_spec e _).1.id
  | proceed _ => exact (proceed_spec e).1.id
  | _ => rfl

/-! ## The assertions -/

theorem location_handle [DecidableEq ι] {message : Message ι}
    (terminates : message = .terminate → e.state = .wait2) :
    (e.handle message).1.location ≠ .unreachable := by
  cases message with
  | startShootDown id =>
      rw [handle]
      dsimp only
      split <;> rintro ⟨⟩
  | startWaiting1 id =>
      rw [handle]
      dsimp only
      split
      · split <;> rintro ⟨⟩
      · rintro ⟨⟩
  | startDoubleCheck id =>
      rw [handle]
      dsimp only
      split <;> rintro ⟨⟩
  | startWaiting2 id =>
      rw [handle]
      dsimp only
      split
      · split <;> rintro ⟨⟩
      · rintro ⟨⟩
  | terminate =>
      rw [handle]
      dsimp only
      rw [if_pos (terminates rfl)]
      rintro ⟨⟩
  | reset id =>
      rw [handle]
      dsimp only
      split <;> rintro ⟨⟩

theorem location_proceed (orderly : e.Orderly) : e.proceed.1.location ≠ .unreachable := by
  rw [proceed]
  split
  · split
    · rintro ⟨⟩
    · rintro ⟨⟩
    · rintro ⟨⟩
    · split <;> rintro ⟨⟩
    · rintro ⟨⟩
    · rintro ⟨⟩
  · next notPoints =>
      split
      · rintro ⟨⟩
      · split
        · rintro ⟨⟩
        · rintro ⟨⟩
        · rintro ⟨⟩
        · next notNormal notShootDown notDoubleCheck =>
            have isWaiting := (state_of_not_waiting e).resolve_left (by
              rintro (isNormal | isShootDown | isDoubleCheck)
              · exact notNormal isNormal
              · exact notShootDown isShootDown
              · exact notDoubleCheck isDoubleCheck)
            exact absurd (orderly.counts isWaiting) notPoints

/-- An assertion fails only for `TERMINATE`. -/
theorem location_ownStep [DecidableEq ι] (orderly : e.Orderly)
    (terminates : Message.terminate ∈ e.pending → e.state = .wait2) (own : OwnStep e next sent) :
    next.location ≠ .unreachable := by
  have toBehindTask : ∀ message : Option (Message ι), behindTask message ≠ .unreachable := by
    intro message
    cases message with
    | none => rintro ⟨⟩
    | some message => rintro ⟨⟩
  cases own with
  | get isLocation =>
      rw [getReadyTaskAndMessage]
      dsimp only
      split <;> rintro ⟨⟩
  | straggle isLocation isState =>
      have holds := (orderly.polls isState).2.2
      rw [holdsTask, isLocation] at holds
      cases holds
  | resumeBlocked _ _ => exact toBehindTask _
  | resume hit checked _ _ => exact toBehindTask _
  | handle isLocation =>
      refine location_handle fun isTerminate => terminates ?_
      rw [pending, isLocation, isTerminate]
      exact List.mem_cons_self
  | proceed isLocation => exact location_proceed orderly
  | executeBlocked isLocation => rintro ⟨⟩
  | execute hit checked isLocation => rintro ⟨⟩
  | enterPoll isLocation => rintro ⟨⟩
  | sleep isLocation =>
      rw [sleep]
      dsimp only
      split <;> rintro ⟨⟩
  | wakeUp isLocation => rintro ⟨⟩
  | polled isLocation _ => rintro ⟨⟩
  | fileReady isLocation _ => rintro ⟨⟩
  | leavePoll isLocation => rintro ⟨⟩
  | announce isLocation => rintro ⟨⟩

end Executor

end Rcgo.Scheduler
