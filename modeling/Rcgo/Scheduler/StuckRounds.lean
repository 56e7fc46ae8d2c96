import Rcgo.Scheduler.TerminationRounds

/-!
# Rounds that get stuck

In `WAIT1` and in `WAIT2` the executors wait for a message that goes round.  It is on its
way as long as all of them wait in the same state, and they do so if no executor leaves
`WAIT1` without the others.
-/

namespace Rcgo.Scheduler

open Foundation (RoundNotice RoundRing Travels)

namespace Executor

variable {ι : Type} {e next : Executor ι} {sent : Option (Message ι)}

/-! ## Tokens -/

/-- An executor comes to the state with a token for its neighbour, and there it passes on
the tokens that it takes. -/
structure Hands (state : RunState) (token : ι → Message ι) (e next : Executor ι)
    (sent : Option (Message ι)) : Prop where
  enters : next.state = state → e.state ≠ state → sent = some (token e.id)
  keeps : next.state = state → e.state = state → ∀ id, token id ∈ e.pending →
    next.location = .returned ∨ token id ∈ next.pending ∨ sent = some (token id)

theorem pending_proceed (isLocation : e.location = .deciding) :
    e.proceed.1.pending = e.pending := by
  have wasPending : e.pending = e.mailbox := by rw [pending, isLocation]
  rw [wasPending, proceed]
  split
  · split
    · rfl
    · rfl
    · rfl
    · split <;> rfl
    · rfl
    · rfl
  · split
    · rfl
    · split <;> rfl

/-- How an executor comes to the states in which it waits. -/
inductive Enters (e next : Executor ι) : Option (Message ι) → Prop where
  | stay {sent : Option (Message ι)} (isState : next.state = e.state) : Enters e next sent
  | elsewhere {sent : Option (Message ι)} (notWait1 : next.state ≠ .wait1)
      (notWait2 : next.state ≠ .wait2) : Enters e next sent
  | wait1 (isState : next.state = .wait1) : Enters e next (some (.startWaiting1 e.id))
  | wait2 (isState : next.state = .wait2) : Enters e next (some (.startWaiting2 e.id))

theorem enters_executed (task : Nat) (hit : Bool) (checked : List Nat) (location : Location ι) :
    Enters e
      { ((e.complete task hit checked).1.count (e.complete task hit checked).2).1 with
        location := location }
      ((e.complete task hit checked).1.count (e.complete task hit checked).2).2 := by
  rcases (count_spec (e.complete task hit checked).1 (e.complete task hit checked).2).2 with
    isState | isNormal
  · exact .stay isState
  · refine .elsewhere ?_ ?_
    · dsimp only
      rw [isNormal]
      rintro ⟨⟩
    · dsimp only
      rw [isNormal]
      rintro ⟨⟩

theorem enters_proceed : Enters e e.proceed.1 e.proceed.2 := by
  rw [proceed]
  split
  · split
    · exact .elsewhere (by rintro ⟨⟩) (by rintro ⟨⟩)
    · exact .wait1 rfl
    · exact .stay rfl
    · split
      · exact .wait2 rfl
      · exact .elsewhere (by rintro ⟨⟩) (by rintro ⟨⟩)
    · exact .stay rfl
    · exact .stay rfl
  · split
    · exact .stay rfl
    · split <;> exact .stay rfl

variable [DecidableEq ι]

theorem enters_handle (message : Message ι) :
    Enters e (e.handle message).1 (e.handle message).2 := by
  cases message with
  | startShootDown id =>
      rw [handle]
      dsimp only
      split
      · exact .elsewhere (by rintro ⟨⟩) (by rintro ⟨⟩)
      · exact .stay rfl
  | startWaiting1 id =>
      rw [handle]
      dsimp only
      split
      · split
        · exact .stay rfl
        · exact .elsewhere (by rintro ⟨⟩) (by rintro ⟨⟩)
      · exact .stay rfl
  | startDoubleCheck id =>
      rw [handle]
      dsimp only
      split
      · exact .elsewhere (by rintro ⟨⟩) (by rintro ⟨⟩)
      · exact .stay rfl
  | startWaiting2 id =>
      rw [handle]
      dsimp only
      split
      · split <;> exact .stay rfl
      · exact .stay rfl
  | terminate =>
      rw [handle]
      dsimp only
      split <;> exact .stay rfl
  | reset id =>
      rw [handle]
      dsimp only
      split
      · exact .elsewhere (by rintro ⟨⟩) (by rintro ⟨⟩)
      · exact .stay rfl

theorem enters_ownStep (own : OwnStep e next sent) : Enters e next sent := by
  cases own with
  | resume hit checked _ _ => exact enters_executed _ hit checked _
  | execute hit checked _ => exact enters_executed _ hit checked _
  | handle _ => exact enters_handle _
  | proceed _ => exact enters_proceed
  | fileReady _ _ => exact .elsewhere (by rintro ⟨⟩) (by rintro ⟨⟩)
  | announce _ => exact .elsewhere (by rintro ⟨⟩) (by rintro ⟨⟩)
  | _ => exact .stay rfl

theorem pending_ownStep (own : OwnStep e next sent) (notUnreachable : next.location ≠ .unreachable) :
    next.pending = e.pending ∨ ∃ message, e.pending = message :: next.pending ∧
      next = (e.handle message).1 ∧ sent = (e.handle message).2 := by
  have elsewhere : (∀ task message, next.location ≠ .taken task (some message)) →
      (∀ task message, e.location ≠ .taken task (some message)) → next.mailbox = e.mailbox →
      next.pending = e.pending :=
    fun isLocation wasLocation isMailbox => pending_of_location isMailbox isLocation wasLocation
  cases own with
  | get isLocation => exact Or.inl (pending_getReadyTaskAndMessage isLocation)
  | straggle _ _ => exact absurd rfl notUnreachable
  | @resumeBlocked task message isLocation _ =>
      exact Or.inl (pending_behindTask message isLocation rfl rfl)
  | @resume task message hit checked isLocation _ =>
      exact Or.inl (pending_behindTask message isLocation (count_spec _ _).1.mailbox rfl)
  | @handle message isLocation =>
      refine Or.inr ⟨message, ?_, rfl, rfl⟩
      obtain ⟨same, _, isNext⟩ := handle_spec e message
      have isPending : (e.handle message).1.pending = e.mailbox := by
        rw [pending]
        rcases isNext with isNext | isNext | isNext <;> rw [isNext] <;> exact same.mailbox
      rw [isPending, pending, isLocation]
  | proceed isLocation => exact Or.inl (pending_proceed isLocation)
  | executeBlocked isLocation =>
      exact Or.inl (elsewhere (by rintro _ _ ⟨⟩) (isLocation ▸ (by rintro _ _ ⟨⟩)) rfl)
  | execute hit checked isLocation =>
      exact Or.inl (elsewhere (by rintro _ _ ⟨⟩) (isLocation ▸ (by rintro _ _ ⟨⟩))
        (count_spec _ _).1.mailbox)
  | enterPoll isLocation =>
      exact Or.inl (elsewhere (by rintro _ _ ⟨⟩) (isLocation ▸ (by rintro _ _ ⟨⟩)) rfl)
  | sleep isLocation =>
      refine Or.inl (elsewhere ?_ (isLocation ▸ (by rintro _ _ ⟨⟩)) rfl)
      intro task message
      rw [sleep]
      dsimp only
      split <;> rintro ⟨⟩
  | wakeUp isLocation =>
      exact Or.inl (elsewhere (by rintro _ _ ⟨⟩) (isLocation ▸ (by rintro _ _ ⟨⟩)) rfl)
  | polled isLocation _ =>
      exact Or.inl (elsewhere (by rintro _ _ ⟨⟩) (isLocation ▸ (by rintro _ _ ⟨⟩)) rfl)
  | fileReady isLocation _ =>
      exact Or.inl (elsewhere (by rintro _ _ ⟨⟩) (isLocation ▸ (by rintro _ _ ⟨⟩)) rfl)
  | leavePoll isLocation =>
      exact Or.inl (elsewhere (by rintro _ _ ⟨⟩) (isLocation ▸ (by rintro _ _ ⟨⟩)) rfl)
  | announce isLocation =>
      exact Or.inl (elsewhere (by rintro _ _ ⟨⟩) (isLocation ▸ (by rintro _ _ ⟨⟩)) rfl)

theorem mem_pending_ownStep (own : OwnStep e next sent)
    (notUnreachable : next.location ≠ .unreachable) {message : Message ι}
    (isPending : message ∈ e.pending) :
    message ∈ next.pending ∨ next = (e.handle message).1 ∧ sent = (e.handle message).2 := by
  rcases pending_ownStep own notUnreachable with same | ⟨first, isFirst, isNext, isSent⟩
  · exact Or.inl (same ▸ isPending)
  · rw [isFirst] at isPending
    rcases List.mem_cons.mp isPending with isSame | isRest
    · rw [isSame]
      exact Or.inr ⟨isNext, isSent⟩
    · exact Or.inl isRest

theorem hands_startWaiting1 (own : OwnStep e next sent)
    (notUnreachable : next.location ≠ .unreachable) :
    Hands .wait1 .startWaiting1 e next sent where
  enters isState notState := by
    cases enters_ownStep own with
    | stay same => exact absurd (same.symm.trans isState) notState
    | elsewhere notWait1 _ => exact absurd isState notWait1
    | wait1 _ => rfl
    | wait2 isWait2 =>
        have := isState.symm.trans isWait2
        cases this
  keeps isState wasState id isPending := by
    rcases mem_pending_ownStep own notUnreachable isPending with isPending | ⟨isNext, isSent⟩
    · exact Or.inr (Or.inl isPending)
    · rw [isNext, handle] at isState
      dsimp only at isState
      rw [if_pos wasState] at isState
      split at isState
      · next isOther =>
          refine Or.inr (Or.inr ?_)
          rw [isSent, handle]
          dsimp only
          rw [if_pos wasState, if_pos isOther]
      · cases isState

theorem hands_startWaiting2 (own : OwnStep e next sent)
    (notUnreachable : next.location ≠ .unreachable) :
    Hands .wait2 .startWaiting2 e next sent where
  enters isState notState := by
    cases enters_ownStep own with
    | stay same => exact absurd (same.symm.trans isState) notState
    | elsewhere _ notWait2 => exact absurd isState notWait2
    | wait1 isWait1 =>
        have := isState.symm.trans isWait1
        cases this
    | wait2 _ => rfl
  keeps isState wasState id isPending := by
    rcases mem_pending_ownStep own notUnreachable isPending with isPending | ⟨isNext, isSent⟩
    · exact Or.inr (Or.inl isPending)
    · rw [isNext, isSent, handle]
      dsimp only
      rw [if_pos wasState]
      split
      · exact Or.inr (Or.inr rfl)
      · exact Or.inl rfl

theorem OwnStep.not_halted (own : OwnStep e next sent) :
    e.location ≠ .returned ∧ e.location ≠ .unreachable := by
  cases own <;> simp [*]

end Executor

namespace Executor

variable {ι : Type}

/-- The message in its hands leads the executor from `WAIT1` to `DOUBLE_CHECK`. -/
def LeadsOn (e : Executor ι) (origin : ι) : Prop :=
  e.location = .taken none (some (.startWaiting1 e.id)) ∧ origin = e.id ∨
    e.location = .taken none (some (.startDoubleCheck origin)) ∧ origin ≠ e.id

instance [DecidableEq ι] (e : Executor ι) (origin : ι) : Decidable (e.LeadsOn origin) :=
  inferInstanceAs (Decidable (_ ∧ _ ∨ _ ∧ _))

end Executor

namespace ExecutorRing

variable {last : Nat} {ring next : ExecutorRing last}

/-! ## Runs -/

/-- A `RESET` that is on the ring gets to the executor before it gets back to its origin. -/
def IsRecalled (ring : ExecutorRing last) (e : Fin (last + 1)) : Prop :=
  ∃ place origin, RoundNotice.alarm origin ∈ ring.round.queue place ∧
    ∃ count : Fin (last + 1), place + count = e ∧ ∀ before ≤ count, place + before ≠ origin

/-- There is no `RESET` on the ring, and none is about to be sent by an executor that has
left `POLL`. -/
def IsCalm (ring : ExecutorRing last) : Prop :=
  ∀ place origin, RoundNotice.alarm origin ∉ ring.round.queue place

/-- The executor does not go on alone.  It will be reset, or no one will be and its
neighbour has gone on as well or takes the `START_DOUBLE_CHECK` of the origin. -/
def Joins (ring : ExecutorRing last) (e origin : Fin (last + 1)) : Prop :=
  ring.IsRecalled e ∨ ring.IsCalm ∧ ∀ neighbour, previous neighbour = e →
    neighbour = e ∨ (ring neighbour).state.phase = .late ∨
      (ring neighbour).state = .wait1 ∧ origin ≠ neighbour

instance (ring : ExecutorRing last) (e origin : Fin (last + 1)) : Decidable (ring.Joins e origin) :=
  inferInstanceAs (Decidable ((∃ _, ∃ _, _ ∧ ∃ _, _ ∧ ∀ _, _ → _) ∨ (∀ _, ∀ _, _) ∧ ∀ _, _ → _))

/-- No executor leaves `WAIT1` for `DOUBLE_CHECK` alone. -/
def GoesOn (ring : ExecutorRing last) : RingEvent last → Prop
  | .step e _ => (ring e).state = .wait1 → ∀ origin, (ring e).LeadsOn origin → ring.Joins e origin
  | .grant _ _ => True

instance (ring : ExecutorRing last) : ∀ event, Decidable (ring.GoesOn event)
  | .step e _ => inferInstanceAs (Decidable (_ → ∀ origin, (ring e).LeadsOn origin → _))
  | .grant _ _ => .isTrue trivial

def GoesOnInAll (ring : ExecutorRing last) : List (RingEvent last) → Prop
  | [] => True
  | event :: events => ring.GoesOn event ∧ ∀ next ∈ ring.after event, GoesOnInAll next events

instance decidableGoesOnInAll : ∀ (ring : ExecutorRing last) (events : List (RingEvent last)),
    Decidable (ring.GoesOnInAll events)
  | _, [] => .isTrue trivial
  | ring, event :: events =>
      have : DecidablePred fun next : ExecutorRing last => next.GoesOnInAll events :=
        fun next => decidableGoesOnInAll next events
      inferInstanceAs (Decidable (ring.GoesOn event ∧ ∀ next ∈ ring.after event,
        GoesOnInAll next events))

/-- Every executor is asleep in `WAIT1` or `WAIT2` with nothing on its queues.  An executor
that has sent `TERMINATE` or is about to send a message is at another place. -/
def IsStuck (ring : ExecutorRing last) : Prop :=
  ∀ e, (ring e).location = .waiting false ∧ ((ring e).state = .wait1 ∨ (ring e).state = .wait2) ∧
    (ring e).mailbox = [] ∧ (ring e).ready = []

instance (ring : ExecutorRing last) : Decidable ring.IsStuck :=
  inferInstanceAs (Decidable (∀ _, _ ∧ _ ∧ _ ∧ _))

/-! ## The invariant -/

/-- While all executors wait in the state, a token is on its way or one has returned. -/
def Lives (ring : ExecutorRing last) (state : RunState)
    (token : Fin (last + 1) → Message (Fin (last + 1))) : Prop :=
  (∀ e, (ring e).state = state) →
    (∃ e, (ring e).location = .returned) ∨ ∃ e id, token id ∈ (ring e).pending

/-- The invariant of the rounds. -/
structure Attended (ring : ExecutorRing last) : Prop where
  ids : ∀ e, (ring e).id = e
  alert : ∀ e, (ring e).Alert
  leaves : ∀ e, (ring e).Leaves
  alerts : ring.round.Alerts (· + 1)
  linked : ring.round.Linked (· + 1)
  first : ring.Lives .wait1 .startWaiting1
  second : ring.Lives .wait2 .startWaiting2

theorem attended_initial (tasks : Fin (last + 1) → List Nat) : (initial tasks).Attended where
  ids _ := rfl
  alert e := Executor.alert_initial e (tasks e)
  leaves _ isLeaving := by cases isLeaving
  alerts _ isLate := by cases isLate
  linked _ isLate := by cases isLate
  first all := by cases all 0
  second all := by cases all 0

theorem location_wake_of_halted {e : Executor (Fin (last + 1))}
    (isHalted : e.location = .returned ∨ e.location = .unreachable) :
    e.wake.location = e.location := by
  rw [Executor.wake]
  rcases isHalted with isLocation | isLocation <;> rw [isLocation]

theorem location_receive_of_halted {e : Executor (Fin (last + 1))}
    (isHalted : e.location = .returned ∨ e.location = .unreachable)
    (message : Message (Fin (last + 1))) : (e.receive message).location = e.location := by
  rw [Executor.receive]
  split
  · exact location_wake_of_halted isHalted
  · rfl

theorem location_grant_of_halted {e : Executor (Fin (last + 1))}
    (isHalted : e.location = .returned ∨ e.location = .unreachable) (task : Nat) :
    (e.grant task).location = e.location := by
  rw [Executor.grant, Executor.toReadyList]
  split
  · exact location_wake_of_halted (e := { e with suspended := e.suspended.erase task }) isHalted
  · rfl

theorem location_send_of_halted {e place : Fin (last + 1)}
    (isHalted : (ring place).location = .returned ∨ (ring place).location = .unreachable)
    (sent : Option (Message (Fin (last + 1)))) :
    (send ring e sent place).location = (ring place).location := by
  cases sent with
  | none => rfl
  | some message =>
      by_cases isNext : place = e + 1
      · rw [isNext] at isHalted ⊢
        rw [send, Function.update_self]
        exact location_receive_of_halted isHalted message
      · rw [send_of_ne _ _ _ isNext]

theorem mem_pending_send {message : Message (Fin (last + 1))} {e place : Fin (last + 1)}
    (sent : Option (Message (Fin (last + 1)))) (isPending : message ∈ (ring place).pending) :
    message ∈ (send ring e sent place).pending := by
  cases sent with
  | none => exact isPending
  | some other =>
      by_cases isNext : place = e + 1
      · rw [isNext] at isPending ⊢
        rw [send, Function.update_self, Executor.pending_receive]
        exact List.mem_append_left _ isPending
      · rw [send_of_ne _ _ _ isNext]
        exact isPending

theorem mem_pending_sent (ring : ExecutorRing last) (e : Fin (last + 1))
    (message : Message (Fin (last + 1))) :
    message ∈ (send ring e (some message) (e + 1)).pending := by
  rw [send, Function.update_self, Executor.pending_receive]
  exact List.mem_append_right _ (List.mem_singleton_self message)

theorem Lives.step {state : RunState} {token : Fin (last + 1) → Message (Fin (last + 1))}
    (lives : ring.Lives state token) {e : Fin (last + 1)} {after : Executor (Fin (last + 1))}
    {sent : Option (Message (Fin (last + 1)))}
    (hands : Executor.Hands state token (ring e) after sent)
    (own : Executor.OwnStep (ring e) after sent) :
    (send (Function.update ring e after) e sent).Lives state token := by
  intro all
  have isState : ∀ place, (Function.update ring e after place).state = state := fun place =>
    (state_send _ e sent place).symm.trans (all place)
  have isAfter : after.state = state := by
    have := isState e
    rwa [Function.update_self] at this
  by_cases wasState : (ring e).state = state
  · have allBefore : ∀ place, (ring place).state = state := by
      intro place
      by_cases isNode : place = e
      · exact isNode ▸ wasState
      · have := isState place
        rwa [Function.update_of_ne isNode] at this
    rcases lives allBefore with ⟨place, isReturned⟩ | ⟨place, id, isToken⟩
    · have notNode : place ≠ e := fun same => own.not_halted.1 (same ▸ isReturned)
      have stays : (Function.update ring e after place).location = .returned := by
        rw [Function.update_of_ne notNode]
        exact isReturned
      exact Or.inl ⟨place, (location_send_of_halted (Or.inl stays) sent).trans stays⟩
    · by_cases isNode : place = e
      · rcases hands.keeps isAfter wasState id (isNode ▸ isToken) with isReturned | isPending | isSent
        · have stays : (Function.update ring e after e).location = .returned := by
            rw [Function.update_self]
            exact isReturned
          exact Or.inl ⟨e, (location_send_of_halted (Or.inl stays) sent).trans stays⟩
        · refine Or.inr ⟨e, id, mem_pending_send sent ?_⟩
          rw [Function.update_self]
          exact isPending
        · rw [isSent]
          exact Or.inr ⟨e + 1, id, mem_pending_sent _ e _⟩
      · refine Or.inr ⟨place, id, mem_pending_send sent ?_⟩
        rw [Function.update_of_ne isNode]
        exact isToken
  · rw [hands.enters isAfter wasState]
    exact Or.inr ⟨e + 1, (ring e).id, mem_pending_sent _ e _⟩

/-! ## The steps -/

theorem recalled_of_isRecalled {e : Fin (last + 1)} (isRecalled : ring.IsRecalled e) :
    ring.round.Recalled (· + 1) e := by
  obtain ⟨place, origin, isAlarm, count, isNode, avoids⟩ := isRecalled
  refine ⟨place, origin, isAlarm, count, ?_, fun before isBefore isOrigin => ?_⟩
  · rw [← isNode]
    exact Fin.ext ((val_iterate_add_one place count).trans (Fin.val_add place count).symm)
  · have isLess : before < last + 1 := Nat.lt_of_le_of_lt isBefore count.isLt
    refine avoids ⟨before, isLess⟩ isBefore ?_
    rw [← isOrigin]
    exact Fin.ext ((Fin.val_add place _).trans (val_iterate_add_one place before).symm)

theorem recalled_or_calm {e origin : Fin (last + 1)} (joins : ring.Joins e origin) :
    ring.round.Recalled (· + 1) e ∨ ring.round.Calm :=
  joins.imp recalled_of_isRecalled And.left

/-- An executor goes on with a `START_DOUBLE_CHECK` and not alone. -/
theorem joins_of_turn {e : Fin (last + 1)} {choice : Executor.Choice}
    {after : Executor (Fin (last + 1))} {notice : Option (RoundNotice (Fin (last + 1)))}
    (isId : (ring e).id = e) (goesOn : ring.GoesOn (.step e choice))
    (turn : Executor.Turn (ring e) after notice) (wasWaiting : (ring e).state.phase = .waiting)
    (isLate : after.state.phase = .late ∨ ∃ origin, notice = some (.check origin)) :
    ∃ origin, notice = some (.check origin) ∧ ring.Joins e origin := by
  have notNone : after.state.phase = (ring e).state.phase →
      ¬(after.state.phase = .late ∨
        ∃ origin : Fin (last + 1), none = some (RoundNotice.check origin)) := by
    rintro isPhase (isLate | ⟨_, ⟨⟩⟩)
    have := (isLate.symm.trans isPhase).trans wasWaiting
    cases this
  cases turn with
  | stay isPhase _ => exact absurd isLate (notNone isPhase)
  | drop _ isPhase _ _ _ => exact absurd isLate (notNone isPhase)
  | settle isEarly _ _ =>
      have := isEarly.symm.trans wasWaiting
      cases this
  | start isWaiting _ isLocation _ =>
      exact ⟨_, rfl, isId ▸ goesOn isWaiting (ring e).id (Or.inl ⟨isLocation, rfl⟩)⟩
  | join origin isWaiting _ isLocation isOther _ =>
      exact ⟨origin, rfl, goesOn isWaiting origin (Or.inr ⟨isLocation, isOther⟩)⟩
  | relay _ _ isEarly _ =>
      rcases isLate with isLate | ⟨_, ⟨⟩⟩
      have := isLate.symm.trans isEarly
      cases this
  | raise notWaiting _ _ => exact absurd wasWaiting notWaiting

theorem leaves_receive {e : Executor (Fin (last + 1))} (leaves : e.Leaves)
    (message : Message (Fin (last + 1))) : (e.receive message).Leaves := by
  rw [Executor.Leaves, isLeaving_receive, state_receive]
  exact leaves

theorem Attended.step (attended : ring.Attended) {e : Fin (last + 1)}
    {after : Executor (Fin (last + 1))} {sent : Option (Message (Fin (last + 1)))}
    {choice : Executor.Choice} (goesOn : ring.GoesOn (.step e choice))
    (steps : (ring e).step choice = some (after, sent)) (notUnreachable : after.location ≠ .unreachable) :
    (send (Function.update ring e after) e sent).Attended := by
  have own := Executor.ownStep_of_step steps
  have alert := Executor.alert_ownStep (attended.alert e) own
  have leaves := Executor.leaves_ownStep (attended.leaves e) own
  have isId := attended.ids e
  obtain ⟨notice, turn, sends⟩ :=
    Executor.turn_ownStep (attended.alert e) (attended.leaves e) own notUnreachable
  have move := move_of_turn isId turn
  refine ⟨?_, ?_, ?_, ?_, ?_, ?_, ?_⟩
  · exact forall_send (motive := fun e executor => executor.id = e) attended.ids
      (own.id_eq.trans isId)
      (fun _ executor message isId => (Executor.id_receive executor message).trans isId) sent
  · exact forall_send (motive := fun _ executor => executor.Alert) attended.alert alert
      (fun _ _ message alert => Executor.alert_receive alert message) sent
  · exact forall_send (motive := fun _ executor => executor.Leaves) attended.leaves leaves
      (fun _ _ message leaves => leaves_receive leaves message) sent
  · rw [round_send sends]
    refine attended.alerts.after goesRound move fun wasWaiting isLate => ?_
    obtain ⟨_, _, joins⟩ := joins_of_turn isId goesOn turn wasWaiting (Or.inl isLate)
    exact recalled_or_calm joins
  · rw [round_send sends]
    refine attended.linked.after goesRound attended.alerts move
      fun notNext origin wasWaiting isSent => ?_
    obtain ⟨other, isOther, joins⟩ :=
      joins_of_turn isId goesOn turn wasWaiting (Or.inr ⟨origin, isSent⟩)
    rw [isSent] at isOther
    cases isOther
    rcases joins with isRecalled | ⟨_, joins⟩
    · exact Or.inl (recalled_of_isRecalled isRecalled)
    · rcases joins (e + 1) (previous_eq_iff.mpr rfl) with isAlone | isLate | ⟨isWaiting, different⟩
      · exact absurd isAlone notNext
      · exact Or.inr (Or.inl isLate)
      · exact Or.inr (Or.inr ⟨congrArg RunState.phase isWaiting, different⟩)
  · exact attended.first.step (Executor.hands_startWaiting1 own notUnreachable) own
  · exact attended.second.step (Executor.hands_startWaiting2 own notUnreachable) own

/-! ## Granted tasks -/

theorem isLeaving_grant (e : Executor (Fin (last + 1))) (task : Nat) :
    (e.grant task).isLeaving = e.isLeaving := by
  rw [Executor.grant, Executor.toReadyList]
  split
  · exact isLeaving_wake _
  · rfl

theorem leaves_grant {e : Executor (Fin (last + 1))} (leaves : e.Leaves) (task : Nat) :
    (e.grant task).Leaves := by
  rw [Executor.Leaves, isLeaving_grant, Executor.state_grant]
  exact leaves

theorem apply_grant {α : Type} (f : Executor (Fin (last + 1)) → α) (e : Fin (last + 1)) (task : Nat)
    (same : f ((ring e).grant task) = f (ring e)) (place : Fin (last + 1)) :
    f (Function.update ring e ((ring e).grant task) place) = f (ring place) := by
  by_cases isNode : place = e
  · rw [isNode, Function.update_self, same]
  · rw [Function.update_of_ne isNode]

theorem round_grant (ring : ExecutorRing last) (e : Fin (last + 1)) (task : Nat) :
    round (Function.update ring e ((ring e).grant task)) = ring.round := by
  have isState : ∀ place, (Function.update ring e ((ring e).grant task) place).state =
      (ring place).state := apply_grant Executor.state e task (Executor.state_grant _ task)
  have areNotices : ∀ place, (Function.update ring e ((ring e).grant task) place).roundNotices =
      (ring place).roundNotices := apply_grant Executor.roundNotices e task
        (Executor.roundNotices_of_pending (Executor.pending_grant _ task))
  have areAnnounced : ∀ place, (Function.update ring e ((ring e).grant task) place).announced =
      (ring place).announced := by
    refine apply_grant Executor.announced e task ?_
    rw [Executor.announced, Executor.announced, isLeaving_grant, Executor.id_grant]
  rw [round, round, Foundation.MessageRing.mk.injEq]
  exact ⟨funext fun place => congrArg RunState.phase (isState place),
    funext fun place => by rw [areNotices, areAnnounced]⟩

theorem Lives.grant {state : RunState} {token : Fin (last + 1) → Message (Fin (last + 1))}
    (lives : ring.Lives state token) (e : Fin (last + 1)) (task : Nat) :
    Lives (Function.update ring e ((ring e).grant task)) state token := by
  intro all
  have before : ∀ place, (ring place).state = state := fun place =>
    (apply_grant Executor.state e task (Executor.state_grant _ task) place).symm.trans (all place)
  rcases lives before with ⟨place, isReturned⟩ | ⟨place, id, isToken⟩
  · refine Or.inl ⟨place, ?_⟩
    by_cases isNode : place = e
    · rw [isNode] at isReturned ⊢
      rw [Function.update_self, location_grant_of_halted (Or.inl isReturned), isReturned]
    · rw [Function.update_of_ne isNode]
      exact isReturned
  · refine Or.inr ⟨place, id, ?_⟩
    rw [apply_grant Executor.pending e task (Executor.pending_grant _ task) place]
    exact isToken

theorem Attended.granted (attended : ring.Attended) (e : Fin (last + 1)) (task : Nat) :
    Attended (Function.update ring e ((ring e).grant task)) where
  ids := forall_update (motive := fun e executor => executor.id = e) attended.ids
    ((Executor.id_grant _ task).trans (attended.ids e))
  alert := forall_update (motive := fun _ executor => executor.Alert) attended.alert
    (Executor.alert_grant (attended.alert e) task)
  leaves := forall_update (motive := fun _ executor => executor.Leaves) attended.leaves
    (leaves_grant (attended.leaves e) task)
  alerts := round_grant ring e task ▸ attended.alerts
  linked := round_grant ring e task ▸ attended.linked
  first := attended.first.grant e task
  second := attended.second.grant e task

/-! ## The result -/

theorem unreachable_after {e : Fin (last + 1)} (isFailed : (ring e).location = .unreachable)
    {event : RingEvent last} (runs : ring.after event = some next) :
    (next e).location = .unreachable := by
  cases event with
  | step other choice =>
      rw [after, Option.map_eq_some_iff] at runs
      obtain ⟨⟨result, sent⟩, steps, rfl⟩ := runs
      have notNode : e ≠ other := fun same =>
        (Executor.ownStep_of_step steps).not_halted.2 (same ▸ isFailed)
      have stays : (Function.update ring other result e).location = .unreachable := by
        rw [Function.update_of_ne notNode]
        exact isFailed
      exact (location_send_of_halted (Or.inr stays) sent).trans stays
  | grant other task =>
      rw [after] at runs
      split at runs
      · cases runs
        by_cases isNode : e = other
        · rw [isNode] at isFailed ⊢
          rw [Function.update_self, location_grant_of_halted (Or.inr isFailed), isFailed]
        · rw [Function.update_of_ne isNode]
          exact isFailed
      · cases runs

theorem attended_after (attended : ring.Attended) {event : RingEvent last}
    (goesOn : ring.GoesOn event) (runs : ring.after event = some next) :
    next.Attended ∨ ∃ e, (next e).location = .unreachable := by
  cases event with
  | step e choice =>
      rw [after, Option.map_eq_some_iff] at runs
      obtain ⟨⟨result, sent⟩, steps, rfl⟩ := runs
      by_cases isFailed : result.location = .unreachable
      · have fails : (Function.update ring e result e).location = .unreachable := by
          rw [Function.update_self]
          exact isFailed
        exact Or.inr ⟨e, (location_send_of_halted (Or.inr fails) sent).trans fails⟩
      · exact Or.inl (attended.step goesOn steps isFailed)
  | grant e task =>
      rw [after] at runs
      split at runs
      · cases runs
        exact Or.inl (attended.granted e task)
      · cases runs

theorem attended_afterAll (events : List (RingEvent last)) : ∀ {ring next : ExecutorRing last},
    (ring.Attended ∨ ∃ e, (ring e).location = .unreachable) → ring.GoesOnInAll events →
      ring.afterAll events = some next → next.Attended ∨ ∃ e, (next e).location = .unreachable := by
  induction events with
  | nil =>
      intro ring next attended _ runs
      cases runs
      exact attended
  | cons event events inductionHypothesis =>
      intro ring next attended goesOn runs
      rw [afterAll, Option.bind_eq_bind, Option.bind_eq_some_iff] at runs
      obtain ⟨middle, first, rest⟩ := runs
      refine inductionHypothesis ?_ (goesOn.2 middle first) rest
      rcases attended with attended | ⟨e, isFailed⟩
      · exact attended_after attended goesOn.1 first
      · exact Or.inr ⟨e, unreachable_after isFailed first⟩

theorem Attended.not_isStuck (attended : ring.Attended) : ¬ring.IsStuck := by
  intro stuck
  have isEmpty : ∀ e, (ring e).pending = [] := by
    intro e
    obtain ⟨isLocation, _, isMailbox, _⟩ := stuck e
    rw [Executor.pending, isLocation]
    exact isMailbox
  have noNotices : ∀ e, ring.round.queue e = [] := by
    intro e
    have notLeaving : (ring (previous e)).isLeaving = false := by
      rw [Executor.isLeaving, (stuck (previous e)).1]
    rw [round]
    dsimp only
    rw [Executor.roundNotices, isEmpty, Executor.announced, notLeaving]
    rfl
  have notLives : ∀ state token, ring.Lives state token → ¬∀ e, (ring e).state = state := by
    intro state token lives all
    rcases lives all with ⟨e, isReturned⟩ | ⟨e, id, isToken⟩
    · rw [(stuck e).1] at isReturned
      cases isReturned
    · rw [isEmpty] at isToken
      cases isToken
  by_cases someWait2 : ∃ e, (ring e).state = .wait2
  · obtain ⟨e, isWait2⟩ := someWait2
    refine notLives _ _ attended.second fun other => ?_
    have isLate : (ring other).state.phase = .late :=
      attended.linked.all_late goesRound noNotices (congrArg RunState.phase isWait2) other
    rcases (stuck other).2.1 with isWait1 | isWait2
    · rw [isWait1] at isLate
      cases isLate
    · exact isWait2
  · refine notLives _ _ attended.first fun other => ?_
    exact (stuck other).2.1.resolve_right fun isWait2 => someWait2 ⟨other, isWait2⟩

/-- Where no executor leaves `WAIT1` alone, the executors do not get stuck. -/
theorem not_isStuck_of_goesOnInAll (tasks : Fin (last + 1) → List Nat)
    (events : List (RingEvent last)) (goesOn : (initial tasks).GoesOnInAll events)
    (runs : (initial tasks).afterAll events = some next) : ¬next.IsStuck := by
  rcases attended_afterAll events (Or.inl (attended_initial tasks)) goesOn runs with
    attended | ⟨e, isFailed⟩
  · exact attended.not_isStuck
  · intro stuck
    rw [(stuck e).1] at isFailed
    cases isFailed

/-- Two executors without tasks, which both return. -/
def finish (first second : Fin (last + 1)) : List (RingEvent last) :=
  goes first 4 ++ goes second 6 ++ goes first 4 ++ goes second 2 ++ goes first 2 ++ goes second 2 ++
  goes first 2 ++ goes second 4 ++ goes first 2 ++ goes second 2 ++ goes first 2

theorem not_isStuck_of_goesOnInAll_finish :
    (initial fun _ => []).GoesOnInAll (finish 0 1 : List (RingEvent 1)) ∧
      ∃ next : ExecutorRing 1, (initial fun _ => []).afterAll (finish 0 1) = some next ∧
        (next 0).location = .returned ∧ (next 1).location = .returned ∧ ¬next.IsStuck := by
  have goesOn : (initial fun _ => []).GoesOnInAll (finish 0 1 : List (RingEvent 1)) := by
    decide +kernel
  exact ⟨goesOn, _, rfl, rfl, rfl, not_isStuck_of_goesOnInAll (fun _ => []) (finish 0 1) goesOn rfl⟩

/-- Three executors, the third with a task, whose hit resets the others. -/
def abandon (first second third : Fin (last + 1)) : List (RingEvent last) :=
  -- the first two wait while the third one executes its task
  goes second 4 ++ goes first 4 ++ goes third 6 ++ [.step third (.executed true [])] ++
  -- the first one is reset, and the first and the third one wait again
  goes first 4 ++ skips third [] ++ goes third 2 ++ skips third [] ++ goes third 2 ++ goes first 6 ++
  -- the old `START_WAITING1` of the first one is still at the second one and goes round
  goes second 4 ++ goes third 2 ++ goes first 4 ++
  -- the second one is reset and waits again, but the first one is in `WAIT2`
  goes second 15 ++ goes third 9 ++ goes first 5

/-- One executor waits in `WAIT2` and the two others in `WAIT1`. -/
theorem exists_isStuck : ∃ next : ExecutorRing 2,
    (initial fun e => if e = 2 then [0] else []).afterAll (abandon 0 1 2) = some next ∧
      next.IsStuck := by
  have isStuck : ((initial fun e => if e = 2 then [0] else []).afterAll (abandon 0 1 2)).map
      (fun ring : ExecutorRing 2 => decide ring.IsStuck) = some true := by
    decide +kernel
  obtain ⟨next, runs, stuck⟩ := Option.map_eq_some_iff.mp isStuck
  exact ⟨next, runs, of_decide_eq_true stuck⟩

end ExecutorRing

end Rcgo.Scheduler
