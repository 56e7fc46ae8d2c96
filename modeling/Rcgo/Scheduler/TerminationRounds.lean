import Rcgo.Foundation.RoundRing
import Rcgo.Scheduler.ExecutorAssertions

/-!
# The rounds before the end

`START_DOUBLE_CHECK` takes the executors from `WAIT1` to `DOUBLE_CHECK`, and `RESET`
brings them back.  An executor that has left `WAIT1` is not left alone there.
-/

namespace Rcgo.Scheduler

open Foundation (MessageRing Phase RoundNotice RoundRing)

def RunState.phase : RunState → Phase
  | .normal | .shootDown => .early
  | .wait1 => .waiting
  | .doubleCheck | .wait2 | .poll => .late

def Message.roundNotice {ι : Type} : Message ι → Option (RoundNotice ι)
  | .startDoubleCheck id => some (.check id)
  | .reset id => some (.alarm id)
  | _ => none

namespace Executor

variable {ι : Type} {e next : Executor ι} {sent : Option (Message ι)}

/-- The executor is on its way out of `POLL`. -/
def isLeaving (e : Executor ι) : Bool :=
  match e.location with
  | .leavingPoll | .announcing => true
  | _ => false

/-- An executor that leaves `POLL` is in `NORMAL` again. -/
def Leaves (e : Executor ι) : Prop :=
  e.isLeaving = true → e.state = .normal

/-- What an executor has still to look at, as far as a round depends on it. -/
def roundNotices (e : Executor ι) : List (RoundNotice ι) :=
  e.pending.filterMap Message.roundNotice

/-- The alarm that an executor sends as soon as it has left `POLL`. -/
def announced (e : Executor ι) : List (RoundNotice ι) :=
  if e.isLeaving then [.alarm e.id] else []

/-- What a step of an executor does to a round. -/
inductive Turn (e next : Executor ι) : Option (RoundNotice ι) → Prop where
  | stay (isPhase : next.state.phase = e.state.phase)
      (isPending : next.roundNotices = e.roundNotices) : Turn e next none
  | drop (notice : RoundNotice ι) (isPhase : next.state.phase = e.state.phase)
      (isPending : e.roundNotices = notice :: next.roundNotices)
      (joins : ∀ origin, e.state.phase = .waiting → notice = .check origin → origin = e.id)
      (relays : ∀ origin, notice = .alarm origin → origin = e.id) : Turn e next none
  | settle (isEarly : e.state.phase = .early) (notLate : next.state.phase ≠ .late)
      (isPending : next.roundNotices = e.roundNotices) : Turn e next none
  | start (isWaiting : e.state = .wait1) (isLate : next.state.phase = .late)
      (isLocation : e.location = .taken none (some (.startWaiting1 e.id)))
      (isPending : next.roundNotices = e.roundNotices) : Turn e next (some (.check e.id))
  | join (origin : ι) (isWaiting : e.state = .wait1) (isLate : next.state.phase = .late)
      (isLocation : e.location = .taken none (some (.startDoubleCheck origin)))
      (isOther : origin ≠ e.id) (isPending : e.roundNotices = .check origin :: next.roundNotices) :
      Turn e next (some (.check origin))
  | relay (origin : ι) (isOther : origin ≠ e.id) (isEarly : next.state.phase = .early)
      (isPending : e.roundNotices = .alarm origin :: next.roundNotices) :
      Turn e next (some (.alarm origin))
  | raise (notWaiting : e.state.phase ≠ .waiting) (isEarly : next.state.phase = .early)
      (isPending : next.roundNotices = e.roundNotices) : Turn e next (some (.alarm e.id))

/-- The turn sends what the step does, or what the executor has announced. -/
def Sends (e next : Executor ι) (sent : Option (Message ι)) (notice : Option (RoundNotice ι)) :
    Prop :=
  e.announced ++ notice.toList = (sent.bind Message.roundNotice).toList ++ next.announced

theorem isLeaving_behindTask (message : Option (Message ι))
    (isLocation : e.location = behindTask message) : e.isLeaving = false := by
  cases message with
  | none => rw [isLeaving, isLocation, behindTask]
  | some message => rw [isLeaving, isLocation, behindTask]

theorem isLeaving_getReadyTaskAndMessage (e : Executor ι) :
    e.getReadyTaskAndMessage.isLeaving = false := by
  by_cases isEmpty : e.ready = [] ∧ e.mailbox = []
  · have isNext : e.getReadyTaskAndMessage.location = .deciding := if_pos isEmpty
    rw [isLeaving, isNext]
  · have isNext : e.getReadyTaskAndMessage.location =
        .taken e.ready.head? e.mailbox.head? := if_neg isEmpty
    rw [isLeaving, isNext]

theorem isLeaving_sleep (e : Executor ι) : e.sleep.isLeaving = false := by
  by_cases isEmpty : e.ready = [] ∧ e.mailbox = []
  · have isNext : e.sleep.location = .waiting false := if_pos isEmpty
    rw [isLeaving, isNext]
  · have isNext : e.sleep.location = .loop := if_neg isEmpty
    rw [isLeaving, isNext]

theorem isLeaving_proceed (e : Executor ι) : e.proceed.1.isLeaving = false := by
  rw [proceed]
  split
  · split
    · rfl
    · rfl
    · rfl
    · split <;> rfl
    · rfl
    · rfl
  · split
    · rfl
    · split <;> rfl

theorem isLeaving_handle [DecidableEq ι] (e : Executor ι) (message : Message ι) :
    (e.handle message).1.isLeaving = false := by
  obtain ⟨_, _, isNext⟩ := handle_spec e message
  rcases isNext with isNext | isNext | isNext <;> rw [isLeaving, isNext]

theorem sends_of_not {notice : Option (RoundNotice ι)} (notLeaving : e.isLeaving = false)
    (stillNot : next.isLeaving = false) (isSent : sent.bind Message.roundNotice = notice) :
    Sends e next sent notice := by
  rw [Sends, announced, announced, notLeaving, stillNot, isSent]
  exact (List.append_nil _).symm

theorem roundNotices_of_pending (isPending : next.pending = e.pending) :
    next.roundNotices = e.roundNotices := by
  rw [roundNotices, roundNotices, isPending]

theorem turn_executed (task : Nat) (hit : Bool) (checked : List Nat) (location : Location ι)
    (isPending : ∀ other : Executor ι, other.mailbox = e.mailbox → other.location = location →
      other.pending = e.pending) :
    ∃ notice, Turn e
        { ((e.complete task hit checked).1.count (e.complete task hit checked).2).1 with
          location := location } notice ∧
      ((e.complete task hit checked).1.count (e.complete task hit checked).2).2.bind
        Message.roundNotice = notice := by
  have same := (count_spec (e.complete task hit checked).1 (e.complete task hit checked).2).1
  cases count_cases (e.complete task hit checked).1 (e.complete task hit checked).2 with
  | inl counted =>
      rw [counted.1]
      refine ⟨none, .stay ?_ (roundNotices_of_pending (isPending _ same.mailbox rfl)), rfl⟩
      exact congrArg RunState.phase counted.2
  | inr goesBack =>
      rw [goesBack.1]
      refine ⟨_, .raise ?_ (congrArg RunState.phase goesBack.2.1)
        (roundNotices_of_pending (isPending _ same.mailbox rfl)), rfl⟩
      have wasState : e.state = .shootDown ∨ e.state = .doubleCheck := goesBack.2.2
      rcases wasState with isState | isState <;> rw [isState] <;> rintro ⟨⟩

variable [DecidableEq ι]

theorem turn_handle {message : Message ι} (isLocation : e.location = .taken none (some message)) :
    ∃ notice, Turn e (e.handle message).1 notice ∧
      (e.handle message).2.bind Message.roundNotice = notice := by
  have isPending : e.pending = message :: e.mailbox := by rw [pending, isLocation]
  have isOther : message.roundNotice = none → e.roundNotices =
      e.mailbox.filterMap Message.roundNotice := fun isNone => by
    rw [roundNotices, isPending, List.filterMap_cons_none isNone]
  have isNotice : ∀ notice, message.roundNotice = some notice → e.roundNotices =
      notice :: e.mailbox.filterMap Message.roundNotice := fun notice isSome => by
    rw [roundNotices, isPending, List.filterMap_cons_some isSome]
  cases message with
  | startShootDown id =>
      rw [handle]
      dsimp only
      split
      · next isNormal =>
          refine ⟨none, .stay ?_ (isOther rfl).symm, rfl⟩
          rw [isNormal.2]
          rfl
      · exact ⟨none, .stay rfl (isOther rfl).symm, rfl⟩
  | startWaiting1 id =>
      rw [handle]
      dsimp only
      split
      · next isWait1 =>
          split
          · exact ⟨none, .stay rfl (isOther rfl).symm, rfl⟩
          · next isSame =>
              rw [not_not.mp isSame] at isLocation
              exact ⟨_, .start isWait1 rfl isLocation (isOther rfl).symm, rfl⟩
      · exact ⟨none, .stay rfl (isOther rfl).symm, rfl⟩
  | startDoubleCheck id =>
      rw [handle]
      dsimp only
      split
      · next isWait1 =>
          exact ⟨_, .join id isWait1.2 rfl isLocation isWait1.1 (isNotice _ rfl), rfl⟩
      · next notJoining =>
          refine ⟨none, .drop (.check id) rfl (isNotice _ rfl) ?_ (by rintro _ ⟨⟩), rfl⟩
          rintro origin isWaiting ⟨⟩
          by_contra isOther
          refine notJoining ⟨isOther, ?_⟩
          cases isState : e.state <;> rw [isState] at isWaiting <;> first | rfl | cases isWaiting
  | startWaiting2 id =>
      rw [handle]
      dsimp only
      split
      · split
        · exact ⟨none, .stay rfl (isOther rfl).symm, rfl⟩
        · exact ⟨none, .stay rfl (isOther rfl).symm, rfl⟩
      · exact ⟨none, .stay rfl (isOther rfl).symm, rfl⟩
  | terminate =>
      rw [handle]
      dsimp only
      split
      · exact ⟨none, .stay rfl (isOther rfl).symm, rfl⟩
      · exact ⟨none, .stay rfl (isOther rfl).symm, rfl⟩
  | reset id =>
      rw [handle]
      dsimp only
      split
      · next isOther => exact ⟨_, .relay id isOther rfl (isNotice _ rfl), rfl⟩
      · next isSame =>
          refine ⟨none, .drop (.alarm id) rfl (isNotice _ rfl) (by rintro _ _ ⟨⟩) ?_, rfl⟩
          rintro origin ⟨⟩
          exact not_not.mp isSame

omit [DecidableEq ι] in
theorem turn_proceed (isLocation : e.location = .deciding) :
    Turn e e.proceed.1 none ∧ e.proceed.2.bind Message.roundNotice = none := by
  have wasPending : e.pending = e.mailbox := by rw [pending, isLocation]
  have keeps : ∀ next : Executor ι, next.pending = e.mailbox → next.roundNotices = e.roundNotices :=
    fun _ isMailbox => roundNotices_of_pending (isMailbox.trans wasPending.symm)
  rw [proceed]
  split
  · split
    · next isState => exact ⟨.stay (isState ▸ rfl) (keeps _ rfl), rfl⟩
    · next isState => exact ⟨.settle (isState ▸ rfl) (by rintro ⟨⟩) (keeps _ rfl), rfl⟩
    · exact ⟨.stay rfl (keeps _ rfl), rfl⟩
    · next isState =>
        split
        · exact ⟨.stay (isState ▸ rfl) (keeps _ rfl), rfl⟩
        · exact ⟨.stay (isState ▸ rfl) (keeps _ rfl), rfl⟩
    · exact ⟨.stay rfl (keeps _ rfl), rfl⟩
    · exact ⟨.stay rfl (keeps _ rfl), rfl⟩
  · split
    · exact ⟨.stay rfl (keeps _ rfl), rfl⟩
    · split <;> exact ⟨.stay rfl (keeps _ rfl), rfl⟩

/-- An executor is on its way out of `POLL` only behind `fileReady`. -/
theorem leaves_ownStep (leaves : e.Leaves) (own : OwnStep e next sent) : next.Leaves := by
  have isNot : next.isLeaving = false → next.Leaves := by
    intro notLeaving isLeaving
    rw [notLeaving] at isLeaving
    cases isLeaving
  cases own with
  | get _ => exact isNot (isLeaving_getReadyTaskAndMessage e)
  | straggle _ _ => exact isNot rfl
  | resumeBlocked _ _ => exact isNot (isLeaving_behindTask _ rfl)
  | resume _ _ _ _ => exact isNot (isLeaving_behindTask _ rfl)
  | handle _ => exact isNot (isLeaving_handle e _)
  | proceed _ => exact isNot (isLeaving_proceed e)
  | executeBlocked _ => exact isNot rfl
  | execute _ _ _ => exact isNot rfl
  | enterPoll _ => exact isNot rfl
  | sleep _ => exact isNot (isLeaving_sleep e)
  | wakeUp _ => exact isNot rfl
  | polled _ _ => exact isNot rfl
  | fileReady _ _ => exact fun _ => rfl
  | leavePoll isLocation => exact fun _ => leaves (by rw [isLeaving, isLocation])
  | announce _ => exact isNot rfl

/-- What a step does to a round, where no assertion fails. -/
theorem turn_ownStep (alert : e.Alert) (leaves : e.Leaves) (own : OwnStep e next sent)
    (notUnreachable : next.location ≠ .unreachable) :
    ∃ notice, Turn e next notice ∧ Sends e next sent notice := by
  have notLeaving : ∀ location, e.location = location →
      isLeaving { e with location := location } = false → e.isLeaving = false := by
    intro location isLocation isFalse
    rw [isLeaving, isLocation]
    exact isFalse
  have stays : ∀ next : Executor ι, next.state = e.state → next.pending = e.pending →
      e.isLeaving = false → next.isLeaving = false →
      ∃ notice, Turn e next notice ∧ Sends e next none notice :=
    fun _ isState isPending wasNot isNot => ⟨none, .stay (congrArg RunState.phase isState)
      (roundNotices_of_pending isPending), sends_of_not wasNot isNot rfl⟩
  cases own with
  | get isLocation =>
      exact stays _ rfl (pending_getReadyTaskAndMessage isLocation)
        (notLeaving _ isLocation rfl) (isLeaving_getReadyTaskAndMessage e)
  | straggle _ _ => exact absurd rfl notUnreachable
  | @resumeBlocked task message isLocation _ =>
      exact stays _ rfl (pending_behindTask message isLocation rfl rfl)
        (notLeaving _ isLocation rfl) (isLeaving_behindTask message rfl)
  | @resume task message hit checked isLocation _ =>
      obtain ⟨notice, turn, isSent⟩ := turn_executed task hit checked (behindTask message)
        fun other isMailbox isNext => pending_behindTask message isLocation isMailbox isNext
      exact ⟨notice, turn, sends_of_not (notLeaving _ isLocation rfl)
        (isLeaving_behindTask message rfl) isSent⟩
  | @handle message isLocation =>
      obtain ⟨notice, turn, isSent⟩ := turn_handle isLocation
      exact ⟨notice, turn, sends_of_not (notLeaving _ isLocation rfl)
        (isLeaving_handle e message) isSent⟩
  | proceed isLocation =>
      obtain ⟨turn, isSent⟩ := turn_proceed isLocation
      exact ⟨none, turn, sends_of_not (notLeaving _ isLocation rfl) (isLeaving_proceed e) isSent⟩
  | executeBlocked isLocation =>
      exact stays _ rfl (pending_of_location rfl (by rintro _ _ ⟨⟩)
        (isLocation ▸ (by rintro _ _ ⟨⟩))) (notLeaving _ isLocation rfl) rfl
  | @execute task hit checked isLocation =>
      have isPending : ∀ other : Executor ι, other.mailbox = e.mailbox → other.location = .loop →
          other.pending = e.pending := by
        intro other isMailbox isNext
        refine pending_of_location isMailbox ?_ ?_
        · rw [isNext]
          rintro _ _ ⟨⟩
        · rw [isLocation]
          rintro _ _ ⟨⟩
      obtain ⟨notice, turn, isSent⟩ := turn_executed task hit checked .loop isPending
      exact ⟨notice, turn, sends_of_not (notLeaving _ isLocation rfl) rfl isSent⟩
  | enterPoll isLocation =>
      exact stays _ rfl (pending_of_location rfl (by rintro _ _ ⟨⟩)
        (isLocation ▸ (by rintro _ _ ⟨⟩))) (notLeaving _ isLocation rfl) rfl
  | sleep isLocation =>
      refine stays _ rfl (pending_of_location rfl ?_ (isLocation ▸ (by rintro _ _ ⟨⟩)))
        (notLeaving _ isLocation rfl) (isLeaving_sleep e)
      intro task message
      rw [sleep]
      dsimp only
      split <;> rintro ⟨⟩
  | wakeUp isLocation =>
      exact stays _ rfl (pending_of_location rfl (by rintro _ _ ⟨⟩)
        (isLocation ▸ (by rintro _ _ ⟨⟩))) (notLeaving _ isLocation rfl) rfl
  | polled isLocation _ =>
      exact stays _ rfl (pending_of_location rfl (by rintro _ _ ⟨⟩)
        (isLocation ▸ (by rintro _ _ ⟨⟩))) (notLeaving _ isLocation rfl) rfl
  | fileReady isLocation _ =>
      have wasNot : e.isLeaving = false := notLeaving _ isLocation rfl
      refine ⟨_, .raise (alert.polls isLocation ▸ (by rintro ⟨⟩)) rfl
        (roundNotices_of_pending (pending_of_location rfl (by rintro _ _ ⟨⟩)
          (isLocation ▸ (by rintro _ _ ⟨⟩)))), ?_⟩
      rw [Sends, announced, wasNot]
      rfl
  | leavePoll isLocation =>
      have wasLeaving : e.isLeaving = true := by rw [isLeaving, isLocation]
      refine ⟨none, .stay rfl (roundNotices_of_pending (pending_of_location rfl
        (by rintro _ _ ⟨⟩) (isLocation ▸ (by rintro _ _ ⟨⟩)))), ?_⟩
      rw [Sends, announced, wasLeaving]
      rfl
  | announce isLocation =>
      have wasLeaving : e.isLeaving = true := by rw [isLeaving, isLocation]
      refine ⟨none, .stay (leaves wasLeaving ▸ rfl) (roundNotices_of_pending
        (pending_of_location rfl (by rintro _ _ ⟨⟩) (isLocation ▸ (by rintro _ _ ⟨⟩)))), ?_⟩
      rw [Sends, announced, wasLeaving]
      rfl

end Executor

namespace ExecutorRing

variable {last : Nat} {ring next : ExecutorRing last}

/-! ## The round of a ring -/

def previous (e : Fin (last + 1)) : Fin (last + 1) :=
  e + Fin.last last

theorem previous_add_one (e : Fin (last + 1)) : previous e + 1 = e := by
  rw [previous, add_assoc, Fin.last_add_one, add_zero]

theorem previous_eq_iff {e other : Fin (last + 1)} : previous other = e ↔ other = e + 1 := by
  rw [← add_left_inj (1 : Fin (last + 1)), previous_add_one]

/-- The ring as the nodes of a round.  The alarm of an executor that has left `POLL` is on
its way already. -/
def round (ring : ExecutorRing last) : RoundRing (Fin (last + 1)) where
  status e := (ring e).state.phase
  queue e := (ring e).roundNotices ++ (ring (previous e)).announced

theorem isLeaving_wake (e : Executor (Fin (last + 1))) : e.wake.isLeaving = e.isLeaving := by
  rw [Executor.isLeaving, Executor.isLeaving, Executor.wake]
  cases e.location <;> rfl

theorem roundNotices_receive (e : Executor (Fin (last + 1))) (message : Message (Fin (last + 1))) :
    (e.receive message).roundNotices = e.roundNotices ++ message.roundNotice.toList := by
  rw [Executor.roundNotices, Executor.pending_receive, List.filterMap_append,
    Executor.roundNotices]
  cases isNotice : message.roundNotice with
  | none => rw [List.filterMap_cons_none isNotice, List.filterMap_nil, Option.toList_none]
  | some notice => rw [List.filterMap_cons_some isNotice, List.filterMap_nil, Option.toList_some]

theorem isLeaving_receive (e : Executor (Fin (last + 1))) (message : Message (Fin (last + 1))) :
    (e.receive message).isLeaving = e.isLeaving := by
  rw [Executor.receive]
  split
  · exact isLeaving_wake e
  · rfl

theorem announced_receive (e : Executor (Fin (last + 1))) (message : Message (Fin (last + 1))) :
    (e.receive message).announced = e.announced := by
  rw [Executor.announced, Executor.announced, Executor.id_receive, isLeaving_receive]

section Sending

variable (ring) (e : Fin (last + 1)) (sent : Option (Message (Fin (last + 1))))
  (place : Fin (last + 1))

theorem state_send : (send ring e sent place).state = (ring place).state := by
  cases sent with
  | none => rfl
  | some message =>
      by_cases isNext : place = e + 1
      · rw [isNext, send, Function.update_self, state_receive]
      · rw [send, Function.update_of_ne isNext]

theorem announced_send : (send ring e sent place).announced = (ring place).announced := by
  cases sent with
  | none => rfl
  | some message =>
      by_cases isNext : place = e + 1
      · rw [isNext, send, Function.update_self, announced_receive]
      · rw [send, Function.update_of_ne isNext]

theorem roundNotices_send_next : (send ring e sent (e + 1)).roundNotices =
    (ring (e + 1)).roundNotices ++ (sent.bind Message.roundNotice).toList := by
  cases sent with
  | none => exact (List.append_nil _).symm
  | some message =>
      rw [send, Function.update_self, roundNotices_receive]
      rfl

theorem send_of_ne {place : Fin (last + 1)} (notNext : place ≠ e + 1) :
    send ring e sent place = ring place := by
  cases sent with
  | none => rfl
  | some message => rw [send, Function.update_of_ne notNext]

end Sending

theorem round_send {e : Fin (last + 1)} {after : Executor (Fin (last + 1))}
    {sent : Option (Message (Fin (last + 1)))} {notice : Option (RoundNotice (Fin (last + 1)))}
    (sends : (ring e).Sends after sent notice) :
    (send (Function.update ring e after) e sent).round =
      ring.round.after (· + 1) e after.state.phase
        (after.roundNotices ++ (ring (previous e)).announced) notice := by
  rw [round, MessageRing.after, MessageRing.mk.injEq]
  constructor
  · funext place
    rw [state_send]
    by_cases isNode : place = e
    · rw [isNode, Function.update_self, Function.update_self]
    · rw [Function.update_of_ne isNode, Function.update_of_ne isNode]
      rfl
  · funext place
    rw [announced_send]
    by_cases isNext : place = e + 1
    · have isPrevious : previous (e + 1) = e := previous_eq_iff.mpr rfl
      rw [isNext, roundNotices_send_next, isPrevious, Function.update_self,
        Function.update_self, List.append_assoc, ← sends, ← List.append_assoc]
      congr 1
      by_cases isNode : e + 1 = e
      · rw [isNode] at isPrevious ⊢
        rw [Function.update_self, Function.update_self, isPrevious]
      · rw [Function.update_of_ne isNode, Function.update_of_ne isNode, round]
        dsimp only
        rw [isPrevious]
    · have notPrevious : previous place ≠ e := fun isSame => isNext (previous_eq_iff.mp isSame)
      rw [send_of_ne _ _ _ isNext, Function.update_of_ne isNext, Function.update_of_ne notPrevious]
      by_cases isNode : place = e
      · rw [isNode, Function.update_self, Function.update_self]
      · rw [Function.update_of_ne isNode, Function.update_of_ne isNode]
        rfl

theorem move_of_turn {e : Fin (last + 1)} {after : Executor (Fin (last + 1))}
    {notice : Option (RoundNotice (Fin (last + 1)))} (isId : (ring e).id = e)
    (turn : Executor.Turn (ring e) after notice) :
    ring.round.Move e after.state.phase (after.roundNotices ++ (ring (previous e)).announced)
      notice := by
  have isPhase : ring.round.status e = (ring e).state.phase := rfl
  have isQueue : ring.round.queue e = (ring e).roundNotices ++ (ring (previous e)).announced := rfl
  cases turn with
  | stay samePhase isPending =>
      rw [samePhase, isPending, ← isPhase, ← isQueue]
      exact .stay
  | drop first samePhase isPending joins relays =>
      rw [samePhase, ← isPhase]
      rw [isId] at joins relays
      refine .drop ?_ joins relays
      rw [isQueue, isPending, List.cons_append]
  | settle isEarly notLate isPending =>
      rw [isPending, ← isQueue]
      exact .settle _ isEarly notLate
  | start isWaiting isLate isLocation isPending =>
      rw [isLate, isPending, ← isQueue, isId]
      exact .start (isPhase.trans (congrArg RunState.phase isWaiting))
  | join origin isWaiting isLate isLocation isOther isPending =>
      rw [isLate]
      rw [isId] at isOther
      refine .join (isPhase.trans (congrArg RunState.phase isWaiting)) ?_ isOther
      rw [isQueue, isPending, List.cons_append]
  | relay origin isOther isEarly isPending =>
      rw [isEarly]
      rw [isId] at isOther
      refine .relay ?_ isOther
      rw [isQueue, isPending, List.cons_append]
  | raise notWaiting isEarly isPending =>
      rw [isEarly, isPending, ← isQueue, isId]
      exact .raise notWaiting

end ExecutorRing

end Rcgo.Scheduler
