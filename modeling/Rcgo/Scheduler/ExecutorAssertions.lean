import Rcgo.Scheduler.ExecutorRing
import Mathlib.Algebra.Group.Fin.Basic

/-!
# The assertions of the executors

`run_i` takes it for impossible that a task is granted to a polling executor, that an
executor outside of `WAIT2` is told to terminate, and that a waiting executor has a
task to execute.
-/

namespace Rcgo.Scheduler

open Foundation (Notice RingState)

namespace Executor

variable {ι : Type} {e : Executor ι}

theorem pending_wake (e : Executor ι) : e.wake.pending = e.pending := by
  rw [pending, pending, wake]
  cases e.location <;> rfl

theorem holdsTask_wake (e : Executor ι) : e.wake.holdsTask = e.holdsTask := by
  rw [holdsTask, holdsTask, wake]
  cases e.location <;> rfl

theorem location_wake {location : Location ι} (notWaiting : ∀ signalled, location ≠ .waiting signalled)
    (isLocation : e.wake.location = location) : e.location = location := by
  rw [wake] at isLocation
  dsimp only at isLocation
  split at isLocation
  · exact absurd isLocation.symm (notWaiting true)
  · exact isLocation

theorem location_receive {location : Location ι} {message : Message ι}
    (notWaiting : ∀ signalled, location ≠ .waiting signalled)
    (isLocation : (e.receive message).location = location) : e.location = location := by
  rw [receive] at isLocation
  split at isLocation
  · exact location_wake notWaiting isLocation
  · exact isLocation

theorem location_grant {location : Location ι} {task : Nat}
    (notWaiting : ∀ signalled, location ≠ .waiting signalled)
    (isLocation : (e.grant task).location = location) : e.location = location := by
  rw [grant, toReadyList] at isLocation
  split at isLocation
  · exact location_wake (e := e) notWaiting isLocation
  · exact isLocation

theorem pending_receive (e : Executor ι) (message : Message ι) :
    (e.receive message).pending = e.pending ++ [message] := by
  have append : ∀ e : Executor ι,
      pending { e with mailbox := e.mailbox ++ [message] } = e.pending ++ [message] := by
    intro e
    rw [pending, pending]
    dsimp only
    split <;> rfl
  rw [receive]
  split
  · exact (append _).trans (congrArg (· ++ [message]) (pending_wake e))
  · exact append e

theorem pending_grant (e : Executor ι) (task : Nat) : (e.grant task).pending = e.pending := by
  rw [grant, toReadyList]
  split
  · exact pending_wake e
  · rfl

theorem id_receive (e : Executor ι) (message : Message ι) : (e.receive message).id = e.id := by
  rw [receive]
  split <;> rfl

theorem id_grant (e : Executor ι) (task : Nat) : (e.grant task).id = e.id := by
  rw [grant, toReadyList]
  split <;> rfl

theorem state_grant (e : Executor ι) (task : Nat) : (e.grant task).state = e.state := by
  rw [grant, toReadyList]
  split <;> rfl

theorem Orderly.woken (orderly : e.Orderly) : e.wake.Orderly where
  counts := orderly.counts
  polls isPoll := holdsTask_wake e ▸ orderly.polls isPoll
  announces isLocation := orderly.announces (location_wake (by rintro _ ⟨⟩) isLocation)

theorem Orderly.received (orderly : e.Orderly) (message : Message ι) :
    (e.receive message).Orderly := by
  rw [receive]
  split
  · exact ⟨orderly.woken.counts, orderly.woken.polls, orderly.woken.announces⟩
  · exact ⟨orderly.counts, orderly.polls, orderly.announces⟩

theorem Orderly.granted (orderly : e.Orderly) {task : Nat} (isSuspended : task ∈ e.suspended) :
    (e.grant task).Orderly := by
  have notPoll : e.state ≠ .poll := by
    intro isPoll
    rw [(orderly.polls isPoll).1] at isSuspended
    cases isSuspended
  rw [grant, toReadyList]
  split
  · exact ⟨orderly.counts, fun isPoll => absurd isPoll notPoll, orderly.woken.announces⟩
  · exact ⟨orderly.counts, fun isPoll => absurd isPoll notPoll, orderly.announces⟩

theorem alert_grant (alert : e.Alert) (task : Nat) : (e.grant task).Alert := by
  have same : Alert { e with suspended := e.suspended.erase task } :=
    ⟨alert.sleeps, alert.usesEventfd, alert.polls, alert.leaves, alert.takes, alert.notices⟩
  exact alert_toReadyList same task

end Executor

namespace ExecutorRing

variable {last : Nat} {ring next : ExecutorRing last}

/-! ## The detection of the end -/

/-- The messages of an executor as far as the detection depends on them. -/
def notices (e : Executor (Fin (last + 1))) : List (Notice (Fin (last + 1))) :=
  e.pending.filterMap Message.notice

/-- The ring as nodes that are passive in `WAIT2`. -/
def detection (ring : ExecutorRing last) : RingState (Fin (last + 1)) where
  passive e := (ring e).state = .wait2
  queue e := notices (ring e)

theorem notices_receive (e : Executor (Fin (last + 1))) (message : Message (Fin (last + 1))) :
    notices (e.receive message) = notices e ++ (Message.notice message).toList := by
  rw [notices, Executor.pending_receive, List.filterMap_append, notices]
  cases isNotice : message.notice with
  | none => rw [List.filterMap_cons_none isNotice, List.filterMap_nil, Option.toList_none]
  | some notice => rw [List.filterMap_cons_some isNotice, List.filterMap_nil, Option.toList_some]

theorem state_receive (e : Executor (Fin (last + 1))) (message : Message (Fin (last + 1))) :
    (e.receive message).state = e.state := by
  rw [Executor.receive]
  split <;> rfl

theorem detection_update (ring : ExecutorRing last) (e : Fin (last + 1))
    (after : Executor (Fin (last + 1))) :
    detection (Function.update ring e after) =
      { passive := Function.update ring.detection.passive e (after.state = .wait2)
        queue := Function.update ring.detection.queue e (notices after) } := by
  rw [detection, RingState.mk.injEq]
  exact ⟨Function.comp_update (fun e : Executor _ => e.state = .wait2) ring e after,
    Function.comp_update notices ring e after⟩

theorem detection_receive (ring : ExecutorRing last) (e : Fin (last + 1))
    (message : Message (Fin (last + 1))) :
    detection (Function.update ring e ((ring e).receive message)) =
      { passive := ring.detection.passive
        queue := Function.update ring.detection.queue e
          (ring.detection.queue e ++ message.notice.toList) } := by
  rw [detection_update, RingState.mk.injEq, state_receive, notices_receive]
  exact ⟨Function.update_eq_self e ring.detection.passive, rfl⟩

theorem detection_send (ring : ExecutorRing last) (e : Fin (last + 1))
    (after : Executor (Fin (last + 1))) (sent : Option (Message (Fin (last + 1)))) :
    (send (Function.update ring e after) e sent).detection =
      ring.detection.after (· + 1) e (after.state = .wait2) (notices after)
        (sent.bind Message.notice) := by
  cases sent with
  | none =>
      rw [send, detection_update, RingState.after, RingState.mk.injEq]
      refine ⟨rfl, ?_⟩
      dsimp only
      rw [Option.bind_none, Option.toList_none, List.append_nil, Function.update_eq_self]
  | some message =>
      rw [send, detection_receive, detection_update]
      rfl

/-! ## Runs -/

/-- No `START_WAITING2` of the executor is still on its way where it sends another one. -/
def StartsAfresh (ring : ExecutorRing last) (e : Fin (last + 1)) : Prop :=
  (ring e).location = .deciding → (ring e).state = .doubleCheck →
    (ring e).points = (ring e).taskCount → (ring e).fileDescriptorMap = [] →
    ∀ other, Message.startWaiting2 e ∉ (ring other).pending

instance (ring : ExecutorRing last) (e : Fin (last + 1)) : Decidable (ring.StartsAfresh e) :=
  inferInstanceAs (Decidable (_ → _ → _ → _ → ∀ _, _))

/-- An executor that enters `POLL` has no task that waits for a lock or was granted it,
and one that enters `WAIT2` has no old message on the ring. -/
def Allows (ring : ExecutorRing last) : RingEvent last → Prop
  | .step e _ => (ring e).PollsAlone ∧ ring.StartsAfresh e
  | .grant _ _ => True

instance (ring : ExecutorRing last) : ∀ event, Decidable (ring.Allows event)
  | .step e _ => inferInstanceAs (Decidable ((ring e).PollsAlone ∧ ring.StartsAfresh e))
  | .grant _ _ => .isTrue trivial

def AllowsAll (ring : ExecutorRing last) : List (RingEvent last) → Prop
  | [] => True
  | event :: events => ring.Allows event ∧ ∀ next ∈ ring.after event, AllowsAll next events

instance decidableAllowsAll : ∀ (ring : ExecutorRing last) (events : List (RingEvent last)),
    Decidable (ring.AllowsAll events)
  | _, [] => .isTrue trivial
  | ring, event :: events =>
      have : DecidablePred fun next : ExecutorRing last => next.AllowsAll events :=
        fun next => decidableAllowsAll next events
      inferInstanceAs (Decidable (ring.Allows event ∧ ∀ next ∈ ring.after event,
        AllowsAll next events))

/-- The invariant of the ring. -/
structure Coordinated (ring : ExecutorRing last) : Prop where
  ids : ∀ e, (ring e).id = e
  orderly : ∀ e, (ring e).Orderly
  alert : ∀ e, (ring e).Alert
  detects : ring.detection.Detects (· + 1)

theorem val_iterate_add_one (first : Fin (last + 1)) (count : Nat) :
    ((· + 1)^[count] first).val = (first.val + count) % (last + 1) := by
  induction count with
  | zero => exact (Nat.mod_eq_of_lt first.isLt).symm
  | succ count inductionHypothesis =>
      rw [Function.iterate_succ_apply', Fin.val_add, inductionHypothesis, Nat.mod_add_mod,
        Fin.val_one', Nat.add_mod_mod, Nat.add_assoc]

theorem goesRound (first target : Fin (last + 1)) : ∃ count, (· + 1)^[count] first = target := by
  refine ⟨last + 1 - first.val + target.val, Fin.ext ?_⟩
  have isLess := first.isLt
  rw [val_iterate_add_one, show first.val + (last + 1 - first.val + target.val) =
    target.val + (last + 1) by omega, Nat.add_mod_right]
  exact Nat.mod_eq_of_lt target.isLt

theorem coordinated_initial (tasks : Fin (last + 1) → List Nat) :
    (initial tasks).Coordinated where
  ids _ := rfl
  orderly e := Executor.orderly_initial e (tasks e)
  alert e := Executor.alert_initial e (tasks e)
  detects := ⟨by rintro _ _ ⟨⟩, by rintro _ ⟨⟩⟩

theorem queue_of_pending {e : Fin (last + 1)} {after : Executor (Fin (last + 1))}
    {message : Message (Fin (last + 1))} (isPending : (ring e).pending = message :: after.pending) :
    ring.detection.queue e = message.notice.toList ++ notices after := by
  have isQueue : ring.detection.queue e = (ring e).pending.filterMap Message.notice := rfl
  rw [isQueue, notices, isPending]
  cases isNotice : message.notice with
  | none => rw [List.filterMap_cons_none isNotice, Option.toList_none, List.nil_append]
  | some notice => rw [List.filterMap_cons_some isNotice, Option.toList_some, List.singleton_append]

theorem fresh_of_notMem {e : Fin (last + 1)}
    (afresh : ∀ other, Message.startWaiting2 e ∉ (ring other).pending) (other : Fin (last + 1)) :
    Notice.token e ∉ ring.detection.queue other := by
  intro isToken
  obtain ⟨message, isMessage, isNotice⟩ := List.mem_filterMap.mp isToken
  cases message with
  | startWaiting2 id =>
      cases isNotice
      exact afresh other isMessage
  | startShootDown id => cases isNotice
  | startWaiting1 id => cases isNotice
  | startDoubleCheck id => cases isNotice
  | terminate => cases isNotice
  | reset id => cases isNotice

/-- What a step does to the executor, as a move of the detection. -/
theorem Coordinated.move (coordinated : ring.Coordinated) {e : Fin (last + 1)}
    {after : Executor (Fin (last + 1))} {sent : Option (Message (Fin (last + 1)))}
    (afresh : ring.StartsAfresh e) (effect : Executor.Effect (ring e) after sent) :
    ring.detection.Move e (after.state = .wait2) (notices after)
      (sent.bind Message.notice) := by
  have isId := coordinated.ids e
  have stays : (ring e).state = .wait2 → after.state = .wait2 →
      (after.state = .wait2) = ring.detection.passive e := fun wasState isState =>
    propext ⟨fun _ => wasState, fun _ => isState⟩
  have notWait2 : after.state = .normal → after.state ≠ .wait2 := by
    intro isState
    rw [isState]
    rintro ⟨⟩
  cases effect with
  | quiet sent isState isPending isSent =>
      rw [isSent, propext isState, notices, isPending]
      exact .stay
  | drop message sent isState isPending isSent =>
      have isQueue := queue_of_pending isPending
      rw [isSent, propext isState]
      cases isNotice : message.notice with
      | none =>
          rw [isNotice, Option.toList_none, List.nil_append] at isQueue
          rw [← isQueue]
          exact .stay
      | some notice =>
          rw [isNotice, Option.toList_some, List.singleton_append] at isQueue
          exact .drop isQueue
  | launch wasState isState isLocation isPoints noDescriptors isPending =>
      rw [isId, eq_true isState, notices, isPending]
      refine .launch ?_ ?_
      · intro wasPassive
        have := wasState.symm.trans wasPassive
        cases this
      · exact fresh_of_notMem (afresh isLocation wasState isPoints noDescriptors)
  | alarm wasState isState isPending =>
      rw [notices, isPending, eq_false (notWait2 isState), ← eq_false wasState]
      exact .alarm wasState
  | relay id isState isPending =>
      rw [eq_false (notWait2 isState)]
      exact .relay (queue_of_pending isPending)
  | forward id isOther wasState isState isPending =>
      rw [stays wasState isState]
      exact .forward wasState (queue_of_pending isPending) (isId ▸ isOther)
  | finish wasState isState isPending =>
      rw [stays wasState isState]
      rw [isId] at isPending
      exact .finish wasState (queue_of_pending isPending)
  | passOn wasState isState isPending =>
      rw [stays wasState isState]
      exact .passOn wasState (queue_of_pending isPending)

/-- `TERMINATE` is on its way only when all executors are in `WAIT2`. -/
theorem Coordinated.terminates (coordinated : ring.Coordinated) (e : Fin (last + 1))
    (isPending : Message.terminate ∈ (ring e).pending) : (ring e).state = .wait2 :=
  (coordinated.detects.finished e
    (List.mem_filterMap.mpr ⟨_, isPending, rfl⟩) e).1

theorem forall_update {motive : Fin (last + 1) → Executor (Fin (last + 1)) → Prop}
    {e : Fin (last + 1)} {after : Executor (Fin (last + 1))}
    (holds : ∀ other, motive other (ring other)) (isAfter : motive e after)
    (other : Fin (last + 1)) : motive other (Function.update ring e after other) := by
  by_cases isSame : other = e
  · rw [isSame, Function.update_self]
    exact isAfter
  · rw [Function.update_of_ne isSame]
    exact holds other

/-- What stays under `receive` stays under a step of one executor. -/
theorem forall_send {motive : Fin (last + 1) → Executor (Fin (last + 1)) → Prop}
    {e : Fin (last + 1)} {after : Executor (Fin (last + 1))}
    (holds : ∀ other, motive other (ring other)) (isAfter : motive e after)
    (received : ∀ other executor message, motive other executor →
      motive other (executor.receive message))
    (sent : Option (Message (Fin (last + 1)))) (other : Fin (last + 1)) :
    motive other (send (Function.update ring e after) e sent other) := by
  cases sent with
  | none => exact forall_update holds isAfter other
  | some message =>
      exact forall_update (forall_update holds isAfter)
        (received _ _ message (forall_update holds isAfter (e + 1))) other

theorem Coordinated.step (coordinated : ring.Coordinated) {e : Fin (last + 1)}
    {after : Executor (Fin (last + 1))} {sent : Option (Message (Fin (last + 1)))}
    {choice : Executor.Choice} (alone : (ring e).PollsAlone) (afresh : ring.StartsAfresh e)
    (steps : (ring e).step choice = some (after, sent)) :
    (send (Function.update ring e after) e sent).Coordinated := by
  have own := Executor.ownStep_of_step steps
  have orderly := (coordinated.orderly e).ownStep (coordinated.alert e) alone own
  have alert := Executor.alert_ownStep (coordinated.alert e) own
  have effect := Executor.effect_ownStep (coordinated.orderly e) (coordinated.alert e) own
  have isId : after.id = e := own.id_eq.trans (coordinated.ids e)
  have detects : (send (Function.update ring e after) e sent).detection.Detects (· + 1) := by
    rw [detection_send]
    exact coordinated.detects.after (add_left_injective 1) goesRound
      (coordinated.move afresh effect)
  refine ⟨?_, ?_, ?_, detects⟩
  · exact forall_send (motive := fun e executor => executor.id = e) coordinated.ids isId
      (fun _ executor message isId => (Executor.id_receive executor message).trans isId) sent
  · exact forall_send (motive := fun _ executor => executor.Orderly) coordinated.orderly orderly
      (fun _ _ message orderly => orderly.received message) sent
  · exact forall_send (motive := fun _ executor => executor.Alert) coordinated.alert alert
      (fun _ _ message alert => Executor.alert_receive alert message) sent

theorem Coordinated.granted (coordinated : ring.Coordinated) {e : Fin (last + 1)} {task : Nat}
    (isSuspended : task ∈ (ring e).suspended) :
    Coordinated (Function.update ring e ((ring e).grant task)) where
  ids := forall_update (motive := fun e executor => executor.id = e) coordinated.ids
    ((Executor.id_grant _ task).trans (coordinated.ids e))
  orderly := forall_update (motive := fun _ executor => executor.Orderly) coordinated.orderly
    ((coordinated.orderly e).granted isSuspended)
  alert := forall_update (motive := fun _ executor => executor.Alert) coordinated.alert
    (Executor.alert_grant (coordinated.alert e) task)
  detects := by
    have same : detection (Function.update ring e ((ring e).grant task)) = ring.detection := by
      rw [detection_update, notices, Executor.pending_grant, Executor.state_grant]
      exact RingState.mk.injEq .. ▸ ⟨Function.update_eq_self e ring.detection.passive,
        Function.update_eq_self e ring.detection.queue⟩
    exact same ▸ coordinated.detects

def Asserted (ring : ExecutorRing last) : Prop :=
  ∀ e, (ring e).location ≠ .unreachable

theorem asserted_after (coordinated : ring.Coordinated) (asserted : ring.Asserted)
    {event : RingEvent last} (allowed : ring.Allows event) (runs : ring.after event = some next) :
    next.Coordinated ∧ next.Asserted := by
  cases event with
  | step e choice =>
      rw [after, Option.map_eq_some_iff] at runs
      obtain ⟨⟨result, sent⟩, steps, rfl⟩ := runs
      refine ⟨coordinated.step allowed.1 allowed.2 steps, ?_⟩
      have isResult := Executor.location_ownStep (coordinated.orderly e) (coordinated.terminates e)
        (Executor.ownStep_of_step steps)
      exact forall_send (motive := fun _ executor => executor.location ≠ .unreachable) asserted
        isResult (fun _ _ _ notReached isReached =>
          notReached (Executor.location_receive (by rintro _ ⟨⟩) isReached)) sent
  | grant e task =>
      rw [after] at runs
      split at runs
      · next isSuspended =>
          cases runs
          refine ⟨coordinated.granted isSuspended, ?_⟩
          exact forall_update (motive := fun _ executor => executor.location ≠ .unreachable)
            asserted fun isReached =>
              asserted e (Executor.location_grant (by rintro _ ⟨⟩) isReached)
      · cases runs

theorem asserted_afterAll (events : List (RingEvent last)) : ∀ {ring next : ExecutorRing last},
    ring.Coordinated → ring.Asserted → ring.AllowsAll events → ring.afterAll events = some next →
      next.Asserted := by
  induction events with
  | nil =>
      intro ring next _ asserted _ runs
      cases runs
      exact asserted
  | cons event events inductionHypothesis =>
      intro ring next coordinated asserted allowed runs
      rw [afterAll, Option.bind_eq_bind, Option.bind_eq_some_iff] at runs
      obtain ⟨middle, first, rest⟩ := runs
      obtain ⟨coordinatedMiddle, assertedMiddle⟩ :=
        asserted_after coordinated asserted allowed.1 first
      exact inductionHypothesis coordinatedMiddle assertedMiddle (allowed.2 middle first) rest

/-- Where no executor enters `POLL` or `WAIT2` too early, no assertion of `run_i` fails. -/
theorem asserted_of_allowsAll (tasks : Fin (last + 1) → List Nat) (events : List (RingEvent last))
    (allowed : (initial tasks).AllowsAll events)
    (runs : (initial tasks).afterAll events = some next) : next.Asserted :=
  asserted_afterAll events (coordinated_initial tasks) (by rintro _ ⟨⟩) allowed runs

/-! ## Failed assertions -/

def goes (e : Fin (last + 1)) (count : Nat) : List (RingEvent last) :=
  List.replicate count (.step e .go)

/-- An executor executes the first task of its idle list, whose precondition is false. -/
def skips (e : Fin (last + 1)) (checked : List Nat) : List (RingEvent last) :=
  goes e 2 ++ [.step e (.executed false checked)]

theorem asserted_of_allowsAll_alone :
    (initial fun _ : Fin 1 => []).AllowsAll (goes 0 14) ∧
      ∃ next : ExecutorRing 0, (initial fun _ => []).afterAll (goes 0 14) = some next ∧
        (next 0).location = .returned ∧ next.Asserted := by
  have allowed : (initial fun _ : Fin 1 => []).AllowsAll (goes 0 14) := by
    decide
  exact ⟨allowed, _, rfl, rfl, asserted_of_allowsAll (fun _ => []) (goes 0 14) allowed rfl⟩

/-- Two executors with tasks on one instance: the first has two that read it, one of them with
a descriptor, and the second has the collection of its garbage. -/
def straggle (first second : Fin (last + 1)) : List (RingEvent last) :=
  skips first [] ++ skips first [] ++ goes first 2 ++
  goes second 2 ++ skips second [] ++ goes second 2 ++
  goes first 4 ++ skips first [] ++ skips first [] ++ goes first 2 ++
  goes second 2 ++ goes first 2 ++ goes second 2 ++ goes first 2 ++
  -- both check again, and the collection has the lock after the first task
  skips first [7] ++ goes second 2 ++
  goes first 2 ++ [.step first .blocked] ++ goes first 2 ++ [.step first .blocked] ++
  -- the second reader is granted the lock and skips before the first one is granted it
  [.grant first 1] ++ goes first 1 ++ [.step first (.executed false [])] ++ goes first 2 ++
  [.grant first 0] ++ goes first 3

/-- Three executors, the first without a task. -/
def overtake (first second third : Fin (last + 1)) : List (RingEvent last) :=
  skips third [] ++ goes third 2 ++ goes first 4 ++ goes second 4 ++
  goes third 2 ++ skips third [] ++ goes third 2 ++ skips second [] ++ goes second 2 ++
  -- the third executor starts to check again, and the second one has its own token in its hands
  goes first 2 ++ goes third 2 ++ goes second 2 ++ goes third 2 ++ goes first 2 ++
  goes second 1 ++ goes first 3 ++
  -- the third executor has a hit, resets the others and waits once more
  goes third 2 ++ [.step third (.executed true [])] ++ skips third [] ++ goes third 2 ++
  skips third [] ++ goes third 2 ++ goes second 3 ++ skips second [] ++ goes second 2 ++
  -- the first executor starts `START_WAITING2`, is reset and waits once more
  goes first 1 ++ goes second 1 ++ goes first 8 ++
  -- the old `START_DOUBLE_CHECK` of the second executor is accepted
  goes third 4 ++ goes first 4 ++ skips third [] ++ goes third 2 ++
  -- the old `START_WAITING2` goes round, and the second executor is reset
  goes second 1 ++ goes third 2 ++ goes first 4 ++ goes second 14

/-- A polling executor takes a granted task, and an executor outside of `WAIT2` is told to
terminate. -/
theorem exists_failed_assertion :
    (((initial fun e => if e = 0 then [0, 1] else [2]).afterAll (straggle 0 1)).map
        fun ring : ExecutorRing 1 => ((ring 0).location, (ring 0).state)) =
          some (.unreachable, .poll) ∧
      (((initial fun e => if e = 0 then [] else if e = 1 then [1] else [0]).afterAll (overtake 0 1 2)).map
        fun ring : ExecutorRing 2 => ((ring 1).location, (ring 1).state)) =
          some (.unreachable, .shootDown) := by
  constructor
  · decide +kernel
  · decide +kernel

end ExecutorRing

end Rcgo.Scheduler
