import Rcgo.Foundation.ConditionVariable
import Rcgo.Foundation.Transition
import Rcgo.Scheduler.ScheduleSteps

/-!
# The executors of the instance scheduler as threads

An executor that finds nothing on the schedule while others are running sleeps on
`list_cond_`, and a call on the lock of an instance may block.  Somebody can always go on
until all executors have exited.
-/

namespace Rcgo.Scheduler

open Rcgo.Foundation Rcgo.Composition Rcgo.Composition.Graph

/-- The executor signals `list_cond_` with the event. -/
def ScheduleEvent.signals {executors : Nat} {g : Graph} : ScheduleEvent executors g → Bool
  | .push _ _ => true
  | .exit _ => true
  | .release _ => true
  | _ => false

/-- The scheduler with the calls that wait for the locks of the instances and the executors
that wait in `pthread_cond_wait`. -/
structure ExecutorPool (executors : Nat) (c : Composed) where
  scheduler : InstanceSchedule executors c.graph
  queues : InstanceId → List (Fin executors × LockMode)
  asleep : Fin executors → Bool

namespace ExecutorPool

variable {executors : Nat} {c : Composed}

def initial (executors : Nat) (c : Composed) : ExecutorPool executors c where
  scheduler := InstanceSchedule.initial executors c
  queues _ := []
  asleep _ := false

def locks (s : ExecutorPool executors c) : RwlockQueues (Fin executors) (Job c.graph) :=
  ⟨s.scheduler.locks, s.queues⟩

/-- The loop of `lock` has come to an entry that it locks in this mode. -/
abbrev AtEntry (s : ExecutorPool executors c) (e : Fin executors) (entry : InstanceEntry)
    (mode : LockMode) : Prop :=
  RwlockQueues.AtEntry (Job.set c.memo) s.scheduler.locks.control e entry mode

/-- The steps of an executor that is awake. -/
inductive Advance (policy : RwlockPolicy (Fin executors)) (s : ExecutorPool executors c) :
    Fin executors → ExecutorPool executors c → Prop where
  | call {e : Fin executors} {entry : InstanceEntry} {mode : LockMode}
      {before after : List (Fin executors × LockMode)} (isAwake : s.asleep e = false)
      (atEntry : s.AtEntry e entry mode) (absent : ∀ m, (e, m) ∉ s.queues entry.1)
      (parts : s.queues entry.1 = before ++ after) :
      Advance policy s e
        { s with queues := Function.update s.queues entry.1 (before ++ (e, mode) :: after) }
  | acquire {e : Fin executors} {entry : InstanceEntry} {mode : LockMode}
      {scheduler : InstanceSchedule executors c.graph} (isAwake : s.asleep e = false)
      (atEntry : s.AtEntry e entry mode) (waits : (e, mode) ∈ s.queues entry.1)
      (notRefused : ¬policy.refuses (s.scheduler.locks.locks entry.1) (s.queues entry.1) e mode)
      (scheduled : s.scheduler.after (.lock e) = some scheduler) :
      Advance policy s e
        { s with
          scheduler := scheduler
          queues := Function.update s.queues entry.1 ((s.queues entry.1).erase (e, mode)) }
  | other {event : ScheduleEvent executors c.graph}
      {scheduler : InstanceSchedule executors c.graph} {asleep : Fin executors → Bool}
      (isAwake : s.asleep event.executor = false)
      (notCalling : event = .lock event.executor →
        ∀ entry mode, ¬s.AtEntry event.executor entry mode)
      (scheduled : s.scheduler.after event = some scheduler)
      (signals : if event.signals then Signalled s.asleep asleep else asleep = s.asleep) :
      Advance policy s event.executor { s with scheduler := scheduler, asleep := asleep }

/-- What happens to an executor in `pthread_cond_wait`. -/
inductive Nap (s : ExecutorPool executors c) : Fin executors → ExecutorPool executors c → Prop where
  | sleep {e : Fin executors} (isAwake : s.asleep e = false)
      (isWaiting : s.scheduler.stage e = .waiting) (isEmpty : s.scheduler.schedule.head = .null)
      (othersWork : s.scheduler.pending ≠ 0) :
      Nap s e { s with asleep := Function.update s.asleep e true }
  /-- without a signal -/
  | wake {e : Fin executors} (isAsleep : s.asleep e = true) :
      Nap s e { s with asleep := Function.update s.asleep e false }

def Step (policy : RwlockPolicy (Fin executors)) (s : ExecutorPool executors c)
    (e : Fin executors) (next : ExecutorPool executors c) : Prop :=
  Advance policy s e next ∨ Nap s e next

/-- The states of all interleavings of the executors. -/
inductive Reachable (policy : RwlockPolicy (Fin executors)) : ExecutorPool executors c → Prop where
  | initial : Reachable policy (initial executors c)
  | step {s next : ExecutorPool executors c} {e : Fin executors} (reachable : Reachable policy s)
      (step : Step policy s e next) : Reachable policy next

end ExecutorPool

theorem InstanceSchedule.IsCounted.exists_working {executors : Nat} {c : Composed}
    {s : InstanceSchedule executors c.graph} (counted : s.IsCounted) (notZero : s.pending ≠ 0) :
    ∃ e, (s.stage e).isWorking = true := by
  by_contra nobody
  apply notZero
  rw [counted, countMarked_eq_zero]
  exact fun e _ isWorking => nobody ⟨e, isWorking⟩

namespace ExecutorPool

variable {executors : Nat} {c : Composed} {policy : RwlockPolicy (Fin executors)}
  {s next : ExecutorPool executors c} {e : Fin executors}

/-! ## What holds in every state -/

/-- What holds in every state. -/
structure Invariant (policy : RwlockPolicy (Fin executors)) (s : ExecutorPool executors c) :
    Prop where
  locks : RwlockQueues.Reachable policy (Job.set c.memo) s.locks
  agrees : ∀ e, (s.scheduler.stage e).Agrees (s.scheduler.locks.control e)
  counted : s.scheduler.IsCounted
  represents : ∃ queue, s.scheduler.schedule.Represents queue
  sleeps : ∀ e, s.asleep e = true → s.scheduler.stage e = .waiting
  attended : Attended s.asleep fun e => s.scheduler.stage e ≠ .exited

theorem Invariant.scheduled (invariant : Invariant policy s)
    {event : ScheduleEvent executors c.graph} {scheduler : InstanceSchedule executors c.graph}
    (taken : s.scheduler.after event = some scheduler) :
    (∀ e, (scheduler.stage e).Agrees (scheduler.locks.control e)) ∧ scheduler.IsCounted ∧
      ∃ queue, scheduler.schedule.Represents queue := by
  have move := InstanceSchedule.move_of_after taken
  refine ⟨?_, invariant.counted.move move, ?_⟩
  · intro e
    rcases InstanceSchedule.exists_moves_of_after taken with ⟨place, lockEvent, moves⟩
    by_cases isOther : event.executor = e
    · rw [← isOther, moves.stage_self]
      exact moves.agrees (invariant.agrees event.executor)
    · rw [moves.stage_other isOther, moves.control_other isOther]
      exact invariant.agrees e
  · rcases invariant.represents with ⟨queue, represents⟩
    rcases move.exists_changed represents with ⟨changed, _, represents⟩
    exact ⟨changed, represents⟩

theorem Invariant.sleeps_of_after (invariant : Invariant policy s)
    {event : ScheduleEvent executors c.graph} {scheduler : InstanceSchedule executors c.graph}
    (taken : s.scheduler.after event = some scheduler)
    (isAwake : s.asleep event.executor = false) {f : Fin executors} (isAsleep : s.asleep f = true) :
    scheduler.stage f = .waiting := by
  rcases InstanceSchedule.exists_moves_of_after taken with ⟨place, lockEvent, moves⟩
  have isOther : event.executor ≠ f := by
    intro same
    rw [same, isAsleep] at isAwake
    cases isAwake
  rw [moves.stage_other isOther]
  exact invariant.sleeps f isAsleep

theorem alive_of_after {s next : InstanceSchedule executors c.graph}
    {event : ScheduleEvent executors c.graph} (taken : s.after event = some next)
    (notExit : event ≠ .exit event.executor)
    (agrees : ∀ e, (s.stage e).Agrees (s.locks.control e)) :
    next.stage event.executor ≠ .exited := by
  rcases InstanceSchedule.exists_moves_of_after taken with ⟨place, lockEvent, moves⟩
  have agreed := agrees event.executor
  rw [moves.stage_self]
  rcases moves with ⟨goes, _, locks⟩
  generalize s.stage event.executor = here at goes agreed
  generalize isControl : s.locks.control event.executor = control at goes agreed
  cases goes with
  | exit e => exact absurd rfl notExit
  | lock e =>
      rcases RwlockState.control_of_lock locks with ⟨job, ⟨pos, isLocking⟩, _⟩
      rintro rfl
      rw [← isControl, show s.locks.control (ScheduleEvent.lock e).executor = _ from isLocking]
        at agreed
      cases agreed
  | unlock e =>
      rcases RwlockState.control_of_unlock locks with ⟨⟨job, pos, isUnlocking⟩, _⟩
      rintro rfl
      rw [← isControl, show s.locks.control (ScheduleEvent.unlock e).executor = _ from isUnlocking]
        at agreed
      cases agreed
  | _ => simp

theorem Invariant.locks_of_after (invariant : Invariant policy s)
    {event : ScheduleEvent executors c.graph} {scheduler : InstanceSchedule executors c.graph}
    (taken : s.scheduler.after event = some scheduler)
    (notCalling : event = .lock event.executor →
      ∀ entry mode, ¬s.AtEntry event.executor entry mode) :
    RwlockQueues.Reachable policy (Job.set c.memo) ⟨scheduler.locks, s.queues⟩ := by
  rcases InstanceSchedule.exists_moves_of_after taken with ⟨place, lockEvent, moves⟩
  have reachable := invariant.locks
  have locks := moves.locks
  cases lockEvent with
  | none =>
      have same : scheduler.locks = s.scheduler.locks := locks
      rw [same]
      exact reachable
  | some lockEvent =>
      refine reachable.step (.other ?_ locks)
      intro entry mode isLock
      have isEvent := moves.goes.calls (congrArg some isLock)
      have same := moves.goes.acts lockEvent rfl
      rw [same] at isEvent ⊢
      exact notCalling isEvent entry mode

theorem Advance.invariant (advance : Advance policy s e next) (invariant : Invariant policy s) :
    Invariant policy next := by
  cases advance with
  | call isAwake atEntry absent parts =>
      exact
        { invariant with locks := invariant.locks.step (.call atEntry absent parts) }
  | acquire isAwake atEntry waits notRefused scheduled =>
      rcases invariant.scheduled scheduled with ⟨agrees, counted, represents⟩
      have locks := InstanceSchedule.locks_of_locksAfter scheduled
      refine ⟨invariant.locks.step (.acquire atEntry waits notRefused locks), agrees, counted,
        represents, fun f => invariant.sleeps_of_after scheduled isAwake, ?_⟩
      exact attended_of_awake isAwake (alive_of_after scheduled (by simp) invariant.agrees)
  | @other event scheduler asleep isAwake notCalling scheduled signals =>
      rcases invariant.scheduled scheduled with ⟨agrees, counted, represents⟩
      have onlyWakes : ∀ f, asleep f = true → s.asleep f = true := by
        split at signals
        · exact signals.onlyWakes
        · rw [signals]
          exact fun _ => id
      have sleeps : ∀ f, s.asleep f = true → scheduler.stage f = .waiting :=
        fun f => invariant.sleeps_of_after scheduled isAwake
      refine ⟨invariant.locks_of_after scheduled notCalling, agrees, counted, represents,
        fun f isAsleep => sleeps f (onlyWakes f isAsleep), ?_⟩
      by_cases isExit : event = .exit event.executor
      · have isSignal : event.signals = true := by
          rw [isExit]
          rfl
        rw [if_pos isSignal] at signals
        apply signals.attended
        intro f isAsleep
        rw [sleeps f isAsleep]
        exact nofun
      · have isAlive := alive_of_after scheduled isExit invariant.agrees
        refine attended_of_awake (f := event.executor) ?_ isAlive
        cases isAsleep : asleep event.executor with
        | false => exact isAsleep
        | true => simp [onlyWakes _ isAsleep] at isAwake

theorem Nap.invariant (nap : Nap s e next) (invariant : Invariant policy s) :
    Invariant policy next := by
  cases nap with
  | sleep isAwake isWaiting isEmpty othersWork =>
      refine { invariant with sleeps := ?_, attended := ?_ }
      · intro f isAsleep
        by_cases same : f = e
        · rw [same]
          exact isWaiting
        · change Function.update s.asleep e true f = true at isAsleep
          rw [Function.update_of_ne same] at isAsleep
          exact invariant.sleeps f isAsleep
      · rcases invariant.counted.exists_working othersWork with ⟨f, isWorking⟩
        have different : f ≠ e := by
          rintro rfl
          rw [isWaiting] at isWorking
          cases isWorking
        refine attended_of_awake (f := f) ?_ ?_
        · show Function.update s.asleep e true f = false
          rw [Function.update_of_ne different]
          cases isAsleep : s.asleep f with
          | false => rfl
          | true =>
              rw [invariant.sleeps f isAsleep] at isWorking
              cases isWorking
        · intro isExited
          rw [isExited] at isWorking
          cases isWorking
  | wake isAsleep =>
      refine { invariant with sleeps := ?_, attended := ?_ }
      · intro f isStillAsleep
        change Function.update s.asleep e false f = true at isStillAsleep
        by_cases same : f = e
        · rw [same, Function.update_self] at isStillAsleep
          cases isStillAsleep
        · rw [Function.update_of_ne same] at isStillAsleep
          exact invariant.sleeps f isStillAsleep
      · refine attended_of_awake (f := e) (Function.update_self e false s.asleep) ?_
        rw [invariant.sleeps e isAsleep]
        exact nofun

theorem Step.invariant (step : Step policy s e next) (invariant : Invariant policy s) :
    Invariant policy next :=
  step.elim (fun advance => advance.invariant invariant) fun nap => nap.invariant invariant

theorem Reachable.invariant (reachable : Reachable policy s) : Invariant policy s := by
  induction reachable with
  | initial =>
      rcases InstanceSchedule.exists_sound_initial executors c with ⟨queue, sound⟩
      exact ⟨.initial, fun _ => rfl, sound.counted, ⟨queue, sound.represents⟩, fun _ => nofun,
        fun _ => nofun⟩
  | step _ step inductionHypothesis => exact step.invariant inductionHypothesis

/-! ## Progress -/

theorem advance_of_after (invariant : Invariant policy s)
    (isWorking : (s.scheduler.stage e).isWorking = true) {event : ScheduleEvent executors c.graph}
    {scheduler : InstanceSchedule executors c.graph}
    (scheduled : s.scheduler.after event = some scheduler) (isOwn : event.executor = e)
    (notCalling : event ≠ .lock e) : ∃ next, Advance policy s e next := by
  have isAwake : s.asleep e = false := by
    cases isAsleep : s.asleep e with
    | false => rfl
    | true =>
        rw [invariant.sleeps e isAsleep] at isWorking
        cases isWorking
  subst isOwn
  have signals : ∃ asleep : Fin executors → Bool,
      if event.signals then Signalled s.asleep asleep else asleep = s.asleep := by
    split
    · exact exists_signalled s.asleep
    · exact ⟨s.asleep, rfl⟩
  rcases signals with ⟨asleep, signals⟩
  exact ⟨_, .other isAwake (fun isLock => absurd isLock notCalling) scheduled signals⟩

/-- The loop of `lock` goes on where it is not blocked. -/
theorem exists_advance_of_locking (invariant : Invariant policy s) {job : Job c.graph} {pos : Nat}
    (isLocking : s.scheduler.locks.control e = .locking job pos)
    (notBlocked : ¬RwlockQueues.Blocked policy (Job.set c.memo) s.locks e) :
    ∃ next, Advance policy s e next := by
  have isAwake : s.asleep e = false := by
    cases isAsleep : s.asleep e with
    | false => rfl
    | true =>
        have agreed := invariant.agrees e
        rw [invariant.sleeps e isAsleep, isLocking] at agreed
        cases agreed
  have isBusy : s.locks.base.control e ≠ .idle := by
    rw [locks, isLocking]
    exact nofun
  rcases (RwlockQueues.canGoOn_of_not_blocked invariant.locks.invariant isBusy notBlocked).2.2 with
    ⟨after, step⟩
  have scheduled : ∀ {base}, RwlockState.next (Job.set c.memo) s.scheduler.locks (.lock e) =
      some base → s.scheduler.after (.lock e) = some { s.scheduler with locks := base } := by
    intro base step
    rw [InstanceSchedule.after, InstanceSchedule.locksAfter, step, Option.map_some]
  generalize isSame : s.locks = here at step
  cases step with
  | call atEntry absent parts =>
      rw [← isSame] at atEntry absent parts
      exact ⟨_, .call isAwake atEntry absent parts⟩
  | acquire atEntry waits notRefused step =>
      rw [← isSame] at atEntry waits notRefused step
      exact ⟨_, .acquire isAwake atEntry waits notRefused (scheduled step)⟩
  | @other event base notAtEntry step =>
      rw [← isSame] at notAtEntry step
      have isLock : event = .lock (RwlockQueues.executor event) := by
        cases event with
        | lock e => rfl
        | start e job =>
            have isBusy : s.scheduler.locks.control e = _ := isLocking
            simp [RwlockState.next, locks, isBusy] at step
        | execute e =>
            have isBusy : s.scheduler.locks.control e = _ := isLocking
            simp [RwlockState.next, locks, isBusy] at step
        | unlock e =>
            have isBusy : s.scheduler.locks.control e = _ := isLocking
            simp [RwlockState.next, locks, isBusy] at step
      rw [isLock] at step
      refine ⟨_, @Advance.other _ _ _ _ (.lock (RwlockQueues.executor event)) _ s.asleep isAwake ?_
        (scheduled step) rfl⟩
      exact fun _ entry mode => notAtEntry entry mode isLock

theorem after_unlock {job : Job c.graph} {pos : Nat} {s : InstanceSchedule executors c.graph}
    (isUnlocking : s.locks.control e = .unlocking job pos) :
    ∃ next, s.after (.unlock e) = some next := by
  simp only [InstanceSchedule.after, InstanceSchedule.locksAfter, RwlockState.next, isUnlocking]
  split
  · exact ⟨_, rfl⟩
  · split
    · exact ⟨_, rfl⟩
    · exact ⟨_, rfl⟩

/-- An executor that works and is not blocked goes on. -/
theorem exists_advance_of_working (invariant : Invariant policy s)
    (isWorking : (s.scheduler.stage e).isWorking = true)
    (notBlocked : ¬RwlockQueues.Blocked policy (Job.set c.memo) s.locks e) :
    ∃ next, Advance policy s e next := by
  have agreed := invariant.agrees e
  cases isStage : s.scheduler.stage e with
  | waiting =>
      rw [isStage] at isWorking
      cases isWorking
  | exited =>
      rw [isStage] at isWorking
      cases isWorking
  | trying inst rest =>
      rw [isStage] at agreed
      rcases agreed with isIdle | ⟨job, pos, isUnlocking⟩
      · have starts : ∃ next, s.scheduler.after (.start e) = some next := by
          cases rest <;>
            simp [InstanceSchedule.after, InstanceSchedule.locksAfter, InstanceSchedule.goesTo,
              RwlockState.next, isStage, isIdle]
        rcases starts with ⟨next, scheduled⟩
        exact advance_of_after invariant isWorking scheduled rfl (by simp)
      · rcases after_unlock isUnlocking with ⟨next, scheduled⟩
        exact advance_of_after invariant isWorking scheduled rfl (by simp)
  | attempting inst a rest =>
      rw [isStage] at agreed
      rcases agreed with ⟨pos, isLocking⟩ | isExecuting
      · exact exists_advance_of_locking invariant isLocking notBlocked
      · have refuses : ∃ next, s.scheduler.after (.evaluate e a none) = some next := by
          simp [InstanceSchedule.after, InstanceSchedule.locksAfter, InstanceSchedule.goesTo,
            RwlockState.next, isStage, isExecuting]
        rcases refuses with ⟨next, scheduled⟩
        exact advance_of_after invariant isWorking scheduled rfl (by simp)
  | performing inst rest targets bodies =>
      rw [isStage] at agreed
      rcases agreed with ⟨job, isExecuting⟩
      cases targets with
      | cons target targets =>
          have pushes : ∃ next, s.scheduler.after (.push e target) = some next := by
            simp [InstanceSchedule.after, isStage]
          rcases pushes with ⟨next, scheduled⟩
          exact advance_of_after invariant isWorking scheduled rfl (by simp)
      | nil =>
          cases bodies with
          | cons body bodies =>
              have performs : ∃ next, s.scheduler.after (.perform e body) = some next := by
                simp [InstanceSchedule.after, isStage]
              rcases performs with ⟨next, scheduled⟩
              exact advance_of_after invariant isWorking scheduled rfl (by simp)
          | nil =>
              have finishes : ∃ next, s.scheduler.after (.finish e) = some next := by
                simp [InstanceSchedule.after, InstanceSchedule.locksAfter,
                  InstanceSchedule.goesTo, RwlockState.next, isStage, isExecuting]
              rcases finishes with ⟨next, scheduled⟩
              exact advance_of_after invariant isWorking scheduled rfl (by simp)
  | collecting inst =>
      rw [isStage] at agreed
      rcases agreed with ⟨pos, isLocking⟩ | isExecuting
      · exact exists_advance_of_locking invariant isLocking notBlocked
      · have finishes : ∃ next, s.scheduler.after (.finish e) = some next := by
          simp [InstanceSchedule.after, InstanceSchedule.locksAfter, InstanceSchedule.goesTo,
            RwlockState.next, isStage, isExecuting]
        rcases finishes with ⟨next, scheduled⟩
        exact advance_of_after invariant isWorking scheduled rfl (by simp)
  | leaving =>
      rw [isStage] at agreed
      rcases agreed with isIdle | ⟨job, pos, isUnlocking⟩
      · have releases : ∃ next, s.scheduler.after (.release e) = some next := by
          simp [InstanceSchedule.after, isStage, isIdle]
        rcases releases with ⟨next, scheduled⟩
        exact advance_of_after invariant isWorking scheduled rfl (by simp)
      · rcases after_unlock isUnlocking with ⟨next, scheduled⟩
        exact advance_of_after invariant isWorking scheduled rfl (by simp)

theorem exists_advance_of_waiting (invariant : Invariant policy s)
    (isAwake : s.asleep e = false) (isWaiting : s.scheduler.stage e = .waiting)
    (nobodyWorks : s.scheduler.pending = 0) : ∃ next, Advance policy s e next := by
  rcases invariant.represents with ⟨queue, represents⟩
  cases queue with
  | nil =>
      have isEmpty := represents.head_eq_null_iff.mpr rfl
      rcases exists_signalled s.asleep with ⟨asleep, signalled⟩
      have scheduled : s.scheduler.after (.exit e) = some (s.scheduler.goesTo e .exited) :=
        if_pos ⟨isWaiting, isEmpty, nobodyWorks⟩
      exact ⟨_, @Advance.other _ _ _ _ (.exit e) _ asleep isAwake (by simp) scheduled signalled⟩
  | cons inst queue =>
      have isHead := represents.head_eq_item
      have scheduled : ∃ next, s.scheduler.after (.take e inst) = some next := by
        simp [InstanceSchedule.after, isWaiting, isHead]
      rcases scheduled with ⟨next, scheduled⟩
      exact ⟨_, @Advance.other _ _ _ _ (.take e inst) _ s.asleep isAwake (by simp) scheduled rfl⟩

/-- The instance scheduler does not deadlock: until all executors have exited, some executor
is awake and goes on, whatever the locks of the instances prefer and whoever is woken. -/
theorem exists_advance (reachable : Reachable policy s) (notExited : s.scheduler.stage e ≠ .exited) :
    ∃ f next, Advance policy s f next := by
  have invariant := reachable.invariant
  by_cases works : ∃ f, (s.scheduler.stage f).isWorking = true
  · rcases works with ⟨f, isWorking⟩
    by_cases blocked : RwlockQueues.Blocked policy (Job.set c.memo) s.locks f
    · rcases invariant.locks.canGoOn blocked with ⟨g, isBusy, notBlocked, _⟩
      have isWorkingToo : (s.scheduler.stage g).isWorking = true := by
        have agreed := invariant.agrees g
        cases isStage : s.scheduler.stage g with
        | waiting =>
            rw [isStage] at agreed
            exact absurd agreed isBusy
        | exited =>
            rw [isStage] at agreed
            exact absurd agreed isBusy
        | _ => rfl
      exact ⟨g, exists_advance_of_working invariant isWorkingToo notBlocked⟩
    · exact ⟨f, exists_advance_of_working invariant isWorking blocked⟩
  · have nobodyWorks : s.scheduler.pending = 0 := by
      rw [invariant.counted, countMarked_eq_zero]
      exact fun f _ isWorking => works ⟨f, isWorking⟩
    have isWaiting : ∀ f, s.scheduler.stage f ≠ .exited → s.scheduler.stage f = .waiting := by
      intro f isAlive
      cases isStage : s.scheduler.stage f with
      | waiting => rfl
      | exited => exact absurd isStage isAlive
      | _ => exact absurd ⟨f, by rw [isStage]; rfl⟩ works
    cases isAsleep : s.asleep e with
    | false => exact ⟨e, exists_advance_of_waiting invariant isAsleep (isWaiting e notExited) nobodyWorks⟩
    | true =>
        rcases invariant.attended e isAsleep with ⟨f, isAwake, isAlive⟩
        exact ⟨f, exists_advance_of_waiting invariant isAwake (isWaiting f isAlive) nobodyWorks⟩

/-- A component without actions. -/
def passive : Graph where
  size := 0
  kind n := n.elim0
  outgoing n := n.elim0
  preconditionNodes n := n.elim0
  actions := []
  wellKinded := nofun
  actionsComplete := nofun

theorem passive_accepted : ∃ memo, passive.analyze 0 = .ok memo := by
  have isOk : (passive.analyze 0).satisfies (fun _ => true) = true := by decide
  rcases Outcome.satisfies_iff.mp isOk with ⟨memo, run, _⟩
  exact ⟨memo, run⟩

def lonely : Composed where
  graph := passive
  instances := [16]
  depth := 0
  accepted := passive_accepted
  owned := nofun
  activates := nofun

/-- While the component is collected the second executor sleeps. -/
theorem exists_advance_lonely : ∃ s : ExecutorPool 2 lonely,
    s.asleep 1 = true ∧ ∃ f next, Advance (RwlockQueues.holdersOnly (Fin 2)) s f next := by
  have taken := @Reachable.step 2 lonely (RwlockQueues.holdersOnly (Fin 2)) _ _ _ .initial
    (.inl (@Advance.other _ _ _ _ (.take 0 16) _ _ rfl nofun rfl rfl))
  have sleeps := taken.step (.inr (@Nap.sleep _ _ _ 1 rfl rfl rfl nofun))
  exact ⟨_, rfl, exists_advance sleeps (e := 0) nofun⟩

/-! ## The end of a run -/

/-- How many steps an executor has left on an idle schedule. -/
def stepsLeft (s : ExecutorPool executors c) (e : Fin executors) : Nat :=
  if s.scheduler.stage e = .exited then 0 else if s.asleep e then 2 else 1

theorem stepsLeft_le (s : ExecutorPool executors c) (e : Fin executors) : s.stepsLeft e ≤ 2 := by
  unfold stepsLeft
  split
  · exact Nat.zero_le 2
  · split
    · exact Nat.le_refl 2
    · exact Nat.le_succ 1

theorem stepsLeft_mono {f : Fin executors} (stage : next.scheduler.stage f = s.scheduler.stage f)
    (onlyWakes : next.asleep f = true → s.asleep f = true) : next.stepsLeft f ≤ s.stepsLeft f := by
  unfold stepsLeft
  rw [stage]
  by_cases isExited : s.scheduler.stage f = .exited
  · rw [if_pos isExited, if_pos isExited]
  · rw [if_neg isExited, if_neg isExited]
    cases isNext : next.asleep f with
    | true => rw [onlyWakes isNext]
    | false =>
        cases s.asleep f with
        | true => exact Nat.le_succ 1
        | false => exact Nat.le_refl 1

theorem Invariant.waiting_or_exited (invariant : Invariant policy s)
    (isIdle : s.scheduler.IsIdle) (e : Fin executors) :
    s.scheduler.stage e = .waiting ∨ s.scheduler.stage e = .exited := by
  have notWorking : ¬(s.scheduler.stage e).isWorking = true :=
    fun isWorking => absurd isIdle.2 (Nat.ne_of_gt (invariant.counted.pos isWorking))
  cases isStage : s.scheduler.stage e with
  | waiting => exact Or.inl rfl
  | exited => exact Or.inr rfl
  | _ =>
      rw [isStage] at notWorking
      exact absurd rfl notWorking

theorem Invariant.control_of_isIdle (invariant : Invariant policy s)
    (isIdle : s.scheduler.IsIdle) (e : Fin executors) : s.scheduler.locks.control e = .idle := by
  have agreed := invariant.agrees e
  rcases invariant.waiting_or_exited isIdle e with isWaiting | isExited
  · rw [isWaiting] at agreed
    exact agreed
  · rw [isExited] at agreed
    exact agreed

theorem Step.of_isIdle (step : Step policy s e next) (invariant : Invariant policy s)
    (isIdle : s.scheduler.IsIdle) :
    (s.asleep e = true ∧ next = { s with asleep := Function.update s.asleep e false }) ∨
      (s.scheduler.stage e = .waiting ∧ s.asleep e = false ∧
        Signalled s.asleep next.asleep ∧
        next.scheduler.stage = Function.update s.scheduler.stage e .exited) := by
  have notLocking : ∀ entry mode, ¬s.AtEntry e entry mode := by
    rintro entry mode ⟨job, pos, isLocking, _⟩
    rw [invariant.control_of_isIdle isIdle e] at isLocking
    cases isLocking
  rcases step with advance | nap
  · right
    cases advance with
    | call _ atEntry => exact absurd atEntry (notLocking _ _)
    | acquire _ atEntry => exact absurd atEntry (notLocking _ _)
    | @other event scheduler asleep isAwake _ scheduled signals =>
        rcases InstanceSchedule.exists_moves_of_after scheduled with
          ⟨place, lockEvent, goes, stage, locks⟩
        have isFree := invariant.control_of_isIdle isIdle event.executor
        have isDone := invariant.waiting_or_exited isIdle event.executor
        generalize s.scheduler.stage event.executor = here at goes isDone ⊢
        generalize s.scheduler.locks.control event.executor = control at goes
        cases goes with
        | exit f => exact ⟨rfl, isAwake, signals, stage⟩
        | take f inst =>
            rw [InstanceSchedule.after, Option.ite_none_right_eq_some, isIdle.1] at scheduled
            simp at scheduled
        | lock f =>
            rcases RwlockState.control_of_lock locks with ⟨job, ⟨pos, isLocking⟩, _⟩
            cases isFree.symm.trans isLocking
        | unlock f =>
            rcases RwlockState.control_of_unlock locks with ⟨⟨job, pos, isUnlocking⟩, _⟩
            cases isFree.symm.trans isUnlocking
        | _ => exact absurd isDone (by simp)
  · left
    cases nap with
    | sleep _ _ _ othersWork => exact absurd isIdle.2 othersWork
    | wake isAsleep => exact ⟨isAsleep, rfl⟩

theorem Step.isIdle (step : Step policy s e next) (invariant : Invariant policy s)
    (isIdle : s.scheduler.IsIdle) : next.scheduler.IsIdle := by
  rcases step with advance | nap
  · cases advance with
    | call => exact isIdle
    | acquire _ _ _ _ scheduled =>
        exact isIdle.move (InstanceSchedule.move_of_after scheduled) invariant.counted
    | other _ _ scheduled _ =>
        exact isIdle.move (InstanceSchedule.move_of_after scheduled) invariant.counted
  · cases nap with
    | sleep => exact isIdle
    | wake => exact isIdle

theorem Step.stepsLeft_lt (step : Step policy s e next) (invariant : Invariant policy s)
    (isIdle : s.scheduler.IsIdle) : next.stepsLeft e < s.stepsLeft e := by
  rcases step.of_isIdle invariant isIdle with ⟨isAsleep, rfl⟩ | ⟨isWaiting, isAwake, _, stage⟩
  · have isWaiting := invariant.sleeps e isAsleep
    simp [stepsLeft, isWaiting, isAsleep]
  · simp [stepsLeft, stage, isWaiting, isAwake]

theorem Step.stepsLeft_le_of_ne {f : Fin executors} (step : Step policy s e next)
    (invariant : Invariant policy s) (isIdle : s.scheduler.IsIdle) (other : f ≠ e) :
    next.stepsLeft f ≤ s.stepsLeft f := by
  rcases step.of_isIdle invariant isIdle with ⟨_, rfl⟩ | ⟨_, _, signals, stage⟩
  · refine stepsLeft_mono rfl ?_
    show Function.update s.asleep e false f = true → s.asleep f = true
    rw [Function.update_of_ne other]
    exact id
  · refine stepsLeft_mono ?_ (signals.onlyWakes f)
    rw [stage, Function.update_of_ne other]

/-- The executors stop together: when the schedule is empty and nobody is running, at most
two more steps of each executor follow, whoever is woken, and no executor is left behind. -/
theorem exits_of_isIdle (reachable : Reachable policy s) (isIdle : s.scheduler.IsIdle)
    {transitions : List (Transition (ExecutorPool executors c) (Fin executors))}
    {finish : ExecutorPool executors c} (run : Trace (Step policy) s transitions finish) :
    (∀ f, (transitions.countP fun transition => transition.event = f) ≤ 2) ∧
      ((∀ f next, ¬Advance policy finish f next) → ∀ f, finish.scheduler.stage f = .exited) := by
  have counts : ∀ f, (Reachable policy finish ∧ finish.scheduler.IsIdle) ∧
      (transitions.countP fun transition => transition.event = f) + finish.stepsLeft f ≤
        s.stepsLeft f := by
    intro f
    apply run.countP_add_le (fun s => Reachable policy s ∧ s.scheduler.IsIdle)
      (fun s => s.stepsLeft f) (fun e => decide (e = f))
    · exact fun _ _ _ isIdle step =>
        ⟨isIdle.1.step step, step.isIdle isIdle.1.invariant isIdle.2⟩
    · intro before e after isIdle step
      by_cases same : f = e
      · subst same
        exact Nat.le_of_lt (step.stepsLeft_lt isIdle.1.invariant isIdle.2)
      · exact step.stepsLeft_le_of_ne isIdle.1.invariant isIdle.2 same
    · intro before e after isIdle step isCounted
      rw [← of_decide_eq_true isCounted]
      exact step.stepsLeft_lt isIdle.1.invariant isIdle.2
    · exact ⟨reachable, isIdle⟩
  constructor
  · intro f
    have isBounded := s.stepsLeft_le f
    have isShort := (counts f).2
    omega
  · intro stuck f
    by_contra notExited
    rcases exists_advance (counts f).1.1 notExited with ⟨g, next, advance⟩
    exact stuck g next advance

/-- The executor that has collected the garbage wakes the other one, and both exit. -/
theorem exits_of_isIdle_lonely : ∃ (s finish : ExecutorPool 2 lonely)
    (transitions : List (Transition (ExecutorPool 2 lonely) (Fin 2))),
    s.scheduler.IsIdle ∧
      Trace (Step (RwlockQueues.holdersOnly (Fin 2))) s transitions finish ∧
      transitions ≠ [] ∧ ∀ f, (transitions.countP fun transition => transition.event = f) ≤ 2 := by
  have taken := @Reachable.step 2 lonely (RwlockQueues.holdersOnly (Fin 2)) _ _ _ .initial
    (.inl (@Advance.other _ _ _ _ (.take 0 16) _ _ rfl nofun rfl rfl))
  have sleeps := taken.step (.inr (@Nap.sleep _ _ _ 1 rfl rfl rfl nofun))
  have starts := sleeps.step (.inl (@Advance.other _ _ _ _ (.start 0) _ _ rfl nofun rfl rfl))
  have called := starts.step (.inl (@Advance.call _ _ _ _ 0 (16, .accessWrite) .write [] [] rfl
    ⟨.collectGarbage 16, 0, rfl, rfl, rfl⟩ (fun _ => List.not_mem_nil) rfl))
  have acquired := called.step (.inl (@Advance.acquire _ _ _ _ 0 (16, .accessWrite) .write _ rfl
    ⟨.collectGarbage 16, 0, rfl, rfl, rfl⟩ List.mem_cons_self
    (fun refused => Option.some_ne_none _ refused) rfl))
  have locked := acquired.step (.inl (@Advance.other _ _ _ _ (.lock 0) _ _ rfl
    (fun _ _ _ ⟨_, _, isLocking, found, _⟩ => by cases isLocking; cases found) rfl rfl))
  have finished := locked.step (.inl (@Advance.other _ _ _ _ (.finish 0) _ _ rfl nofun rfl rfl))
  have unlocked := finished.step (.inl (@Advance.other _ _ _ _ (.unlock 0) _ _ rfl nofun rfl rfl))
  have isFree := unlocked.step (.inl (@Advance.other _ _ _ _ (.unlock 0) _ _ rfl nofun rfl rfl))
  have released := isFree.step (.inl (@Advance.other _ _ _ _ (.release 0) _ (fun _ => false) rfl
    nofun rfl (Signalled.mk (fun _ => nofun) fun _ _ => ⟨1, rfl, rfl⟩)))
  rcases exists_advance_of_waiting released.invariant (e := 0) rfl rfl rfl with ⟨finish, exits⟩
  have exits : Step (RwlockQueues.holdersOnly (Fin 2)) _ 0 finish := .inl exits
  have run := Trace.cons exits (.nil finish)
  exact ⟨_, finish, _, ⟨rfl, rfl⟩, run, List.cons_ne_nil _ _,
    (exits_of_isIdle released ⟨rfl, rfl⟩ run).1⟩

end ExecutorPool

end Rcgo.Scheduler
