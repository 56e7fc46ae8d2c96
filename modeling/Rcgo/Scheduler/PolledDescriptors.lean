import Mathlib.Data.BitVec
import Rcgo.Foundation.OrderedMap
import Rcgo.Scheduler.ExecutorStages

/-!
# The descriptors of an executor that polls

An executor that has found all its preconditions false polls the file descriptors
that the preconditions have asked for.  The list of an executor holds the calls of
`checked_for_readability` and `checked_for_writability` since the map was cleared.
-/

namespace Rcgo.Scheduler

open Rcgo.Foundation

/-! ## The map -/

/-- `events` and `revents` of `struct pollfd`. -/
abbrev PollEvents := BitVec 16

/-- `POLLIN`. -/
def pollIn : PollEvents := 0x001

/-- `POLLOUT`. -/
def pollOut : PollEvents := 0x004

/-- A call with the address of a descriptor. -/
inductive DescriptorCheck where
  | readability (fd : Nat)
  | writability (fd : Nat)
  deriving DecidableEq

namespace DescriptorCheck

def descriptor : DescriptorCheck → Nat
  | .readability fd => fd
  | .writability fd => fd

def events : DescriptorCheck → PollEvents
  | .readability _ => pollIn
  | .writability _ => pollOut

end DescriptorCheck

/-- The map of an executor by the addresses of the descriptors. -/
abbrev FileDescriptorMap := OrderedMap Nat PollEvents

namespace FileDescriptorMap

/-- The entry is inserted unless there is one, and gets the events besides those it has. -/
def add (map : FileDescriptorMap) (fd : Nat) (events : PollEvents) : FileDescriptorMap :=
  map.insert fd ((map.find fd).getD 0 ||| events)

/-- `checked_for_readability` and `checked_for_writability`, while the executor tracks. -/
def check (map : FileDescriptorMap) : DescriptorCheck → FileDescriptorMap
  | .readability fd => map.add fd pollIn
  | .writability fd => map.add fd pollOut

def ofChecks (checks : List DescriptorCheck) : FileDescriptorMap :=
  checks.foldl check OrderedMap.empty

def eventsFor (checks : List DescriptorCheck) (fd : Nat) : PollEvents :=
  (if .readability fd ∈ checks then pollIn else 0) |||
    if .writability fd ∈ checks then pollOut else 0

theorem find_ofChecks (checks : List DescriptorCheck) (fd : Nat) :
    (ofChecks checks).find fd =
      if .readability fd ∈ checks ∨ .writability fd ∈ checks then some (eventsFor checks fd)
      else none := by
  induction checks using List.reverseRecOn with
  | nil => rfl
  | append_singleton checks last inductionHypothesis =>
      rw [ofChecks, List.foldl_append, List.foldl_cons, List.foldl_nil]
      change ((ofChecks checks).check last).find fd = _
      cases last with
      | readability other =>
          rw [check, add, OrderedMap.find_insert]
          by_cases isOther : fd = other
          · rw [if_pos isOther, ← isOther, inductionHypothesis]
            by_cases isRead : DescriptorCheck.readability fd ∈ checks <;>
              by_cases isWritten : DescriptorCheck.writability fd ∈ checks <;>
              simp [eventsFor, isRead, isWritten, pollIn, pollOut]
          · simp [isOther, inductionHypothesis, eventsFor]
      | writability other =>
          rw [check, add, OrderedMap.find_insert]
          by_cases isOther : fd = other
          · rw [if_pos isOther, ← isOther, inductionHypothesis]
            by_cases isRead : DescriptorCheck.readability fd ∈ checks <;>
              by_cases isWritten : DescriptorCheck.writability fd ∈ checks <;>
              simp [eventsFor, isRead, isWritten, pollIn, pollOut]
          · simp [isOther, inductionHypothesis, eventsFor]

theorem events_le_eventsFor {checks : List DescriptorCheck} {call : DescriptorCheck}
    (isCall : call ∈ checks) :
    eventsFor checks call.descriptor &&& call.events = call.events := by
  cases call with
  | readability fd =>
      rw [DescriptorCheck.descriptor, DescriptorCheck.events, eventsFor, if_pos isCall]
      by_cases isWritten : DescriptorCheck.writability fd ∈ checks <;>
        simp [isWritten, pollIn, pollOut]
  | writability fd =>
      rw [DescriptorCheck.descriptor, DescriptorCheck.events, eventsFor, if_pos isCall]
      by_cases isRead : DescriptorCheck.readability fd ∈ checks <;>
        simp [isRead, pollIn, pollOut]

theorem eventsFor_congr {checks others : List DescriptorCheck}
    (same : ∀ call, call ∈ checks ↔ call ∈ others) (fd : Nat) :
    eventsFor checks fd = eventsFor others fd := by
  simp only [eventsFor, same]

theorem mem_ofChecks {checks : List DescriptorCheck} {fd : Nat} {events : PollEvents} :
    (fd, events) ∈ (ofChecks checks).entries ↔
      (∃ call ∈ checks, call.descriptor = fd) ∧ events = eventsFor checks fd := by
  have isFound : (fd, events) ∈ (ofChecks checks).entries ↔
      (ofChecks checks).find fd = some events :=
    ⟨OrderedMap.find_eq_some, OrderedMap.mem_of_find_eq_some⟩
  have isCalled : (∃ call ∈ checks, call.descriptor = fd) ↔
      .readability fd ∈ checks ∨ .writability fd ∈ checks := by
    constructor
    · rintro ⟨call, isCall, isDescriptor⟩
      cases call with
      | readability other => exact Or.inl (isDescriptor ▸ isCall)
      | writability other => exact Or.inr (isDescriptor ▸ isCall)
    · rintro (isRead | isWritten)
      · exact ⟨_, isRead, rfl⟩
      · exact ⟨_, isWritten, rfl⟩
  rw [isFound, find_ofChecks, isCalled]
  by_cases isChecked : .readability fd ∈ checks ∨ .writability fd ∈ checks
  · rw [if_pos isChecked, Option.some_inj, eq_comm]
    exact (and_iff_right isChecked).symm
  · rw [if_neg isChecked]
    simp [isChecked]

/-- The descriptors of the map, in the order of their addresses. -/
def descriptors (map : FileDescriptorMap) : List Nat :=
  map.entries.map Prod.fst

theorem mem_descriptors {checks : List DescriptorCheck} {fd : Nat} :
    fd ∈ (ofChecks checks).descriptors ↔ ∃ call ∈ checks, call.descriptor = fd := by
  rw [descriptors, List.mem_map]
  constructor
  · rintro ⟨⟨_, events⟩, isEntry, rfl⟩
    exact (mem_ofChecks.mp isEntry).1
  · intro isCalled
    exact ⟨(fd, _), mem_ofChecks.mpr ⟨isCalled, rfl⟩, rfl⟩

theorem entries_ofChecks (checks : List DescriptorCheck) :
    (ofChecks checks).entries =
      (ofChecks checks).descriptors.map fun fd => (fd, eventsFor checks fd) := by
  rw [descriptors, List.map_map]
  refine (List.map_id _).symm.trans (List.map_congr_left ?_)
  rintro ⟨fd, events⟩ isEntry
  rw [(mem_ofChecks.mp isEntry).2]
  rfl

end FileDescriptorMap

/-! ## `poll` -/

/-- `struct pollfd` without `revents`. -/
structure PollFd where
  fd : Int
  events : PollEvents
  deriving DecidableEq

/-- The list that `poll` makes, where the descriptors at the addresses are known. -/
def pollList (eventfd : Int) (fd : Nat → Int) (map : FileDescriptorMap) : List PollFd :=
  ⟨eventfd, pollIn⟩ :: map.entries.map fun entry => ⟨fd entry.1, entry.2⟩

namespace Executor

variable {ι : Type} {e next : Executor ι} {sent : Option (Message ι)}

/-! ## Tracking -/

def Choice.checks : Choice → List Nat
  | .executed _ checked => checked
  | _ => []

def Event.checks : Event ι → List Nat
  | .step choice => choice.checks
  | _ => []

def callsIn (generation : SizeT) (transitions : List (Transition (Executor ι) (Event ι))) :
    List Nat :=
  (transitions.filter (·.before.generation = generation)).flatMap (·.event.checks)

/-- What the executor hands to `::poll`. -/
def polled (e : Executor ι) (check : Nat → DescriptorCheck) (eventfd : Int) (fd : Nat → Int) :
    List PollFd :=
  pollList eventfd fd (FileDescriptorMap.ofChecks (e.fileDescriptorMap.map check))

/-- The descriptors are tracked behind `WAIT1`, until the executor leaves `POLL`. -/
def Tracks (e : Executor ι) : Prop :=
  e.trackFileDescriptors = true ↔ e.state.phase = .late ∨ e.isLeaving = true

/-- What a step does to the descriptors. -/
inductive Notes (checks : List Nat) (e next : Executor ι) : Prop where
  | still (generation : next.generation = e.generation)
      (track : next.trackFileDescriptors = e.trackFileDescriptors)
      (map : next.fileDescriptorMap =
        if e.trackFileDescriptors then e.fileDescriptorMap ++ checks else e.fileDescriptorMap)
  | renewed (generation : next.generation = e.generation + 1)
      (afresh : next.trackFileDescriptors = true → next.fileDescriptorMap = [])

theorem Tracks.move (tracks : e.Tracks)
    (track : next.trackFileDescriptors = e.trackFileDescriptors)
    (isLate : next.state.phase = .late ↔ e.state.phase = .late)
    (leaving : next.isLeaving = e.isLeaving) : next.Tracks := by
  rw [Tracks, track, isLate, leaving]
  exact tracks

theorem tracks_of_off (off : next.trackFileDescriptors = false)
    (notLate : next.state.phase ≠ .late) (notLeaving : next.isLeaving = false) :
    next.Tracks := by
  rw [Tracks, off, notLeaving]
  simp [notLate]

theorem tracks_initial (id : ι) (tasks : List Nat) : (initial id tasks).Tracks :=
  tracks_of_off rfl (by rintro ⟨⟩) rfl

theorem notes_of_same (generation : next.generation = e.generation)
    (track : next.trackFileDescriptors = e.trackFileDescriptors)
    (map : next.fileDescriptorMap = e.fileDescriptorMap) : Notes [] e next :=
  .still generation track (by rw [map, List.append_nil, ite_self])

theorem Tracks.off (tracks : e.Tracks) (notLate : e.state.phase ≠ .late)
    (notLeaving : e.isLeaving = false) : e.trackFileDescriptors = false := by
  rw [← Bool.not_eq_true, tracks.not]
  simp [notLate, notLeaving]

theorem notes_executed (tracks : e.Tracks) (notLeaving : e.isLeaving = false) (task : Nat)
    (hit : Bool) (checked : List Nat) {location : Location ι}
    (notLeft : location ≠ .leavingPoll ∧ location ≠ .announcing) :
    Notes checked e
        { ((e.complete task hit checked).1.count (e.complete task hit checked).2).1 with
          location := location } ∧
      Tracks { ((e.complete task hit checked).1.count (e.complete task hit checked).2).1 with
        location := location } := by
  have isNotLeaving : ∀ next : Executor ι, next.location = location → next.isLeaving = false := by
    intro next isLocation
    rw [isLeaving, isLocation]
    split
    · exact absurd rfl notLeft.1
    · exact absurd rfl notLeft.2
    · rfl
  cases count_eq (e.complete task hit checked).1 (e.complete task hit checked).2 with
  | inl stays =>
      rcases stays with ⟨points, counted⟩
      rw [counted]
      refine ⟨.still rfl rfl rfl, tracks.move rfl Iff.rfl ?_⟩
      rw [isNotLeaving _ rfl, notLeaving]
  | inr counted =>
      rw [counted]
      exact ⟨.renewed rfl (by rintro ⟨⟩), tracks_of_off rfl (by rintro ⟨⟩) (isNotLeaving _ rfl)⟩

theorem notes_handle [DecidableEq ι] (tracks : e.Tracks) (notLeaving : e.isLeaving = false)
    (message : Message ι) :
    Notes [] e (e.handle message).1 ∧ (e.handle message).1.Tracks := by
  have stays : ∀ next : Executor ι, next.generation = e.generation →
      next.trackFileDescriptors = e.trackFileDescriptors →
      next.fileDescriptorMap = e.fileDescriptorMap → next.state = e.state →
      next.isLeaving = false → Notes [] e next ∧ next.Tracks := by
    intro next generation track map isState isNotLeaving
    refine ⟨notes_of_same generation track map, tracks.move track (isState ▸ Iff.rfl) ?_⟩
    rw [isNotLeaving, notLeaving]
  have resets : Notes [] e ({ e with location := .loop } : Executor ι).backToNormal ∧
      ({ e with location := .loop } : Executor ι).backToNormal.Tracks :=
    ⟨.renewed rfl (by rintro ⟨⟩), tracks_of_off rfl (by rintro ⟨⟩) rfl⟩
  have checks : Notes [] e ({ e with location := .loop } : Executor ι).startDoubleCheck ∧
      ({ e with location := .loop } : Executor ι).startDoubleCheck.Tracks :=
    ⟨.renewed rfl fun _ => rfl, ⟨fun _ => Or.inl rfl, fun _ => rfl⟩⟩
  cases message with
  | startShootDown id =>
      rw [handle]
      dsimp only
      split
      · next shoots =>
          have off : e.trackFileDescriptors = false :=
            tracks.off (by rw [shoots.2]; rintro ⟨⟩) notLeaving
          refine ⟨.renewed rfl fun on => ?_, tracks_of_off off (by rintro ⟨⟩) rfl⟩
          exact absurd (off.symm.trans on) Bool.false_ne_true
      · exact stays _ rfl rfl rfl rfl rfl
  | startWaiting1 id =>
      rw [handle]
      dsimp only
      split
      · split
        · exact stays _ rfl rfl rfl rfl rfl
        · exact checks
      · exact stays _ rfl rfl rfl rfl rfl
  | startDoubleCheck id =>
      rw [handle]
      dsimp only
      split
      · exact checks
      · exact stays _ rfl rfl rfl rfl rfl
  | startWaiting2 id =>
      rw [handle]
      dsimp only
      split
      · split <;> exact stays _ rfl rfl rfl rfl rfl
      · exact stays _ rfl rfl rfl rfl rfl
  | terminate =>
      rw [handle]
      dsimp only
      split <;> exact stays _ rfl rfl rfl rfl rfl
  | reset id =>
      rw [handle]
      dsimp only
      split
      · exact resets
      · exact stays _ rfl rfl rfl rfl rfl

theorem notes_proceed (tracks : e.Tracks) (notLeaving : e.isLeaving = false) :
    Notes [] e e.proceed.1 ∧ e.proceed.1.Tracks := by
  have stays : ∀ next : Executor ι, next.generation = e.generation →
      next.trackFileDescriptors = e.trackFileDescriptors →
      next.fileDescriptorMap = e.fileDescriptorMap →
      (next.state.phase = .late ↔ e.state.phase = .late) →
      next.isLeaving = false → Notes [] e next ∧ next.Tracks := by
    intro next generation track map isLate isNotLeaving
    refine ⟨notes_of_same generation track map, tracks.move track isLate ?_⟩
    rw [isNotLeaving, notLeaving]
  rw [proceed]
  split
  · split
    · next isState =>
        have off : e.trackFileDescriptors = false :=
          tracks.off (by rw [isState]; rintro ⟨⟩) notLeaving
        refine ⟨.renewed rfl fun on => ?_, tracks_of_off off (by rintro ⟨⟩) rfl⟩
        exact absurd (off.symm.trans on) Bool.false_ne_true
    · next isState =>
        have notLate : RunState.wait1.phase = .late ↔ e.state.phase = .late := by
          rw [isState]
          constructor <;> rintro ⟨⟩
        exact stays _ rfl rfl rfl notLate rfl
    · exact stays _ rfl rfl rfl Iff.rfl rfl
    · next isState =>
        split
        · exact stays _ rfl rfl rfl (by rw [isState]; rfl) rfl
        · exact stays _ rfl rfl rfl (by rw [isState]; rfl) rfl
    · exact stays _ rfl rfl rfl Iff.rfl rfl
    · exact stays _ rfl rfl rfl Iff.rfl rfl
  · split
    · exact stays _ rfl rfl rfl Iff.rfl rfl
    · split <;> exact stays _ rfl rfl rfl Iff.rfl rfl

theorem exists_of_completedBy {task : Nat} {generation : SizeT}
    {transition : Transition (Executor ι) (Event ι)}
    (isCompleted : completedBy task transition = some ⟨.skip, generation⟩) :
    ∃ checked, transition.event = .step (.executed false checked) ∧
      task ∈ transition.before.inHand ∧ transition.before.generation = generation := by
  rw [completedBy] at isCompleted
  split at isCompleted
  · next hit checked isEvent =>
      split at isCompleted
      · next isHeld =>
          cases hit with
          | true => cases isCompleted
          | false => exact ⟨checked, isEvent, isHeld, by cases isCompleted; rfl⟩
      · cases isCompleted
  · cases isCompleted

theorem exists_last_completed {transitions : List (Transition (Executor ι) (Event ι))}
    {task : Nat} {record : ExecutionRecord}
    (isLast : lastCompleted transitions task = some record) :
    ∃ earlier transition later, transitions = earlier ++ transition :: later ∧
      completedBy task transition = some record ∧
      ∀ other ∈ later, completedBy task other = none := by
  induction transitions using List.reverseRecOn with
  | nil => cases isLast
  | append_singleton transitions transition inductionHypothesis =>
      rw [lastCompleted, List.filterMap_append] at isLast
      cases isCompleted : completedBy task transition with
      | some completed =>
          rw [List.filterMap_cons_some isCompleted, List.filterMap_nil,
            List.getLast?_append_of_ne_nil _ (List.cons_ne_nil _ _)] at isLast
          exact ⟨transitions, transition, [], rfl, isCompleted.trans isLast,
            fun _ isLater => absurd isLater List.not_mem_nil⟩
      | none =>
          rw [List.filterMap_cons_none isCompleted, List.filterMap_nil, List.append_nil] at isLast
          rcases inductionHypothesis isLast with ⟨earlier, last, later, isSplit, isRecord, nobody⟩
          refine ⟨earlier, last, later ++ [transition], ?_, isRecord, ?_⟩
          · rw [isSplit, List.append_assoc, List.cons_append]
          · intro other isLater
            rcases List.mem_append.mp isLater with isOld | isNew
            · exact nobody other isOld
            · rw [List.mem_singleton.mp isNew]
              exact isCompleted

theorem isLeaving_wake (e : Executor ι) : e.wake.isLeaving = e.isLeaving := by
  rw [isLeaving, isLeaving, wake]
  cases e.location with
  | waiting signalled => rfl
  | _ => rfl

section Runs

variable [DecidableEq ι]

theorem notes_step {choice : Choice} (tracks : e.Tracks)
    (polls : e.location = .polling → e.state = .poll)
    (steps : e.step choice = some (next, sent)) : Notes choice.checks e next ∧ next.Tracks := by
  have stays : ∀ next : Executor ι, next.generation = e.generation →
      next.trackFileDescriptors = e.trackFileDescriptors →
      next.fileDescriptorMap = e.fileDescriptorMap → next.state = e.state →
      next.isLeaving = e.isLeaving → Notes [] e next ∧ next.Tracks := by
    intro next generation track map isState isLeaving
    exact ⟨notes_of_same generation track map,
      tracks.move track (isState ▸ Iff.rfl) isLeaving⟩
  have isBehind : ∀ message : Option (Message ι),
      behindTask message ≠ .leavingPoll ∧ behindTask message ≠ .announcing := by
    intro message
    cases message with
    | none => exact ⟨by rintro ⟨⟩, by rintro ⟨⟩⟩
    | some message => exact ⟨by rintro ⟨⟩, by rintro ⟨⟩⟩
  unfold step at steps
  split at steps
  case h_1 isLocation =>
    cases steps
    exact stays _ rfl rfl rfl rfl
      (by rw [isLeaving_getReadyTaskAndMessage, isLeaving, isLocation])
  case h_2 task message isLocation =>
    have notLeaving : e.isLeaving = false := by rw [isLeaving, isLocation]
    split at steps
    · split at steps
      · cases steps
        exact stays _ rfl rfl rfl rfl (by rw [notLeaving]; rfl)
      · cases steps
    · split at steps
      · cases steps
        exact stays _ rfl rfl rfl rfl (by rw [notLeaving, isLeaving_behindTask message rfl])
      · next hit checked =>
          cases steps
          exact notes_executed tracks notLeaving task hit checked (isBehind message)
      · cases steps
  case h_3 message isLocation =>
    have isNext : (e.handle message).1 = next := congrArg Prod.fst (Option.some.inj steps)
    rw [← isNext]
    exact notes_handle tracks (by rw [isLeaving, isLocation]) message
  case h_4 isLocation =>
    have isNext : e.proceed.1 = next := congrArg Prod.fst (Option.some.inj steps)
    rw [← isNext]
    exact notes_proceed tracks (by rw [isLeaving, isLocation])
  case h_5 isLocation =>
    cases steps
    exact stays _ rfl rfl rfl rfl (by rw [isLeaving, isLeaving, isLocation])
  case h_6 task hit checked isLocation =>
    cases steps
    exact notes_executed tracks (by rw [isLeaving, isLocation]) task hit checked
      ⟨by rintro ⟨⟩, by rintro ⟨⟩⟩
  case h_7 isLocation =>
    cases steps
    exact stays _ rfl rfl rfl rfl (by rw [isLeaving, isLeaving, isLocation])
  case h_8 isLocation =>
    cases steps
    exact stays _ rfl rfl rfl rfl (by rw [isLeaving_sleep, isLeaving, isLocation])
  case h_9 isLocation =>
    cases steps
    exact stays _ rfl rfl rfl rfl (by rw [isLeaving, isLeaving, isLocation])
  case h_10 isLocation =>
    cases steps
    exact stays _ rfl rfl rfl rfl (by rw [isLeaving, isLeaving, isLocation])
  case h_11 isLocation =>
    split at steps
    · cases steps
      exact stays _ rfl rfl rfl rfl (by rw [isLeaving, isLeaving, isLocation])
    · cases steps
  case h_12 isLocation =>
    split at steps
    · cases steps
    · cases steps
      have isLate : e.state.phase = .late := by
        rw [polls isLocation]
        rfl
      refine ⟨notes_of_same rfl rfl rfl, ?_⟩
      rw [Tracks]
      constructor
      · exact fun _ => Or.inr rfl
      · exact fun _ => tracks.mpr (Or.inl isLate)
  case h_13 isLocation =>
    cases steps
    exact stays _ rfl rfl rfl rfl (by rw [isLeaving, isLeaving, isLocation])
  case h_14 isLocation =>
    cases steps
    exact ⟨.renewed rfl (by rintro ⟨⟩), tracks_of_off rfl (by rintro ⟨⟩) rfl⟩
  case h_15 => cases steps

theorem notes_turn {event : Event ι} (tracks : e.Tracks)
    (polls : e.location = .polling → e.state = .poll) (runs : e.turn event = some next) :
    Notes event.checks e next ∧ next.Tracks := by
  cases event with
  | step choice =>
      rw [turn, Option.map_eq_some_iff] at runs
      rcases runs with ⟨⟨result, sent⟩, steps, isNext⟩
      rw [← isNext]
      exact notes_step tracks polls steps
  | receive message =>
      cases runs
      rw [receive]
      split
      · exact ⟨notes_of_same rfl rfl rfl, tracks.move rfl Iff.rfl (isLeaving_wake e)⟩
      · exact ⟨notes_of_same rfl rfl rfl, tracks.move rfl Iff.rfl rfl⟩
  | toReadyList task =>
      rw [turn] at runs
      split at runs
      · cases runs
        rw [grant, toReadyList]
        split
        · exact ⟨notes_of_same rfl rfl rfl, tracks.move rfl Iff.rfl (isLeaving_wake _)⟩
        · exact ⟨notes_of_same rfl rfl rfl, tracks.move rfl Iff.rfl rfl⟩
      · cases runs

/-! ## Runs -/

/-- The descriptors that are tracked are those of the calls in this generation. -/
structure Watches (changes : Nat) (past : List (Transition (Executor ι) (Event ι)))
    (e : Executor ι) : Prop where
  tracks : e.Tracks
  full : e.location = .polling → e.points = e.taskCount
  stamps : ∀ transition ∈ past, ∃ stamp ≤ changes,
    transition.before.generation = BitVec.ofNat 64 stamp
  notes : e.trackFileDescriptors = true → ∀ call, call ∈ e.fileDescriptorMap ↔
    ∃ transition ∈ past, transition.before.generation = e.generation ∧
      call ∈ transition.event.checks

/-- The executor polls only with all points. -/
theorem full_turn {event : Event ι} (full : e.location = .polling → e.points = e.taskCount)
    (runs : e.turn event = some next) : next.location = .polling → next.points = next.taskCount := by
  have wakes : ∀ other : Executor ι, other.wake.location = .polling →
      other.location = .polling := by
    intro other isPolling
    rw [wake] at isPolling
    dsimp only at isPolling
    split at isPolling
    · cases isPolling
    · exact isPolling
  have notBehind : ∀ message : Option (Message ι), behindTask message ≠ .polling := by
    intro message
    cases message with
    | none => rintro ⟨⟩
    | some message => rintro ⟨⟩
  cases event with
  | step choice =>
      intro isPolling
      rw [turn, Option.map_eq_some_iff] at runs
      rcases runs with ⟨⟨result, sent⟩, steps, isNext⟩
      cases isNext
      cases ownStep_of_step steps with
      | get _ =>
          rw [getReadyTaskAndMessage] at isPolling
          dsimp only at isPolling
          split at isPolling <;> cases isPolling
      | resumeBlocked _ _ => exact absurd isPolling (notBehind _)
      | resume _ _ _ _ => exact absurd isPolling (notBehind _)
      | @handle message _ =>
          rcases (handle_spec e message).2.2 with isPlace | isPlace | isPlace <;>
            rw [isPlace] at isPolling <;> cases isPolling
      | proceed _ =>
          by_cases isFull : e.points = e.taskCount
          · rw [proceed, if_pos isFull] at isPolling ⊢
            split at isPolling
            · cases isPolling
            · cases isPolling
            · cases isPolling
            · split at isPolling <;> cases isPolling
            · cases isPolling
            · exact isFull
          · rw [proceed, if_neg isFull] at isPolling
            split at isPolling
            · cases isPolling
            · split at isPolling <;> cases isPolling
      | sleep _ =>
          rw [sleep] at isPolling
          dsimp only at isPolling
          split at isPolling <;> cases isPolling
      | _ => cases isPolling
  | receive message =>
      cases runs
      rw [receive]
      split
      · exact fun isPolling => full (wakes e isPolling)
      · exact full
  | toReadyList task =>
      rw [turn] at runs
      split at runs
      · cases runs
        rw [grant, toReadyList]
        split
        · exact fun isPolling => full (wakes _ isPolling)
        · exact full
      · cases runs

variable {tasks : List Nat} {changes : Nat}
  {past transitions : List (Transition (Executor ι) (Event ι))}

theorem watches_turn (watches : Watches changes past e)
    (polls : e.location = .polling → e.state = .poll)
    (isGeneration : e.generation = BitVec.ofNat 64 changes) {event : Event ι}
    (runs : e.turn event = some next) {last : Nat} (few : last < 2 ^ 64)
    (isLast : last = changes + if changesGeneration ⟨e, event, next⟩ then 1 else 0) :
    Watches last (past ++ [⟨e, event, next⟩]) next := by
  have noted := notes_turn watches.tracks polls runs
  have stamps : ∀ transition ∈ past ++ [⟨e, event, next⟩], ∃ stamp ≤ changes,
      transition.before.generation = BitVec.ofNat 64 stamp := by
    intro transition isTransition
    rcases List.mem_append.mp isTransition with isPast | isNow
    · exact watches.stamps transition isPast
    · rw [List.mem_singleton.mp isNow]
      exact ⟨changes, le_rfl, isGeneration⟩
  refine ⟨noted.2, full_turn watches.full runs, ?_, ?_⟩
  · intro transition isTransition
    rcases stamps transition isTransition with ⟨stamp, notLater, isStamp⟩
    exact ⟨stamp, by omega, isStamp⟩
  · intro on call
    cases noted.1 with
    | still generation track map =>
        rw [track] at on
        rw [map, if_pos on, List.mem_append, watches.notes on call, generation]
        constructor
        · rintro (⟨transition, isPast, isCalled⟩ | isCall)
          · exact ⟨transition, List.mem_append_left _ isPast, isCalled⟩
          · exact ⟨_, List.mem_append_right _ (List.mem_singleton_self _), rfl, isCall⟩
        · rintro ⟨transition, isTransition, isCalled⟩
          rcases List.mem_append.mp isTransition with isPast | isNow
          · exact Or.inl ⟨transition, isPast, isCalled⟩
          · rw [List.mem_singleton.mp isNow] at isCalled
            exact Or.inr isCalled.2
    | renewed generation afresh =>
        -- Nobody has called in the new generation, and the map is empty.
        rw [afresh on]
        constructor
        · exact fun isCall => absurd isCall List.not_mem_nil
        · rintro ⟨transition, isTransition, same, _⟩
          have changed : changesGeneration ⟨e, event, next⟩ = true := by
            simp [changesGeneration, generation]
          rw [changed, if_pos rfl] at isLast
          rcases stamps transition isTransition with ⟨stamp, notLater, isStamp⟩
          have isNext : next.generation = BitVec.ofNat 64 last := by
            rw [generation, isGeneration, isLast, BitVec.ofNat_add]
            rfl
          have isSame := serial_injective (by omega) few
            (isStamp.symm.trans (same.trans isNext))
          omega

theorem watches_run (nodup : tasks.Nodup) (run : Run e transitions next) :
    ∀ changes past, Watches changes past e → Stamped tasks changes e → Owning tasks e →
      changes + transitions.countP changesGeneration < 2 ^ 64 →
      Watches (changes + transitions.countP changesGeneration) (past ++ transitions) next := by
  induction run with
  | nil _ =>
      intro changes past watches _ _ _
      rw [List.append_nil]
      exact watches
  | @cons before after finish event rest first _ inductionHypothesis =>
      intro changes past watches stamped owning few
      rw [List.countP_cons, Nat.add_comm (rest.countP _), ← Nat.add_assoc] at few ⊢
      have watched := watches_turn watches owning.alert.polls stamped.generation first
        (by omega) rfl
      have goesOn := inductionHypothesis _ _ watched
        (stamped_turn stamped nodup owning first (by omega) rfl).1 (tally_turn owning first).2 few
      rw [List.append_assoc, List.singleton_append] at goesOn
      exact goesOn

/-- An executor that polls has found each of its preconditions false, and polls what their
last evaluations have checked, and nothing but what has been checked since the tracking of
descriptors began. -/
theorem polled_of_run {id : ι} (nodup : tasks.Nodup) (fits : tasks.length < 2 ^ 64)
    (run : Run (initial id tasks) transitions e)
    (few : transitions.countP changesGeneration < 2 ^ 64) (isPolling : e.location = .polling)
    (check : Nat → DescriptorCheck) (eventfd : Int) (fd : Nat → Int) :
    (∀ task ∈ tasks, ∃ earlier last later checked, transitions = earlier ++ last :: later ∧
      last.event = .step (.executed false checked) ∧ task ∈ last.before.inHand ∧
      (∀ other ∈ later, completedBy task other = none) ∧
      ∀ call ∈ checked, ∃ entry ∈ (e.polled check eventfd fd).tail,
        entry.fd = fd (check call).descriptor ∧
          entry.events &&& (check call).events = (check call).events) ∧
    ∃ descriptors : List Nat, descriptors.Nodup ∧
      (∀ descriptor, descriptor ∈ descriptors ↔
        ∃ call ∈ callsIn e.generation transitions, (check call).descriptor = descriptor) ∧
      (e.polled check eventfd fd).tail = descriptors.map fun descriptor =>
        ⟨fd descriptor, FileDescriptorMap.eventsFor
          ((callsIn e.generation transitions).map check) descriptor⟩ := by
  have watches := watches_run nodup run 0 [] ⟨tracks_initial id tasks, (by rintro ⟨⟩),
    fun _ isTransition => absurd isTransition List.not_mem_nil, (by rintro ⟨⟩)⟩
    (stamped_initial id tasks) (owning_initial id tasks) (by omega)
  have finished := stamped_run nodup run 0 (stamped_initial id tasks) (owning_initial id tasks)
    (by omega)
  rw [List.nil_append] at watches
  have isPoll := finished.2.1.alert.polls isPolling
  have on : e.trackFileDescriptors = true := watches.tracks.mpr (Or.inl (by rw [isPoll]; rfl))
  have sameCalls : ∀ call, call ∈ e.fileDescriptorMap ↔ call ∈ callsIn e.generation transitions := by
    intro call
    rw [watches.notes on call, callsIn, List.mem_flatMap]
    simp only [List.mem_filter, decide_eq_true_eq, and_assoc]
  have sameChecks : ∀ call, call ∈ e.fileDescriptorMap.map check ↔
      call ∈ (callsIn e.generation transitions).map check := by
    intro call
    simp only [List.mem_map, sameCalls]
  have isPolled : (e.polled check eventfd fd).tail =
      (FileDescriptorMap.ofChecks (e.fileDescriptorMap.map check)).descriptors.map
        fun descriptor => ⟨fd descriptor, FileDescriptorMap.eventsFor
          ((callsIn e.generation transitions).map check) descriptor⟩ := by
    rw [polled, pollList, List.tail_cons, FileDescriptorMap.entries_ofChecks, List.map_map]
    refine List.map_congr_left fun descriptor _ => ?_
    rw [← FileDescriptorMap.eventsFor_congr sameChecks]
    rfl
  have areDescriptors : ∀ descriptor,
      descriptor ∈ (FileDescriptorMap.ofChecks (e.fileDescriptorMap.map check)).descriptors ↔
        ∃ call ∈ callsIn e.generation transitions, (check call).descriptor = descriptor := by
    intro descriptor
    simp only [FileDescriptorMap.mem_descriptors, List.mem_map, sameCalls, exists_exists_and_eq_and]
  refine ⟨?_, _, OrderedMap.nodup_keys _, areDescriptors, isPolled⟩
  -- All points are there, so each task was skipped in this generation.
  have allSkipped : skipped tasks e = tasks.length := by
    have counted := finished.1.points (by rw [isPoll]; rintro ⟨⟩) (by rw [isPoll]; rintro ⟨⟩)
    rw [watches.full isPolling, finished.2.1.taskCount] at counted
    exact (serial_injective fits ((countMarked_le _ _ _).trans_lt fits) counted).symm
  intro task isTask
  rw [← countP_lastCompleted (records_run run), List.countP_eq_length] at allSkipped
  rcases exists_last_completed (of_decide_eq_true (allSkipped task isTask)) with
    ⟨earlier, last, later, isSplit, isRecord, nobody⟩
  rcases exists_of_completedBy isRecord with ⟨checked, isEvent, isHeld, isGeneration⟩
  refine ⟨earlier, last, later, checked, isSplit, isEvent, isHeld, nobody, ?_⟩
  intro call isCall
  have isCalled : call ∈ callsIn e.generation transitions := by
    rw [callsIn, List.mem_flatMap]
    refine ⟨last, List.mem_filter.mpr ⟨?_, decide_eq_true isGeneration⟩, ?_⟩
    · rw [isSplit]
      exact List.mem_append_right _ List.mem_cons_self
    · rw [isEvent]
      exact isCall
  rw [isPolled]
  refine ⟨_, List.mem_map_of_mem ((areDescriptors _).mpr ⟨call, isCalled, rfl⟩), rfl, ?_⟩
  exact FileDescriptorMap.events_le_eventsFor (List.mem_map_of_mem isCalled)

/-- A task waits for a descriptor to become readable. -/
theorem polled_of_run_reader :
    ∃ (transitions : List (Transition (Executor Nat) (Event Nat))) (e : Executor Nat),
      Run (initial 0 [7]) transitions e ∧ e.location = .polling ∧
        (∀ task ∈ [7], ∃ earlier last later checked, transitions = earlier ++ last :: later ∧
          last.event = .step (.executed false checked) ∧ task ∈ last.before.inHand ∧
          (∀ other ∈ later, completedBy task other = none) ∧
          ∀ call ∈ checked, ∃ entry ∈ (e.polled (fun _ => .readability 5) 3 Int.ofNat).tail,
            entry.fd = 5 ∧ entry.events &&& pollIn = pollIn) ∧
        ∃ descriptors : List Nat, descriptors.Nodup ∧
          (∀ descriptor, descriptor ∈ descriptors ↔
            ∃ call ∈ callsIn e.generation transitions, 5 = descriptor) ∧
          (e.polled (fun _ => .readability 5) 3 Int.ofNat).tail = descriptors.map
            fun descriptor => ⟨Int.ofNat descriptor, FileDescriptorMap.eventsFor
              ((callsIn e.generation transitions).map fun _ => .readability 5) descriptor⟩ := by
  have run : Run (initial 0 [7])
      [⟨_, .step .go, _⟩, ⟨_, .step .go, _⟩, ⟨_, .step (.executed false [0]), _⟩,
        ⟨_, .step .go, _⟩, ⟨_, .step .go, _⟩, ⟨_, .step .go, _⟩, ⟨_, .step .go, _⟩,
        ⟨_, .step (.executed false [0]), _⟩, ⟨_, .step .go, _⟩, ⟨_, .step .go, _⟩,
        ⟨_, .receive (.startWaiting1 0), _⟩, ⟨_, .step .go, _⟩, ⟨_, .step .go, _⟩,
        ⟨_, .step .go, _⟩, ⟨_, .step .go, _⟩, ⟨_, .step (.executed false [0]), _⟩,
        ⟨_, .step .go, _⟩, ⟨_, .step .go, _⟩, ⟨_, .step .go, _⟩, ⟨_, .step .go, _⟩,
        ⟨_, .step .go, _⟩] _ :=
    .cons rfl <| .cons rfl <| .cons rfl <| .cons rfl <| .cons rfl <| .cons rfl <| .cons rfl <|
      .cons rfl <| .cons rfl <| .cons rfl <| .cons rfl <| .cons rfl <| .cons rfl <| .cons rfl <|
      .cons rfl <| .cons rfl <| .cons rfl <| .cons rfl <| .cons rfl <| .cons rfl <| .cons rfl <|
      .nil _
  exact ⟨_, _, run, rfl, polled_of_run (List.nodup_singleton 7) (by decide) run (by decide) rfl
    (fun _ => .readability 5) 3 Int.ofNat⟩

end Runs

end Executor

end Rcgo.Scheduler
