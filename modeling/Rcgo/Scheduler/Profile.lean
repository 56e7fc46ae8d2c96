import Mathlib.Algebra.Ring.Nat
import Rcgo.Foundation.RingBuffer

/-!
# Profiling

An executor notes when it evaluates preconditions, executes actions and collects
garbage, in the ring of events of `executor_base.cpp`.  `main` chooses the size of
the ring, and `fini` prints it.
-/

namespace Rcgo.Scheduler

open Rcgo.Foundation

/-- `struct timespec`. -/
structure Timespec where
  sec : Nat
  nsec : Nat
  deriving DecidableEq

/-- `Event::Type` of `ExecutorBase`. -/
inductive ProfileEventType where
  | preconditionTrue
  | preconditionFalse
  | action
  | garbageCollectionTrue
  | garbageCollectionFalse
  deriving DecidableEq

/-- The union of `action` and `info`, by the member that has been written. -/
inductive ProfileSubject (α κ : Type) where
  | null
  | action (action : α)
  | info (info : κ)
  deriving DecidableEq

/-- `Event` of `ExecutorBase`. -/
structure ProfileEvent (α κ : Type) where
  type : ProfileEventType
  subject : ProfileSubject α κ
  began : Timespec
  ended : Timespec
  deriving DecidableEq

/-- The members for the events, and how often the clock has been read. -/
structure Profile (α κ : Type) where
  events : List (ProfileEvent α κ)
  eventIdx : Nat
  eventFull : Bool
  readings : Nat

/-- What an executor is asked to do, with what comes of it. -/
inductive ProfiledCall (α κ : Type) where
  | execute (action : α) (enabled : Bool)
  | executeNoCheck (action : α)
  | collectGarbage (info : κ) (collected : Bool)

/-- The loop of `main` over `e`. -/
def profileExponent (profile e : Nat) : Nat :=
  if 1 <<< e < profile ∧ e < 31 then profileExponent profile (e + 1) else e
termination_by 31 - e

/-- `profile` of `main` after the loop, where `1 << e` is an `int`. -/
def profilePoints (profile : Nat) : Nat :=
  if profile = 0 then 0 else (((1 : BitVec 32) <<< profileExponent profile 1).signExtend 64).toNat

/-- `%ld.%.09ld`. -/
def Timespec.text (time : Timespec) : String :=
  toString time.sec ++ "." ++ "".pushn '0' (9 - (toString time.nsec).length) ++ toString time.nsec

namespace Profile

variable {α κ : Type}

def blank : ProfileEvent α κ :=
  ⟨.preconditionTrue, .null, ⟨0, 0⟩, ⟨0, 0⟩⟩

/-- The constructor of `ExecutorBase`. -/
def initial (profile : Nat) : Profile α κ where
  events := List.replicate profile blank
  eventIdx := 0
  eventFull := false
  readings := 0

variable (clock : Nat → Timespec)

/-- `begin_event`. -/
def beginEvent (log : Profile α κ) : Profile α κ × Option Nat :=
  if log.events = [] then (log, none)
  else
    let eventIdx := (log.eventIdx + 1) &&& (log.events.length - 1)
    ({ events :=
          log.events.modify log.eventIdx fun event => { event with began := clock log.readings }
       eventIdx := eventIdx
       eventFull := log.eventFull || eventIdx == 0
       readings := log.readings + 1 }, some log.eventIdx)

/-- `end_event`. -/
def endEvent (log : Profile α κ) (e : Option Nat) (type : ProfileEventType)
    (subject : ProfileSubject α κ) : Profile α κ :=
  match e with
  | none => log
  | some e =>
      { log with
        events :=
          log.events.modify e fun event =>
            { event with ended := clock log.readings, type := type, subject := subject }
        readings := log.readings + 1 }

/-- An event with what happens between its begin and its end. -/
def noteEvent (log : Profile α κ) (type : ProfileEventType) (subject : ProfileSubject α κ) :
    Profile α κ :=
  let begun := log.beginEvent clock
  begun.1.endEvent clock begun.2 type subject

/-- `execute`, where the precondition is true or not. -/
def execute (log : Profile α κ) (action : α) (enabled : Bool) : Profile α κ :=
  let log := log.noteEvent clock (if enabled then .preconditionTrue else .preconditionFalse)
    (.action action)
  if enabled then log.noteEvent clock .action (.action action) else log

/-- `execute_no_check`. -/
def executeNoCheck (log : Profile α κ) (action : α) : Profile α κ :=
  log.noteEvent clock .action (.action action)

/-- `collect_garbage`. -/
def collectGarbage (log : Profile α κ) (info : κ) (collected : Bool) : Profile α κ :=
  log.noteEvent clock (if collected then .garbageCollectionTrue else .garbageCollectionFalse)
    (.info info)

def perform (log : Profile α κ) : ProfiledCall α κ → Profile α κ
  | .execute action enabled => log.execute clock action enabled
  | .executeNoCheck action => log.executeNoCheck clock action
  | .collectGarbage info collected => log.collectGarbage clock info collected

variable (actionName : α → String) (instanceName : κ → String)

/-- A line of `fini`, unless it reads the other member of the union. -/
def line (event : ProfileEvent α κ) : Option String :=
  let times := " " ++ event.began.text ++ " " ++ event.ended.text
  match event.type, event.subject with
  | .preconditionTrue, .action action =>
      some ("PRECONDITION_TRUE " ++ actionName action ++ times)
  | .preconditionFalse, .action action =>
      some ("PRECONDITION_FALSE " ++ actionName action ++ times)
  | .action, .action action => some ("ACTION " ++ actionName action ++ times)
  | .garbageCollectionTrue, .info info =>
      some ("GARBAGE_COLLECTION_TRUE " ++ instanceName info ++ times)
  | .garbageCollectionFalse, .info info =>
      some ("GARBAGE_COLLECTION_FALSE " ++ instanceName info ++ times)
  | _, _ => none

/-- The first line of `fini`. -/
def header (thread : Nat) (overflow : Bool) : String :=
  "BEGIN thread " ++ toString thread ++ if overflow then " OVERFLOW" else ""

/-- `fini`, by its lines. -/
def fini (log : Profile α κ) (thread : Nat) : Option (List String) :=
  if log.events = [] then some []
  else do
    let lines ← (if log.eventFull then log.events else log.events.take log.eventIdx).mapM
      (line actionName instanceName)
    some (header thread log.eventFull :: lines ++ ["END thread " ++ toString thread])

/-! ## The size of the ring -/

theorem profileExponent_spec {size : Nat} (notLarge : size ≤ 2 ^ 30) :
    ∀ e, e ≤ 30 → e ≤ profileExponent size e ∧ profileExponent size e ≤ 30 ∧
      size ≤ 2 ^ profileExponent size e ∧
        (profileExponent size e = e ∨ 2 ^ (profileExponent size e - 1) < size) := by
  intro e
  induction e using profileExponent.induct size with
  | case1 e goesOn inductionHypothesis =>
      intro isSmall
      rw [Nat.one_shiftLeft] at goesOn
      have notLast : e ≠ 30 := by
        intro isLast
        rw [isLast] at goesOn
        exact absurd goesOn.1 (Nat.not_lt.mpr notLarge)
      have result := inductionHypothesis (by omega)
      rw [profileExponent, Nat.one_shiftLeft, if_pos goesOn]
      refine ⟨by omega, result.2.1, result.2.2.1, Or.inr ?_⟩
      cases result.2.2.2 with
      | inl isNext =>
          rw [isNext, Nat.add_sub_cancel]
          exact goesOn.1
      | inr isLess => exact isLess
  | case2 e stops =>
      intro isSmall
      rw [Nat.one_shiftLeft] at stops
      have isEnough : size ≤ 2 ^ e := by
        by_contra isMore
        exact stops ⟨Nat.lt_of_not_le isMore, by omega⟩
      rw [profileExponent, Nat.one_shiftLeft, if_neg stops]
      exact ⟨le_rfl, isSmall, isEnough, Or.inl rfl⟩

theorem signExtend_shiftLeft : ∀ e < 31,
    (((1 : BitVec 32) <<< e).signExtend 64).toNat = 2 ^ e := by
  decide

theorem profilePoints_spec {size : Nat} (positive : 0 < size) (notLarge : size ≤ 2 ^ 30) :
    ∃ e, profilePoints size = 2 ^ e ∧ size ≤ 2 ^ e ∧ (e = 1 ∨ 2 ^ (e - 1) < size) := by
  have result := profileExponent_spec notLarge 1 (by omega)
  refine ⟨profileExponent size 1, ?_, result.2.2.1, result.2.2.2⟩
  rw [profilePoints, if_neg (Nat.ne_of_gt positive)]
  exact signExtend_shiftLeft _ (Nat.lt_succ_of_le result.2.1)

/-! ## The events in the ring -/

def ring (log : Profile α κ) : RingBuffer (ProfileEvent α κ) :=
  ⟨log.events, log.eventIdx, log.eventFull⟩

/-- The events of a call, without their times. -/
def notes : ProfiledCall α κ → List (ProfileEventType × ProfileSubject α κ)
  | .execute action true =>
      [(.preconditionTrue, .action action), (.action, .action action)]
  | .execute action false => [(.preconditionFalse, .action action)]
  | .executeNoCheck action => [(.action, .action action)]
  | .collectGarbage info true => [(.garbageCollectionTrue, .info info)]
  | .collectGarbage info false => [(.garbageCollectionFalse, .info info)]

/-- The event with the readings of the clock at its begin and its end. -/
def timed (count : Nat) (note : ProfileEventType × ProfileSubject α κ) : ProfileEvent α κ :=
  ⟨note.1, note.2, clock (2 * count), clock (2 * count + 1)⟩

def eventsOf (calls : List (ProfiledCall α κ)) : List (ProfileEvent α κ) :=
  (calls.flatMap notes).mapIdx (timed clock)

theorem noteEvent_spec {log : Profile α κ} {e : Nat} (isPower : log.events.length = 2 ^ e)
    (type : ProfileEventType) (subject : ProfileSubject α κ) :
    (log.noteEvent clock type subject).ring =
        log.ring.record ⟨type, subject, clock log.readings, clock (log.readings + 1)⟩ ∧
      (log.noteEvent clock type subject).readings = log.readings + 2 := by
  have some : log.events ≠ [] := by
    intro isNil
    rw [isNil] at isPower
    exact absurd isPower.symm (Nat.two_pow_pos e).ne'
  have isMod : (log.eventIdx + 1) &&& (log.events.length - 1) =
      (log.eventIdx + 1) % log.events.length := by
    rw [isPower, Nat.and_two_pow_sub_one_eq_mod]
  rw [noteEvent, beginEvent, if_neg some]
  refine ⟨?_, rfl⟩
  rw [ring, endEvent]
  dsimp only
  rw [List.modify_modify_eq, isMod, RingBuffer.record, List.set_eq_modify]
  rfl

theorem perform_eq (log : Profile α κ) (call : ProfiledCall α κ) :
    log.perform clock call =
      (notes call).foldl (fun log note => log.noteEvent clock note.1 note.2) log := by
  cases call with
  | execute action enabled => cases enabled <;> rfl
  | executeNoCheck action => rfl
  | collectGarbage info collected => cases collected <;> rfl

/-- The ring holds the events noted so far. -/
structure Keeps (points : Nat) (noted : List (ProfileEventType × ProfileSubject α κ))
    (log : Profile α κ) : Prop where
  holds : RingBuffer.Holds (List.replicate points blank) (noted.mapIdx (timed clock)) log.ring
  readings : log.readings = 2 * noted.length

variable {clock} in
theorem Keeps.noteEvent {e : Nat} {noted : List (ProfileEventType × ProfileSubject α κ)}
    {log : Profile α κ} (keeps : Keeps clock (2 ^ e) noted log)
    (note : ProfileEventType × ProfileSubject α κ) :
    Keeps clock (2 ^ e) (noted ++ [note]) (log.noteEvent clock note.1 note.2) := by
  have isPower : log.events.length = 2 ^ e :=
    keeps.holds.length_slots.trans List.length_replicate
  have some : List.replicate (2 ^ e) (blank : ProfileEvent α κ) ≠ [] := by
    rw [Ne, List.replicate_eq_nil_iff]
    exact (Nat.two_pow_pos e).ne'
  have noted := noteEvent_spec clock isPower note.1 note.2
  constructor
  · rw [noted.1, keeps.readings, List.mapIdx_concat]
    exact keeps.holds.record some (timed clock _ note)
  · rw [noted.2, keeps.readings, List.length_append, List.length_singleton]
    omega

theorem keeps_run {e : Nat} (calls : List (ProfiledCall α κ)) :
    Keeps clock (2 ^ e) (calls.flatMap notes)
      (calls.foldl (perform clock) (initial (2 ^ e))) := by
  have goesOn : ∀ (later noted : List (ProfileEventType × ProfileSubject α κ))
      (log : Profile α κ), Keeps clock (2 ^ e) noted log →
        Keeps clock (2 ^ e) (noted ++ later)
          (later.foldl (fun log note => log.noteEvent clock note.1 note.2) log) := by
    intro later
    induction later with
    | nil =>
        intro noted log keeps
        rw [List.append_nil]
        exact keeps
    | cons note later inductionHypothesis =>
        intro noted log keeps
        have longer := inductionHypothesis _ _ (keeps.noteEvent note)
        rw [List.append_assoc, List.singleton_append] at longer
        exact longer
  have some : List.replicate (2 ^ e) (blank : ProfileEvent α κ) ≠ [] := by
    rw [Ne, List.replicate_eq_nil_iff]
    exact (Nat.two_pow_pos e).ne'
  have performs : perform clock = fun (log : Profile α κ) call =>
      (notes call).foldl (fun log note => log.noteEvent clock note.1 note.2) log := by
    funext log call
    exact perform_eq clock log call
  rw [performs, ← List.foldl_flatMap]
  exact goesOn _ [] _ ⟨RingBuffer.holds_blank some, rfl⟩

/-! ## The lines -/

/-- No event of a call makes `fini` read the other member of the union. -/
theorem exists_line {calls : List (ProfiledCall α κ)} {event : ProfileEvent α κ}
    (isEvent : event ∈ eventsOf clock calls) :
    ∃ text, line actionName instanceName event = some text := by
  rw [eventsOf, List.mem_mapIdx] at isEvent
  rcases isEvent with ⟨count, isNote, isEvent⟩
  rcases List.mem_flatMap.mp (List.getElem_mem isNote) with ⟨call, _, isNoted⟩
  rw [← isEvent]
  generalize (calls.flatMap notes)[count] = note at isNoted
  cases call with
  | execute action enabled =>
      cases enabled with
      | false => exact List.mem_singleton.mp isNoted ▸ ⟨_, rfl⟩
      | true =>
          rcases List.mem_cons.mp isNoted with isFirst | isRest
          · exact isFirst ▸ ⟨_, rfl⟩
          · exact List.mem_singleton.mp isRest ▸ ⟨_, rfl⟩
  | executeNoCheck action => exact List.mem_singleton.mp isNoted ▸ ⟨_, rfl⟩
  | collectGarbage info collected =>
      cases collected <;> exact List.mem_singleton.mp isNoted ▸ ⟨_, rfl⟩

theorem exists_mapM {β γ : Type} {f : β → Option γ} {members : List β}
    (areSome : ∀ member ∈ members, ∃ value, f member = some value) :
    ∃ values, members.mapM f = some values ∧ values.map some = members.map f := by
  induction members with
  | nil => exact ⟨[], rfl, rfl⟩
  | cons member members inductionHypothesis =>
      rcases areSome member List.mem_cons_self with ⟨value, isValue⟩
      rcases inductionHypothesis fun other isOther =>
        areSome other (List.mem_cons_of_mem _ isOther) with ⟨values, areValues, same⟩
      refine ⟨value :: values, ?_, ?_⟩
      · simp [List.mapM_cons, isValue, areValues]
      · rw [List.map_cons, List.map_cons, same, isValue]

theorem fini_of_off (calls : List (ProfiledCall α κ)) (thread : Nat) :
    (calls.foldl (perform clock) (initial (profilePoints 0))).readings = 0 ∧
      (calls.foldl (perform clock) (initial (profilePoints 0))).fini actionName instanceName
        thread = some [] := by
  have stays : calls.foldl (perform clock) (initial (profilePoints 0)) =
      (initial 0 : Profile α κ) := by
    induction calls with
    | nil => rfl
    | cons call calls inductionHypothesis =>
        rw [List.foldl_cons]
        cases call with
        | execute action enabled => cases enabled <;> exact inductionHypothesis
        | _ => exact inductionHypothesis
  rw [stays]
  exact ⟨rfl, rfl⟩

/-- What an executor prints at the end: the latest events, at least as many as were asked
for where there were so many, in the order around the ring, each with the action or instance
and the times of its begin and end. -/
theorem fini_run {size : Nat} (positive : 0 < size) (notLarge : size ≤ 2 ^ 30)
    (calls : List (ProfiledCall α κ)) (thread : Nat) :
    size ≤ profilePoints size ∧
      ∃ lines, (calls.foldl (perform clock) (initial (profilePoints size))).fini
          actionName instanceName thread =
            some (header thread (profilePoints size ≤ (eventsOf clock calls).length) :: lines ++
              ["END thread " ++ toString thread]) ∧
        (lines.rotate ((eventsOf clock calls).length % profilePoints size)).map some =
          ((eventsOf clock calls).drop
              ((eventsOf clock calls).length - profilePoints size)).map
            (line actionName instanceName) := by
  rcases profilePoints_spec positive notLarge with ⟨e, isPoints, isEnough, _⟩
  have keeps := keeps_run clock (e := e) calls
  rw [isPoints]
  refine ⟨isEnough, ?_⟩
  generalize calls.foldl (perform clock) (initial (2 ^ e)) = log at keeps
  have holds := keeps.holds
  change RingBuffer.Holds _ (eventsOf clock calls) _ at holds
  have isPower : log.events.length = 2 ^ e := holds.length_slots.trans List.length_replicate
  have isNext : log.eventIdx = _ := holds.next
  have isFull : log.eventFull = _ := holds.full
  have around : log.ring.written.rotate log.eventIdx = _ := holds.rotate_written
  rw [List.length_replicate] at isNext isFull around
  have notEmpty : log.events ≠ [] := by
    intro isNil
    rw [isNil] at isPower
    exact absurd isPower.symm (Nat.two_pow_pos e).ne'
  have haveLines : ∀ event ∈ log.ring.written,
      ∃ text, line actionName instanceName event = some text := by
    intro event isWritten
    rw [← List.mem_rotate, around] at isWritten
    exact exists_line clock actionName instanceName (List.mem_of_mem_drop isWritten)
  rcases exists_mapM haveLines with ⟨lines, areLines, same⟩
  refine ⟨lines, ?_, ?_⟩
  · rw [fini, if_neg notEmpty, ← isFull]
    change (do
      let lines ← log.ring.written.mapM (line actionName instanceName)
      _) = _
    rw [areLines]
    rfl
  · rw [← isNext, List.map_rotate, same, ← List.map_rotate]
    exact congrArg (List.map _) around

/-- Two points for three events. -/
theorem fini_run_collected : 1 ≤ profilePoints 1 ∧
    ∃ lines, ([.execute () true, .collectGarbage () false].foldl
        (perform fun reading => ⟨reading, 0⟩) (initial (profilePoints 1))).fini
          (fun _ => "action") (fun _ => "instance") 0 =
        some (header 0 (profilePoints 1 ≤ (eventsOf (fun reading => ⟨reading, 0⟩)
          [.execute () true, .collectGarbage () false]).length) :: lines ++
            ["END thread " ++ toString 0]) ∧
      (lines.rotate ((eventsOf (fun reading => ⟨reading, 0⟩)
          [.execute () true, .collectGarbage () false]).length % profilePoints 1)).map some =
        ((eventsOf (fun reading => ⟨reading, 0⟩)
          [.execute () true, .collectGarbage () false]).drop
            ((eventsOf (fun reading => ⟨reading, 0⟩)
              [.execute () true, .collectGarbage () false]).length - profilePoints 1)).map
          (line (fun _ => "action") (fun _ => "instance")) :=
  fini_run _ _ _ (by decide) (by decide) _ 0

end Profile

end Rcgo.Scheduler
