import Rcgo.Foundation.HolderCount
import Mathlib.Data.List.TakeWhile

/-!
# The instance lock of the partitioned scheduler

`info_t` keeps the number of readers or -1 in `count_` and the tasks that
have to wait in a list.  Every operation runs under the spin lock `lock_`.
-/

namespace Rcgo.Scheduler

open Rcgo.Foundation

universe u

/-- `count_` and the list from `head_`; a waiting task carries the mode it
asked for in its field `read_lock`. -/
structure InfoLock (τ : Type u) where
  count : Int
  waiting : List (τ × LockMode)
  deriving DecidableEq, Repr

namespace InfoLock

variable {τ : Type u}

def initial : InfoLock τ :=
  ⟨0, []⟩

/-- `read_lock`; the second component tells that the task was enqueued. -/
def readLock (l : InfoLock τ) (task : τ) : InfoLock τ × Bool :=
  if l.count = 0 then
    (⟨l.count + 1, l.waiting⟩, false)
  else if l.count > 0 ∧ l.waiting.isEmpty then
    (⟨l.count + 1, l.waiting⟩, false)
  else
    (⟨l.count, l.waiting ++ [(task, .read)]⟩, true)

/-- `write_lock`. -/
def writeLock (l : InfoLock τ) (task : τ) : InfoLock τ × Bool :=
  if l.count = 0 then
    (⟨l.count - 1, l.waiting⟩, false)
  else
    (⟨l.count, l.waiting ++ [(task, .write)]⟩, true)

/-- `process_list`, with the tasks it hands to `to_ready_list`. -/
def processList (l : InfoLock τ) : InfoLock τ × List (τ × LockMode) :=
  if l.count = 0 then
    match l.waiting with
    | [] => (l, [])
    | (task, .read) :: rest =>
        let readers := rest.takeWhile fun waiter => waiter.2 = .read
        (⟨readers.length + 1, rest.dropWhile fun waiter => waiter.2 = .read⟩,
          (task, .read) :: readers)
    | (task, .write) :: rest => (⟨-1, rest⟩, [(task, .write)])
  else
    (l, [])

/-- `read_unlock`; without a value when the assertion fails. -/
def readUnlock (l : InfoLock τ) : Option (InfoLock τ × List (τ × LockMode)) :=
  if l.count > 0 then some (processList ⟨l.count - 1, l.waiting⟩) else none

/-- `write_unlock`; without a value when the assertion fails. -/
def writeUnlock (l : InfoLock τ) : Option (InfoLock τ × List (τ × LockMode)) :=
  if l.count = -1 then some (processList ⟨l.count + 1, l.waiting⟩) else none

/-- The call that `resume` makes for an entry of its instance set. -/
def lock (l : InfoLock τ) (task : τ) : LockMode → InfoLock τ × Bool
  | .read => l.readLock task
  | .write => l.writeLock task

def unlock (l : InfoLock τ) : LockMode → Option (InfoLock τ × List (τ × LockMode))
  | .read => l.readUnlock
  | .write => l.writeUnlock

variable {holds : τ → LockMode → Prop}

/-- The representation invariant: the count describes the holders, nobody
waits twice and nobody waits for a free lock. -/
structure Invariant (l : InfoLock τ) (holds : τ → LockMode → Prop) : Prop where
  counts : CountsHolders holds l.count
  nodup : (l.waiting.map Prod.fst).Nodup
  occupied : l.waiting ≠ [] → l.count ≠ 0

theorem Invariant.congr
    {l : InfoLock τ} {other : τ → LockMode → Prop}
    (holdsInvariant : l.Invariant holds)
    (same : ∀ t mode, other t mode ↔ holds t mode) :
    l.Invariant other :=
  ⟨holdsInvariant.counts.congr same, holdsInvariant.nodup, holdsInvariant.occupied⟩

theorem initial_invariant (nobody : ∀ t mode, ¬ holds t mode) :
    (initial : InfoLock τ).Invariant holds :=
  ⟨CountsHolders.zero nobody, List.nodup_nil, fun waits => absurd rfl waits⟩

theorem lock_cases (l : InfoLock τ) (task : τ) (mode : LockMode) :
    (∃ count,
        l.lock task mode = (⟨count, l.waiting⟩, false) ∧
          ((mode = .read ∧ count = l.count + 1 ∧ 0 ≤ l.count) ∨
            (mode = .write ∧ count = -1 ∧ l.count = 0)) ∧
          (l.count = 0 ∨ l.waiting = [])) ∨
      (l.lock task mode = (⟨l.count, l.waiting ++ [(task, mode)]⟩, true) ∧
        l.count ≠ 0) := by
  cases mode with
  | read =>
      by_cases free : l.count = 0
      · exact Or.inl ⟨l.count + 1, by simp [lock, readLock, free],
          Or.inl ⟨rfl, rfl, by omega⟩, Or.inl free⟩
      · by_cases shared : l.count > 0 ∧ l.waiting.isEmpty
        · exact Or.inl ⟨l.count + 1, by simp [lock, readLock, shared],
            Or.inl ⟨rfl, rfl, by omega⟩, Or.inr (List.isEmpty_iff.mp shared.2)⟩
        · exact Or.inr ⟨by simp only [lock, readLock, free, shared, if_false], free⟩
  | write =>
      by_cases free : l.count = 0
      · exact Or.inl ⟨l.count - 1, by simp [lock, writeLock, free],
          Or.inr ⟨rfl, by omega, free⟩, Or.inl free⟩
      · exact Or.inr ⟨by simp only [lock, writeLock, free, if_false], free⟩

theorem Invariant.lock_granted
    {l next : InfoLock τ} {task : τ} {mode : LockMode}
    (invariant : l.Invariant holds)
    (new : ∀ mode, ¬ holds task mode)
    (call : l.lock task mode = (next, false)) :
    next.waiting = l.waiting ∧
      next.Invariant (fun u m => holds u m ∨ (u = task ∧ m = mode)) := by
  rcases lock_cases l task mode with ⟨count, granted, modes, _⟩ | ⟨enqueued, _⟩
  · rw [granted, Prod.mk.injEq] at call
    obtain ⟨rfl, _⟩ := call
    refine ⟨rfl, ?_, invariant.nodup, ?_⟩
    · rcases modes with ⟨rfl, rfl, shared⟩ | ⟨rfl, rfl, free⟩
      · exact invariant.counts.grantRead shared new
      · have counts := invariant.counts
        rw [free] at counts
        exact counts.grantWrite task
    · intro waits
      have busy := invariant.occupied waits
      show count ≠ 0
      omega
  · rw [enqueued] at call
    cases congrArg Prod.snd call

theorem Invariant.lock_enqueued
    {l next : InfoLock τ} {task : τ} {mode : LockMode}
    (invariant : l.Invariant holds)
    (new : task ∉ l.waiting.map Prod.fst)
    (call : l.lock task mode = (next, true)) :
    next.waiting = l.waiting ++ [(task, mode)] ∧ next.Invariant holds := by
  rcases lock_cases l task mode with ⟨count, granted, _⟩ | ⟨enqueued, busy⟩
  · rw [granted] at call
    cases congrArg Prod.snd call
  · rw [enqueued, Prod.mk.injEq] at call
    obtain ⟨rfl, _⟩ := call
    refine ⟨rfl, invariant.counts, ?_, fun _ => busy⟩
    rw [List.map_append, List.nodup_append]
    refine ⟨invariant.nodup, List.nodup_singleton _, ?_⟩
    intro u member v isNew same
    rw [List.map_singleton, List.mem_singleton] at isNew
    rw [same, isNew] at member
    exact new member

private theorem countsHolders_readers
    {readers : List (τ × LockMode)}
    (nodup : (readers.map Prod.fst).Nodup)
    (allRead : ∀ w ∈ readers, w.2 = .read) :
    CountsHolders (fun u mode => (u, mode) ∈ readers) readers.length := by
  have counts :
      CountsHolders (fun u mode => (u, mode) ∈ readers)
        (readers.map Prod.fst).length := by
    refine CountsHolders.readers _ nodup ?_ ?_
    · intro t
      constructor
      · intro member
        obtain ⟨w, inReaders, same⟩ := List.mem_map.mp member
        rw [← same, ← allRead w inReaders]
        exact inReaders
      · intro member
        exact List.mem_map.mpr ⟨_, member, rfl⟩
    · intro t member
      cases allRead _ member
  rwa [List.length_map] at counts

/-- What `process_list` does to a lock that has just become free: a prefix
of the waiting tasks holds it afterwards, and only these tasks. -/
theorem processList_free
    {l next : InfoLock τ} {granted : List (τ × LockMode)}
    (free : l.count = 0)
    (nodup : (l.waiting.map Prod.fst).Nodup)
    (process : l.processList = (next, granted)) :
    l.waiting = granted ++ next.waiting ∧
      next.Invariant (fun u mode => (u, mode) ∈ granted) := by
  unfold processList at process
  rw [if_pos free] at process
  split at process
  · next isEmpty =>
    rw [Prod.mk.injEq] at process
    obtain ⟨rfl, rfl⟩ := process
    refine ⟨rfl, ?_, nodup, fun waits => absurd isEmpty waits⟩
    rw [free]
    exact CountsHolders.zero fun _ _ => List.not_mem_nil
  · next task rest shape =>
    have parts :=
      List.takeWhile_append_dropWhile (p := fun w : τ × LockMode => w.2 = .read)
        (l := rest)
    have areReaders :
        ∀ w ∈ rest.takeWhile (fun w : τ × LockMode => w.2 = .read), w.2 = .read := by
      intro w member
      simpa using List.mem_takeWhile_imp member
    rw [Prod.mk.injEq] at process
    obtain ⟨rfl, rfl⟩ := process
    generalize rest.takeWhile (fun w : τ × LockMode => w.2 = .read) = readers at *
    generalize rest.dropWhile (fun w : τ × LockMode => w.2 = .read) = later at *
    have whole : l.waiting = ((task, .read) :: readers) ++ later := by
      rw [shape, List.cons_append, parts]
    rw [whole, List.map_append] at nodup
    have grantedNodup := (List.nodup_append.mp nodup).1
    refine ⟨whole, ?_, (List.nodup_append.mp nodup).2.1, fun _ => ?_⟩
    · have allRead : ∀ w ∈ (task, LockMode.read) :: readers, w.2 = .read := by
        intro w member
        rcases List.mem_cons.mp member with isHead | inReaders
        · rw [isHead]
        · exact areReaders w inReaders
      simpa using countsHolders_readers grantedNodup allRead
    · show (readers.length : Int) + 1 ≠ 0
      omega
  · next task rest shape =>
    rw [Prod.mk.injEq] at process
    obtain ⟨rfl, rfl⟩ := process
    rw [shape, List.map_cons, List.nodup_cons] at nodup
    refine ⟨shape, ?_, nodup.2, fun _ => by simp⟩
    refine CountsHolders.writer task (List.mem_singleton_self _) ?_
    intro u mode member
    simpa using List.mem_singleton.mp member

theorem processList_busy
    {l : InfoLock τ} (busy : l.count ≠ 0) :
    l.processList = (l, []) := by
  unfold processList
  rw [if_neg busy]

/-- The holder of a lock can release it, and the tasks that then become
holders are the ones handed to their ready lists, taken from the front of
the waiting list. -/
theorem Invariant.unlock [DecidableEq τ]
    {l : InfoLock τ} {task : τ} {mode : LockMode}
    (invariant : l.Invariant holds) (held : holds task mode) :
    ∃ next granted,
      l.unlock mode = some (next, granted) ∧
        l.waiting = granted ++ next.waiting ∧
        next.Invariant (fun u m => (holds u m ∧ u ≠ task) ∨ (u, m) ∈ granted) := by
  have released :
      ∃ count,
        l.unlock mode = some (processList ⟨count, l.waiting⟩) ∧
          CountsHolders (fun u m => holds u m ∧ u ≠ task) count := by
    cases mode with
    | read =>
        have positive := invariant.counts.pos_of_read held
        exact ⟨l.count - 1, by simp [InfoLock.unlock, readUnlock, positive],
          invariant.counts.releaseRead held⟩
    | write =>
        have isWriter := invariant.counts.eq_of_write held
        exact ⟨0, by simp [InfoLock.unlock, writeUnlock, isWriter],
          invariant.counts.releaseWrite held⟩
  obtain ⟨count, run, counts⟩ := released
  by_cases free : count = 0
  · obtain ⟨whole, granted⟩ :=
      processList_free (l := ⟨count, l.waiting⟩) free invariant.nodup rfl
    refine ⟨_, _, run, whole, granted.congr ?_⟩
    rw [free] at counts
    intro u m
    exact or_iff_right (counts.not_holds_of_zero u m)
  · rw [processList_busy free] at run
    refine ⟨_, _, run, rfl, ?_, invariant.nodup, fun _ => free⟩
    exact counts.congr fun u m => or_iff_left List.not_mem_nil

end InfoLock

end Rcgo.Scheduler
