import Rcgo.Foundation.Chain
import Rcgo.Foundation.Outcome
import Rcgo.Scheduler.InfoLock
import Mathlib.Logic.Function.Basic

/-!
# The waiting list in memory

The waiting tasks of an `info_t` are linked through their members `next`, and
`tail_` is the address of the pointer in which the next task will be stored.
A task is named by its address, and `NULL` is 0.  This is the code that cuts
and extends the list; `InfoLock` describes what it computes.
-/

namespace Rcgo.Scheduler

open Rcgo.Foundation

/-- How the code can go wrong. -/
inductive LockFault where
  /-- an assertion fails -/
  | assertion
  /-- a member of `NULL` is used -/
  | dangling
  deriving DecidableEq, Repr

/-- The members of a task that the locks use. -/
structure TaskNode where
  /-- `read_lock` -/
  readLock : Bool
  next : Nat

/-- The member in which the pointer to a task is stored: a `task_t**`. -/
inductive TaskLink where
  /-- `head_` -/
  | head
  /-- `next` of the task -/
  | next (task : Nat)
  deriving DecidableEq, Repr

/-- The members of an `info_t` and of all tasks. -/
structure LockMemory where
  count : Int
  head : Nat
  tail : TaskLink
  tasks : Nat → TaskNode

namespace LockMemory

/-! ## The operations -/

/-- The constructor of `info_t`. -/
def initial (tasks : Nat → TaskNode) : LockMemory :=
  ⟨0, 0, .head, tasks⟩

/-- `*link`. -/
def read (m : LockMemory) : TaskLink → Nat
  | .head => m.head
  | .next task => (m.tasks task).next

/-- `task->next = value`. -/
def setNext (m : LockMemory) (task value : Nat) : LockMemory :=
  { m with tasks := Function.update m.tasks task ⟨(m.tasks task).readLock, value⟩ }

/-- `*link = value`. -/
def write (m : LockMemory) (value : Nat) : TaskLink → LockMemory
  | .head => { m with head := value }
  | .next task => m.setNext task value

/-- The end of `read_lock` and `write_lock` for a task that has to wait. -/
def enqueue (m : LockMemory) (task : Nat) (readLock : Bool) : LockMemory :=
  let m := { m with tasks := Function.update m.tasks task ⟨readLock, (m.tasks task).next⟩ }
  let m := m.write task m.tail
  { m with tail := .next task }

/-- `read_lock`. -/
def readLock (m : LockMemory) (task : Nat) : Outcome LockFault (LockMemory × Bool) :=
  if (m.tasks task).next ≠ 0 then
    .error .assertion
  else if m.count = 0 then
    .ok ({ m with count := m.count + 1 }, false)
  else if m.count > 0 ∧ m.head = 0 then
    .ok ({ m with count := m.count + 1 }, false)
  else
    .ok (m.enqueue task true, true)

/-- `write_lock`. -/
def writeLock (m : LockMemory) (task : Nat) : Outcome LockFault (LockMemory × Bool) :=
  if (m.tasks task).next ≠ 0 then
    .error .assertion
  else if m.count = 0 then
    .ok ({ m with count := m.count - 1 }, false)
  else
    .ok (m.enqueue task false, true)

/-- The loop of `process_list` over the readers at the front of the list. -/
def skipReaders (m : LockMemory) : Nat → TaskLink → Nat → Outcome LockFault (TaskLink × Nat)
  | 0, _, _ => .outOfFuel
  | depth + 1, t, size =>
      if t ≠ m.tail then
        if m.read t = 0 then
          .error .dangling
        else if (m.tasks (m.read t)).readLock then
          m.skipReaders depth (.next (m.read t)) (size + 1)
        else
          .ok (t, size)
      else
        .ok (t, size)

/-- `head_ = *link` and `*link = NULL`. -/
def cut (m : LockMemory) (link : TaskLink) : LockMemory :=
  let m := { m with head := m.read link }
  m.write 0 link

/-- The branch of `process_list` that cuts the readers from `h` on off the list. -/
def takeReaders (depth : Nat) (m : LockMemory) (h : Nat) : Outcome LockFault LockMemory := do
  let (t, size) ← m.skipReaders depth (.next h) 1
  pure { m.cut t with count := size }

/-- The branch of `process_list` that takes the writer `h` off the list. -/
def takeWriter (m : LockMemory) (h : Nat) : LockMemory :=
  { m.cut (.next h) with count := -1 }

/-- The end of `process_list` for a list that has become empty. -/
def resetTail (m : LockMemory) : LockMemory :=
  if m.head = 0 then { m with tail := .head } else m

/-- `process_list` up to `__sync_lock_release`, with the local variable `h`. -/
def processList (depth : Nat) (m : LockMemory) : Outcome LockFault (LockMemory × Nat) :=
  if m.count = 0 ∧ m.head ≠ 0 then
    if (m.tasks m.head).readLock then do
      let taken ← m.takeReaders depth m.head
      pure (taken.resetTail, m.head)
    else
      pure ((m.takeWriter m.head).resetTail, m.head)
  else
    pure (m, 0)

/-- `read_unlock` up to `__sync_lock_release`. -/
def readUnlock (depth : Nat) (m : LockMemory) : Outcome LockFault (LockMemory × Nat) :=
  if m.count > 0 then processList depth { m with count := m.count - 1 } else .error .assertion

/-- `write_unlock` up to `__sync_lock_release`. -/
def writeUnlock (depth : Nat) (m : LockMemory) : Outcome LockFault (LockMemory × Nat) :=
  if m.count = -1 then processList depth { m with count := m.count + 1 } else .error .assertion

/-- One iteration of the signalling loop of `process_list` up to the call of
`to_ready_list`, which asserts that the task is on no list. -/
def signal (m : LockMemory) (h : Nat) : Outcome LockFault (LockMemory × Nat) :=
  let next := (m.tasks h).next
  let m := m.setNext h 0
  if (m.tasks h).next = 0 then .ok (m, next) else .error .assertion

/-- The call that `resume` makes. -/
def lock (m : LockMemory) (task : Nat) : LockMode → Outcome LockFault (LockMemory × Bool)
  | .read => m.readLock task
  | .write => m.writeLock task

def unlock (depth : Nat) (m : LockMemory) : LockMode → Outcome LockFault (LockMemory × Nat)
  | .read => m.readUnlock depth
  | .write => m.writeUnlock depth

/-! ## What the memory represents -/

/-- The `next` of the tasks. -/
def next (m : LockMemory) (task : Nat) : Option Nat :=
  if task = 0 then none else some (m.tasks task).next

def tailBehind (tasks : List Nat) : TaskLink :=
  match tasks.getLast? with
  | none => .head
  | some task => .next task

/-- The mode for which a task with this member waits. -/
def modeOf (readLock : Bool) : LockMode :=
  if readLock then .read else .write

/-- The memory holds this lock. -/
structure Represents (m : LockMemory) (l : InfoLock Nat) : Prop where
  count : m.count = l.count
  chain : Chain m.next m.head (l.waiting.map Prod.fst) 0
  tail : m.tail = tailBehind (l.waiting.map Prod.fst)
  nodup : (l.waiting.map Prod.fst).Nodup
  mode : ∀ w ∈ l.waiting, w.1 ≠ 0 ∧ modeOf (m.tasks w.1).readLock = w.2

variable {m : LockMemory}

theorem next_of_ne {task : Nat} (notNull : task ≠ 0) :
    m.next task = some (m.tasks task).next :=
  if_neg notNull

theorem next_null : m.next 0 = none :=
  if_pos rfl

theorem next_congr {after : LockMemory} {task : Nat} (same : after.tasks task = m.tasks task) :
    after.next task = m.next task := by
  rw [next, next, same]

theorem tailBehind_append_singleton (tasks : List Nat) (task : Nat) :
    tailBehind (tasks ++ [task]) = .next task := by
  rw [tailBehind, List.getLast?_concat]

theorem next_eq_some {task successor : Nat} :
    m.next task = some successor ↔ task ≠ 0 ∧ (m.tasks task).next = successor := by
  rw [next, Option.ite_none_left_eq_some, Option.some.injEq]

/-- A list is empty when it starts with `NULL`. -/
theorem chain_null_iff {start : Nat} {tasks : List Nat} (chain : Chain m.next start tasks 0) :
    start = 0 ↔ tasks = [] := by
  cases tasks with
  | nil => exact iff_of_true chain rfl
  | cons task rest =>
      obtain ⟨isTask, successor, isNext, _⟩ := chain
      exact iff_of_false (isTask ▸ (next_eq_some.mp isNext).1) (List.cons_ne_nil _ _)

theorem Represents.head_eq_zero_iff {l : InfoLock Nat} (represents : m.Represents l) :
    m.head = 0 ↔ l.waiting = [] :=
  (chain_null_iff represents.chain).trans List.map_eq_nil_iff

/-- The lock of `info_t` with nobody on its list. -/
theorem initial_represents (tasks : Nat → TaskNode) :
    (initial tasks).Represents InfoLock.initial :=
  ⟨rfl, rfl, rfl, List.nodup_nil, fun _ member => absurd member List.not_mem_nil⟩

theorem Represents.congr {after : LockMemory} {l : InfoLock Nat} (represents : m.Represents l)
    (count : after.count = m.count) (head : after.head = m.head) (tail : after.tail = m.tail)
    (same : ∀ task ∈ l.waiting.map Prod.fst, after.tasks task = m.tasks task) :
    after.Represents l := by
  refine ⟨count.trans represents.count, ?_, tail.trans represents.tail, represents.nodup, ?_⟩
  · rw [head]
    exact represents.chain.congr fun task member => next_congr (same task member)
  · intro w member
    rw [same w.1 (List.mem_map_of_mem member)]
    exact represents.mode w member

theorem tasks_setNext_self (task value : Nat) :
    (m.setNext task value).tasks task = ⟨(m.tasks task).readLock, value⟩ :=
  Function.update_self _ _ _

theorem tasks_setNext_other {task other : Nat} (value : Nat) (different : other ≠ task) :
    (m.setNext task value).tasks other = m.tasks other :=
  Function.update_of_ne different _ _

theorem Represents.setNext {l : InfoLock Nat} {task : Nat} (represents : m.Represents l)
    (absent : task ∉ l.waiting.map Prod.fst) (value : Nat) :
    (m.setNext task value).Represents l := by
  have same : ∀ t ∈ l.waiting.map Prod.fst, (m.setNext task value).tasks t = m.tasks t := by
    intro t member
    apply tasks_setNext_other
    rintro rfl
    exact absent member
  exact represents.congr rfl rfl rfl same

/-! ## Enqueueing -/

section Enqueue

variable {task : Nat} {readLock : Bool}

theorem tasks_enqueue_self (notLast : m.tail ≠ .next task) :
    (m.enqueue task readLock).tasks task = ⟨readLock, (m.tasks task).next⟩ := by
  unfold enqueue
  cases isTail : m.tail with
  | head => exact Function.update_self _ _ _
  | next last =>
      have different : task ≠ last := by
        rintro rfl
        exact notLast isTail
      simp only [write, setNext]
      rw [Function.update_of_ne different, Function.update_self]

theorem tasks_enqueue_last {last : Nat} (isTail : m.tail = .next last) (different : last ≠ task) :
    (m.enqueue task readLock).tasks last = ⟨(m.tasks last).readLock, task⟩ := by
  unfold enqueue
  rw [isTail]
  simp only [write, setNext]
  rw [Function.update_self, Function.update_of_ne different]

theorem tasks_enqueue_other {other : Nat} (notTask : other ≠ task)
    (notLast : m.tail ≠ .next other) :
    (m.enqueue task readLock).tasks other = m.tasks other := by
  unfold enqueue
  cases isTail : m.tail with
  | head => exact Function.update_of_ne notTask _ _
  | next last =>
      have different : other ≠ last := by
        rintro rfl
        exact notLast isTail
      simp only [write, setNext]
      rw [Function.update_of_ne different, Function.update_of_ne notTask]

theorem count_enqueue : (m.enqueue task readLock).count = m.count := by
  unfold enqueue
  cases isTail : m.tail with
  | head => rfl
  | next last => rfl

theorem head_enqueue_of_next {last : Nat} (isTail : m.tail = .next last) :
    (m.enqueue task readLock).head = m.head := by
  unfold enqueue
  rw [isTail]
  rfl

theorem head_enqueue_of_head (isTail : m.tail = .head) :
    (m.enqueue task readLock).head = task := by
  unfold enqueue
  rw [isTail]
  rfl

theorem chain_enqueue {tasks : List Nat} (chain : Chain m.next m.head tasks 0)
    (isTail : m.tail = tailBehind tasks) (nodup : tasks.Nodup) (allTasks : ∀ t ∈ tasks, t ≠ 0)
    (notNull : task ≠ 0) (unlinked : (m.tasks task).next = 0) (absent : task ∉ tasks) :
    Chain (m.enqueue task readLock).next (m.enqueue task readLock).head (tasks ++ [task]) 0 := by
  rcases List.eq_nil_or_concat tasks with isEmpty | ⟨before, last, isList⟩
  · rw [isEmpty] at isTail ⊢
    have isHead : m.tail = .head := isTail
    have notLast : m.tail ≠ .next task := by
      rw [isHead]
      exact TaskLink.noConfusion
    refine ⟨head_enqueue_of_head isHead, 0, ?_, rfl⟩
    rw [next_of_ne notNull, tasks_enqueue_self notLast, unlinked]
  · rw [List.concat_eq_append] at isList
    rw [isList] at isTail chain nodup allTasks absent ⊢
    rw [tailBehind_append_singleton] at isTail
    have lastNotNull : last ≠ 0 := allTasks last (List.mem_append_right _ List.mem_cons_self)
    have different : last ≠ task := by
      intro same
      exact absent (List.mem_append_right _ (List.mem_singleton.mpr same.symm))
    have notLast : m.tail ≠ .next task := by
      intro isTask
      rw [isTail] at isTask
      injection isTask with same
      exact different same
    obtain ⟨middle, chainBefore, isMiddle, _⟩ := Chain.append_iff.mp chain
    have unchanged : ∀ t ∈ before, (m.enqueue task readLock).next t = m.next t := by
      intro t member
      have notTask : t ≠ task := by
        rintro rfl
        exact absent (List.mem_append_left _ member)
      apply next_congr
      apply tasks_enqueue_other notTask
      intro isLast
      rw [isTail] at isLast
      injection isLast with same
      rw [same] at nodup
      exact (List.nodup_append.mp nodup).2.2 t member t (List.mem_singleton_self t) rfl
    have throughLast :
        Chain (m.enqueue task readLock).next (m.enqueue task readLock).head (before ++ [last])
          task := by
      rw [head_enqueue_of_next isTail]
      apply (isMiddle ▸ chainBefore.congr unchanged).append_singleton
      rw [next_of_ne lastNotNull, tasks_enqueue_last isTail different]
    apply throughLast.append_singleton
    rw [next_of_ne notNull, tasks_enqueue_self notLast, unlinked]

end Enqueue

theorem mem_of_tailBehind {tasks : List Nat} {task : Nat} (isTail : tailBehind tasks = .next task) :
    task ∈ tasks := by
  unfold tailBehind at isTail
  split at isTail
  · cases isTail
  · next last isLast =>
    injection isTail with same
    exact same ▸ List.mem_of_getLast? isLast

theorem Represents.enqueue {l : InfoLock Nat} {task : Nat} (represents : m.Represents l)
    (notNull : task ≠ 0) (unlinked : (m.tasks task).next = 0)
    (absent : task ∉ l.waiting.map Prod.fst) (readLock : Bool) :
    (m.enqueue task readLock).Represents
      ⟨l.count, l.waiting ++ [(task, modeOf readLock)]⟩ ∧
    ∀ other, other ∉ l.waiting.map Prod.fst → other ≠ task →
      (m.enqueue task readLock).tasks other = m.tasks other := by
  have notTail : ∀ other, other ∉ l.waiting.map Prod.fst → m.tail ≠ .next other := by
    intro other notWaiting isOther
    rw [represents.tail] at isOther
    exact notWaiting (mem_of_tailBehind isOther)
  have allTasks : ∀ t ∈ l.waiting.map Prod.fst, t ≠ 0 := by
    intro t member
    obtain ⟨w, inWaiting, same⟩ := List.mem_map.mp member
    exact same ▸ (represents.mode w inWaiting).1
  constructor
  · refine ⟨count_enqueue.trans represents.count, ?_, ?_, ?_, ?_⟩
    · rw [List.map_append, List.map_singleton]
      exact
        chain_enqueue represents.chain represents.tail represents.nodup allTasks notNull unlinked
          absent
    · rw [List.map_append, List.map_singleton, tailBehind_append_singleton]
      rfl
    · rw [List.map_append, List.map_singleton, ← List.concat_eq_append]
      exact represents.nodup.concat absent
    · intro w member
      rcases List.mem_append.mp member with isOld | isNew
      · have inTasks : w.1 ∈ l.waiting.map Prod.fst := List.mem_map_of_mem isOld
        have different : w.1 ≠ task := fun same => absent (same ▸ inTasks)
        have sameMode : ((m.enqueue task readLock).tasks w.1).readLock =
            (m.tasks w.1).readLock := by
          by_cases isLast : m.tail = .next w.1
          · rw [tasks_enqueue_last isLast different]
          · rw [tasks_enqueue_other different isLast]
        rw [sameMode]
        exact represents.mode w isOld
      · rw [List.mem_singleton.mp isNew]
        refine ⟨notNull, ?_⟩
        rw [tasks_enqueue_self (notTail task absent)]
  · intro other notWaiting different
    exact tasks_enqueue_other different (notTail other notWaiting)

/-- `read_lock` and `write_lock` compute what `InfoLock` describes. -/
theorem Represents.lock {l : InfoLock Nat} {task : Nat} (represents : m.Represents l)
    (notNull : task ≠ 0) (unlinked : (m.tasks task).next = 0)
    (absent : task ∉ l.waiting.map Prod.fst) (mode : LockMode) :
    ∃ after, m.lock task mode = .ok (after, (l.lock task mode).2) ∧
      after.Represents (l.lock task mode).1 ∧
      ∀ other, other ∉ l.waiting.map Prod.fst → other ≠ task →
        after.tasks other = m.tasks other := by
  have count := represents.count
  have enqueued := represents.enqueue notNull unlinked absent
  have granted : ∀ other : Int, ({ m with count := other } : LockMemory).Represents
      ⟨other, l.waiting⟩ := fun other =>
    ⟨rfl, represents.chain, represents.tail, represents.nodup, represents.mode⟩
  cases mode with
  | read =>
      simp only [LockMemory.lock, LockMemory.readLock, InfoLock.lock, InfoLock.readLock, unlinked,
        represents.head_eq_zero_iff, count, List.isEmpty_iff, ne_eq, not_true_eq_false, if_false]
      by_cases free : l.count = 0
      · rw [if_pos free, if_pos free]
        exact ⟨_, rfl, granted _, fun _ _ _ => rfl⟩
      · rw [if_neg free, if_neg free]
        by_cases shared : l.count > 0 ∧ l.waiting = []
        · rw [if_pos shared, if_pos shared]
          exact ⟨_, rfl, granted _, fun _ _ _ => rfl⟩
        · rw [if_neg shared, if_neg shared]
          exact ⟨_, rfl, (enqueued true).1, (enqueued true).2⟩
  | write =>
      simp only [LockMemory.lock, LockMemory.writeLock, InfoLock.lock, InfoLock.writeLock, unlinked,
        count, ne_eq, not_true_eq_false, if_false]
      by_cases free : l.count = 0
      · rw [if_pos free, if_pos free]
        exact ⟨_, rfl, granted _, fun _ _ _ => rfl⟩
      · rw [if_neg free, if_neg free]
        exact ⟨_, rfl, (enqueued false).1, (enqueued false).2⟩

/-! ## Handing the lock over -/

theorem tailBehind_cons_cons (first second : Nat) (rest : List Nat) :
    tailBehind (first :: second :: rest) = tailBehind (second :: rest) := by
  rw [tailBehind, tailBehind, List.getLast?_cons_cons]

theorem tailBehind_ne {first second : Nat} {rest : List Nat}
    (nodup : (first :: second :: rest).Nodup) :
    tailBehind (first :: second :: rest) ≠ .next first := by
  intro isFirst
  rw [tailBehind_cons_cons] at isFirst
  exact (List.nodup_cons.mp nodup).1 (mem_of_tailBehind isFirst)

/-- The loop of `process_list` stops behind the readers at the front. -/
theorem skipReaders_spec {later : List Nat} :
    ∀ {readers : List Nat} {prev size : Nat},
      Chain m.next prev (prev :: (readers ++ later)) 0 →
      (prev :: (readers ++ later)).Nodup →
      m.tail = tailBehind (prev :: (readers ++ later)) →
      (∀ t ∈ readers, (m.tasks t).readLock = true) →
      (∀ t, later.head? = some t → (m.tasks t).readLock = false) →
        ∀ depth, readers.length < depth →
          m.skipReaders depth (.next prev) size =
            .ok (tailBehind (prev :: readers), size + readers.length) := by
  intro readers
  induction readers with
  | nil =>
      intro prev size chain nodup isTail _ isWriter depth deep
      obtain ⟨k, rfl⟩ := Nat.exists_eq_add_of_lt deep
      rw [skipReaders]
      cases later with
      | nil => exact if_neg fun different => different isTail.symm
      | cons writer rest =>
          obtain ⟨_, successor, isNext, isWriterLink, _, nextWriter, _⟩ := chain
          have notTail : TaskLink.next prev ≠ m.tail := by
            rw [isTail]
            exact (tailBehind_ne nodup).symm
          have isRead : m.read (.next prev) = writer :=
            (next_eq_some.mp isNext).2.trans isWriterLink
          rw [if_pos notTail, isRead, if_neg (next_eq_some.mp nextWriter).1,
            isWriter writer rfl]
          rfl
  | cons reader readers inductionHypothesis =>
      intro prev size chain nodup isTail areReaders isWriter depth deep
      obtain ⟨k, rfl⟩ := Nat.exists_eq_add_of_lt deep
      obtain ⟨_, successor, isNext, isReaderLink, nextReader⟩ := chain
      have notTail : TaskLink.next prev ≠ m.tail := by
        rw [isTail]
        exact (tailBehind_ne nodup).symm
      have isRead : m.read (.next prev) = reader :=
        (next_eq_some.mp isNext).2.trans isReaderLink
      have notNull : reader ≠ 0 := by
        obtain ⟨_, linked, _⟩ := nextReader
        exact (next_eq_some.mp linked).1
      rw [skipReaders, if_pos notTail, isRead, if_neg notNull,
        if_pos (areReaders reader List.mem_cons_self)]
      rw [inductionHypothesis (isReaderLink ▸ ⟨rfl, isReaderLink ▸ nextReader⟩)
        (List.nodup_cons.mp nodup).2 (isTail.trans (tailBehind_cons_cons _ _ _))
        (fun t member => areReaders t (List.mem_cons_of_mem _ member)) isWriter _
        (by rw [List.length_cons] at deep ⊢; omega)]
      rw [tailBehind_cons_cons, List.length_cons, Nat.add_assoc, Nat.add_comm 1]

/-- What cutting the tasks of `front` off the list leaves. -/
structure Cut (m : LockMemory) (front back : List Nat) (after : LockMemory) : Prop where
  count : after.count = m.count
  tail : after.tail = m.tail
  frontChain : Chain after.next m.head front 0
  backChain : Chain after.next after.head back 0
  others : ∀ t, t ∉ front ++ back → after.tasks t = m.tasks t
  readLock : ∀ t, (after.tasks t).readLock = (m.tasks t).readLock

theorem tasks_cut_last (last : Nat) :
    (m.cut (.next last)).tasks last = ⟨(m.tasks last).readLock, 0⟩ :=
  Function.update_self _ _ _

theorem cut_spec {before back : List Nat} {last : Nat}
    (chain : Chain m.next m.head (before ++ [last] ++ back) 0)
    (nodup : (before ++ [last] ++ back).Nodup) :
    Cut m (before ++ [last]) back (m.cut (.next last)) := by
  have nextOther : ∀ t, t ≠ last → (m.cut (.next last)).next t = m.next t := by
    intro t different
    apply next_congr
    exact Function.update_of_ne different _ _
  obtain ⟨behind, chainFront, chainBack⟩ := Chain.append_iff.mp chain
  obtain ⟨middle, chainBefore, isMiddle, successor, isNext, isBehind⟩ :=
    Chain.append_iff.mp chainFront
  rw [isMiddle] at chainBefore
  have notNull := (next_eq_some.mp isNext).1
  have lastApart := List.nodup_append.mp nodup
  have beforeApart := List.nodup_append.mp lastApart.1
  constructor
  · rfl
  · rfl
  · have before :
        Chain (m.cut (.next last)).next m.head before last := by
      apply chainBefore.congr
      intro t member
      apply nextOther
      intro isLast
      exact beforeApart.2.2 t member last (List.mem_singleton_self last) isLast
    apply before.append_singleton
    rw [next_of_ne notNull, tasks_cut_last]
  · have isHead : (m.cut (.next last)).head = behind :=
      (next_eq_some.mp isNext).2.trans isBehind
    rw [isHead]
    apply chainBack.congr
    intro t member
    apply nextOther
    intro isLast
    exact
      lastApart.2.2 last (List.mem_append_right _ List.mem_cons_self) t member isLast.symm
  · intro t absent
    apply Function.update_of_ne
    rintro rfl
    exact absent (List.mem_append_left _ (List.mem_append_right _ List.mem_cons_self))
  · intro t
    by_cases isLast : t = last
    · rw [isLast, tasks_cut_last]
    · exact congrArg TaskNode.readLock (Function.update_of_ne isLast _ _)

/-- What handing the lock to the tasks of `granted` does to the memory. -/
structure HandsOver (m : LockMemory) (l : InfoLock Nat) (granted : List (Nat × LockMode))
    (h : Nat) (after : LockMemory) : Prop where
  chain : Chain after.next h (granted.map Prod.fst) 0
  mode : ∀ w ∈ granted, w.1 ≠ 0 ∧ modeOf (after.tasks w.1).readLock = w.2
  others : ∀ t, t ∉ l.waiting.map Prod.fst → after.tasks t = m.tasks t

theorem tasks_resetTail : m.resetTail.tasks = m.tasks := by
  unfold resetTail
  split
  · rfl
  · rfl

theorem head_resetTail : m.resetTail.head = m.head := by
  unfold resetTail
  split
  · rfl
  · rfl

theorem count_resetTail : m.resetTail.count = m.count := by
  unfold resetTail
  split
  · rfl
  · rfl

theorem next_resetTail : m.resetTail.next = m.next := by
  funext task
  exact next_congr (congrFun tasks_resetTail task)

theorem tailBehind_append {front back : List Nat} (nonempty : back ≠ []) :
    tailBehind (front ++ back) = tailBehind back := by
  rw [tailBehind, tailBehind, List.getLast?_append_of_ne_nil _ nonempty]

/-- The lock after its count has been set and the first waiting tasks have been
cut off. -/
theorem Represents.cut {l : InfoLock Nat} (represents : m.Represents l)
    {granted later : List (Nat × LockMode)} (isWaiting : l.waiting = granted ++ later)
    (nonempty : granted ≠ []) (count : Int) {after : LockMemory}
    (isAfter : after = { m.cut (tailBehind (granted.map Prod.fst)) with count := count }) :
    after.resetTail.Represents ⟨count, later⟩ ∧ HandsOver m l granted m.head after.resetTail := by
  have chain := represents.chain
  have nodup := represents.nodup
  have isTail := represents.tail
  have mode := represents.mode
  have notWaiting : ∀ t, t ∉ l.waiting.map Prod.fst →
      t ∉ granted.map Prod.fst ++ later.map Prod.fst := by
    intro t
    rw [isWaiting, List.map_append]
    exact id
  rw [isWaiting] at mode
  rw [isWaiting, List.map_append] at chain nodup isTail
  obtain ⟨before, last, isGranted⟩ : ∃ before last, granted.map Prod.fst = before ++ [last] := by
    rcases List.eq_nil_or_concat (granted.map Prod.fst) with isEmpty | ⟨before, last, isList⟩
    · exact absurd (List.map_eq_nil_iff.mp isEmpty) nonempty
    · exact ⟨before, last, isList.trans (List.concat_eq_append ..)⟩
  rw [isGranted] at chain nodup notWaiting
  rw [isGranted, tailBehind_append_singleton] at isAfter
  have isCut := cut_spec chain nodup
  have sameNext : after.next = (m.cut (.next last)).next := by
    rw [isAfter]
    rfl
  have sameHead : after.head = (m.cut (.next last)).head := by
    rw [isAfter]
  have sameTasks : after.tasks = (m.cut (.next last)).tasks := by
    rw [isAfter]
  have sameMode : ∀ t, modeOf (after.resetTail.tasks t).readLock = modeOf (m.tasks t).readLock := by
    intro t
    rw [tasks_resetTail, sameTasks, isCut.readLock]
  constructor
  · constructor
    · rw [count_resetTail, isAfter]
    · rw [next_resetTail, head_resetTail, sameNext, sameHead]
      exact isCut.backChain
    · have isEmpty := chain_null_iff isCut.backChain
      rw [← sameHead, List.map_eq_nil_iff] at isEmpty
      by_cases isNull : after.head = 0
      · rw [resetTail, if_pos isNull, isEmpty.mp isNull]
        rfl
      · have someLater : later.map Prod.fst ≠ [] := by
          rw [ne_eq, List.map_eq_nil_iff]
          exact fun nothing => isNull (isEmpty.mpr nothing)
        rw [resetTail, if_neg isNull, isAfter, ← tailBehind_append someLater]
        exact isTail
    · exact (List.nodup_append.mp nodup).2.1
    · intro w member
      rw [sameMode]
      exact mode w (List.mem_append_right _ member)
  · constructor
    · rw [next_resetTail, sameNext, isGranted]
      exact isCut.frontChain
    · intro w member
      rw [sameMode]
      exact mode w (List.mem_append_left _ member)
    · intro t absent
      rw [tasks_resetTail, sameTasks]
      exact isCut.others t (notWaiting t absent)

theorem modeOf_eq_read {readLock : Bool} : modeOf readLock = .read ↔ readLock = true := by
  cases readLock with
  | true => exact iff_of_true rfl rfl
  | false => exact iff_of_false LockMode.noConfusion Bool.noConfusion

theorem modeOf_eq_write {readLock : Bool} : modeOf readLock = .write ↔ readLock = false := by
  cases readLock with
  | true => exact iff_of_false LockMode.noConfusion Bool.noConfusion
  | false => exact iff_of_true rfl rfl

theorem Represents.takeReaders {l : InfoLock Nat} (represents : m.Represents l) {task : Nat}
    {readers later : List (Nat × LockMode)}
    (isWaiting : l.waiting = (task, .read) :: readers ++ later)
    (areReaders : ∀ w ∈ readers, w.2 = .read) (isWriter : ∀ w, later.head? = some w → w.2 = .write)
    {depth : Nat} (deep : readers.length < depth) :
    m.takeReaders depth task =
      .ok { m.cut (tailBehind (((task, LockMode.read) :: readers).map Prod.fst)) with
        count := readers.length + 1 } := by
  have chain := represents.chain
  have nodup := represents.nodup
  have isTail := represents.tail
  have mode := represents.mode
  rw [isWaiting, List.cons_append, List.map_cons, List.map_append] at chain nodup isTail
  rw [isWaiting] at mode
  have found :
      m.skipReaders depth (.next task) 1 =
        .ok (tailBehind (task :: readers.map Prod.fst), 1 + (readers.map Prod.fst).length) := by
    apply skipReaders_spec (chain.1 ▸ chain) nodup isTail
    · intro t member
      obtain ⟨w, inReaders, same⟩ := List.mem_map.mp member
      have isMode := (mode w (List.mem_append_left _ (List.mem_cons_of_mem _ inReaders))).2
      rw [areReaders w inReaders, same] at isMode
      exact modeOf_eq_read.mp isMode
    · intro t isFirst
      rw [List.head?_map, Option.map_eq_some_iff] at isFirst
      obtain ⟨w, isHead, same⟩ := isFirst
      have isMode := (mode w (List.mem_append_right _ (List.mem_of_head? isHead))).2
      rw [isWriter w isHead, same] at isMode
      exact modeOf_eq_write.mp isMode
    · rw [List.length_map]
      exact deep
  rw [LockMemory.takeReaders, found, List.length_map, Nat.add_comm]
  simp only [Outcome.ok_bind, Outcome.pure_eq, List.map_cons, Int.natCast_succ]

theorem processList_idle {depth : Nat} (idle : ¬ (m.count = 0 ∧ m.head ≠ 0)) :
    m.processList depth = .ok (m, 0) :=
  if_neg idle

theorem processList_of_reader {depth : Nat} {taken : LockMemory} (free : m.count = 0)
    (waits : m.head ≠ 0) (isReader : (m.tasks m.head).readLock = true)
    (run : m.takeReaders depth m.head = .ok taken) :
    m.processList depth = .ok (taken.resetTail, m.head) := by
  rw [processList, if_pos ⟨free, waits⟩, if_pos isReader, run]
  rfl

theorem processList_of_writer {depth : Nat} (free : m.count = 0) (waits : m.head ≠ 0)
    (isWriter : (m.tasks m.head).readLock = false) :
    m.processList depth = .ok ((m.takeWriter m.head).resetTail, m.head) := by
  rw [processList, if_pos ⟨free, waits⟩, if_neg (by rw [isWriter]; exact Bool.noConfusion)]
  rfl

theorem exists_readers (list : List (Nat × LockMode)) :
    ∃ readers later,
      list.takeWhile (fun w => w.2 = .read) = readers ∧
        list.dropWhile (fun w => w.2 = .read) = later ∧ readers ++ later = list ∧
          (∀ w ∈ readers, w.2 = .read) ∧ ∀ w, later.head? = some w → w.2 = .write := by
  refine ⟨_, _, rfl, rfl, List.takeWhile_append_dropWhile, ?_, ?_⟩
  · intro w member
    simpa using List.mem_takeWhile_imp member
  · intro w isFirst
    have notReader := List.head?_dropWhile_not (fun w : Nat × LockMode => w.2 = .read) list
    rw [isFirst] at notReader
    cases isMode : w.2 with
    | read => simp [isMode] at notReader
    | write => rfl

/-- `process_list` computes what `InfoLock` describes, and `h` is the first of
the tasks that it hands the lock to. -/
theorem Represents.processList {l : InfoLock Nat} (represents : m.Represents l) :
    ∃ after h, Outcome.Returns (fun depth => m.processList depth) (after, h) ∧
      after.Represents l.processList.1 ∧ HandsOver m l l.processList.2 h after := by
  have nothing : HandsOver m l [] 0 m :=
    ⟨rfl, fun _ member => absurd member List.not_mem_nil, fun _ _ => rfl⟩
  have count := represents.count
  have headIff := represents.head_eq_zero_iff
  unfold InfoLock.processList
  by_cases free : l.count = 0
  · rw [if_pos free]
    rw [free] at count
    cases isWaiting : l.waiting with
    | nil =>
        have isNull := headIff.mpr isWaiting
        exact
          ⟨m, 0, Outcome.Returns.of_forall fun depth => processList_idle fun both => both.2 isNull,
           represents, nothing⟩
    | cons w rest =>
        have waits : m.head ≠ 0 := by
          rw [ne_eq, headIff, isWaiting]
          exact List.cons_ne_nil _ _
        obtain ⟨task, mode⟩ := w
        have isHead : m.head = task := by
          have chain := represents.chain
          rw [isWaiting] at chain
          exact chain.1
        have isMode : modeOf (m.tasks m.head).readLock = mode :=
          isHead ▸ (represents.mode _ (isWaiting ▸ List.mem_cons_self)).2
        rw [← isHead] at isWaiting ⊢
        cases mode with
        | read =>
            obtain ⟨readers, later, isReaders, isLater, parts, areReaders, isWriter⟩ :=
              exists_readers rest
            simp only [isReaders, isLater]
            have whole : l.waiting = (m.head, LockMode.read) :: readers ++ later := by
              rw [isWaiting, List.cons_append, parts]
            obtain ⟨representsAfter, handsOver⟩ :=
              represents.cut whole (List.cons_ne_nil _ _) (readers.length + 1) rfl
            refine ⟨_, m.head, ⟨readers.length + 1, ?_⟩, representsAfter, handsOver⟩
            intro depth deep
            exact
              processList_of_reader count waits (modeOf_eq_read.mp isMode)
                (represents.takeReaders whole areReaders isWriter deep)
        | write =>
            have whole : l.waiting = [(m.head, LockMode.write)] ++ rest := isWaiting
            obtain ⟨representsAfter, handsOver⟩ :=
              represents.cut whole (List.cons_ne_nil _ _) (-1) rfl
            exact
              ⟨_, m.head,
               Outcome.Returns.of_forall fun depth =>
                 processList_of_writer count waits (modeOf_eq_write.mp isMode),
               representsAfter, handsOver⟩
  · rw [if_neg free]
    exact
      ⟨m, 0, Outcome.Returns.of_forall fun depth =>
         processList_idle fun both => free (count.symm.trans both.1),
       represents, nothing⟩

/-- `read_unlock` and `write_unlock` compute what `InfoLock` describes. -/
theorem Represents.unlock {l next : InfoLock Nat} {granted : List (Nat × LockMode)}
    {mode : LockMode} (represents : m.Represents l)
    (run : l.unlock mode = some (next, granted)) :
    ∃ after h, Outcome.Returns (fun depth => m.unlock depth mode) (after, h) ∧
      after.Represents next ∧ HandsOver m l granted h after := by
  have released : ∀ count : Int,
      ({ m with count := count } : LockMemory).Represents ⟨count, l.waiting⟩ := fun count =>
    ⟨rfl, represents.chain, represents.tail, represents.nodup, represents.mode⟩
  have count := represents.count
  cases mode with
  | read =>
      rw [InfoLock.unlock, InfoLock.readUnlock, Option.ite_none_right_eq_some,
        Option.some.injEq] at run
      obtain ⟨after, h, returns, representsAfter, handsOver⟩ :=
        (released (l.count - 1)).processList
      rw [run.2] at representsAfter handsOver
      refine ⟨after, h, ?_, representsAfter, handsOver.chain, handsOver.mode, handsOver.others⟩
      rw [← count] at returns
      have isReader : m.count > 0 := count.symm ▸ run.1
      simpa only [LockMemory.unlock, LockMemory.readUnlock, if_pos isReader] using returns
  | write =>
      rw [InfoLock.unlock, InfoLock.writeUnlock, Option.ite_none_right_eq_some,
        Option.some.injEq] at run
      obtain ⟨after, h, returns, representsAfter, handsOver⟩ :=
        (released (l.count + 1)).processList
      rw [run.2] at representsAfter handsOver
      refine ⟨after, h, ?_, representsAfter, handsOver.chain, handsOver.mode, handsOver.others⟩
      rw [← count] at returns
      have isWriter : m.count = -1 := count.trans run.1
      simpa only [LockMemory.unlock, LockMemory.writeUnlock, if_pos isWriter] using returns

end LockMemory

end Rcgo.Scheduler
