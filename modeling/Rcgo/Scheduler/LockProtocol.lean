import Rcgo.Scheduler.WaitingList

/-!
# The protocol of an instance lock

Tasks call `read_lock`, `write_lock` and the two unlock functions of one
`info_t` in any order.  A task that is told to wait does nothing until it is
put on its ready list; the member `next` of a task that does not wait belongs
to the lists of its executor.
-/

namespace Rcgo.Scheduler

open Rcgo.Foundation

universe u

namespace InfoLock

variable {τ : Type u}

/-- The count describes these holders: one writer, or some readers. -/
def HeldBy (l : InfoLock τ) (holders : List (τ × LockMode)) : Prop :=
  (l.count = -1 ∧ ∃ t, holders = [(t, .write)]) ∨
    (l.count = holders.length ∧ ∀ holder ∈ holders, holder.2 = .read)

theorem HeldBy.nil_of_free {l : InfoLock τ} {holders : List (τ × LockMode)}
    (held : l.HeldBy holders) (free : l.count = 0) : holders = [] := by
  rcases held with ⟨isWriter, _⟩ | ⟨isCount, _⟩
  · omega
  · exact List.length_eq_zero_iff.mp (by omega)

theorem HeldBy.lock {l next : InfoLock τ} {holders : List (τ × LockMode)} {task : τ}
    {mode : LockMode} (held : l.HeldBy holders) (occupied : l.waiting ≠ [] → l.count ≠ 0)
    (call : l.lock task mode = (next, false)) :
    l.waiting = [] ∧ next.waiting = [] ∧ next.HeldBy (holders ++ [(task, mode)]) := by
  rcases lock_cases l task mode with ⟨count, granted, modes, bypasses⟩ | ⟨enqueued, _⟩
  · rw [granted, Prod.mk.injEq] at call
    obtain ⟨rfl, _⟩ := call
    have nobody : l.waiting = [] := by
      rcases bypasses with free | nobody
      · exact Classical.not_not.mp fun waits => occupied waits free
      · exact nobody
    refine ⟨nobody, nobody, ?_⟩
    rcases modes with ⟨rfl, rfl, shared⟩ | ⟨rfl, rfl, free⟩
    · rcases held with ⟨isWriter, _⟩ | ⟨isCount, areReaders⟩
      · omega
      · refine Or.inr ⟨?_, ?_⟩
        · rw [List.length_append, List.length_singleton, Int.natCast_add, ← isCount]
          rfl
        · intro holder member
          rcases List.mem_append.mp member with old | new
          · exact areReaders holder old
          · rw [List.mem_singleton.mp new]
    · rw [held.nil_of_free free]
      exact Or.inl ⟨rfl, task, rfl⟩
  · rw [enqueued] at call
    cases congrArg Prod.snd call

theorem lock_enqueued {l : InfoLock τ} {task : τ} {mode : LockMode}
    (call : (l.lock task mode).2 = true) :
    (l.lock task mode).1 = ⟨l.count, l.waiting ++ [(task, mode)]⟩ ∧ l.count ≠ 0 := by
  rcases lock_cases l task mode with ⟨count, granted, _⟩ | ⟨enqueued, busy⟩
  · rw [granted] at call
    cases call
  · rw [enqueued]
    exact ⟨rfl, busy⟩

/-- `process_list` gives a free lock to the readers at the front of the list or
to the writer there. -/
theorem processList_heldBy {l next : InfoLock τ} {granted : List (τ × LockMode)}
    (free : l.count = 0) (process : l.processList = (next, granted)) :
    l.waiting = granted ++ next.waiting ∧ next.HeldBy granted ∧
      (next.waiting ≠ [] → next.count ≠ 0) := by
  unfold processList at process
  rw [if_pos free] at process
  split at process
  · next isEmpty =>
    rw [Prod.mk.injEq] at process
    obtain ⟨rfl, rfl⟩ := process
    exact ⟨rfl, Or.inr ⟨free, fun _ member => absurd member List.not_mem_nil⟩,
      fun waits => absurd isEmpty waits⟩
  · next task rest shape =>
    rw [Prod.mk.injEq] at process
    obtain ⟨rfl, rfl⟩ := process
    have parts :=
      List.takeWhile_append_dropWhile (p := fun w : τ × LockMode => w.2 = .read) (l := rest)
    refine ⟨?_, Or.inr ⟨?_, ?_⟩, fun _ => ?_⟩
    · rw [shape, List.cons_append, parts]
    · rw [List.length_cons, Int.natCast_succ]
    · intro holder member
      rcases List.mem_cons.mp member with isFirst | inReaders
      · rw [isFirst]
      · simpa using List.mem_takeWhile_imp inReaders
    · simp only
      omega
  · next task rest shape =>
    rw [Prod.mk.injEq] at process
    obtain ⟨rfl, rfl⟩ := process
    exact ⟨shape, Or.inl ⟨rfl, task, rfl⟩, fun _ => by simp⟩

theorem HeldBy.unlock [DecidableEq τ] {l : InfoLock τ} {holders : List (τ × LockMode)}
    {holder : τ × LockMode} (held : l.HeldBy holders) (member : holder ∈ holders) :
    ∃ next granted, l.unlock holder.2 = some (next, granted) ∧
      l.waiting = granted ++ next.waiting ∧ next.HeldBy (holders.erase holder ++ granted) ∧
      (next.waiting ≠ [] → next.count ≠ 0) ∧ (granted ≠ [] → holders.erase holder = []) := by
  rcases held with ⟨isWriter, t, isHolders⟩ | ⟨isCount, areReaders⟩
  · rw [isHolders, List.mem_singleton] at member
    have nobody : holders.erase holder = [] := by
      rw [isHolders, member, List.erase_cons_head]
    have run : l.unlock holder.2 = some (processList ⟨0, l.waiting⟩) := by
      rw [member]
      simp [InfoLock.unlock, writeUnlock, isWriter]
    obtain ⟨whole, heldAfter, occupiedAfter⟩ :=
      processList_heldBy (l := ⟨0, l.waiting⟩) rfl rfl
    refine ⟨_, _, run, whole, ?_, occupiedAfter, fun _ => nobody⟩
    rw [nobody]
    exact heldAfter
  · have positive := List.length_pos_of_mem member
    have isReader : l.count > 0 := by omega
    have run : l.unlock holder.2 = some (processList ⟨l.count - 1, l.waiting⟩) := by
      rw [areReaders holder member]
      simp [InfoLock.unlock, readUnlock, isReader]
    have others : ((holders.erase holder).length : Int) = l.count - 1 := by
      rw [List.length_erase_of_mem member]
      omega
    have othersRead : ∀ other ∈ holders.erase holder, other.2 = .read := fun other inOthers =>
      areReaders other (List.mem_of_mem_erase inOthers)
    by_cases last : l.count - 1 = 0
    · have nobody : holders.erase holder = [] := List.length_eq_zero_iff.mp (by omega)
      obtain ⟨whole, heldAfter, occupiedAfter⟩ :=
        processList_heldBy (l := ⟨l.count - 1, l.waiting⟩) last rfl
      refine ⟨_, _, run, whole, ?_, occupiedAfter, fun _ => nobody⟩
      rw [nobody]
      exact heldAfter
    · rw [processList_busy last] at run
      refine ⟨_, _, run, rfl, ?_, fun _ => last, fun some => absurd rfl some⟩
      rw [List.append_nil]
      exact Or.inr ⟨others.symm, othersRead⟩

end InfoLock

/-! ## Runs -/

/-- A call of `read_lock` or `write_lock`: the task and the mode. -/
abbrev Request :=
  Nat × LockMode

/-- The lock and what has happened to it. -/
structure LockProtocol where
  memory : LockMemory
  /-- the local variable `h` of `process_list`, by the task whose call it is -/
  signalling : Nat → Nat
  /-- the calls, in their order -/
  asked : List Request
  /-- the requests that the lock was given to, in this order -/
  granted : List Request
  /-- the granted requests that have not been undone -/
  holders : List Request
  /-- the tasks that were enqueued and have not reached their ready list -/
  blocked : List Nat

namespace LockProtocol

/-- What a task does. -/
inductive Event where
  | lock (task : Nat) (mode : LockMode)
  | unlock (task : Nat) (mode : LockMode)
  /-- one iteration of the signalling loop -/
  | signal (task : Nat)
  /-- the lists of an executor store a task behind the task -/
  | relink (task : Nat) (value : Nat)

def initial (tasks : Nat → TaskNode) : LockProtocol :=
  ⟨LockMemory.initial tasks, fun _ => 0, [], [], [], []⟩

/-- The task runs, and is not in the signalling loop. -/
def CanCall (s : LockProtocol) (task : Nat) : Prop :=
  task ≠ 0 ∧ task ∉ s.blocked ∧ s.signalling task = 0

/-- The steps.  A task is on no list when it asks for the lock, and it unlocks
what it holds. -/
inductive Step (s : LockProtocol) : Event → LockProtocol → Prop
  | granted {task mode m} :
      s.CanCall task → (s.memory.tasks task).next = 0 →
        s.memory.lock task mode = .ok (m, false) →
          Step s (.lock task mode)
            { s with
              memory := m
              asked := s.asked ++ [(task, mode)]
              granted := s.granted ++ [(task, mode)]
              holders := s.holders ++ [(task, mode)] }
  | enqueued {task mode m} :
      s.CanCall task → (s.memory.tasks task).next = 0 →
        s.memory.lock task mode = .ok (m, true) →
          Step s (.lock task mode)
            { s with
              memory := m
              asked := s.asked ++ [(task, mode)]
              blocked := s.blocked ++ [task] }
  /-- the tasks from `h` on have been given the lock -/
  | unlock {task mode m h handed} :
      s.CanCall task → (task, mode) ∈ s.holders →
        Outcome.Returns (fun depth => s.memory.unlock depth mode) (m, h) →
          Chain m.next h (handed.map Prod.fst) 0 →
            (∀ w ∈ handed, LockMemory.modeOf (m.tasks w.1).readLock = w.2) →
              Step s (.unlock task mode)
                { s with
                  memory := m
                  signalling := Function.update s.signalling task h
                  granted := s.granted ++ handed
                  holders := s.holders.erase (task, mode) ++ handed }
  | signal {task m next} :
      s.signalling task ≠ 0 → s.memory.signal (s.signalling task) = .ok (m, next) →
        Step s (.signal task)
          { s with
            memory := m
            signalling := Function.update s.signalling task next
            blocked := s.blocked.erase (s.signalling task) }
  | relink {task value} :
      task ∉ s.blocked →
        Step s (.relink task value) { s with memory := s.memory.setNext task value }

/-- The states of all interleavings. -/
inductive Reachable : LockProtocol → Prop
  | initial {tasks} : Reachable (initial tasks)
  | step {s event after} : Reachable s → Step s event after → Reachable after

/-- Every call that a task may make returns: no assertion fails and no member
of `NULL` is used. -/
structure Serves (s : LockProtocol) : Prop where
  lock :
    ∀ task mode, s.CanCall task → (s.memory.tasks task).next = 0 →
      ∃ after, Step s (.lock task mode) after
  unlock :
    ∀ task mode, s.CanCall task → (task, mode) ∈ s.holders →
      ∃ after, Step s (.unlock task mode) after
  signal : ∀ task, s.signalling task ≠ 0 → ∃ after, Step s (.signal task) after

/-! ## The invariant -/

/-- The list in memory is the one of `l`, and the tasks of `pending` have been
given the lock and wait for their signal. -/
structure Described (s : LockProtocol) (l : InfoLock Nat) (pending : List Nat) : Prop where
  represents : s.memory.Represents l
  held : l.HeldBy s.holders
  occupied : l.waiting ≠ [] → l.count ≠ 0
  order : s.asked = s.granted ++ l.waiting
  blocked : s.blocked = pending ++ l.waiting.map Prod.fst
  nodup : s.blocked.Nodup
  chain : ∀ t, s.signalling t ≠ 0 → Chain s.memory.next (s.signalling t) pending 0
  someone : pending ≠ [] → ∃ t, s.signalling t ≠ 0
  unique : ∀ t u, s.signalling t ≠ 0 → s.signalling u ≠ 0 → t = u
  hold : ∀ t ∈ pending, ∃ mode, (t, mode) ∈ s.holders

variable {s after : LockProtocol} {l : InfoLock Nat} {pending : List Nat}

theorem initial_described (tasks : Nat → TaskNode) :
    (initial tasks).Described InfoLock.initial [] where
  represents := LockMemory.initial_represents tasks
  held := Or.inr ⟨rfl, fun _ member => absurd member List.not_mem_nil⟩
  occupied some := absurd rfl some
  order := rfl
  blocked := rfl
  nodup := List.nodup_nil
  chain _ some := absurd rfl some
  someone some := absurd rfl some
  unique _ _ some := absurd rfl some
  hold _ member := absurd member List.not_mem_nil

namespace Described

theorem notWaiting (described : s.Described l pending) {task : Nat} (free : task ∉ s.blocked) :
    task ∉ l.waiting.map Prod.fst := by
  intro member
  rw [described.blocked] at free
  exact free (List.mem_append_right _ member)

theorem notPending (described : s.Described l pending) {task : Nat} (free : task ∉ s.blocked) :
    task ∉ pending := by
  intro member
  rw [described.blocked] at free
  exact free (List.mem_append_left _ member)

theorem apart (described : s.Described l pending) {task : Nat} (member : task ∈ pending) :
    task ∉ l.waiting.map Prod.fst := by
  intro waits
  have nodup := described.nodup
  rw [described.blocked] at nodup
  exact (List.nodup_append.mp nodup).2.2 task member task waits rfl

theorem chain_congr (described : s.Described l pending) {m : LockMemory}
    (same : ∀ t ∈ pending, m.tasks t = s.memory.tasks t) :
    ∀ t, s.signalling t ≠ 0 → Chain m.next (s.signalling t) pending 0 := by
  intro t isSignalling
  apply (described.chain t isSignalling).congr
  intro u member
  exact LockMemory.next_congr (same u member)

theorem granted (described : s.Described l pending) {task : Nat} {mode : LockMode} {m : LockMemory}
    (canCall : s.CanCall task) (unlinked : (s.memory.tasks task).next = 0)
    (run : s.memory.lock task mode = .ok (m, false)) :
    ∃ next, Described
      { s with
        memory := m
        asked := s.asked ++ [(task, mode)]
        granted := s.granted ++ [(task, mode)]
        holders := s.holders ++ [(task, mode)] } next pending := by
  have absent := described.notWaiting canCall.2.1
  obtain ⟨m', run', represents, others⟩ :=
    described.represents.lock canCall.1 unlinked absent mode
  rw [run, Outcome.ok.injEq, Prod.mk.injEq] at run'
  obtain ⟨rfl, isFalse⟩ := run'
  have call : l.lock task mode = ((l.lock task mode).1, false) := Prod.ext rfl isFalse.symm
  obtain ⟨nobody, nobodyAfter, held⟩ := described.held.lock described.occupied call
  refine ⟨(l.lock task mode).1, represents, held, ?_, ?_, ?_, described.nodup, ?_,
    described.someone, described.unique, ?_⟩
  · exact fun waits => absurd nobodyAfter waits
  · rw [nobodyAfter, List.append_nil, described.order, nobody, List.append_nil]
  · rw [nobodyAfter, described.blocked, nobody]
  · apply described.chain_congr
    intro t member
    apply others t (described.apart member)
    rintro rfl
    exact described.notPending canCall.2.1 member
  · intro t member
    obtain ⟨mode, holds⟩ := described.hold t member
    exact ⟨mode, List.mem_append_left _ holds⟩

theorem enqueued (described : s.Described l pending) {task : Nat} {mode : LockMode} {m : LockMemory}
    (canCall : s.CanCall task) (unlinked : (s.memory.tasks task).next = 0)
    (run : s.memory.lock task mode = .ok (m, true)) :
    ∃ next, Described
      { s with
        memory := m
        asked := s.asked ++ [(task, mode)]
        blocked := s.blocked ++ [task] } next pending := by
  have absent := described.notWaiting canCall.2.1
  obtain ⟨m', run', represents, others⟩ :=
    described.represents.lock canCall.1 unlinked absent mode
  rw [run, Outcome.ok.injEq, Prod.mk.injEq] at run'
  obtain ⟨rfl, isTrue⟩ := run'
  obtain ⟨isNext, busy⟩ := InfoLock.lock_enqueued isTrue.symm
  rw [isNext] at represents
  refine ⟨_, represents, described.held, fun _ => busy, ?_, ?_, ?_, ?_, described.someone,
    described.unique, described.hold⟩
  · rw [described.order, List.append_assoc]
  · rw [described.blocked, List.append_assoc, List.map_append]
    rfl
  · show (s.blocked ++ [task]).Nodup
    rw [← List.concat_eq_append]
    exact described.nodup.concat canCall.2.1
  · apply described.chain_congr
    intro t member
    apply others t (described.apart member)
    rintro rfl
    exact described.notPending canCall.2.1 member

theorem handed_unique {m : LockMemory} {h : Nat} {first second : List Request}
    (firstChain : Chain m.next h (first.map Prod.fst) 0)
    (secondChain : Chain m.next h (second.map Prod.fst) 0)
    (firstMode : ∀ w ∈ first, LockMemory.modeOf (m.tasks w.1).readLock = w.2)
    (secondMode : ∀ w ∈ second, LockMemory.modeOf (m.tasks w.1).readLock = w.2) :
    first = second := by
  have rebuild : ∀ list : List Request,
      (∀ w ∈ list, LockMemory.modeOf (m.tasks w.1).readLock = w.2) →
        (list.map Prod.fst).map (fun t => (t, LockMemory.modeOf (m.tasks t).readLock)) = list := by
    intro list isMode
    rw [List.map_map]
    have isSame : ∀ w ∈ list,
        ((fun t => (t, LockMemory.modeOf (m.tasks t).readLock)) ∘ Prod.fst) w = id w :=
      fun w member => Prod.ext rfl (isMode w member)
    exact (List.map_congr_left isSame).trans (List.map_id list)
  rw [← rebuild first firstMode, ← rebuild second secondMode,
    Chain.unique LockMemory.next_null firstChain secondChain]

theorem unlock (described : s.Described l pending) {task : Nat} {mode : LockMode} {m : LockMemory}
    {h : Nat} {handed : List Request} (canCall : s.CanCall task)
    (holds : (task, mode) ∈ s.holders)
    (run : Outcome.Returns (fun depth => s.memory.unlock depth mode) (m, h))
    (chain : Chain m.next h (handed.map Prod.fst) 0)
    (isMode : ∀ w ∈ handed, LockMemory.modeOf (m.tasks w.1).readLock = w.2) :
    ∃ next pending', Described
      { s with
        memory := m
        signalling := Function.update s.signalling task h
        granted := s.granted ++ handed
        holders := s.holders.erase (task, mode) ++ handed } next pending' := by
  obtain ⟨next, granted, isNext, whole, held, occupied, alone⟩ := described.held.unlock holds
  obtain ⟨m', h', run', represents, handsOver⟩ := described.represents.unlock isNext
  have same := run.unique run'
  rw [Prod.mk.injEq] at same
  obtain ⟨rfl, rfl⟩ := same
  have isHanded : handed = granted :=
    handed_unique chain handsOver.chain isMode fun w member => (handsOver.mode w member).2
  subst isHanded
  have nodup := described.nodup
  rw [described.blocked, whole, List.map_append] at nodup
  have notCaller : ∀ t ∈ pending, t ≠ task := by
    rintro t member rfl
    exact described.notPending canCall.2.1 member
  have order : s.asked = s.granted ++ handed ++ next.waiting := by
    rw [described.order, whole, List.append_assoc]
  have unchanged : ∀ t ∈ pending, m.tasks t = s.memory.tasks t := fun t member =>
    handsOver.others t (described.apart member)
  by_cases nobody : handed = []
  · -- the lock stays with its other holders, or becomes free
    subst nobody
    have isNull : h = 0 := chain
    have sameSignalling : Function.update s.signalling task h = s.signalling := by
      rw [isNull, ← canCall.2.2]
      exact Function.update_eq_self _ _
    rw [sameSignalling]
    refine ⟨next, pending, represents, held, occupied, order, ?_, described.nodup,
      described.chain_congr unchanged, described.someone, described.unique, ?_⟩
    · rw [described.blocked, whole]
      rfl
    · intro t member
      obtain ⟨otherMode, otherHolds⟩ := described.hold t member
      refine ⟨otherMode, List.mem_append_left _ ((List.mem_erase_of_ne ?_).mpr otherHolds)⟩
      intro same
      exact notCaller t member (congrArg Prod.fst same)
  · -- the caller was the only holder, so nobody waits for a signal any more
    have none : pending = [] := by
      apply List.eq_nil_iff_forall_not_mem.mpr
      intro t member
      obtain ⟨otherMode, otherHolds⟩ := described.hold t member
      have stillHolds : (t, otherMode) ∈ s.holders.erase (task, mode) := by
        apply (List.mem_erase_of_ne _).mpr otherHolds
        intro same
        exact notCaller t member (congrArg Prod.fst same)
      rw [alone nobody] at stillHolds
      exact List.not_mem_nil stillHolds
    have silent : ∀ t, s.signalling t = 0 := by
      intro t
      apply Classical.not_not.mp
      intro isSignalling
      have toEnd := described.chain t isSignalling
      rw [none] at toEnd
      exact isSignalling toEnd
    have isCaller : ∀ t, Function.update s.signalling task h t ≠ 0 → t = task := by
      intro t isSignalling
      by_cases same : t = task
      · exact same
      · rw [Function.update_of_ne same, silent t] at isSignalling
        exact absurd rfl isSignalling
    rw [none, List.nil_append] at nodup
    refine ⟨next, handed.map Prod.fst, represents, held, occupied, order, ?_, ?_, ?_, ?_, ?_, ?_⟩
    · rw [described.blocked, none, whole, List.map_append, List.nil_append]
    · exact described.nodup
    · intro t isSignalling
      show Chain m.next (Function.update s.signalling task h t) (handed.map Prod.fst) 0
      rw [isCaller t isSignalling, Function.update_self]
      exact chain
    · intro _
      refine ⟨task, ?_⟩
      show Function.update s.signalling task h task ≠ 0
      rw [Function.update_self, ne_eq, LockMemory.chain_null_iff chain, List.map_eq_nil_iff]
      exact nobody
    · intro t u first second
      rw [isCaller t first, isCaller u second]
    · intro t member
      obtain ⟨w, inHanded, same⟩ := List.mem_map.mp member
      exact ⟨w.2, List.mem_append_right _ (same ▸ inHanded)⟩

theorem signal (described : s.Described l pending) {task next : Nat} {m : LockMemory}
    (isSignalling : s.signalling task ≠ 0)
    (run : s.memory.signal (s.signalling task) = .ok (m, next)) :
    ∃ pending', Described
      { s with
        memory := m
        signalling := Function.update s.signalling task next
        blocked := s.blocked.erase (s.signalling task) } l pending' := by
  have chain := described.chain task isSignalling
  obtain ⟨rest, successor, isPending, isNext, tail⟩ := chain.exists_cons isSignalling
  have isSuccessor := (LockMemory.next_eq_some.mp isNext).2
  have result : s.memory.signal (s.signalling task) =
      .ok (s.memory.setNext (s.signalling task) 0, successor) := by
    rw [LockMemory.signal, isSuccessor]
    apply if_pos
    rw [LockMemory.tasks_setNext_self]
  rw [run, Outcome.ok.injEq, Prod.mk.injEq] at result
  obtain ⟨rfl, rfl⟩ := result
  have nodup := described.nodup
  rw [described.blocked, isPending, List.cons_append, List.nodup_cons] at nodup
  have isBlocked : s.blocked.erase (s.signalling task) = rest ++ l.waiting.map Prod.fst := by
    rw [described.blocked, isPending, List.cons_append, List.erase_cons_head]
  have isCaller : ∀ t, Function.update s.signalling task next t ≠ 0 → t = task := by
    intro t stillSignalling
    by_cases same : t = task
    · exact same
    · rw [Function.update_of_ne same] at stillSignalling
      exact described.unique t task stillSignalling isSignalling
  have tailAfter : Chain (s.memory.setNext (s.signalling task) 0).next next rest 0 := by
    apply tail.congr
    intro t member
    apply LockMemory.next_congr
    apply LockMemory.tasks_setNext_other
    rintro rfl
    exact nodup.1 (List.mem_append_left _ member)
  refine ⟨rest, ?_, described.held, described.occupied, described.order, isBlocked, ?_, ?_, ?_, ?_,
    ?_⟩
  · apply described.represents.setNext
    exact fun member => nodup.1 (List.mem_append_right _ member)
  · exact described.nodup.erase _
  · intro t stillSignalling
    show Chain _ (Function.update s.signalling task next t) rest 0
    rw [isCaller t stillSignalling, Function.update_self]
    exact tailAfter
  · intro some
    refine ⟨task, ?_⟩
    show Function.update s.signalling task next task ≠ 0
    rw [Function.update_self, ne_eq, LockMemory.chain_null_iff tailAfter]
    exact some
  · intro t u first second
    rw [isCaller t first, isCaller u second]
  · intro t member
    exact described.hold t (isPending ▸ List.mem_cons_of_mem _ member)

theorem relink (described : s.Described l pending) {task : Nat} (free : task ∉ s.blocked)
    (value : Nat) : Described { s with memory := s.memory.setNext task value } l pending := by
  refine ⟨described.represents.setNext (described.notWaiting free) value, described.held,
    described.occupied, described.order, described.blocked, described.nodup, ?_, described.someone,
    described.unique, described.hold⟩
  apply described.chain_congr
  intro t member
  apply LockMemory.tasks_setNext_other
  rintro rfl
  exact described.notPending free member

theorem serves (described : s.Described l pending) : s.Serves where
  lock task mode canCall unlinked := by
    obtain ⟨m, run, _⟩ :=
      described.represents.lock canCall.1 unlinked (described.notWaiting canCall.2.1) mode
    cases isEnqueued : (l.lock task mode).2 with
    | false => exact ⟨_, Step.granted canCall unlinked (isEnqueued ▸ run)⟩
    | true => exact ⟨_, Step.enqueued canCall unlinked (isEnqueued ▸ run)⟩
  unlock task mode canCall holds := by
    obtain ⟨next, granted, isNext, _⟩ := described.held.unlock holds
    obtain ⟨m, h, returns, _, handsOver⟩ := described.represents.unlock isNext
    exact
      ⟨_, Step.unlock canCall holds returns handsOver.chain fun w member =>
        (handsOver.mode w member).2⟩
  signal task isSignalling := by
    refine ⟨_, Step.signal isSignalling (if_pos ?_)⟩
    rw [LockMemory.tasks_setNext_self]

end Described

theorem Step.described {event : Event} (step : Step s event after)
    (described : s.Described l pending) : ∃ l' pending', after.Described l' pending' := by
  cases step with
  | granted canCall unlinked run =>
      obtain ⟨l', described'⟩ := described.granted canCall unlinked run
      exact ⟨l', pending, described'⟩
  | enqueued canCall unlinked run =>
      obtain ⟨l', described'⟩ := described.enqueued canCall unlinked run
      exact ⟨l', pending, described'⟩
  | unlock canCall holds run chain isMode => exact described.unlock canCall holds run chain isMode
  | signal isSignalling run =>
      obtain ⟨pending', described'⟩ := described.signal isSignalling run
      exact ⟨l, pending', described'⟩
  | relink free => exact ⟨l, pending, described.relink free _⟩

theorem Reachable.described (reachable : Reachable s) : ∃ l pending, s.Described l pending := by
  induction reachable with
  | initial => exact ⟨_, _, initial_described _⟩
  | step _ step inductionHypothesis =>
      obtain ⟨l, pending, described⟩ := inductionHypothesis
      exact step.described described

/-! ## Reader/writer protocol -/

/-- What the lock guarantees. -/
structure Sound (s : LockProtocol) : Prop where
  /-- one writer and no reader, or readers only; `count_` tells which -/
  holders :
    (s.memory.count = -1 ∧ ∃ t, s.holders = [(t, .write)]) ∨
      (s.memory.count = s.holders.length ∧ ∀ holder ∈ s.holders, holder.2 = .read)
  /-- the requests are granted in their order, each once; those that are left
  are on the list, which is empty when the lock is free -/
  waiting :
    ∃ waiting, s.asked = s.granted ++ waiting ∧
      Chain s.memory.next s.memory.head (waiting.map Prod.fst) 0 ∧
      s.memory.tail = LockMemory.tailBehind (waiting.map Prod.fst) ∧
      (∀ w ∈ waiting, LockMemory.modeOf (s.memory.tasks w.1).readLock = w.2) ∧
      (waiting ≠ [] → s.memory.count ≠ 0) ∧
      ∃ pending, s.blocked = pending ++ waiting.map Prod.fst ∧
        (pending ≠ [] → ∃ t, s.signalling t ≠ 0)
  /-- a task that was enqueued is on its ready list before the lock is free -/
  free : s.memory.count = 0 → s.blocked = []
  /-- the tasks reach their ready lists in the order in which they were enqueued -/
  signalled : ∀ t, s.signalling t ≠ 0 → s.blocked.head? = some (s.signalling t)

theorem Described.sound (described : s.Described l pending) : s.Sound := by
  have count := described.represents.count
  refine ⟨?_, ?_, ?_, ?_⟩
  · rw [count]
    exact described.held
  · refine ⟨l.waiting, described.order, described.represents.chain, described.represents.tail,
      fun w member => (described.represents.mode w member).2, ?_, pending, described.blocked,
      described.someone⟩
    rw [count]
    exact described.occupied
  · intro isFree
    rw [count] at isFree
    have nobody : l.waiting = [] :=
      Classical.not_not.mp fun waits => described.occupied waits isFree
    have none : pending = [] := by
      apply List.eq_nil_iff_forall_not_mem.mpr
      intro t member
      obtain ⟨mode, holds⟩ := described.hold t member
      rw [described.held.nil_of_free isFree] at holds
      exact List.not_mem_nil holds
    rw [described.blocked, nobody, none]
    rfl
  · intro t isSignalling
    obtain ⟨rest, _, isPending, _⟩ := (described.chain t isSignalling).exists_cons isSignalling
    rw [described.blocked, isPending]
    rfl

/-- In every interleaving of the calls the lock keeps readers and writers
apart, serves the tasks in the order of their calls and fails no call. -/
theorem Reachable.protocol_sound (reachable : Reachable s) : s.Sound ∧ s.Serves := by
  obtain ⟨l, pending, described⟩ := reachable.described
  exact ⟨described.sound, described.serves⟩

/-- One task writes, another one waits to read. -/
theorem protocol_sound_waitingReader :
    ∃ s : LockProtocol, s.holders = [(16, .write)] ∧ s.blocked = [32] ∧ s.Sound ∧ s.Serves := by
  have initially := @Reachable.initial fun _ => ⟨false, 0⟩
  have writes :=
    initially.step (@Step.granted _ 16 .write _ ⟨by decide, List.not_mem_nil, rfl⟩ rfl rfl)
  have waits :=
    writes.step (@Step.enqueued _ 32 .read _ ⟨by decide, List.not_mem_nil, rfl⟩ rfl rfl)
  exact ⟨_, rfl, rfl, waits.protocol_sound⟩

end LockProtocol

end Rcgo.Scheduler
