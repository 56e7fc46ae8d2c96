import Rcgo.Composition.Footprint
import Rcgo.Scheduler.InstanceLocking
import Rcgo.Scheduler.TaskLocking

/-!
# Isolation of transactions

The computed instance sets are what both schedulers lock.  A transaction that
holds its locks therefore excludes every transaction that conflicts with it.
-/

namespace Rcgo.Composition

open Rcgo.Foundation Rcgo.Scheduler

/-- One of the two transactions may write an instance that the other may read
or write. -/
def InstanceSet.Conflicts (s other : InstanceSet) : Prop :=
  ∃ inst,
    (s.Covers inst .accessWrite ∧ other.Covers inst .accessRead) ∨
      (s.Covers inst .accessRead ∧ other.Covers inst .accessWrite)

namespace Graph

variable {g : Graph}

/-- What the schedulers run: the transaction of an action, or the garbage
collection of an instance. -/
inductive Job (g : Graph) where
  | action (a : g.NodeId)
  | collectGarbage (inst : InstanceId)
  deriving DecidableEq

def Job.set (memo : g.Memo) : Job g → InstanceSet
  | .action a => (memo a).set
  | .collectGarbage inst => InstanceSet.empty.insert (inst, .accessWrite)

theorem Accepted.covers
    {memo : g.Memo} (accepted : g.Accepted memo) {a : g.NodeId}
    (isAction : a ∈ g.actions) {inst : InstanceId} {access : ReceiverAccess}
    (accesses : Accesses a inst access) :
    (memo a).set.Covers inst access :=
  (accepted.memoSound.1 a (accepted.memoSound.2 a isAction)).covers inst access accesses

theorem covers_of_calls
    {depth : Nat} {memo : g.Memo} {calls : List g.NodeId}
    (run : calls.foldlM (g.instanceSet depth) g.initialMemo = .ok memo)
    {n : g.NodeId} (called : n ∈ calls) {inst : InstanceId} {access : ReceiverAccess}
    (accesses : Accesses n inst access) :
    (memo n).set.Covers inst access := by
  obtain ⟨sound, _, computed⟩ := instanceSet_calls memoSound_initialMemo run
  exact (sound n (computed n called)).covers inst access accesses

end Graph

private theorem conflicting_entries
    {s other : InstanceSet} (conflict : s.Conflicts other) :
    ∃ inst access access',
      (inst, access) ∈ s.entries ∧ (inst, access') ∈ other.entries ∧
        ((access = .accessWrite ∧ access' ≠ .accessNone) ∨
          (access ≠ .accessNone ∧ access' = .accessWrite)) := by
  have reads : ∀ {granted : ReceiverAccess},
      ReceiverAccess.accessRead ≤ granted → granted ≠ .accessNone := by
    rintro granted enough rfl
    exact absurd enough (by decide)
  obtain ⟨inst, ⟨writes, access', member, enough⟩ | ⟨⟨access, member, enough⟩, writes⟩⟩ :=
    conflict
  · exact ⟨inst, _, access', InstanceSet.covers_write_iff.mp writes, member,
      Or.inl ⟨rfl, reads enough⟩⟩
  · exact ⟨inst, access, _, member, InstanceSet.covers_write_iff.mp writes,
      Or.inr ⟨reads enough, rfl⟩⟩

end Rcgo.Composition

namespace Rcgo.Scheduler

open Rcgo.Foundation Rcgo.Composition

universe u v

theorem LockingState.isolated
    {τ : Type u} [DecidableEq τ] {set : τ → InstanceSet} {s : LockingState τ}
    (reachable : LockingState.Reachable set s) {t u : τ} (different : t ≠ u)
    (first : s.control t = .executing) (second : s.control u = .executing) :
    ¬ (set t).Conflicts (set u) := by
  intro conflict
  have invariant := reachable.invariant
  obtain ⟨inst, access, access', member, member', modes⟩ := conflicting_entries conflict
  have holds : LockingState.Holds set s.control inst t (lockMode access) :=
    ⟨access, by rw [first]; exact member, rfl⟩
  have holds' : LockingState.Holds set s.control inst u (lockMode access') :=
    ⟨access', by rw [second]; exact member', rfl⟩
  rcases modes with ⟨rfl, _⟩ | ⟨_, rfl⟩
  · exact different (invariant.exclusive holds holds').symm
  · exact different (invariant.exclusive holds' holds)

private theorem rwlockMode_isSome
    {access : ReceiverAccess} (uses : access ≠ .accessNone) :
    ∃ mode, rwlockMode access = some mode := by
  cases access with
  | accessNone => exact absurd rfl uses
  | accessRead => exact ⟨.read, rfl⟩
  | accessWrite => exact ⟨.write, rfl⟩

theorem RwlockState.isolated
    {ε : Type u} {α : Type v} [DecidableEq ε] {set : α → InstanceSet}
    {s : RwlockState ε α} (reachable : RwlockState.Reachable set s)
    {e f : ε} (different : e ≠ f) {job job' : α}
    (first : s.control e = .executing job) (second : s.control f = .executing job') :
    ¬ (set job).Conflicts (set job') := by
  intro conflict
  have invariant := reachable.invariant
  obtain ⟨inst, access, access', member, member', modes⟩ := conflicting_entries conflict
  have holds : ∀ mode, rwlockMode access = some mode →
      RwlockState.Holds set s.control inst e mode := by
    intro mode isMode
    exact ⟨access, by rw [first]; exact member, isMode⟩
  have holds' : ∀ mode, rwlockMode access' = some mode →
      RwlockState.Holds set s.control inst f mode := by
    intro mode isMode
    exact ⟨access', by rw [second]; exact member', isMode⟩
  rcases modes with ⟨rfl, uses⟩ | ⟨uses, rfl⟩
  · obtain ⟨mode, isMode⟩ := rwlockMode_isSome uses
    exact different (invariant.exclusive (holds .write rfl) (holds' mode isMode)).symm
  · obtain ⟨mode, isMode⟩ := rwlockMode_isSome uses
    exact different (invariant.exclusive (holds' .write rfl) (holds mode isMode))

end Rcgo.Scheduler

namespace Rcgo.Composition.Graph

open Rcgo.Foundation Rcgo.Scheduler

variable {g : Graph}

/-- Footprint and isolation of an accepted composition: every access that a
transaction of an action may make is in its instance set, whatever order the
sets are computed in, and in both schedulers two transactions that conflict
never execute at the same time. -/
theorem footprint_and_isolation
    {memo : g.Memo} (accepted : g.Accepted memo) :
    (∀ a ∈ g.actions, ∀ inst access,
      Accesses a inst access → (memo a).set.Covers inst access) ∧
    (∀ depth (calls : List g.NodeId) (after : g.Memo),
      calls.foldlM (g.instanceSet depth) g.initialMemo = .ok after →
        ∀ n ∈ calls, ∀ inst access,
          Accesses n inst access → (after n).set.Covers inst access) ∧
    (∀ s : LockingState (Job g), LockingState.Reachable (Job.set memo) s →
      ∀ t u, t ≠ u → s.control t = .executing → s.control u = .executing →
        ¬ (t.set memo).Conflicts (u.set memo)) ∧
    (∀ (executors : Nat) (s : RwlockState (Fin executors) (Job g)),
      RwlockState.Reachable (Job.set memo) s →
        ∀ e f, e ≠ f → ∀ t u, s.control e = .executing t → s.control f = .executing u →
          ¬ (t.set memo).Conflicts (u.set memo)) := by
  refine ⟨?_, ?_, ?_, ?_⟩
  · intro a isAction inst access accesses
    exact accepted.covers isAction accesses
  · intro depth calls after run n called inst access accesses
    exact covers_of_calls run called accesses
  · intro s reachable t u different first second
    exact LockingState.isolated reachable different first second
  · intro executors s reachable e f different t u first second
    exact RwlockState.isolated reachable different first second

theorem footprint_and_isolation_pipeline :
    ∃ memo, pipeline.Accepted memo ∧ (memo (0 : Fin 7)).set.Covers 2 .accessRead := by
  obtain ⟨memo, accepted⟩ := pipeline_accepted
  have pulls : pipeline.Edge (0 : Fin 7) (5 : Fin 7) := List.mem_cons_self
  have binds : pipeline.Edge (5 : Fin 7) (6 : Fin 7) := List.mem_cons_self
  refine ⟨memo, accepted,
    (footprint_and_isolation accepted).1 (0 : Fin 7) List.mem_cons_self 2 _ ?_⟩
  exact ⟨(6 : Fin 7), Relation.ReflTransGen.head pulls (Relation.ReflTransGen.single binds),
    List.mem_cons_self⟩

end Rcgo.Composition.Graph
