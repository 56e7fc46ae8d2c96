import Rcgo.Composition.Graph

/-!
# Footprints of the computed instance sets

A node is computed once its set holds the accesses of every node that can be
reached from it.  Sets never shrink, so it does not matter which entry point
computed a shared node, or when.
-/

namespace Rcgo.Composition

open Rcgo.Foundation

namespace Graph

variable {g : Graph}

/-- Some node reachable from `n` inserts this access for itself. -/
def Accesses (n : g.NodeId) (inst : InstanceId) (access : ReceiverAccess) : Prop :=
  ∃ m, g.Reach n m ∧ (inst, access) ∈ ownEntries (g.kind m)

/-- No two of the nodes, taken in order, can reach writers of one instance. -/
def WritersApart (nodes : List g.NodeId) : Prop :=
  nodes.Pairwise fun elder younger =>
    ∀ inst, ¬ (Accesses elder inst .accessWrite ∧ Accesses younger inst .accessWrite)

/-- What `instance_set_computed_` stands for. -/
structure ComputedSound (memo : g.Memo) (n : g.NodeId) : Prop where
  children : ∀ m ∈ g.outgoing n, (memo m).computed = true
  covers :
    ∀ inst access, Accesses n inst access → (memo n).set.Covers inst access
  siblings : siblingCheck (g.kind n) ≠ none → WritersApart (g.outgoing n)

def MemoSound (memo : g.Memo) : Prop :=
  ∀ n, (memo n).computed = true → ComputedSound memo n

/-- Computed nodes stay computed and no access is lost. -/
structure MemoGrows (before after : g.Memo) : Prop where
  computed : ∀ n, (before n).computed = true → (after n).computed = true
  covers :
    ∀ n inst access,
      (before n).set.Covers inst access → (after n).set.Covers inst access

theorem MemoGrows.refl (memo : g.Memo) : MemoGrows memo memo :=
  ⟨fun _ computed => computed, fun _ _ _ covered => covered⟩

theorem MemoGrows.trans
    {first second third : g.Memo}
    (before : MemoGrows first second) (after : MemoGrows second third) :
    MemoGrows first third :=
  ⟨fun n computed => after.computed n (before.computed n computed),
   fun n inst access covered =>
     after.covers n inst access (before.covers n inst access covered)⟩

theorem ComputedSound.grow
    {before after : g.Memo} {n : g.NodeId}
    (sound : ComputedSound before n) (grows : MemoGrows before after) :
    ComputedSound after n where
  children m member := grows.computed m (sound.children m member)
  covers inst access accesses :=
    grows.covers n inst access (sound.covers inst access accesses)
  siblings := sound.siblings

theorem memoSound_initialMemo : MemoSound g.initialMemo := by
  intro n computed
  simp [initialMemo] at computed

theorem accesses_of_edge
    {n m : g.NodeId} {inst : InstanceId} {access : ReceiverAccess}
    (member : m ∈ g.outgoing n) (accesses : Accesses m inst access) :
    Accesses n inst access := by
  obtain ⟨target, reach, own⟩ := accesses
  exact ⟨target, Relation.ReflTransGen.head member reach, own⟩

theorem accesses_iff
    {n : g.NodeId} {inst : InstanceId} {access : ReceiverAccess} :
    Accesses n inst access ↔
      (inst, access) ∈ ownEntries (g.kind n) ∨
        ∃ m ∈ g.outgoing n, Accesses m inst access := by
  constructor
  · rintro ⟨target, reach, own⟩
    rcases Relation.ReflTransGen.cases_head reach with same | ⟨m, edge, rest⟩
    · rw [← same] at own
      exact Or.inl own
    · exact Or.inr ⟨m, edge, target, rest, own⟩
  · rintro (own | ⟨m, member, accesses⟩)
    · exact ⟨n, Relation.ReflTransGen.refl, own⟩
    · exact accesses_of_edge member accesses

/-! ## Updates of the memo -/

@[simp]
theorem setEntry_same (memo : g.Memo) (n : g.NodeId) (entry : MemoEntry) :
    setEntry memo n entry n = entry := by
  simp [setEntry]

theorem setEntry_other
    (memo : g.Memo) (entry : MemoEntry) {n m : g.NodeId} (different : m ≠ n) :
    setEntry memo n entry m = memo m := by
  simp [setEntry, different]

theorem memoGrows_setEntry
    {memo : g.Memo} {n : g.NodeId} {entry : MemoEntry}
    (computed : (memo n).computed = true → entry.computed = true)
    (covers :
      ∀ inst access, (memo n).set.Covers inst access → entry.set.Covers inst access) :
    MemoGrows memo (setEntry memo n entry) := by
  constructor
  · intro m wasComputed
    by_cases same : m = n
    · subst same
      rw [setEntry_same]
      exact computed wasComputed
    · rw [setEntry_other memo entry same]
      exact wasComputed
  · intro m inst access covered
    by_cases same : m = n
    · subst same
      rw [setEntry_same]
      exact covers inst access covered
    · rw [setEntry_other memo entry same]
      exact covered

theorem mergeChild_eq_ok
    {memo next : g.Memo} {n m : g.NodeId}
    (merge : mergeChild memo n m = .ok next) :
    next =
        setEntry memo n ⟨(memo n).computed, (memo n).set.addUnion (memo m).set⟩ ∧
      (siblingCheck (g.kind n) ≠ none →
        (memo n).set.isCompatible (memo m).set = true) := by
  unfold mergeChild at merge
  split at merge
  · next noCheck =>
    injection merge with result
    exact ⟨result.symm, fun check => absurd noCheck check⟩
  · split at merge
    · next compatible =>
      injection merge with result
      exact ⟨result.symm, fun _ => compatible⟩
    · cases merge

theorem mergeChild_grows
    {memo next : g.Memo} {n m : g.NodeId}
    (merge : mergeChild memo n m = .ok next) :
    MemoGrows memo next := by
  rw [(mergeChild_eq_ok merge).1]
  exact
    memoGrows_setEntry (fun computed => computed)
      (fun _ _ covered => covered.addUnion_left _)

private theorem mergeChild_sound
    {memo next : g.Memo} {n m : g.NodeId}
    (sound : MemoSound memo) (merge : mergeChild memo n m = .ok next) :
    MemoSound next := by
  have grows := mergeChild_grows merge
  intro k computed
  refine (sound k ?_).grow grows
  rw [(mergeChild_eq_ok merge).1] at computed
  by_cases same : k = n
  · subst same
    simpa using computed
  · rwa [setEntry_other _ _ same] at computed

theorem finishNode_grows (memo : g.Memo) (n : g.NodeId) :
    MemoGrows memo (finishNode memo n) :=
  memoGrows_setEntry (fun _ => rfl) (fun _ _ covered => covered.foldl_insert _)

private theorem finishNode_sound
    {memo : g.Memo} {n : g.NodeId}
    (sound : MemoSound memo)
    (children :
      ∀ m ∈ g.outgoing n,
        (memo m).computed = true ∧
          ∀ inst access, Accesses m inst access → (memo n).set.Covers inst access)
    (siblings : siblingCheck (g.kind n) ≠ none → WritersApart (g.outgoing n)) :
    MemoSound (finishNode memo n) := by
  have grows := finishNode_grows memo n
  intro k computed
  by_cases same : k = n
  · subst same
    refine ⟨?_, ?_, siblings⟩
    · intro m member
      exact grows.computed m (children m member).1
    · intro inst access accesses
      rcases accesses_iff.mp accesses with own | ⟨m, member, below⟩
      · rw [finishNode, setEntry_same]
        exact InstanceSet.covers_foldl_insert_of_mem _ _ own
      · exact grows.covers k inst access ((children m member).2 inst access below)
  · refine (sound k ?_).grow grows
    rwa [finishNode, setEntry_other _ _ same] at computed

/-! ## The recursion -/

/-- What holds while `instance_set` of `n` has merged the children `done`. -/
structure MergeInvariant
    (before : g.Memo) (n : g.NodeId) (done : List g.NodeId) (memo : g.Memo) :
    Prop where
  sound : MemoSound memo
  grows : MemoGrows before memo
  merged :
    ∀ m ∈ done,
      (memo m).computed = true ∧
        ∀ inst access, Accesses m inst access → (memo n).set.Covers inst access
  apart : siblingCheck (g.kind n) ≠ none → WritersApart done

/-- The specification of `instance_set`. -/
structure InstanceSetSpec (before : g.Memo) (n : g.NodeId) (after : g.Memo) :
    Prop where
  sound : MemoSound after
  grows : MemoGrows before after
  computed : (after n).computed = true

private theorem mergeInvariant_step
    {before memo called next : g.Memo} {n m : g.NodeId} {done : List g.NodeId}
    (holds : MergeInvariant before n done memo)
    (call : InstanceSetSpec memo m called)
    (merge : mergeChild called n m = .ok next) :
    MergeInvariant before n (done ++ [m]) next := by
  have mergeGrows := mergeChild_grows merge
  have childCovers := (call.sound m call.computed).covers
  refine ⟨mergeChild_sound call.sound merge,
    (holds.grows.trans call.grows).trans mergeGrows, ?_, ?_⟩
  · intro k member
    rcases List.mem_append.mp member with isDone | isNew
    · obtain ⟨computed, covered⟩ := holds.merged k isDone
      refine ⟨mergeGrows.computed k (call.grows.computed k computed), ?_⟩
      intro inst access accesses
      exact
        mergeGrows.covers n inst access
          (call.grows.covers n inst access (covered inst access accesses))
    · rw [List.mem_singleton.mp isNew]
      refine ⟨mergeGrows.computed m call.computed, ?_⟩
      intro inst access accesses
      rw [(mergeChild_eq_ok merge).1, setEntry_same]
      exact (childCovers inst access accesses).addUnion_right _
  · intro check
    refine List.pairwise_append.mpr ⟨holds.apart check, List.pairwise_singleton _ _, ?_⟩
    rintro elder isDone younger isNew inst ⟨elderWrites, youngerWrites⟩
    rw [List.mem_singleton.mp isNew] at youngerWrites
    have elderCovered :=
      call.grows.covers n inst .accessWrite
        ((holds.merged elder isDone).2 inst .accessWrite elderWrites)
    have incompatible :=
      InstanceSet.isCompatible_eq_false elderCovered
        (childCovers inst .accessWrite youngerWrites)
    rw [(mergeChild_eq_ok merge).2 check] at incompatible
    cases incompatible

theorem instanceSet_spec :
    ∀ {depth : Nat} {before after : g.Memo} {n : g.NodeId},
      MemoSound before → g.instanceSet depth before n = .ok after →
        InstanceSetSpec before n after
  | 0, _, _, _, _, run => by
      cases run
  | depth + 1, before, after, n, sound, run => by
      unfold instanceSet at run
      split at run
      · next computed =>
        injection run with result
        rw [← result]
        exact ⟨sound, MemoGrows.refl before, computed⟩
      · rw [Outcome.bind_eq_ok] at run
        obtain ⟨memo, loop, finish⟩ := run
        have holds : MergeInvariant before n (g.outgoing n) memo := by
          refine Outcome.foldlM_invariant (MergeInvariant before n) ?_ ?_ loop
          · intro done m rest state next _ holds step
            rw [Outcome.bind_eq_ok] at step
            obtain ⟨called, call, merge⟩ := step
            exact mergeInvariant_step holds (instanceSet_spec holds.sound call) merge
          · exact ⟨sound, MemoGrows.refl before,
              fun _ member => absurd member List.not_mem_nil,
              fun _ => List.Pairwise.nil⟩
        rw [Outcome.pure_eq, Outcome.ok.injEq] at finish
        rw [← finish]
        refine ⟨finishNode_sound holds.sound holds.merged holds.apart,
          holds.grows.trans (finishNode_grows memo n), ?_⟩
        simp [finishNode]

/-- Any sequence of calls of `instance_set` leaves a sound memo in which the
called nodes are computed. -/
theorem instanceSet_calls
    {depth : Nat} {before after : g.Memo} {calls : List g.NodeId}
    (sound : MemoSound before)
    (run : calls.foldlM (g.instanceSet depth) before = .ok after) :
    MemoSound after ∧ MemoGrows before after ∧
      ∀ n ∈ calls, (after n).computed = true := by
  refine
    Outcome.foldlM_invariant
      (fun done memo =>
        MemoSound memo ∧ MemoGrows before memo ∧
          ∀ n ∈ done, (memo n).computed = true)
      ?_ ⟨sound, MemoGrows.refl before, fun _ member => absurd member List.not_mem_nil⟩
      run
  rintro done n rest memo next _ ⟨memoSound, grows, computed⟩ call
  have spec := instanceSet_spec memoSound call
  refine ⟨spec.sound, grows.trans spec.grows, ?_⟩
  intro m member
  rcases List.mem_append.mp member with isDone | isNew
  · exact spec.grows.computed m (computed m isDone)
  · rw [List.mem_singleton.mp isNew]
    exact spec.computed

/-! ## The passes -/

theorem computeDependentInstances_sound
    {depth : Nat} {memo : g.Memo} {links : List (InstanceId × InstanceId)}
    (run : g.computeDependentInstances depth = .ok (memo, links)) :
    MemoSound memo := by
  refine
    Outcome.foldlM_invariant (fun _ state => MemoSound state.1)
      ?_ memoSound_initialMemo run
  intro _ a _ state next _ sound step
  refine
    Outcome.foldlM_invariant (fun _ state => MemoSound state.1)
      ?_ sound step
  intro _ n _ state next _ sound step
  rw [Outcome.bind_eq_ok] at step
  obtain ⟨called, call, result⟩ := step
  have spec := instanceSet_spec sound call
  split at result
  · rw [Outcome.pure_eq, Outcome.ok.injEq] at result
    rw [← result]
    exact spec.sound
  · rw [Outcome.pure_eq, Outcome.ok.injEq] at result
    rw [← result]
    exact spec.sound

theorem Accepted.memoSound
    {memo : g.Memo} (accepted : g.Accepted memo) :
    MemoSound memo ∧ ∀ a ∈ g.actions, (memo a).computed = true := by
  obtain ⟨depth, run⟩ := accepted
  unfold analyze at run
  rw [Outcome.bind_eq_ok] at run
  obtain ⟨⟨dependent, links⟩, elaborated, run⟩ := run
  rw [Outcome.bind_eq_ok] at run
  obtain ⟨_, _, run⟩ := run
  obtain ⟨sound, _, computed⟩ :=
    instanceSet_calls (computeDependentInstances_sound elaborated) run
  exact ⟨sound, computed⟩

end Graph

end Rcgo.Composition
