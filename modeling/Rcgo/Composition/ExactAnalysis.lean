import Rcgo.Composition.DependentInstances
import Rcgo.Composition.Recursion
import Mathlib.Order.Bounds.Defs

/-!
# What the composition analysis computes and accepts

The instance set of a node holds the strongest access of each instance below the node and
nothing else, so a check of the analysis fails only for a reason that is in the graph.
-/

namespace Rcgo.Composition

open Rcgo.Foundation Relation

/-! ## Instance sets -/

theorem mem_of_mem_insertEntry {v entry : InstanceEntry} {entries : List InstanceEntry}
    (member : entry ∈ insertEntry v entries) : entry = v ∨ entry ∈ entries := by
  induction entries with
  | nil => exact Or.inl (List.mem_singleton.mp member)
  | cons head rest inductionHypothesis =>
      unfold insertEntry at member
      split at member
      · rcases List.mem_cons.mp member with isNew | isOld
        · exact Or.inl isNew
        · exact Or.inr isOld
      · split at member
        · next sameKey =>
          rcases List.mem_cons.mp member with isMerged | inRest
          · rcases max_choice head.2 v.2 with keepsOld | takesNew
            · right
              rw [isMerged, keepsOld]
              exact List.mem_cons_self
            · left
              rw [isMerged, takesNew, ← sameKey]
          · exact Or.inr (List.mem_cons_of_mem _ inRest)
        · rcases List.mem_cons.mp member with isHead | later
          · rw [isHead]
            exact Or.inr List.mem_cons_self
          · rcases inductionHypothesis later with isNew | inRest
            · exact Or.inl isNew
            · exact Or.inr (List.mem_cons_of_mem _ inRest)

namespace InstanceSet

theorem mem_of_mem_foldl_insert {s : InstanceSet} {entry : InstanceEntry}
    {entries : List InstanceEntry} (member : entry ∈ (entries.foldl insert s).entries) :
    entry ∈ s.entries ∨ entry ∈ entries := by
  induction entries generalizing s with
  | nil => exact Or.inl member
  | cons v rest inductionHypothesis =>
      rcases inductionHypothesis member with inInserted | inRest
      · rcases mem_of_mem_insertEntry inInserted with isNew | isOld
        · rw [isNew]
          exact Or.inr List.mem_cons_self
        · exact Or.inl isOld
      · exact Or.inr (List.mem_cons_of_mem _ inRest)

theorem access_unique (s : InstanceSet) {inst : InstanceId} {access other : ReceiverAccess}
    (member : (inst, access) ∈ s.entries) (memberToo : (inst, other) ∈ s.entries) :
    access = other := by
  by_contra different
  have areApart : s.entries.Pairwise fun left right => left.1 ≠ right.1 :=
    s.sorted.imp fun isLess => Nat.ne_of_lt isLess
  have isSymmetric : Std.Symm fun left right : InstanceEntry => left.1 ≠ right.1 :=
    ⟨fun _ _ => Ne.symm⟩
  exact areApart.forall member memberToo (fun same => different (congrArg Prod.snd same)) rfl

theorem exists_of_advance_eq_false {p1 : InstanceEntry} {next : List InstanceEntry → Bool}
    {entries : List InstanceEntry} (isFalse : advance p1 next entries = false) :
    (p1 ∈ entries ∧ p1.2 = .accessWrite) ∨ ∃ rest, rest ⊆ entries ∧ next rest = false := by
  induction entries with
  | nil => cases isFalse
  | cons p2 rest inductionHypothesis =>
      unfold advance at isFalse
      split at isFalse
      · next isConflict =>
        rw [← isConflict.1]
        exact Or.inl ⟨List.mem_cons_self, isConflict.2⟩
      · split at isFalse
        · exact Or.inr ⟨p2 :: rest, List.Subset.refl _, isFalse⟩
        · split at isFalse
          · rcases inductionHypothesis isFalse with ⟨isMember, writes⟩ | ⟨others, areRest, isFalse⟩
            · exact Or.inl ⟨List.mem_cons_of_mem _ isMember, writes⟩
            · exact Or.inr ⟨others, List.subset_cons_of_subset _ areRest, isFalse⟩
          · exact Or.inr ⟨rest, List.subset_cons_self _ _, isFalse⟩

theorem exists_write_of_isCompatible_eq_false {s other : InstanceSet}
    (isFalse : s.isCompatible other = false) :
    ∃ inst, (inst, ReceiverAccess.accessWrite) ∈ s.entries ∧
      (inst, ReceiverAccess.accessWrite) ∈ other.entries := by
  have walk : ∀ left right : List InstanceEntry, isCompatibleEntries left right = false →
      ∃ inst, (inst, ReceiverAccess.accessWrite) ∈ left ∧
        (inst, ReceiverAccess.accessWrite) ∈ right := by
    intro left
    induction left with
    | nil =>
        intro right isFalse
        cases isFalse
    | cons p1 rest1 inductionHypothesis =>
        intro right isFalse
        rcases exists_of_advance_eq_false isFalse with ⟨isMember, writes⟩ | ⟨rest, areRest, isFalse⟩
        · refine ⟨p1.1, ?_, ?_⟩
          · rw [← writes]
            exact List.mem_cons_self
          · rw [← writes]
            exact isMember
        · rcases inductionHypothesis rest isFalse with ⟨inst, isLeft, isRight⟩
          exact ⟨inst, List.mem_cons_of_mem _ isLeft, areRest isRight⟩
  exact walk s.entries other.entries isFalse

end InstanceSet

namespace Graph

variable {g : Graph}

/-! ## The recursion -/

/-- Computed sets hold nothing but accesses below their nodes. -/
structure Precise (memo : g.Memo) : Prop where
  closed : ∀ k, (memo k).computed = true → ∀ m ∈ g.outgoing k, (memo m).computed = true
  accesses : ∀ k, (memo k).computed = true → ∀ entry ∈ (memo k).set.entries,
    Accesses k entry.1 entry.2

theorem Precise.of_reach {memo : g.Memo} (precise : Precise memo) {n k : g.NodeId}
    (computed : (memo n).computed = true) (reach : g.Reach n k) : (memo k).computed = true := by
  induction reach with
  | refl => exact computed
  | tail _ edge inductionHypothesis => exact precise.closed _ inductionHypothesis _ edge

/-- A node below which two siblings write one instance, although it tests for that. -/
def Conflicting (n : g.NodeId) : Prop :=
  siblingCheck (g.kind n) ≠ none ∧ ¬WritersApart (g.outgoing n)

/-- The diagnostic is that of a node which is reached and conflicting. -/
def ReportsConflict (n : g.NodeId) (code : CompositionError) : Prop :=
  ∃ k, g.Reach n k ∧ siblingCheck (g.kind k) = some code ∧ Conflicting k

/-- What holds while `instance_set` of `n` has merged the children `done`. -/
structure Merging (before : g.Memo) (n : g.NodeId) (done : List g.NodeId) (memo : g.Memo) :
    Prop where
  evaluated : Evaluated before n memo
  precise : Precise memo
  notComputed : (memo n).computed = false
  children : ∀ m ∈ done, (memo m).computed = true
  merged : ∀ entry ∈ (memo n).set.entries, ∃ m ∈ done, Accesses m entry.1 entry.2
  fresh : ∀ k, g.Reach n k → k ≠ n → (memo k).computed = false →
    (memo k).set = InstanceSet.empty

/-- The set of the child is merged. -/
theorem Merging.merge {before memo called : g.Memo} {n m : g.NodeId} {done : List g.NodeId}
    (merging : Merging before n done memo) (edge : g.Edge n m)
    (unchanged : called n = memo n) (call : Evaluated memo m called) (precise : Precise called)
    (computed : (called m).computed = true) :
    Merging before n (done ++ [m])
      (setEntry called n ⟨(called n).computed, (called n).set.addUnion (called m).set⟩) := by
  have sameComputed : ∀ k, (setEntry called n ⟨(called n).computed,
      (called n).set.addUnion (called m).set⟩ k).computed = (called k).computed := by
    intro k
    by_cases same : k = n
    · rw [same, setEntry_same]
    · rw [setEntry_other called _ same]
  have notComputed : (called n).computed = false := by
    rw [unchanged]
    exact merging.notComputed
  refine ⟨merging.evaluated.merge edge call _, ⟨?_, ?_⟩, ?_, ?_, ?_, ?_⟩
  · intro k isComputed l isOutgoing
    rw [sameComputed] at isComputed ⊢
    exact precise.closed k isComputed l isOutgoing
  · intro k isComputed entry isEntry
    rw [sameComputed] at isComputed
    have different : k ≠ n := by
      intro same
      rw [same, notComputed] at isComputed
      cases isComputed
    rw [setEntry_other called _ different] at isEntry
    exact precise.accesses k isComputed entry isEntry
  · rw [sameComputed]
    exact notComputed
  · intro k isDone
    rw [sameComputed]
    rcases List.mem_append.mp isDone with earlier | isLast
    · exact call.keeps k (merging.children k earlier)
    · rw [List.mem_singleton.mp isLast]
      exact computed
  · intro entry isEntry
    rw [setEntry_same] at isEntry
    rcases InstanceSet.mem_of_mem_foldl_insert isEntry with isOld | isNew
    · rw [unchanged] at isOld
      rcases merging.merged entry isOld with ⟨k, isDone, accesses⟩
      exact ⟨k, List.mem_append_left _ isDone, accesses⟩
    · exact ⟨m, List.mem_append_right _ List.mem_cons_self,
        precise.accesses m computed entry isNew⟩
  · intro k reach different isFresh
    rw [sameComputed] at isFresh
    have notReached : ¬g.Reach m k := by
      intro reachFromChild
      rw [precise.of_reach computed reachFromChild] at isFresh
      cases isFresh
    rw [call.outside k notReached] at isFresh
    rw [setEntry_other called _ different, call.outside k notReached]
    exact merging.fresh k reach different isFresh

theorem Merging.not_apart {before memo called : g.Memo} {n m : g.NodeId}
    {done rest : List g.NodeId} (merging : Merging before n done memo)
    (unchanged : called n = memo n) (precise : Precise called)
    (computed : (called m).computed = true)
    (notCompatible : (called n).set.isCompatible (called m).set = false) :
    ¬WritersApart (done ++ m :: rest) := by
  rcases InstanceSet.exists_write_of_isCompatible_eq_false notCompatible with ⟨inst, isOld, isNew⟩
  rw [unchanged] at isOld
  rcases merging.merged _ isOld with ⟨elder, isDone, elderWrites⟩
  intro apart
  have areApart := (List.pairwise_append.mp apart).2.2 elder isDone m List.mem_cons_self
  exact areApart inst ⟨elderWrites, precise.accesses m computed _ isNew⟩

theorem Merging.finish {before memo : g.Memo} {n : g.NodeId}
    (merging : Merging before n (g.outgoing n) memo) : Precise (finishNode memo n) := by
  have computed : ∀ k, (memo k).computed = true → (finishNode memo n k).computed = true :=
    (finishNode_grows memo n).computed
  constructor
  · intro k isComputed m isOutgoing
    by_cases same : k = n
    · rw [same] at isOutgoing
      exact computed m (merging.children m isOutgoing)
    · rw [finishNode, setEntry_other memo _ same] at isComputed
      exact computed m (merging.precise.closed k isComputed m isOutgoing)
  · intro k isComputed entry isEntry
    by_cases same : k = n
    · rw [same] at isEntry ⊢
      rw [finishNode, setEntry_same] at isEntry
      rcases InstanceSet.mem_of_mem_foldl_insert isEntry with isMerged | isOwn
      · rcases merging.merged entry isMerged with ⟨m, isOutgoing, accesses⟩
        exact accesses_of_edge isOutgoing accesses
      · exact accesses_iff.mpr (Or.inl isOwn)
    · rw [finishNode, setEntry_other memo _ same] at isComputed isEntry
      exact merging.precise.accesses k isComputed entry isEntry

/-- The recursion for instance sets from a node that reaches no cycle: it computes nothing
but accesses, and it stops only at a conflicting node. -/
theorem instanceSet_exact (depth : Nat) :
    ∀ (memo : g.Memo) (n : g.NodeId), NoCycleFrom g.Edge n → ComputedEnd memo → Precise memo →
      (∀ k, g.Reach n k → (memo k).computed = false → (memo k).set = InstanceSet.empty) →
        (g.instanceSet depth memo n).Meets (ReportsConflict n)
          (fun after => Precise after ∧ Evaluated memo n after ∧ (after n).computed = true) := by
  induction depth with
  | zero => exact fun _ _ _ _ _ _ => trivial
  | succ depth inductionHypothesis =>
      intro memo n noCycle ends precise fresh
      rw [instanceSet]
      by_cases isComputed : (memo n).computed = true
      · rw [if_pos isComputed]
        exact ⟨precise, .refl n ends, isComputed⟩
      · rw [if_neg isComputed]
        have notComputed : (memo n).computed = false := Bool.eq_false_iff.mpr isComputed
        have isNew : ∀ entry ∈ (memo n).set.entries,
            ∃ m ∈ ([] : List g.NodeId), Accesses m entry.1 entry.2 := by
          rw [fresh n .refl notComputed]
          exact fun entry isEntry => absurd isEntry List.not_mem_nil
        have children :
            ((g.outgoing n).foldlM
                (fun memo m => do
                  let memo ← g.instanceSet depth memo m
                  mergeChild memo n m)
                memo).Meets (ReportsConflict n) (Merging memo n (g.outgoing n)) := by
          apply Outcome.Meets.foldlM (Merging memo n)
          · intro done m rest state isOutgoing merging
            have edge : g.Edge n m := by
              rw [Edge, isOutgoing]
              exact List.mem_append_right _ List.mem_cons_self
            have notBack := noCycle.not_back edge
            have freshBelow : ∀ k, g.Reach m k → (state k).computed = false →
                (state k).set = InstanceSet.empty := by
              intro k reach
              apply merging.fresh k (.head edge reach)
              rintro rfl
              exact notBack reach
            have call := inductionHypothesis state m (noCycle.step edge) merging.evaluated.ends
              merging.precise freshBelow
            apply (call.imp (fun _ => id) ?_).bind
            · rintro called ⟨precise, evaluated, computed⟩
              have unchanged := evaluated.outside n notBack
              apply (mergeChild_meets called n m).imp
              · rintro next rfl
                exact merging.merge edge unchanged evaluated precise computed
              · rintro code ⟨check, notCompatible⟩
                refine ⟨n, .refl, check, ?_, ?_⟩
                · rw [check]
                  simp
                · rw [isOutgoing]
                  exact merging.not_apart unchanged precise computed notCompatible
            · rintro code ⟨k, reach, check, isConflicting⟩
              exact ⟨k, .head edge reach, check, isConflicting⟩
          · exact ⟨.refl n ends, precise, notComputed, by simp, isNew,
              fun k reach _ => fresh k reach⟩
        apply children.bind
        intro state merging
        refine ⟨merging.finish, merging.evaluated.finish merging.children, ?_⟩
        rw [finishNode, setEntry_same]

/-! ## The passes -/

/-- The nodes for which some pass calls `instance_set`, directly or below another node. -/
def Called (g : Graph) (n : g.NodeId) : Prop :=
  ∃ a ∈ g.actions, g.Reach a n ∨ ∃ m ∈ g.preconditionNodes a, g.Reach m n

/-- Between the calls of the passes: every node is either computed or as constructed. -/
structure Settled (memo : g.Memo) : Prop where
  ends : ComputedEnd memo
  precise : Precise memo
  sound : MemoSound memo
  fresh : ∀ k, (memo k).computed = false → (memo k).set = InstanceSet.empty

theorem settled_initialMemo : Settled g.initialMemo where
  ends k computed := by cases computed
  precise := ⟨by simp [initialMemo], by simp [initialMemo]⟩
  sound := memoSound_initialMemo
  fresh _ _ := rfl

theorem instanceSet_settled {memo : g.Memo} (settled : Settled memo) {n : g.NodeId}
    (noCycle : NoCycleFrom g.Edge n) (depth : Nat) :
    (g.instanceSet depth memo n).Meets (ReportsConflict n)
      (fun after => Settled after ∧ (after n).computed = true ∧
        ∀ k, (memo k).computed = true → (after k).computed = true) := by
  have exact := instanceSet_exact depth memo n noCycle settled.ends settled.precise
    fun k _ => settled.fresh k
  cases run : g.instanceSet depth memo n with
  | error code =>
      rw [run] at exact
      exact exact
  | outOfFuel => trivial
  | ok after =>
      rw [run] at exact
      rcases exact with ⟨precise, evaluated, computed⟩
      refine ⟨⟨evaluated.ends, precise, (instanceSet_spec settled.sound run).sound, ?_⟩, computed,
        evaluated.keeps⟩
      intro k notComputed
      have notReached : ¬g.Reach n k := by
        intro reach
        rw [precise.of_reach computed reach] at notComputed
        cases notComputed
      rw [evaluated.outside k notReached] at notComputed ⊢
      exact settled.fresh k notComputed

theorem Settled.isGreatest {memo : g.Memo} (settled : Settled memo) {n : g.NodeId}
    (computed : (memo n).computed = true) {inst : InstanceId} {access : ReceiverAccess} :
    (inst, access) ∈ (memo n).set.entries ↔ IsGreatest { access | Accesses n inst access } access := by
  have covers := (settled.sound n computed).covers inst
  constructor
  · intro isEntry
    refine ⟨settled.precise.accesses n computed _ isEntry, ?_⟩
    intro other accesses
    rcases covers other accesses with ⟨granted, isGranted, enough⟩
    rw [InstanceSet.access_unique _ isEntry isGranted]
    exact enough
  · rintro ⟨accesses, isBound⟩
    rcases covers access accesses with ⟨granted, isGranted, enough⟩
    have atMost := isBound (settled.precise.accesses n computed _ isGranted)
    rw [le_antisymm enough atMost]
    exact isGranted

theorem Settled.mem_keys_iff {memo : g.Memo} (settled : Settled memo) {n : g.NodeId}
    (computed : (memo n).computed = true) {inst : InstanceId} :
    inst ∈ (memo n).set.entries.map Prod.fst ↔ ∃ access, Accesses n inst access := by
  constructor
  · intro isKey
    rcases List.mem_map.mp isKey with ⟨entry, isEntry, rfl⟩
    exact ⟨entry.2, settled.precise.accesses n computed entry isEntry⟩
  · rintro ⟨access, accesses⟩
    rcases (settled.sound n computed).covers inst access accesses with ⟨granted, isGranted, _⟩
    exact List.mem_map.mpr ⟨_, isGranted, rfl⟩

/-- What holds while `compute_dependent_instances` has gone through the actions `done`. -/
structure Linked (done : List g.NodeId) (state : g.Memo × List (InstanceId × InstanceId)) :
    Prop where
  settled : Settled state.1
  computed : ∀ a ∈ done, ∀ n ∈ g.preconditionNodes a, (state.1 n).computed = true
  links : ∀ inst target, (inst, target) ∈ state.2 ↔
    ∃ a ∈ done, g.owner a = some target ∧ ∃ n ∈ g.preconditionNodes a, ∃ access,
      Accesses n inst access

/-- What holds while it has gone through the calls `called` of the precondition of the
action. -/
structure Linking (before : g.Memo × List (InstanceId × InstanceId)) (a : g.NodeId)
    (called : List g.NodeId) (state : g.Memo × List (InstanceId × InstanceId)) : Prop where
  settled : Settled state.1
  keeps : ∀ k, (before.1 k).computed = true → (state.1 k).computed = true
  computed : ∀ n ∈ called, (state.1 n).computed = true
  links : ∀ inst target, (inst, target) ∈ state.2 ↔ (inst, target) ∈ before.2 ∨
    g.owner a = some target ∧ ∃ n ∈ called, ∃ access, Accesses n inst access

/-- The conflicts that the passes report are those of called nodes. -/
def ReportsCalled (g : Graph) (code : CompositionError) : Prop :=
  ∃ k, g.Called k ∧ siblingCheck (g.kind k) = some code ∧ Conflicting k

theorem Linking.call {before state : g.Memo × List (InstanceId × InstanceId)} {a n : g.NodeId}
    {called : List g.NodeId} (linking : Linking before a called state) {memo : g.Memo}
    {target : InstanceId} (isOwner : g.owner a = some target) (settled : Settled memo)
    (computed : (memo n).computed = true)
    (keeps : ∀ k, (state.1 k).computed = true → (memo k).computed = true) :
    Linking before a (called ++ [n])
      (memo, state.2 ++ (memo n).set.entries.map fun v => (v.1, target)) where
  settled := settled
  keeps k isComputed := keeps k (linking.keeps k isComputed)
  computed k isCalled := by
    rcases List.mem_append.mp isCalled with earlier | isLast
    · exact keeps k (linking.computed k earlier)
    · rw [List.mem_singleton.mp isLast]
      exact computed
  links inst other := by
    have isNewLink : (inst, other) ∈ (memo n).set.entries.map (fun v => (v.1, target)) ↔
        g.owner a = some other ∧ ∃ access, Accesses n inst access := by
      rw [← settled.mem_keys_iff computed, isOwner, Option.some.injEq, List.mem_map, List.mem_map]
      constructor
      · rintro ⟨entry, isEntry, same⟩
        rw [Prod.mk.injEq] at same
        exact ⟨same.2, entry, isEntry, same.1⟩
      · rintro ⟨isTarget, entry, isEntry, isKey⟩
        exact ⟨entry, isEntry, Prod.ext isKey isTarget⟩
    rw [List.mem_append, linking.links, isNewLink]
    constructor
    · rintro ((old | ⟨isOther, k, isCalled, accesses⟩) | ⟨isOther, accesses⟩)
      · exact Or.inl old
      · exact Or.inr ⟨isOther, k, List.mem_append_left _ isCalled, accesses⟩
      · exact Or.inr ⟨isOther, n, List.mem_append_right _ List.mem_cons_self, accesses⟩
    · rintro (old | ⟨isOther, k, isCalled, accesses⟩)
      · exact Or.inl (Or.inl old)
      · rcases List.mem_append.mp isCalled with earlier | isLast
        · exact Or.inl (Or.inr ⟨isOther, k, earlier, accesses⟩)
        · rw [List.mem_singleton.mp isLast] at accesses
          exact Or.inr ⟨isOther, accesses⟩

/-- `compute_dependent_instances`, where no precondition reaches a cycle. -/
theorem computeDependentInstances_exact
    (noCycle : ∀ a ∈ g.actions, ∀ n ∈ g.preconditionNodes a, NoCycleFrom g.Edge n) (depth : Nat) :
    (g.computeDependentInstances depth).Meets g.ReportsCalled (Linked g.actions) := by
  rw [computeDependentInstances]
  apply Outcome.Meets.foldlM Linked
  · intro done a rest state isActions linked
    have isAction : a ∈ g.actions := by
      rw [isActions]
      exact List.mem_append_right _ List.mem_cons_self
    refine Outcome.Meets.mono (Outcome.Meets.foldlM (Linking state a) ?_ ?_) ?_
    · intro called n later state' isCalls linking
      have isCall : n ∈ g.preconditionNodes a := by
        rw [isCalls]
        exact List.mem_append_right _ List.mem_cons_self
      have call := instanceSet_settled linking.settled (noCycle a isAction n isCall) depth
      apply (call.imp (fun _ => id) ?_).bind
      · rintro memo ⟨settled, computed, keeps⟩
        have isKind := (g.actionsComplete a).mp isAction
        cases kind : g.kind a with
        | action inst precondition immutablePhase =>
            have isOwner : g.owner a = some inst := by
              rw [owner, kind]
              rfl
            exact linking.call isOwner settled computed keeps
        | _ =>
            rw [kind] at isKind
            cases isKind
      · rintro code ⟨k, reach, check, isConflicting⟩
        exact ⟨k, ⟨a, isAction, Or.inr ⟨n, isCall, reach⟩⟩, check, isConflicting⟩
    · refine ⟨linked.settled, fun _ => id, by simp, ?_⟩
      intro inst target
      constructor
      · exact Or.inl
      · rintro (old | ⟨_, k, isCalled, _⟩)
        · exact old
        · exact absurd isCalled List.not_mem_nil
    · intro after linking
      refine ⟨linking.settled, ?_, ?_⟩
      · intro b isDone n isCall
        rcases List.mem_append.mp isDone with earlier | isLast
        · exact linking.keeps n (linked.computed b earlier n isCall)
        · rw [List.mem_singleton.mp isLast] at isCall
          exact linking.computed n isCall
      · intro inst target
        rw [linking.links, linked.links]
        constructor
        · rintro (⟨b, isDone, link⟩ | link)
          · exact ⟨b, List.mem_append_left _ isDone, link⟩
          · exact ⟨a, List.mem_append_right _ List.mem_cons_self, link⟩
        · rintro ⟨b, isDone, link⟩
          rcases List.mem_append.mp isDone with earlier | isLast
          · exact Or.inl ⟨b, earlier, link⟩
          · rw [List.mem_singleton.mp isLast] at link
            exact Or.inr link
  · refine ⟨settled_initialMemo, by simp, ?_⟩
    intro inst target
    constructor
    · intro isLink
      cases isLink
    · rintro ⟨a, isDone, _⟩
      exact absurd isDone List.not_mem_nil

/-! ## The analysis -/

/-- No getter or pull port that a precondition calls reaches a cycle. -/
def PreconditionsAcyclic (g : Graph) : Prop :=
  ∀ a ∈ g.actions, ∀ n ∈ g.preconditionNodes a, NoCycleFrom g.Edge n

/-- What a diagnostic says about the composition. -/
def HasFault (g : Graph) : CompositionError → Prop
  | .e71 => ∃ n, g.isReaction n = true ∧ 1 < g.pushPortCount n
  | .e72 => g.Recursive
  | .e118 => ∃ n, g.kind n = .pullPort ∧ g.outgoing n = []
  | .e119 => ∃ n, g.kind n = .pullPort ∧ 1 < (g.outgoing n).length
  | code => g.ReportsCalled code

theorem hasFault_of_reportsCalled {code : CompositionError} (reports : g.ReportsCalled code) :
    g.HasFault code := by
  rcases reports with ⟨n, isCalled, check, isConflicting⟩
  cases code with
  | e71 | e72 | e118 | e119 => cases kind : g.kind n <;> simp [kind, siblingCheck] at check
  | _ => exact ⟨n, isCalled, check, isConflicting⟩

/-- `check_structure` passes exactly where none of its faults is there. -/
theorem checkStructure_exact (depth : Nat) :
    (g.checkStructure depth).Meets g.HasFault
      (fun _ => ¬g.HasFault .e71 ∧ ¬g.HasFault .e72 ∧ ¬g.HasFault .e118 ∧ ¬g.HasFault .e119) := by
  rw [checkStructure]
  split
  · next boundAgain =>
    simp only [List.any_eq_true, List.mem_finRange, true_and, Bool.and_eq_true,
      decide_eq_true_eq] at boundAgain
    exact boundAgain
  · next notBoundAgain =>
    simp only [List.any_eq_true, List.mem_finRange, true_and, Bool.and_eq_true,
      decide_eq_true_eq] at notBoundAgain
    have isSingle : ∀ n ∈ List.finRange g.size,
        (if g.kind n = .pullPort then
          if (g.outgoing n).isEmpty then
            .error .e118
          else if (g.outgoing n).length > 1 then
            .error .e119
          else
            .ok ()
        else
          .ok () : Outcome CompositionError Unit).Meets g.HasFault
          fun _ => g.kind n = .pullPort → (g.outgoing n).length = 1 := by
      intro n _
      split
      · next isPullPort =>
        split
        · next isEmpty => exact ⟨n, isPullPort, List.isEmpty_iff.mp isEmpty⟩
        · next notEmpty =>
          split
          · next isMultiple => exact ⟨n, isPullPort, isMultiple⟩
          · next notMultiple =>
            have isPositive : 0 < (g.outgoing n).length :=
              List.length_pos_iff.mpr fun isNil => notEmpty (List.isEmpty_iff.mpr isNil)
            exact fun _ => by omega
      · next notPullPort => exact fun isPullPort => absurd isPullPort notPullPort
    apply (Outcome.Meets.forM_items isSingle).bind
    intro _ areSingle
    apply ((tarjan_actions_meets depth).imp (fun _ => id) ?_).bind
    · intro _ notRecursive
      refine ⟨notBoundAgain, notRecursive, ?_, ?_⟩
      · rintro ⟨n, isPullPort, isUnbound⟩
        have isSingle := areSingle n (List.mem_finRange n) isPullPort
        rw [isUnbound] at isSingle
        cases isSingle
      · rintro ⟨n, isPullPort, isMultiple⟩
        exact absurd (areSingle n (List.mem_finRange n) isPullPort) (Nat.ne_of_gt isMultiple)
    · rintro code ⟨rfl, recursive⟩
      exact recursive

/-- `compute_instance_sets`, where no action reaches a cycle. -/
theorem computeInstanceSets_exact (notRecursive : ¬g.Recursive) {memo : g.Memo}
    (settled : Settled memo) (depth : Nat) :
    (g.computeInstanceSets depth memo).Meets g.ReportsCalled
      (fun after => Settled after ∧ (∀ a ∈ g.actions, (after a).computed = true) ∧
        ∀ k, (memo k).computed = true → (after k).computed = true) := by
  apply Outcome.Meets.foldlM fun done (after : g.Memo) =>
    Settled after ∧ (∀ a ∈ done, (after a).computed = true) ∧
      ∀ k, (memo k).computed = true → (after k).computed = true
  · rintro done a rest state isActions ⟨settled, computed, keeps⟩
    have isAction : a ∈ g.actions := by
      rw [isActions]
      exact List.mem_append_right _ List.mem_cons_self
    have noCycle : NoCycleFrom g.Edge a := by
      by_contra cycle
      exact notRecursive (recursive_iff.mpr ⟨a, isAction, cycle⟩)
    apply (instanceSet_settled settled noCycle depth).imp
    · rintro after ⟨settledToo, computedToo, keepsToo⟩
      refine ⟨settledToo, ?_, fun k isComputed => keepsToo k (keeps k isComputed)⟩
      intro b isDone
      rcases List.mem_append.mp isDone with earlier | isLast
      · exact keepsToo b (computed b earlier)
      · rw [List.mem_singleton.mp isLast]
        exact computedToo
    · rintro code ⟨k, reach, check, isConflicting⟩
      exact ⟨k, ⟨a, isAction, Or.inl reach⟩, check, isConflicting⟩
  · exact ⟨settled, by simp, fun _ => id⟩

theorem analyze_exact (noCycle : g.PreconditionsAcyclic) (depth : Nat) :
    (g.analyze depth).Meets g.HasFault
      (fun memo => (∀ code, ¬g.HasFault code) ∧ Settled memo ∧
        ∀ n, g.Called n → (memo n).computed = true) := by
  rw [analyze]
  apply ((computeDependentInstances_exact noCycle depth).imp (fun _ => id)
    fun _ => hasFault_of_reportsCalled).bind
  rintro ⟨memo, links⟩ linked
  apply (checkStructure_exact depth).bind
  rintro _ ⟨bindsOnce, notRecursive, isBound, isSingle⟩
  apply (computeInstanceSets_exact notRecursive linked.settled depth).imp _
    fun _ => hasFault_of_reportsCalled
  rintro after ⟨settled, computed, keeps⟩
  have allComputed : ∀ n, g.Called n → (after n).computed = true := by
    rintro n ⟨a, isAction, reach | ⟨m, isCall, reach⟩⟩
    · exact settled.precise.of_reach (computed a isAction) reach
    · exact settled.precise.of_reach (keeps m (linked.computed a isAction m isCall)) reach
  refine ⟨?_, settled, allComputed⟩
  intro code hasFault
  have notConflicting : ¬g.ReportsCalled code := by
    rintro ⟨n, isCalled, check, tests, notApart⟩
    exact notApart ((settled.sound n (allComputed n isCalled)).siblings tests)
  cases code with
  | e71 => exact bindsOnce hasFault
  | e72 => exact notRecursive hasFault
  | e118 => exact isBound hasFault
  | e119 => exact isSingle hasFault
  | _ => exact notConflicting hasFault

/-- `compute_dependent_instances` returns only if no precondition reaches a cycle. -/
theorem preconditionsAcyclic_of_run {depth : Nat}
    {result : g.Memo × List (InstanceId × InstanceId)}
    (run : g.computeDependentInstances depth = .ok result) : g.PreconditionsAcyclic := by
  have passes : (g.computeDependentInstances depth).Meets (fun _ => True)
      (fun result => ComputedEnd result.1 ∧
        ∀ a ∈ g.actions, ∀ n ∈ g.preconditionNodes a, NoCycleFrom g.Edge n) := by
    rw [computeDependentInstances]
    apply Outcome.Meets.foldlM fun done (state : g.Memo × List (InstanceId × InstanceId)) =>
      ComputedEnd state.1 ∧ ∀ a ∈ done, ∀ n ∈ g.preconditionNodes a, NoCycleFrom g.Edge n
    · rintro done a rest state _ ⟨ends, noCycle⟩
      apply Outcome.Meets.mono (Outcome.Meets.foldlM
        (fun done (state : g.Memo × List (InstanceId × InstanceId)) =>
          ComputedEnd state.1 ∧ ∀ n ∈ done, NoCycleFrom g.Edge n) ?_ ⟨ends, by simp⟩)
      · rintro after ⟨ends, noCycleToo⟩
        refine ⟨ends, ?_⟩
        intro b isDone
        rcases List.mem_append.mp isDone with earlier | isLast
        · exact noCycle b earlier
        · rw [List.mem_singleton.mp isLast]
          exact noCycleToo
      · rintro called n later state' _ ⟨ends, noCycle⟩
        apply ((instanceSet_meets depth state'.1 n ends).imp (fun _ => id) fun _ _ => trivial).bind
        rintro memo ⟨evaluated, computed⟩
        have endsToo : ComputedEnd memo ∧ ∀ k ∈ called ++ [n], NoCycleFrom g.Edge k := by
          refine ⟨evaluated.ends, ?_⟩
          intro k isCalled
          rcases List.mem_append.mp isCalled with earlier | isLast
          · exact noCycle k earlier
          · rw [List.mem_singleton.mp isLast]
            exact evaluated.ends n computed
        split
        · exact endsToo
        · exact endsToo
    · exact ⟨settled_initialMemo.ends, by simp⟩
  exact (passes.returns run).2

theorem preconditionsAcyclic_of_accepted {memo : g.Memo} (accepted : g.Accepted memo) :
    g.PreconditionsAcyclic := by
  rcases accepted with ⟨depth, run⟩
  rw [analyze, Outcome.bind_eq_ok] at run
  rcases run with ⟨result, elaborated, _⟩
  exact preconditionsAcyclic_of_run elaborated

/-- The analysis accepts exactly the compositions without a fault, and where the
preconditions reach no cycle it ends and reports only faults that are there. -/
theorem accepted_iff_faultless (g : Graph) :
    ((∃ memo, g.Accepted memo) ↔ g.PreconditionsAcyclic ∧ ∀ code, ¬g.HasFault code) ∧
      (g.PreconditionsAcyclic → (∃ depth, (g.analyze depth).Finished) ∧
        ∀ depth code, g.analyze depth = .error code → g.HasFault code) := by
  refine ⟨⟨?_, ?_⟩, ?_⟩
  · rintro ⟨memo, accepted⟩
    have noCycle := preconditionsAcyclic_of_accepted accepted
    rcases accepted with ⟨depth, run⟩
    exact ⟨noCycle, ((analyze_exact noCycle depth).returns run).1⟩
  · rintro ⟨noCycle, faultless⟩
    rcases analyze_finished noCycle with ⟨depth, _, finished⟩
    cases run : g.analyze depth with
    | ok memo => exact ⟨memo, depth, run⟩
    | error code => exact absurd ((analyze_exact noCycle depth).stops run) (faultless code)
    | outOfFuel => exact absurd run finished
  · intro noCycle
    rcases analyze_finished noCycle with ⟨depth, _, finished⟩
    exact ⟨⟨depth, finished⟩, fun depth code reported => (analyze_exact noCycle depth).stops reported⟩

/-- In an accepted composition the instance set of every node below an action or a
precondition holds the strongest access of each instance below the node and nothing else,
and an instance is linked to exactly those whose preconditions ask for it. -/
theorem exact_of_accepted {memo : g.Memo} (accepted : g.Accepted memo) :
    (∀ n, g.Called n → ∀ inst access, (inst, access) ∈ (memo n).set.entries ↔
      IsGreatest { access | Accesses n inst access } access) ∧
    ∀ depth result, g.computeDependentInstances depth = .ok result → ∀ inst target,
      (inst, target) ∈ result.2 ↔ ∃ a ∈ g.actions, g.owner a = some target ∧
        ∃ n ∈ g.preconditionNodes a, ∃ access, Accesses n inst access := by
  have noCycle := preconditionsAcyclic_of_accepted accepted
  rcases accepted with ⟨depth, run⟩
  rcases (analyze_exact noCycle depth).returns run with ⟨_, settled, computed⟩
  constructor
  · exact fun n isCalled inst access => settled.isGreatest (computed n isCalled)
  · intro depth result elaborated
    exact ((computeDependentInstances_exact noCycle depth).returns elaborated).links

/-- The action of the pipeline reads instance `2` through its pull port. -/
theorem exact_of_accepted_pipeline :
    ∃ memo, pipeline.Accepted memo ∧
      ((2, ReceiverAccess.accessRead) ∈ (memo (0 : Fin 7)).set.entries ↔
        IsGreatest { access | Accesses (g := pipeline) (0 : Fin 7) 2 access } .accessRead) := by
  rcases pipeline_accepted with ⟨memo, accepted⟩
  have isCalled : pipeline.Called (0 : Fin 7) :=
    ⟨(0 : Fin 7), List.mem_cons_self, Or.inl .refl⟩
  exact ⟨memo, accepted, (exact_of_accepted accepted).1 (0 : Fin 7) isCalled 2 .accessRead⟩

end Graph

end Rcgo.Composition
