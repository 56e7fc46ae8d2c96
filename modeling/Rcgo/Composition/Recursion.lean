import Rcgo.Composition.Footprint
import Rcgo.Foundation.Acyclic
import Mathlib.Data.Fintype.EquivFin
import Mathlib.Order.Filter.AtTopBot.Basic
import Mathlib.Order.Filter.Finite

/-!
# Recursive compositions

`tarjan` looks for cycles, and `instance_set` follows the edges without looking
for any.  The elaboration calls `instance_set` for the nodes of preconditions
before `check_structure` has called `tarjan`; and it does not get through the
calls in getters.
-/

namespace Rcgo.Composition

open Rcgo.Foundation Relation

namespace Graph

variable (g : Graph)

/-- The structural checks other than that for recursion. -/
def OtherChecksPass : Prop :=
  (∀ n, g.isReaction n = true → g.pushPortCount n ≤ 1) ∧
    ∀ n, g.kind n = .pullPort → (g.outgoing n).length = 1

def Recursive : Prop :=
  ∃ a ∈ g.actions, ∃ n, g.Reach a n ∧ TransGen g.Edge n n

variable {g}

/-! ## The search for cycles -/

def unmarkedNodes (marks : g.NodeId → MarkState) : Finset g.NodeId :=
  Finset.univ.filter fun n => marks n = .unmarked

theorem setMark_same (marks : g.NodeId → MarkState) (n : g.NodeId) (state : MarkState) :
    setMark marks n state n = state :=
  if_pos rfl

theorem setMark_other (marks : g.NodeId → MarkState) (state : MarkState) {n m : g.NodeId}
    (different : m ≠ n) : setMark marks n state m = marks m :=
  if_neg different

/-- What `tarjan` does to the marks. -/
structure Searched (before : g.NodeId → MarkState) (after : g.NodeId → MarkState) : Prop where
  marked : ∀ k, after k = .marked → NoCycleFrom g.Edge k
  temporary : ∀ k, after k = .temporary ↔ before k = .temporary
  keeps : ∀ k, before k = .marked → after k = .marked

namespace Searched

variable {before middle after : g.NodeId → MarkState} {n : g.NodeId}

theorem refl (noCycle : ∀ k, before k = .marked → NoCycleFrom g.Edge k) :
    Searched before before :=
  ⟨noCycle, fun _ => Iff.rfl, fun _ => id⟩

theorem trans (first : Searched before middle) (second : Searched middle after) :
    Searched before after where
  marked := second.marked
  temporary k := (second.temporary k).trans (first.temporary k)
  keeps k isMarked := second.keeps k (first.keeps k isMarked)

theorem unmarkedNodes_subset (searched : Searched before after) :
    unmarkedNodes after ⊆ unmarkedNodes before := by
  intro k isUnmarked
  rw [unmarkedNodes, Finset.mem_filter_univ] at isUnmarked ⊢
  cases isMark : before k with
  | unmarked => rfl
  | temporary =>
      have isTemporary := (searched.temporary k).mpr isMark
      rw [isUnmarked] at isTemporary
      cases isTemporary
  | marked =>
      have isMarked := searched.keeps k isMark
      rw [isUnmarked] at isMarked
      cases isMarked

theorem finish (isUnmarked : before n = .unmarked)
    (searched : Searched (setMark before n .temporary) after)
    (successors : ∀ m ∈ g.outgoing n, after m = .marked) :
    Searched before (setMark after n .marked) where
  marked k isMarked := by
    by_cases same : k = n
    · subst same
      exact .of_steps fun m edge => searched.marked m (successors m edge)
    · rw [setMark_other after .marked same] at isMarked
      exact searched.marked k isMarked
  temporary k := by
    by_cases same : k = n
    · subst same
      simp [setMark_same, isUnmarked]
    · have unchanged := searched.temporary k
      rw [setMark_other before .temporary same] at unchanged
      rw [setMark_other after .marked same]
      exact unchanged
  keeps k isMarked := by
    by_cases same : k = n
    · rw [same, setMark_same]
    · have kept := searched.keeps k
      rw [setMark_other before .temporary same] at kept
      rw [setMark_other after .marked same]
      exact kept isMarked

end Searched

/-- The marks when `tarjan` is called for `n`. -/
structure SearchState (marks : g.NodeId → MarkState) (n : g.NodeId) : Prop where
  marked : ∀ k, marks k = .marked → NoCycleFrom g.Edge k
  temporary : ∀ k, marks k = .temporary → TransGen g.Edge k n

/-- The marks when `tarjan` is called for the successors of an unmarked node. -/
theorem SearchState.successor {marks state : g.NodeId → MarkState} {n m : g.NodeId}
    (before : SearchState marks n) (edge : g.Edge n m)
    (searched : Searched (setMark marks n .temporary) state) : SearchState state m where
  marked := searched.marked
  temporary k isTemporary := by
    have wasTemporary := (searched.temporary k).mp isTemporary
    by_cases same : k = n
    · rw [same]
      exact .single edge
    · rw [setMark_other marks .temporary same] at wasTemporary
      exact .tail (before.temporary k wasTemporary) edge

theorem SearchState.searched {marks : g.NodeId → MarkState} {n : g.NodeId}
    (before : SearchState marks n) :
    Searched (setMark marks n .temporary) (setMark marks n .temporary) := by
  apply Searched.refl
  intro k isMarked
  by_cases same : k = n
  · rw [same, setMark_same] at isMarked
    cases isMarked
  · rw [setMark_other marks .temporary same] at isMarked
    exact before.marked k isMarked

theorem tarjan_meets (depth : Nat) :
    ∀ (marks : g.NodeId → MarkState) (n : g.NodeId), SearchState marks n →
      (g.tarjan depth marks n).Meets
        (fun code => code = .e72 ∧ ¬ NoCycleFrom g.Edge n)
        (fun after => Searched marks after ∧ after n = .marked) := by
  induction depth with
  | zero => exact fun _ _ _ => trivial
  | succ depth inductionHypothesis =>
      intro marks n before
      rw [tarjan]
      cases isMark : marks n with
      | temporary =>
          exact ⟨rfl, fun noCycle => noCycle n .refl (before.temporary n isMark)⟩
      | marked => exact ⟨.refl before.marked, isMark⟩
      | unmarked =>
          have successors :
              ((g.outgoing n).foldlM (g.tarjan depth) (setMark marks n .temporary)).Meets
                (fun code => code = .e72 ∧ ¬ NoCycleFrom g.Edge n)
                (fun state => Searched (setMark marks n .temporary) state ∧
                  ∀ m ∈ g.outgoing n, state m = .marked) := by
            apply Outcome.Meets.foldlM fun done state =>
              Searched (setMark marks n .temporary) state ∧ ∀ m ∈ done, state m = .marked
            · intro done m rest state isOutgoing holds
              have edge : g.Edge n m := by
                rw [Edge, isOutgoing]
                exact List.mem_append_right _ List.mem_cons_self
              apply (inductionHypothesis state m (before.successor edge holds.1)).imp
              · intro after result
                refine ⟨holds.1.trans result.1, ?_⟩
                intro k member
                rcases List.mem_append.mp member with earlier | last
                · exact result.1.keeps k (holds.2 k earlier)
                · rw [List.mem_singleton.mp last]
                  exact result.2
              · intro code reported
                exact ⟨reported.1, fun noCycle => reported.2 (noCycle.step edge)⟩
            · exact ⟨before.searched, fun m member => absurd member List.not_mem_nil⟩
          apply successors.bind
          intro state holds
          exact ⟨holds.1.finish isMark holds.2, setMark_same state n .marked⟩

theorem tarjan_finished (depth : Nat) :
    ∀ (marks : g.NodeId → MarkState) (n : g.NodeId), SearchState marks n →
      (unmarkedNodes marks).card < depth → (g.tarjan depth marks n).Finished := by
  induction depth with
  | zero => exact fun _ _ _ impossible => absurd impossible (Nat.not_lt_zero _)
  | succ depth inductionHypothesis =>
      intro marks n before enough
      rw [tarjan]
      cases isMark : marks n with
      | temporary =>
          intro impossible
          cases impossible
      | marked =>
          intro impossible
          cases impossible
      | unmarked =>
          have fewer :
              (unmarkedNodes (setMark marks n .temporary)).card < (unmarkedNodes marks).card := by
            apply Finset.card_lt_card
            rw [Finset.ssubset_iff_of_subset]
            · refine ⟨n, ?_, ?_⟩
              · rw [unmarkedNodes, Finset.mem_filter_univ]
                exact isMark
              · rw [unmarkedNodes, Finset.mem_filter_univ, setMark_same]
                intro impossible
                cases impossible
            · intro k member
              rw [unmarkedNodes, Finset.mem_filter_univ] at member ⊢
              by_cases same : k = n
              · rw [same]
                exact isMark
              · rw [← member, setMark_other marks .temporary same]
          apply Outcome.Finished.bind
          · apply Outcome.foldlM_finished_of
              fun state => Searched (setMark marks n .temporary) state
            · intro m edge state searched
              have noMore := Finset.card_le_card searched.unmarkedNodes_subset
              exact
                inductionHypothesis state m (before.successor edge searched) (by omega)
            · intro m edge state next searched step
              have meets := tarjan_meets depth state m (before.successor edge searched)
              exact searched.trans (meets.returns step).1
            · exact before.searched
          · intro state _ impossible
            cases impossible

/-! ## The recursion for instance sets -/

def ComputedEnd (memo : g.Memo) : Prop :=
  ∀ k, (memo k).computed = true → NoCycleFrom g.Edge k

/-- What `instance_set` of `n` does to the memo, whether or not the sets of its
children are compatible. -/
structure Evaluated (before : g.Memo) (n : g.NodeId) (after : g.Memo) : Prop where
  ends : ComputedEnd after
  keeps : ∀ k, (before k).computed = true → (after k).computed = true
  outside : ∀ k, ¬ g.Reach n k → after k = before k

theorem Evaluated.refl {memo : g.Memo} (n : g.NodeId) (ends : ComputedEnd memo) :
    Evaluated memo n memo :=
  ⟨ends, fun _ => id, fun _ _ => rfl⟩

theorem Evaluated.merge {before memo called : g.Memo} {n m : g.NodeId}
    (holds : Evaluated before n memo) (edge : g.Edge n m)
    (call : Evaluated memo m called) (set : InstanceSet) :
    Evaluated before n (setEntry called n ⟨(called n).computed, set⟩) where
  ends k computed := by
    apply call.ends k
    by_cases same : k = n
    · subst same
      rw [setEntry_same] at computed
      exact computed
    · rw [setEntry_other called _ same] at computed
      exact computed
  keeps k computed := by
    have kept := call.keeps k (holds.keeps k computed)
    by_cases same : k = n
    · subst same
      rw [setEntry_same]
      exact kept
    · rw [setEntry_other called _ same]
      exact kept
  outside k notReached := by
    have different : k ≠ n := by
      rintro rfl
      exact notReached .refl
    rw [setEntry_other called _ different,
      call.outside k fun path => notReached (.head edge path), holds.outside k notReached]

theorem Evaluated.finish {before memo : g.Memo} {n : g.NodeId}
    (holds : Evaluated before n memo)
    (children : ∀ m ∈ g.outgoing n, (memo m).computed = true) :
    Evaluated before n (finishNode memo n) where
  ends k computed := by
    by_cases same : k = n
    · subst same
      exact .of_steps fun m edge => holds.ends m (children m edge)
    · rw [finishNode, setEntry_other memo _ same] at computed
      exact holds.ends k computed
  keeps k computed := (finishNode_grows memo n).computed k (holds.keeps k computed)
  outside k notReached := by
    have different : k ≠ n := by
      rintro rfl
      exact notReached .refl
    rw [finishNode, setEntry_other memo _ different, holds.outside k notReached]

theorem mergeChild_meets (memo : g.Memo) (n m : g.NodeId) :
    (mergeChild memo n m).Meets
      (fun code => siblingCheck (g.kind n) = some code ∧
        (memo n).set.isCompatible (memo m).set = false)
      (fun next =>
        next = setEntry memo n ⟨(memo n).computed, (memo n).set.addUnion (memo m).set⟩) := by
  rw [mergeChild]
  cases check : siblingCheck (g.kind n) with
  | none => exact rfl
  | some code =>
      cases compatible : (memo n).set.isCompatible (memo m).set with
      | true => exact rfl
      | false => exact ⟨rfl, rfl⟩

theorem siblingCheck_ne_e72 (kind : NodeKind) : siblingCheck kind ≠ some .e72 := by
  cases kind <;> simp [siblingCheck]

theorem instanceSet_meets (depth : Nat) :
    ∀ (memo : g.Memo) (n : g.NodeId), ComputedEnd memo →
      (g.instanceSet depth memo n).Meets
        (fun code => code ≠ CompositionError.e72)
        (fun after => Evaluated memo n after ∧ (after n).computed = true) := by
  induction depth with
  | zero => exact fun _ _ _ => trivial
  | succ depth inductionHypothesis =>
      intro memo n ends
      rw [instanceSet]
      by_cases isComputed : (memo n).computed = true
      · rw [if_pos isComputed]
        exact ⟨.refl n ends, isComputed⟩
      · rw [if_neg isComputed]
        have children :
            ((g.outgoing n).foldlM
                (fun memo m => do
                  let memo ← g.instanceSet depth memo m
                  mergeChild memo n m)
                memo).Meets
              (fun code => code ≠ CompositionError.e72)
              (fun state => Evaluated memo n state ∧
                ∀ m ∈ g.outgoing n, (state m).computed = true) := by
          apply Outcome.Meets.foldlM fun done state =>
            Evaluated memo n state ∧ ∀ m ∈ done, (state m).computed = true
          · intro done m rest state isOutgoing holds
            have edge : g.Edge n m := by
              rw [Edge, isOutgoing]
              exact List.mem_append_right _ List.mem_cons_self
            apply (inductionHypothesis state m holds.1.ends).bind
            intro called call
            apply (mergeChild_meets called n m).imp
            · rintro next rfl
              refine ⟨holds.1.merge edge call.1 _, ?_⟩
              have stays : ∀ k, (called k).computed = true →
                  (setEntry called n ⟨(called n).computed,
                    (called n).set.addUnion (called m).set⟩ k).computed = true := by
                intro k computed
                by_cases same : k = n
                · rw [same, setEntry_same, ← same]
                  exact computed
                · rw [setEntry_other called _ same]
                  exact computed
              intro k member
              rcases List.mem_append.mp member with earlier | last
              · exact stays k (call.1.keeps k (holds.2 k earlier))
              · rw [List.mem_singleton.mp last]
                exact stays m call.2
            · rintro code incompatible rfl
              exact siblingCheck_ne_e72 _ incompatible.1
          · exact ⟨.refl n ends, fun m member => absurd member List.not_mem_nil⟩
        apply children.bind
        intro state holds
        refine ⟨holds.1.finish holds.2, ?_⟩
        rw [finishNode, setEntry_same]

theorem mergeChild_finished (memo : g.Memo) (n m : g.NodeId) :
    (mergeChild memo n m).Finished := by
  rw [mergeChild]
  intro impossible
  cases check : siblingCheck (g.kind n) with
  | none =>
      rw [check] at impossible
      cases impossible
  | some code =>
      rw [check] at impossible
      dsimp only at impossible
      split at impossible
      · cases impossible
      · cases impossible

theorem instanceSet_finished {n : g.NodeId} (noCycle : NoCycleFrom g.Edge n) :
    ∀ᶠ depth in Filter.atTop, ∀ memo : g.Memo, (g.instanceSet depth memo n).Finished := by
  refine NoCycleFrom.induction (motive := fun n => ∀ᶠ depth in Filter.atTop,
    ∀ memo : g.Memo, (g.instanceSet depth memo n).Finished) ?_ noCycle
  intro n noCycle inductionHypothesis
  have children :
      ∀ᶠ depth in Filter.atTop, ∀ m, g.Edge n m → ∀ memo : g.Memo,
        (g.instanceSet depth memo m).Finished := by
    rw [Filter.eventually_all]
    intro m
    by_cases edge : g.Edge n m
    · exact (inductionHypothesis m edge).mono fun depth finishes _ => finishes
    · exact .of_forall fun _ edge' => absurd edge' edge
  obtain ⟨bound, finishes⟩ := Filter.eventually_atTop.mp children
  refine Filter.eventually_atTop.mpr ⟨bound + 1, ?_⟩
  intro depth enough memo
  cases depth with
  | zero => exact absurd enough (Nat.not_succ_le_zero bound)
  | succ depth =>
      rw [instanceSet]
      split
      · intro impossible
        cases impossible
      · apply Outcome.Finished.bind
        · apply Outcome.foldlM_finished
          intro m edge state
          apply (finishes depth (Nat.le_of_succ_le_succ enough) m edge state).bind
          exact fun called _ => mergeChild_finished called n m
        · intro state _ impossible
          cases impossible

/-! ## Getters and pull ports report nothing -/

/-- A pull port that is not computed has the empty set of its constructor. -/
def PullPortsFresh (memo : g.Memo) : Prop :=
  ∀ p, g.kind p = .pullPort → (memo p).computed = false → (memo p).set = InstanceSet.empty

theorem PullPortsFresh.finishNode {memo : g.Memo} (fresh : PullPortsFresh memo)
    (n : g.NodeId) : PullPortsFresh (finishNode memo n) := by
  intro p isPullPort notComputed
  by_cases same : p = n
  · subst same
    rw [Graph.finishNode, setEntry_same] at notComputed
    cases notComputed
  · rw [Graph.finishNode, setEntry_other memo _ same] at notComputed ⊢
    exact fresh p isPullPort notComputed

theorem computeDependentInstances_finished
    (noCycle : ∀ a ∈ g.actions, ∀ n ∈ g.preconditionNodes a, NoCycleFrom g.Edge n) :
    ∀ᶠ depth in Filter.atTop, (g.computeDependentInstances depth).Finished := by
  have calls :
      ∀ᶠ depth in Filter.atTop, ∀ n, NoCycleFrom g.Edge n → ∀ memo : g.Memo,
        (g.instanceSet depth memo n).Finished := by
    rw [Filter.eventually_all]
    intro n
    by_cases ends : NoCycleFrom g.Edge n
    · exact (instanceSet_finished ends).mono fun depth finishes _ => finishes
    · exact .of_forall fun _ ends' => absurd ends' ends
  apply calls.mono
  intro depth finishes
  rw [computeDependentInstances]
  apply Outcome.foldlM_finished
  intro a isAction state
  apply Outcome.foldlM_finished
  intro n isPrecondition state
  apply (finishes n (noCycle a isAction n isPrecondition) state.1).bind
  intro memo _
  split
  · intro impossible
    cases impossible
  · intro impossible
    cases impossible

theorem recursive_iff : g.Recursive ↔ ∃ a ∈ g.actions, ¬ NoCycleFrom g.Edge a := by
  simp only [Recursive, NoCycleFrom, Reach, not_forall, not_not, exists_prop]

theorem tarjan_actions_meets (depth : Nat) :
    (g.actions.foldlM (g.tarjan depth) fun _ => .unmarked).Meets
      (fun code => code = .e72 ∧ g.Recursive) (fun _ => ¬ g.Recursive) := by
  have searches :
      (g.actions.foldlM (g.tarjan depth) fun _ => .unmarked).Meets
        (fun code => code = .e72 ∧ g.Recursive)
        (fun state => Searched (fun _ => .unmarked) state ∧
          ∀ a ∈ g.actions, state a = .marked) := by
    apply Outcome.Meets.foldlM fun done state =>
      Searched (fun _ => .unmarked) state ∧ ∀ a ∈ done, state a = .marked
    · intro done a rest state isActions holds
      have before : SearchState state a :=
        ⟨holds.1.marked, fun k isTemporary => nomatch (holds.1.temporary k).mp isTemporary⟩
      apply (tarjan_meets depth state a before).imp
      · intro after result
        refine ⟨holds.1.trans result.1, ?_⟩
        intro b isDone
        rcases List.mem_append.mp isDone with earlier | last
        · exact result.1.keeps b (holds.2 b earlier)
        · rw [List.mem_singleton.mp last]
          exact result.2
      · intro code reported
        refine ⟨reported.1, recursive_iff.mpr ⟨a, ?_, reported.2⟩⟩
        rw [isActions]
        exact List.mem_append_right _ List.mem_cons_self
    · refine ⟨.refl ?_, fun a member => absurd member List.not_mem_nil⟩
      intro k impossible
      cases impossible
  apply searches.imp
  · intro state holds recursive
    obtain ⟨a, isAction, cycle⟩ := recursive_iff.mp recursive
    exact cycle (holds.1.marked a (holds.2 a isAction))
  · exact fun _ reported => reported

theorem tarjan_actions_finished {depth : Nat} (enough : g.size < depth) :
    (g.actions.foldlM (g.tarjan depth) fun _ => .unmarked).Finished := by
  have before : ∀ (state : g.NodeId → MarkState) (a : g.NodeId),
      Searched (fun _ => .unmarked) state → SearchState state a :=
    fun state a searched =>
      ⟨searched.marked, fun k isTemporary => nomatch (searched.temporary k).mp isTemporary⟩
  apply Outcome.foldlM_finished_of fun state => Searched (fun _ => .unmarked) state
  · intro a _ state searched
    apply tarjan_finished depth state a (before state a searched)
    have atMost := Finset.card_le_univ (unmarkedNodes state)
    rw [Fintype.card_fin] at atMost
    exact Nat.lt_of_le_of_lt atMost enough
  · intro a _ state next searched step
    exact searched.trans ((tarjan_meets depth state a (before state a searched)).returns step).1
  · exact .refl fun k impossible => by cases impossible

theorem checkStructure_meets (depth : Nat) :
    (g.checkStructure depth).Meets
      (fun code => (code = .e72 ∧ g.Recursive) ∨ (code ≠ .e72 ∧ ¬ g.OtherChecksPass))
      (fun _ => ¬ g.Recursive) := by
  rw [checkStructure]
  split
  · next boundAgain =>
      refine (.inr ⟨by decide, ?_⟩)
      intro checks
      simp only [List.any_eq_true, List.mem_finRange, true_and, Bool.and_eq_true,
        decide_eq_true_eq] at boundAgain
      obtain ⟨n, isReaction, more⟩ := boundAgain
      exact absurd (checks.1 n isReaction) (Nat.not_le.mpr more)
  · apply @Outcome.Meets.bind _ _ _ _ fun _ => True
    · apply Outcome.Meets.forM
      intro n _
      split
      · next isPullPort =>
          split
          · next isEmpty =>
              refine (.inr ⟨by decide, ?_⟩)
              intro checks
              have one := checks.2 n isPullPort
              rw [List.isEmpty_iff.mp isEmpty] at one
              cases one
          · split
            · next more =>
                refine (.inr ⟨by decide, ?_⟩)
                intro checks
                exact absurd (checks.2 n isPullPort) (Nat.ne_of_gt more)
            · exact trivial
      · exact trivial
    · intro _ _
      apply ((tarjan_actions_meets depth).imp (fun _ => id) fun _ => .inl).bind
      exact fun _ notRecursive => notRecursive

theorem checkStructure_finished {depth : Nat} (enough : g.size < depth) :
    (g.checkStructure depth).Finished := by
  rw [checkStructure]
  split
  · intro impossible
    cases impossible
  · apply Outcome.Finished.bind
    · apply Outcome.forM_finished
      intro n _
      split
      · split
        · intro impossible
          cases impossible
        · split
          · intro impossible
            cases impossible
          · intro impossible
            cases impossible
      · intro impossible
        cases impossible
    · intro _ _
      apply (tarjan_actions_finished enough).bind
      intro _ _ impossible
      cases impossible

theorem computeInstanceSets_finished (notRecursive : ¬ g.Recursive) :
    ∀ᶠ depth in Filter.atTop, ∀ memo : g.Memo,
      (g.computeInstanceSets depth memo).Finished := by
  have calls :
      ∀ᶠ depth in Filter.atTop, ∀ a, a ∈ g.actions → ∀ memo : g.Memo,
        (g.instanceSet depth memo a).Finished := by
    rw [Filter.eventually_all]
    intro a
    by_cases ends : NoCycleFrom g.Edge a
    · exact (instanceSet_finished ends).mono fun depth finishes _ => finishes
    · refine .of_forall fun _ isAction => ?_
      exact absurd (recursive_iff.mpr ⟨a, isAction, ends⟩) notRecursive
  apply calls.mono
  intro depth finishes memo
  exact Outcome.foldlM_finished (fun a isAction state => finishes a isAction state) memo

/-! ## The analysis -/

theorem analyze_finished
    (noCycle : ∀ a ∈ g.actions, ∀ n ∈ g.preconditionNodes a, NoCycleFrom g.Edge n) :
    ∃ depth, g.size < depth ∧ (g.analyze depth).Finished := by
  have passes :
      ∀ᶠ depth in Filter.atTop,
        (g.computeDependentInstances depth).Finished ∧ g.size < depth ∧
          (¬ g.Recursive → ∀ memo : g.Memo, (g.computeInstanceSets depth memo).Finished) := by
    apply (computeDependentInstances_finished noCycle).and
    apply (Filter.eventually_gt_atTop g.size).and
    by_cases recursive : g.Recursive
    · exact .of_forall fun _ notRecursive => absurd recursive notRecursive
    · exact (computeInstanceSets_finished recursive).mono fun _ finishes _ => finishes
  obtain ⟨depth, first, enough, last⟩ := passes.exists
  refine ⟨depth, enough, ?_⟩
  rw [analyze]
  apply first.bind
  intro result _
  apply (checkStructure_finished enough).bind
  intro _ passed
  exact last ((checkStructure_meets depth).returns passed) result.1

end Graph

namespace ElaboratedGraph

variable (g : ElaboratedGraph)

variable {g}

variable (g)

end ElaboratedGraph

end Rcgo.Composition
