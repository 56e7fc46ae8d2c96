import Rcgo.Composition.Determinism
import Mathlib.Data.List.Dedup
import Mathlib.Data.List.Sort

/-!
# Instances that depend on other instances

The precondition of an action reads its own instance and, through getters and pull
ports, others.  An instance is linked to those that its preconditions read in this way,
and an activation that writes an instance schedules it with all that are linked to it.
-/

namespace Rcgo.Composition

open Rcgo.Foundation

/-- The member `instance` of a node; ports have none. -/
def NodeKind.owner : NodeKind → Option InstanceId
  | action inst _ _ => some inst
  | reaction inst _ => some inst
  | getter inst _ => some inst
  | activation inst _ => some inst
  | pushPort => none
  | pullPort => none

namespace Graph

variable (g : Graph)

def owner (n : g.NodeId) : Option InstanceId :=
  (g.kind n).owner

/-- `linked_instances` of an instance: a set, in its order. -/
def linkedInstances (depth : Nat) (inst : InstanceId) : List InstanceId :=
  match g.computeDependentInstances depth with
  | .ok (_, links) =>
      ((links.filter fun link => link.1 = inst).map Prod.snd).dedup.insertionSort (· ≤ ·)
  | _ => []

/-- The code of the activation has a `Push` around its body. -/
def schedules (b : g.NodeId) : Bool :=
  match g.kind b with
  | .activation _ mutablePhaseAccess =>
      mutablePhaseAccess = .accessWrite ||
        ((g.actions.any fun a => b ∈ g.outgoing a) && !(g.outgoing b).isEmpty)
  | _ => false

variable {g}

/-- The precondition of the action can read the instance: its own, or one that is reached
through the getters and pull ports it calls. -/
def PreconditionReads (a : g.NodeId) (inst : InstanceId) : Prop :=
  g.owner a = some inst ∨ ∃ n ∈ g.preconditionNodes a, ∃ access, Accesses n inst access

/-- No activation of a transaction writes or calls a push port. -/
def IsSilent (executed : List g.NodeId) : Prop :=
  ∀ b ∈ executed, (∀ inst, ¬BodyWrites b inst) ∧ g.outgoing b = []

private theorem exists_entry
    {memo : g.Memo} {n : g.NodeId} (sound : MemoSound memo) (computed : (memo n).computed = true)
    {inst : InstanceId} {access : ReceiverAccess} (accesses : Accesses n inst access) :
    ∃ entry ∈ (memo n).set.entries, entry.1 = inst := by
  rcases (sound n computed).covers inst access accesses with ⟨granted, isEntry, _⟩
  exact ⟨_, isEntry, rfl⟩

/-- What the loop over the calls of a precondition has linked. -/
structure LinksCalls
    (before : List (InstanceId × InstanceId)) (target : InstanceId) (calls : List g.NodeId)
    (state : g.Memo × List (InstanceId × InstanceId)) : Prop where
  sound : MemoSound state.1
  keeps : before ⊆ state.2
  links : ∀ n ∈ calls, ∀ inst access, Accesses n inst access → (inst, target) ∈ state.2

private theorem linksCalls_of_run
    {depth : Nat} {a : g.NodeId} {target : InstanceId}
    {state final : g.Memo × List (InstanceId × InstanceId)}
    (isAction : (g.kind a).isAction = true) (isTarget : g.owner a = some target)
    (sound : MemoSound state.1)
    (run : ((g.preconditionNodes a).foldlM
      (fun state n => do
        let memo ← g.instanceSet depth state.1 n
        match g.kind a with
        | .action inst .. =>
            pure (memo, state.2 ++ (memo n).set.entries.map fun v => (v.1, inst))
        | _ => pure (memo, state.2))
      state : Outcome CompositionError (g.Memo × List (InstanceId × InstanceId))) = .ok final) :
    LinksCalls state.2 target (g.preconditionNodes a) final := by
  refine Outcome.foldlM_invariant (LinksCalls state.2 target) ?_
    ⟨sound, List.Subset.refl _, fun _ isDone => absurd isDone List.not_mem_nil⟩ run
  intro done n _ current next _ holds step
  rw [Outcome.bind_eq_ok] at step
  rcases step with ⟨memo, call, result⟩
  have spec := instanceSet_spec holds.sound call
  unfold owner at isTarget
  split at result
  · next inst _ _ isKind =>
    rw [isKind, NodeKind.owner, Option.some.injEq] at isTarget
    rw [Outcome.pure_eq, Outcome.ok.injEq, isTarget] at result
    subst result
    refine ⟨spec.sound, fun _ isOld => List.mem_append_left _ (holds.keeps isOld), ?_⟩
    intro other isCall key access accesses
    rcases List.mem_append.mp isCall with isDone | isNew
    · exact List.mem_append_left _ (holds.links other isDone key access accesses)
    · rw [List.mem_singleton.mp isNew] at accesses
      rcases exists_entry spec.sound spec.computed accesses with ⟨entry, isEntry, isKey⟩
      rw [← isKey]
      exact List.mem_append_right _ (List.mem_map_of_mem isEntry)
  · next notAction =>
    cases isKind : g.kind a with
    | action inst precondition immutablePhase =>
        exact absurd isKind (notAction inst precondition immutablePhase)
    | _ =>
        rw [isKind] at isAction
        cases isAction

theorem computeDependentInstances_complete
    {depth : Nat} {memo : g.Memo} {links : List (InstanceId × InstanceId)}
    (run : g.computeDependentInstances depth = .ok (memo, links)) :
    ∀ a ∈ g.actions, ∀ target, g.owner a = some target →
      ∀ n ∈ g.preconditionNodes a, ∀ inst access, Accesses n inst access →
        (inst, target) ∈ links := by
  refine (Outcome.foldlM_invariant
    (fun done (state : g.Memo × List (InstanceId × InstanceId)) =>
      MemoSound state.1 ∧ ∀ a ∈ done, ∀ target, g.owner a = some target →
        ∀ n ∈ g.preconditionNodes a, ∀ inst access, Accesses n inst access →
          (inst, target) ∈ state.2)
    ?_ ⟨memoSound_initialMemo, fun _ isDone => absurd isDone List.not_mem_nil⟩ run).2
  intro done a _ state next isList holds step
  have isAction : (g.kind a).isAction = true := by
    rw [← g.actionsComplete, isList]
    exact List.mem_append_right done List.mem_cons_self
  have hasOwner : ∃ target, g.owner a = some target := by
    unfold owner
    cases isKind : g.kind a with
    | action inst _ _ => exact ⟨inst, rfl⟩
    | _ =>
        rw [isKind] at isAction
        cases isAction
  rcases hasOwner with ⟨target, isTarget⟩
  have linked := linksCalls_of_run isAction isTarget holds.1 step
  refine ⟨linked.sound, ?_⟩
  intro b isDone other isOther n isCall inst access accesses
  rcases List.mem_append.mp isDone with isEarlier | isLast
  · exact linked.keeps (holds.2 b isEarlier other isOther n isCall inst access accesses)
  · rw [List.mem_singleton.mp isLast] at isOther isCall
    rw [isTarget, Option.some.injEq] at isOther
    rw [← isOther]
    exact linked.links n isCall inst access accesses

end Graph

/-- A composition that has been analyzed, with the table of its instances. -/
structure Composed where
  graph : Graph
  /-- the instances in the order of their addresses -/
  instances : List InstanceId
  /-- for which the analysis returns -/
  depth : Nat
  accepted : ∃ memo, graph.analyze depth = .ok memo
  /-- `enumerate_actions` goes through the table. -/
  owned : ∀ a ∈ graph.actions, ∃ inst ∈ instances, graph.owner a = some inst
  /-- An activation gets the instance of its action or reaction. -/
  activates : ∀ n, ∀ b ∈ graph.outgoing n, Graph.isActivation b = true →
    graph.owner b = graph.owner n

namespace Composed

open Rcgo.Composition.Graph

variable (c : Composed)

/-- The instance sets that the analysis leaves in the nodes. -/
def memo : c.graph.Memo :=
  match c.graph.analyze c.depth with
  | .ok memo => memo
  | _ => c.graph.initialMemo

/-- The member `actions` of an instance. -/
def actionsOf (inst : InstanceId) : List c.graph.NodeId :=
  c.graph.actions.filter fun a => c.graph.owner a = some inst

/-- The instances that are scheduled after the body of the activation has run: that of the
activation and its linked instances. -/
def pushes (b : c.graph.NodeId) : List InstanceId :=
  if c.graph.schedules b then
    match c.graph.owner b with
    | some inst => inst :: c.graph.linkedInstances c.depth inst
    | none => []
  else
    []

variable {c}

theorem mem_linkedInstances {a n : c.graph.NodeId} (isAction : a ∈ c.graph.actions)
    {target inst : InstanceId} (isTarget : c.graph.owner a = some target)
    (isCall : n ∈ c.graph.preconditionNodes a) {access : ReceiverAccess}
    (accesses : Accesses n inst access) :
    target ∈ c.graph.linkedInstances c.depth inst := by
  rcases c.accepted with ⟨_, analyzed⟩
  unfold analyze at analyzed
  rw [Outcome.bind_eq_ok] at analyzed
  rcases analyzed with ⟨⟨memo, links⟩, elaborated, _⟩
  have isLink :=
    computeDependentInstances_complete elaborated a isAction target isTarget n isCall inst access
      accesses
  rw [linkedInstances, elaborated]
  simp only [List.mem_insertionSort, List.mem_dedup, List.mem_map, List.mem_filter,
    decide_eq_true_eq]
  exact ⟨_, ⟨isLink, rfl⟩, rfl⟩

theorem mem_pushes_of_writes {a b : c.graph.NodeId} (isAction : a ∈ c.graph.actions)
    {target inst : InstanceId} (isTarget : c.graph.owner a = some target)
    (reads : PreconditionReads a inst) (writes : BodyWrites b inst) : target ∈ c.pushes b := by
  have isKind : c.graph.kind b = .activation inst .accessWrite := writes
  have schedules : c.graph.schedules b = true := by
    rw [Graph.schedules, isKind]
    rfl
  have isOwner : c.graph.owner b = some inst := by
    rw [owner, isKind]
    rfl
  rw [pushes, if_pos schedules, isOwner]
  rcases reads with isOwn | ⟨n, isCall, access, accesses⟩
  · rw [isTarget, Option.some.injEq] at isOwn
    rw [isOwn]
    exact List.mem_cons_self
  · exact List.mem_cons_of_mem _ (mem_linkedInstances isAction isTarget isCall accesses)

theorem silent_of_not_schedules {a b : c.graph.NodeId} (isAction : a ∈ c.graph.actions)
    (isEdge : b ∈ c.graph.outgoing a) (isActivated : isActivation b = true)
    (notSchedules : c.graph.schedules b = false) :
    (∀ inst, ¬BodyWrites b inst) ∧ c.graph.outgoing b = [] := by
  have inAction : (c.graph.actions.any fun a => b ∈ c.graph.outgoing a) = true :=
    List.any_eq_true.mpr ⟨a, isAction, decide_eq_true isEdge⟩
  unfold isActivation at isActivated
  split at isActivated
  · next inst access isKind =>
    rw [Graph.schedules, isKind] at notSchedules
    simp only [inAction, Bool.true_and, Bool.or_eq_false_iff, decide_eq_false_iff_not,
      Bool.not_eq_false', List.isEmpty_iff] at notSchedules
    refine ⟨?_, notSchedules.2⟩
    intro other writes
    rw [BodyWrites, isKind, NodeKind.activation.injEq] at writes
    exact notSchedules.1 writes.2
  · cases isActivated

theorem exists_pushes_of_run {a : c.graph.NodeId} (isAction : a ∈ c.graph.actions)
    {executed : List c.graph.NodeId} (run : Run [a] executed) {target : InstanceId}
    (isTarget : c.graph.owner a = some target) (notSilent : ¬IsSilent executed) :
    ∃ b ∈ executed, target ∈ c.pushes b := by
  cases run with
  | idle none =>
      cases none
      exact absurd (fun _ isExecuted => absurd isExecuted List.not_mem_nil) notSilent
  | @activate _ b _ below later isEdge isActivated runBelow none =>
      cases none
      refine ⟨b, List.mem_cons_self, ?_⟩
      have isOwner := (c.activates a b isEdge isActivated).trans isTarget
      by_cases schedules : c.graph.schedules b = true
      · rw [pushes, if_pos schedules, isOwner]
        exact List.mem_cons_self
      · refine absurd ?_ notSilent
        rcases silent_of_not_schedules isAction isEdge isActivated
            (Bool.eq_false_of_not_eq_true schedules) with ⟨notWrites, noPorts⟩
        rw [activatedReactions, noPorts, List.flatMap_nil] at runBelow
        cases runBelow
        intro other isExecuted
        rw [List.append_nil, List.mem_singleton] at isExecuted
        rw [isExecuted]
        exact ⟨notWrites, noPorts⟩

end Composed

end Rcgo.Composition
