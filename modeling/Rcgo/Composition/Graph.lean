import Rcgo.Composition.InstanceSet
import Rcgo.Foundation.Outcome
import Mathlib.Data.List.FinRange
import Mathlib.Logic.Relation

/-!
# The elaborated component graph and its analysis

The nodes are those of `composition.hpp` after `Composer::elaborate` has
recorded their edges.  `instance_set` is memoised in the node, so it is a
function from the memo of all nodes to the memo it leaves behind.
-/

namespace Rcgo.Composition

open Rcgo.Foundation

/-- The six classes derived from `composition::Node`, each with its instance
and the accesses of the phases that run on it. -/
inductive NodeKind where
  | action (inst : InstanceId)
      (preconditionAccess immutablePhaseAccess : ReceiverAccess)
  | reaction (inst : InstanceId) (immutablePhaseAccess : ReceiverAccess)
  | getter (inst : InstanceId) (immutablePhaseAccess : ReceiverAccess)
  | activation (inst : InstanceId) (mutablePhaseAccess : ReceiverAccess)
  | pushPort
  | pullPort
  deriving DecidableEq, Repr

namespace NodeKind

/-- The edges the elaboration adds: `addCall` on actions, reactions and
getters, `visit (Activate)`, `visit (PushPortCall)` and the bindings. -/
def allowsEdge : NodeKind → NodeKind → Bool
  | action .., activation .. => true
  | action .., getter .. => true
  | action .., pullPort => true
  | reaction .., activation .. => true
  | reaction .., getter .. => true
  | reaction .., pullPort => true
  | getter .., getter .. => true
  | getter .., pullPort => true
  | activation .., pushPort => true
  | pushPort, reaction .. => true
  | pullPort, getter .. => true
  | _, _ => false

def isAction : NodeKind → Bool
  | action .. => true
  | _ => false

end NodeKind

/-- What `Composer` holds after `elaborate`.  `actions` lists the action
nodes in the order of the loops over instances and their actions. -/
structure Graph where
  size : Nat
  kind : Fin size → NodeKind
  outgoing : Fin size → List (Fin size)
  /-- The calls made while elaborating the precondition of an action. -/
  preconditionNodes : Fin size → List (Fin size)
  actions : List (Fin size)
  wellKinded : ∀ n, ∀ m ∈ outgoing n, (kind n).allowsEdge (kind m) = true
  actionsComplete : ∀ n, n ∈ actions ↔ (kind n).isAction = true

/-- The diagnostics of the analysis, by their numbers in the source. -/
inductive CompositionError where
  /-- reaction bound more than once -/
  | e71
  /-- composition is recursive -/
  | e72
  /-- unbound pull port -/
  | e118
  /-- multiply bound pull port -/
  | e119
  /-- system is non-deterministic, found at a pull port -/
  | e120
  /-- system is non-deterministic, found at an activation -/
  | e137
  /-- system is non-deterministic, found at a push port -/
  | e138
  deriving DecidableEq, Repr

namespace Graph

variable (g : Graph)

abbrev NodeId := Fin g.size

/-- The nodes that `outgoing_node` returns for `n`. -/
def Edge (n m : g.NodeId) : Prop :=
  m ∈ g.outgoing n

def Reach : g.NodeId → g.NodeId → Prop :=
  Relation.ReflTransGen g.Edge

/-! ## Instance sets -/

/-- The members `instance_set_computed_` and `instance_set_` of a node. -/
structure MemoEntry where
  computed : Bool
  set : InstanceSet

abbrev Memo := g.NodeId → MemoEntry

def initialMemo : g.Memo :=
  fun _ => ⟨false, InstanceSet.empty⟩

/-- The error reported when the set of a child is not compatible with the
union of its elder siblings; actions, reactions and getters do not test. -/
def siblingCheck : NodeKind → Option CompositionError
  | .action .. => none
  | .reaction .. => none
  | .getter .. => none
  | .activation .. => some .e137
  | .pushPort => some .e138
  | .pullPort => some .e120

/-- What a node inserts for itself after its children. -/
def ownEntries : NodeKind → List InstanceEntry
  | .action inst precondition immutablePhase =>
      [(inst, precondition), (inst, immutablePhase)]
  | .reaction inst immutablePhase => [(inst, immutablePhase)]
  | .getter inst immutablePhase => [(inst, immutablePhase)]
  | .activation inst mutablePhase => [(inst, mutablePhase)]
  | .pushPort => []
  | .pullPort => []

variable {g}

def setEntry (memo : g.Memo) (n : g.NodeId) (entry : MemoEntry) : g.Memo :=
  fun m => if m = n then entry else memo m

/-- Merge the set of the child `m` into the set of `n`. -/
def mergeChild (memo : g.Memo) (n m : g.NodeId) :
    Outcome CompositionError g.Memo :=
  let merged : g.Memo :=
    setEntry memo n ⟨(memo n).computed, (memo n).set.addUnion (memo m).set⟩
  match siblingCheck (g.kind n) with
  | none => .ok merged
  | some code =>
      if (memo n).set.isCompatible (memo m).set then .ok merged else .error code

/-- The last statements of `instance_set`: insert the own accesses and set
`instance_set_computed_`. -/
def finishNode (memo : g.Memo) (n : g.NodeId) : g.Memo :=
  setEntry memo n
    ⟨true, (ownEntries (g.kind n)).foldl InstanceSet.insert (memo n).set⟩

variable (g)

/-- `instance_set` of every node class.  The depth bounds the recursion. -/
def instanceSet : Nat → g.Memo → g.NodeId → Outcome CompositionError g.Memo
  | 0, _, _ => .outOfFuel
  | depth + 1, memo, n =>
      if (memo n).computed then
        .ok memo
      else do
        let memo ←
          (g.outgoing n).foldlM
            (fun memo m => do
              let memo ← instanceSet depth memo m
              mergeChild memo n m)
            memo
        pure (finishNode memo n)

/-! ## The passes of the composer -/

/-- `Composer::compute_dependent_instances`.  A pair `(i, j)` says that `j`
is a linked instance of `i`: when `i` changes, preconditions of `j` may. -/
def computeDependentInstances (depth : Nat) :
    Outcome CompositionError (g.Memo × List (InstanceId × InstanceId)) :=
  g.actions.foldlM
    (fun state a =>
      (g.preconditionNodes a).foldlM
        (fun state n => do
          let memo ← g.instanceSet depth state.1 n
          match g.kind a with
          | .action inst .. =>
              pure (memo, state.2 ++ (memo n).set.entries.map fun v => (v.1, inst))
          | _ => pure (memo, state.2))
        state)
    (g.initialMemo, [])

/-- `Node::State`. -/
inductive MarkState where
  | unmarked
  | temporary
  | marked
  deriving DecidableEq, Repr

variable {g} in
def setMark (marks : g.NodeId → MarkState) (n : g.NodeId) (state : MarkState) :
    g.NodeId → MarkState :=
  fun m => if m = n then state else marks m

/-- The depth-first search called `tarjan`. -/
def tarjan :
    Nat → (g.NodeId → MarkState) → g.NodeId →
      Outcome CompositionError (g.NodeId → MarkState)
  | 0, _, _ => .outOfFuel
  | depth + 1, marks, n =>
      match marks n with
      | .unmarked => do
          let marks ← (g.outgoing n).foldlM (tarjan depth) (setMark marks n .temporary)
          pure (setMark marks n .marked)
      | .temporary => .error .e72
      | .marked => .ok marks

/-- How often the elaborated bindings bind the reaction: `push_ports.size ()`. -/
def pushPortCount (r : g.NodeId) : Nat :=
  (((List.finRange g.size).filter fun n => g.kind n = .pushPort).flatMap g.outgoing).countP
    fun m => m = r

def isReaction (n : g.NodeId) : Bool :=
  match g.kind n with
  | .reaction .. => true
  | _ => false

/-- `Composer::check_structure`. -/
def checkStructure (depth : Nat) : Outcome CompositionError Unit := do
  if (List.finRange g.size).any fun n => g.isReaction n && g.pushPortCount n > 1 then
    .error .e71
  (List.finRange g.size).forM fun n =>
    if g.kind n = .pullPort then
      if (g.outgoing n).isEmpty then
        .error .e118
      else if (g.outgoing n).length > 1 then
        .error .e119
      else
        .ok ()
    else
      .ok ()
  let _ ← g.actions.foldlM (g.tarjan depth) (fun _ => .unmarked)
  pure ()

/-- `Composer::compute_instance_sets`. -/
def computeInstanceSets (depth : Nat) (memo : g.Memo) :
    Outcome CompositionError g.Memo :=
  g.actions.foldlM (g.instanceSet depth) memo

/-- The end of `Composer::elaborate` followed by `Composer::analyze`. -/
def analyze (depth : Nat) : Outcome CompositionError g.Memo := do
  let (memo, _) ← g.computeDependentInstances depth
  g.checkStructure depth
  g.computeInstanceSets depth memo

/-- The composition passes the analysis and `memo` holds the computed sets. -/
def Accepted (memo : g.Memo) : Prop :=
  ∃ depth, g.analyze depth = .ok memo

/-- A producer pushes to a consumer and asks a third instance through a pull
port in its precondition. -/
def pipeline : Graph where
  size := 7
  kind n :=
    match n.val with
    | 0 => .action 0 .accessRead .accessRead
    | 1 => .activation 0 .accessWrite
    | 2 => .pushPort
    | 3 => .reaction 1 .accessRead
    | 4 => .activation 1 .accessWrite
    | 5 => .pullPort
    | _ => .getter 2 .accessRead
  outgoing n :=
    match n.val with
    | 0 => [5, 1]
    | 1 => [2]
    | 2 => [3]
    | 3 => [4]
    | 5 => [6]
    | _ => []
  preconditionNodes n := if n = 0 then [5] else []
  actions := [0]
  wellKinded := by decide
  actionsComplete := by decide

theorem pipeline_accepted : ∃ memo, pipeline.Accepted memo := by
  have isOk : (pipeline.analyze 7).satisfies (fun _ => true) = true := by decide
  obtain ⟨memo, run, _⟩ := Outcome.satisfies_iff.mp isOk
  exact ⟨memo, 7, run⟩

end Graph

end Rcgo.Composition
