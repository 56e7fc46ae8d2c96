import Rcgo.Composition.DependentInstances
import Rcgo.Composition.Isolation
import Rcgo.Foundation.DeferredUpdates

/-!
# The code of a composition

The generated code of an action evaluates its precondition and, if it is true, runs the
immutable phases of the transaction, which leave the bodies of the mutable phase.  It is
taken to keep to the accesses that the composition graph records for it.
-/

namespace Rcgo.Composition

open Rcgo.Foundation

namespace Graph

variable {g : Graph} {κ : Type}

/-- Some node of the transaction of the action reads the instance, or writes it. -/
def ReadsInstance (a : g.NodeId) (inst : InstanceId) : Prop :=
  ∃ access, ReceiverAccess.accessRead ≤ access ∧ Accesses a inst access

/-- The precondition of the action reads the instance, itself or through its calls. -/
def PreconditionAccesses (a : g.NodeId) (inst : InstanceId) : Prop :=
  (∃ precondition immutablePhase, g.kind a = .action inst precondition immutablePhase ∧
    ReceiverAccess.accessRead ≤ precondition) ∨
  ∃ n ∈ g.preconditionNodes a, ReadsInstance n inst

/-- A body that keeps to the access declared for the mutable phase. -/
abbrev KeptBody (g : Graph) (κ : Type) : Type :=
  { body : DeferredBody g κ // body.StaysWithin }

namespace KeptBody

def node (body : KeptBody g κ) : g.NodeId :=
  body.val.node

/-- A body transforms the instance that it writes. -/
def update (body : KeptBody g κ) : LocalUpdate InstanceId κ where
  scope := BodyWrites body.node
  run := body.val.run
  frame := body.property.frame
  footprint state other same inst writes :=
    body.property.footprint state other inst writes (same inst writes)

end KeptBody

theorem PreconditionAccesses.preconditionReads {a : g.NodeId} {inst : InstanceId}
    (accesses : PreconditionAccesses a inst) : PreconditionReads a inst := by
  rcases accesses with ⟨precondition, immutablePhase, isKind, _⟩ | ⟨n, isCall, access, _, accesses⟩
  · left
    rw [owner, isKind]
    rfl
  · exact Or.inr ⟨n, isCall, access, accesses⟩

theorem PreconditionAccesses.readsInstance {a : g.NodeId} {inst : InstanceId}
    (called : ∀ n ∈ g.preconditionNodes a, n ∈ g.outgoing a)
    (accesses : PreconditionAccesses a inst) : ReadsInstance a inst := by
  rcases accesses with ⟨precondition, _, isKind, reads⟩ | ⟨n, isCall, access, reads, accesses⟩
  · refine ⟨precondition, reads, a, Relation.ReflTransGen.refl, ?_⟩
    rw [isKind]
    exact List.mem_cons_self
  · exact ⟨access, reads, accesses_of_edge (called n isCall) accesses⟩

end Graph

namespace Composed

open Rcgo.Composition.Graph

theorem accepted_memo (c : Composed) : c.graph.Accepted c.memo := by
  rcases c.accepted with ⟨memo, analyzed⟩
  refine ⟨c.depth, ?_⟩
  rw [Composed.memo, analyzed]

end Composed

open Rcgo.Composition.Graph

/-- What the code of the actions computes from the states of the components, where it
keeps to the recorded accesses.  This is an assumption: the checker accepts the selection of
a field of a sub-component, `this.sub.x`, and the elaboration records no access for it. -/
structure ComponentCode (c : Composed) (κ : Type) where
  precondition : c.graph.NodeId → (InstanceId → κ) → Bool
  /-- the bodies of the activations that the immutable phases execute, in their order -/
  immutablePhase : c.graph.NodeId → (InstanceId → κ) → List (KeptBody c.graph κ)
  /-- `addCall` adds the calls of a precondition to the calls of the action. -/
  called : ∀ a ∈ c.graph.actions, ∀ n ∈ c.graph.preconditionNodes a, n ∈ c.graph.outgoing a
  executes : ∀ a ∈ c.graph.actions, ∀ state, precondition a state = true →
    Run [a] ((immutablePhase a state).map KeptBody.node)
  preconditionReads : ∀ a state other,
    (∀ inst, PreconditionAccesses a inst → state inst = other inst) →
      precondition a state = precondition a other
  immutablePhaseReads : ∀ a state other,
    (∀ inst, ReadsInstance a inst → state inst = other inst) →
      immutablePhase a state = immutablePhase a other

namespace ComponentCode

variable {c : Composed} {κ : Type} (code : ComponentCode c κ)

/-- The bodies that are left for the mutable phase, if the precondition is true. -/
def decision (a : c.graph.NodeId) (state : InstanceId → κ) : Option (List (KeptBody c.graph κ)) :=
  if code.precondition a state then some (code.immutablePhase a state) else none

/-- The activations that are executed, if the precondition is true. -/
def outcome (a : c.graph.NodeId) (state : InstanceId → κ) : Option (List c.graph.NodeId) :=
  (code.decision a state).map fun bodies => bodies.map KeptBody.node

/-- The mutable phase runs the bodies of the activations, the last one first. -/
def deferred (decision : Option (List (KeptBody c.graph κ))) : List (KeptBody c.graph κ) :=
  (decision.getD []).reverse

def transaction (a : c.graph.NodeId) (state : InstanceId → κ) : InstanceId → κ :=
  runBodies ((deferred (code.decision a state)).map Subtype.val) state

/-- Transactions that are executed one after another, with their outcomes. -/
inductive Serial (start : InstanceId → κ) :
    List (c.graph.NodeId × Option (List c.graph.NodeId)) → (InstanceId → κ) → Prop where
  | nil : Serial start [] start
  | transaction {history : List (c.graph.NodeId × Option (List c.graph.NodeId))}
      {state : InstanceId → κ} (a : c.graph.NodeId) (serial : Serial start history state) :
      Serial start (history ++ [(a, code.outcome a state)]) (code.transaction a state)

/-- The transactions of the actions as decisions on updates. -/
def transactions (code : ComponentCode c κ) :
    Transactions { a // a ∈ c.graph.actions } (Option (List (KeptBody c.graph κ))) InstanceId κ where
  reads a := ReadsInstance a.val
  decision a := code.decision a.val
  updates decision := (deferred decision).map KeptBody.update
  footprint a state other same := by
    have samePrecondition : code.precondition a.val state = code.precondition a.val other := by
      apply code.preconditionReads
      intro inst accesses
      exact same inst (accesses.readsInstance (code.called a.val a.property))
    rw [decision, decision, samePrecondition, code.immutablePhaseReads a.val state other same]

theorem runAll_update (bodies : List (KeptBody c.graph κ)) (state : InstanceId → κ) :
    LocalUpdate.runAll (bodies.map KeptBody.update) state =
      runBodies (bodies.map Subtype.val) state := by
  rw [LocalUpdate.runAll, runBodies, List.foldl_map, List.foldl_map]
  rfl

theorem serial_of_serial {start state : InstanceId → κ}
    {history : List ({ a // a ∈ c.graph.actions } × Option (List (KeptBody c.graph κ)))}
    (serial : code.transactions.Serial start history state) :
    code.Serial start
      (history.map fun entry =>
        (entry.1.val, entry.2.map fun bodies => bodies.map KeptBody.node)) state := by
  induction serial with
  | nil => exact .nil
  | decide a _ inductionHypothesis =>
      rw [List.map_append, Transactions.run]
      have next := inductionHypothesis.transaction a.val
      rw [transaction, ← runAll_update] at next
      exact next

theorem accesses_of_deferred {a : c.graph.NodeId} (isAction : a ∈ c.graph.actions)
    {state : InstanceId → κ} {body : KeptBody c.graph κ}
    (isDeferred : body ∈ deferred (code.decision a state)) {inst : InstanceId}
    (writes : BodyWrites body.node inst) : Accesses a inst .accessWrite := by
  unfold deferred decision at isDeferred
  split at isDeferred
  · next isEnabled =>
    rw [Option.getD_some, List.mem_reverse] at isDeferred
    rcases (code.executes a isAction state isEnabled).reaches body.node
      (List.mem_map_of_mem isDeferred) with ⟨t, isStart, path⟩
    rw [List.mem_singleton.mp isStart] at path
    exact writes.accesses path.to_reflTransGen
  · exact absurd isDeferred List.not_mem_nil

end ComponentCode

end Rcgo.Composition
