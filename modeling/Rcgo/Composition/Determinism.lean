import Rcgo.Composition.Footprint
import Mathlib.Data.List.Pairwise

/-!
# Determinism of transactions

In a run of an action each transition executes at most one of its activate
statements.  The bodies of the executed statements run in the mutable phase,
so a composition is deterministic when no two of them write one instance.
-/

namespace Rcgo.Composition

open Rcgo.Foundation

namespace Graph

universe u

variable {g : Graph}

def isTransition (n : g.NodeId) : Bool :=
  match g.kind n with
  | .action .. => true
  | .reaction .. => true
  | _ => false

def isActivation (n : g.NodeId) : Bool :=
  match g.kind n with
  | .activation .. => true
  | _ => false

/-- The reactions that are run when the activation is executed: those bound
to the push ports it calls, once for each call. -/
def activatedReactions (a : g.NodeId) : List g.NodeId :=
  (g.outgoing a).flatMap g.outgoing

/-- Running the transitions of the first list can execute the activations of
the second list. -/
inductive Run : List g.NodeId → List g.NodeId → Prop where
  | nil : Run [] []
  /-- The transition executes no activate statement. -/
  | idle {t : g.NodeId} {rest later : List g.NodeId} :
      Run rest later → Run (t :: rest) later
  | activate {t a : g.NodeId} {rest below later : List g.NodeId} :
      a ∈ g.outgoing t → isActivation a = true →
      Run (activatedReactions a) below → Run rest later →
        Run (t :: rest) (a :: (below ++ later))

/-- The body of the activation may write the instance. -/
def BodyWrites (a : g.NodeId) (inst : InstanceId) : Prop :=
  g.kind a = .activation inst .accessWrite

/-- No two of the executed bodies may write one instance. -/
def BodiesApart (executed : List g.NodeId) : Prop :=
  executed.Pairwise fun a b => ∀ inst, ¬ (BodyWrites a inst ∧ BodyWrites b inst)

/-- The body of an activate statement as it runs in the mutable phase: its
frame is fixed, it transforms the states of the components. -/
structure DeferredBody (g : Graph) (κ : Type u) where
  node : g.NodeId
  run : (InstanceId → κ) → InstanceId → κ

/-- The body keeps to the access declared for the mutable phase: it changes
only an instance that it writes, as a function of the state of this instance.  This
is assumed of bodies; nothing checks it for fields of sub-components. -/
structure DeferredBody.StaysWithin {κ : Type u} (body : DeferredBody g κ) : Prop where
  frame :
    ∀ state inst, ¬ BodyWrites body.node inst → body.run state inst = state inst
  footprint :
    ∀ state other inst, BodyWrites body.node inst → state inst = other inst →
      body.run state inst = body.run other inst

def runBodies {κ : Type u} (bodies : List (DeferredBody g κ)) (state : InstanceId → κ) :
    InstanceId → κ :=
  bodies.foldl (fun state body => body.run state) state

variable (g) in
/-- No component is written by two transition bodies of one transaction. -/
def WritersDisjoint : Prop :=
  ∀ a ∈ g.actions, ∀ executed, Run [a] executed → BodiesApart executed

variable (g) in
/-- The final state does not depend on the order of the mutable phases. -/
def OrderIndependent : Prop :=
  ∀ a ∈ g.actions, ∀ (κ : Type) (bodies order : List (DeferredBody g κ)),
    Run [a] (bodies.map DeferredBody.node) →
    (∀ body ∈ bodies, body.StaysWithin) →
    order.Perm bodies →
      ∀ state, runBodies order state = runBodies bodies state

variable (g) in
/-- No activation that an action can reach writes an instance which an
activation below it writes again. -/
def NoNestedWriter : Prop :=
  ∀ a ∈ g.actions, ∀ v w inst,
    g.Reach a v → BodyWrites v inst →
    Relation.TransGen g.Edge v w → ¬ BodyWrites w inst

theorem BodyWrites.accesses
    {n a : g.NodeId} {inst : InstanceId}
    (writes : BodyWrites a inst) (reach : g.Reach n a) :
    Accesses n inst .accessWrite := by
  have kind : g.kind a = .activation inst .accessWrite := writes
  refine ⟨a, reach, ?_⟩
  rw [kind]
  exact List.mem_cons_self

/-! ## The children of the node kinds -/

private theorem edge_kinds
    {n m : g.NodeId} (edge : g.Edge n m) :
    (g.kind n).allowsEdge (g.kind m) = true :=
  g.wellKinded n m edge

private theorem pushPort_of_edge_activation
    {a p : g.NodeId} (activation : isActivation a = true) (edge : g.Edge a p) :
    g.kind p = .pushPort := by
  have allowed := edge_kinds edge
  unfold isActivation at activation
  generalize g.kind a = parent at activation allowed
  generalize g.kind p = child at allowed
  cases parent <;> cases child <;> simp_all [NodeKind.allowsEdge]

/-! ## Accepted compositions without nested writers -/

theorem Run.reaches
    {nodes executed : List g.NodeId} (run : Run nodes executed) :
    ∀ x ∈ executed, ∃ t ∈ nodes, Relation.TransGen g.Edge t x := by
  induction run with
  | nil =>
      intro x member
      exact absurd member List.not_mem_nil
  | idle _ inductionHypothesis =>
      intro x member
      obtain ⟨t, inNodes, path⟩ := inductionHypothesis x member
      exact ⟨t, List.mem_cons_of_mem _ inNodes, path⟩
  | @activate t a rest below later edge _ _ _ belowHypothesis laterHypothesis =>
      intro x member
      rcases List.mem_cons.mp member with isActivated | member
      · subst isActivated
        exact ⟨t, List.mem_cons_self, Relation.TransGen.single edge⟩
      · rcases List.mem_append.mp member with inBelow | inLater
        · obtain ⟨r, activated, path⟩ := belowHypothesis x inBelow
          obtain ⟨p, calls, bound⟩ := List.mem_flatMap.mp activated
          refine ⟨t, List.mem_cons_self, ?_⟩
          exact
            Relation.TransGen.head edge
              (Relation.TransGen.head calls (Relation.TransGen.head bound path))
        · obtain ⟨t', inRest, path⟩ := laterHypothesis x inLater
          exact ⟨t', List.mem_cons_of_mem _ inRest, path⟩

private theorem transGen_of_activated
    {a r x : g.NodeId} (activated : r ∈ activatedReactions a)
    (path : Relation.TransGen g.Edge r x) :
    Relation.TransGen g.Edge a x := by
  obtain ⟨p, calls, bound⟩ := List.mem_flatMap.mp activated
  exact Relation.TransGen.head calls (Relation.TransGen.head bound path)

private theorem writersApart_activatedReactions
    {memo : g.Memo} (sound : MemoSound memo) {a : g.NodeId}
    (computed : (memo a).computed = true) (activation : isActivation a = true) :
    WritersApart (activatedReactions a) := by
  have portsApart : WritersApart (g.outgoing a) := by
    refine (sound a computed).siblings ?_
    unfold isActivation at activation
    generalize g.kind a = kind at activation
    cases kind <;> simp_all [siblingCheck]
  refine List.pairwise_flatMap.mpr ⟨?_, ?_⟩
  · intro p calls
    refine (sound p ((sound a computed).children p calls)).siblings ?_
    rw [pushPort_of_edge_activation activation calls]
    exact Option.some_ne_none _
  · refine portsApart.imp ?_
    intro p q apart r bound r' bound' inst both
    exact apart inst ⟨accesses_of_edge bound both.1, accesses_of_edge bound' both.2⟩

private theorem Run.bodiesApart
    {memo : g.Memo} (sound : MemoSound memo)
    {nodes executed : List g.NodeId} (run : Run nodes executed) :
    (∀ t ∈ nodes, (memo t).computed = true) →
    WritersApart nodes →
    (∀ t ∈ nodes, ∀ v w inst,
      g.Reach t v → BodyWrites v inst →
        Relation.TransGen g.Edge v w → ¬ BodyWrites w inst) →
      BodiesApart executed := by
  induction run with
  | nil =>
      intro _ _ _
      exact List.Pairwise.nil
  | idle _ inductionHypothesis =>
      intro computed apart noNested
      exact
        inductionHypothesis
          (fun t member => computed t (List.mem_cons_of_mem _ member))
          (List.pairwise_cons.mp apart).2
          (fun t member => noNested t (List.mem_cons_of_mem _ member))
  | @activate t a rest below later edge activation belowRun laterRun
      belowHypothesis laterHypothesis =>
      intro computed apart noNested
      have taskComputed := computed t List.mem_cons_self
      have activationComputed : (memo a).computed = true :=
        (sound t taskComputed).children a edge
      have reachActivation : g.Reach t a := Relation.ReflTransGen.single edge
      have belowPath :
          ∀ x ∈ below, Relation.TransGen g.Edge a x := by
        intro x member
        obtain ⟨r, activated, path⟩ := belowRun.reaches x member
        exact transGen_of_activated activated path
      have laterAccess :
          ∀ x ∈ later, ∀ inst, BodyWrites x inst →
            ∀ y, g.Reach t y → ¬ BodyWrites y inst := by
        intro x member inst writes y reach writesToo
        obtain ⟨t', inRest, path⟩ := laterRun.reaches x member
        exact
          (List.pairwise_cons.mp apart).1 t' inRest inst
            ⟨writesToo.accesses reach, writes.accesses path.to_reflTransGen⟩
      have belowApart : BodiesApart below := by
        refine belowHypothesis ?_
          (writersApart_activatedReactions sound activationComputed activation) ?_
        · intro r activated
          obtain ⟨p, calls, bound⟩ := List.mem_flatMap.mp activated
          have portComputed := (sound a activationComputed).children p calls
          exact (sound p portComputed).children r bound
        · intro r activated v w inst reach
          obtain ⟨p, calls, bound⟩ := List.mem_flatMap.mp activated
          refine noNested t List.mem_cons_self v w inst ?_
          exact
            Relation.ReflTransGen.head edge
              (Relation.ReflTransGen.head calls
                (Relation.ReflTransGen.head bound reach))
      have laterApart : BodiesApart later :=
        laterHypothesis
          (fun t' member => computed t' (List.mem_cons_of_mem _ member))
          (List.pairwise_cons.mp apart).2
          (fun t' member => noNested t' (List.mem_cons_of_mem _ member))
      refine List.pairwise_cons.mpr ⟨?_, List.pairwise_append.mpr
        ⟨belowApart, laterApart, ?_⟩⟩
      · rintro x member inst ⟨writes, writesToo⟩
        rcases List.mem_append.mp member with inBelow | inLater
        · exact
            noNested t List.mem_cons_self a x inst reachActivation writes
              (belowPath x inBelow) writesToo
        · exact laterAccess x inLater inst writesToo a reachActivation writes
      · rintro x inBelow y inLater inst ⟨writes, writesToo⟩
        refine laterAccess y inLater inst writesToo x ?_ writes
        exact reachActivation.trans (belowPath x inBelow).to_reflTransGen

theorem writersDisjoint_of_noNestedWriter
    {memo : g.Memo} (accepted : g.Accepted memo) (noNested : g.NoNestedWriter) :
    g.WritersDisjoint := by
  obtain ⟨sound, computed⟩ := accepted.memoSound
  intro a isAction executed run
  refine run.bodiesApart sound ?_ (List.pairwise_singleton _ _) ?_
  · intro t member
    rw [List.mem_singleton.mp member]
    exact computed a isAction
  · intro t member
    rw [List.mem_singleton.mp member]
    exact noNested a isAction

/-! ## Order of the mutable phases -/

theorem DeferredBody.StaysWithin.comm
    {κ : Type u} {first second : DeferredBody g κ}
    (firstWithin : first.StaysWithin) (secondWithin : second.StaysWithin)
    (apart : ∀ inst, ¬ (BodyWrites first.node inst ∧ BodyWrites second.node inst))
    (state : InstanceId → κ) :
    first.run (second.run state) = second.run (first.run state) := by
  funext inst
  by_cases firstWrites : BodyWrites first.node inst
  · have secondKeeps : ¬ BodyWrites second.node inst := fun secondWrites =>
      apart inst ⟨firstWrites, secondWrites⟩
    calc
      first.run (second.run state) inst = first.run state inst :=
        firstWithin.footprint _ _ inst firstWrites
          (secondWithin.frame state inst secondKeeps)
      _ = second.run (first.run state) inst :=
        (secondWithin.frame _ inst secondKeeps).symm
  · rw [firstWithin.frame _ inst firstWrites]
    by_cases secondWrites : BodyWrites second.node inst
    · exact
        secondWithin.footprint _ _ inst secondWrites
          (firstWithin.frame state inst firstWrites).symm
    · rw [secondWithin.frame _ inst secondWrites,
        secondWithin.frame _ inst secondWrites, firstWithin.frame _ inst firstWrites]

theorem runBodies_perm
    {κ : Type u} {bodies order : List (DeferredBody g κ)}
    (apart : BodiesApart (bodies.map DeferredBody.node))
    (within : ∀ body ∈ bodies, body.StaysWithin)
    (permuted : order.Perm bodies) (state : InstanceId → κ) :
    runBodies order state = runBodies bodies state := by
  have symmetric :
      Std.Symm fun first second : DeferredBody g κ =>
        ∀ inst, ¬ (BodyWrites first.node inst ∧ BodyWrites second.node inst) :=
    ⟨fun _ _ apart inst both => apart inst both.symm⟩
  have pairwise := List.pairwise_map.mp apart
  refine (permuted.symm.foldl_eq' ?_ state).symm
  intro first firstMember second secondMember z
  by_cases same : first = second
  · rw [same]
  · exact
      (within second secondMember).comm (within first firstMember)
        (pairwise.forall secondMember firstMember (Ne.symm same)) z

/-! ## Runs along a path -/

theorem Run.idleAll : ∀ nodes : List g.NodeId, Run nodes []
  | [] => Run.nil
  | _ :: rest => (Run.idleAll rest).idle

theorem Run.of_sublist
    {nodes executed : List g.NodeId} (run : Run nodes executed) :
    ∀ {more : List g.NodeId}, nodes.Sublist more → Run more executed := by
  induction run with
  | nil =>
      intro more _
      exact Run.idleAll more
  | @idle t rest later _ inductionHypothesis =>
      intro more sublist
      exact inductionHypothesis ((List.sublist_cons_self t rest).trans sublist)
  | @activate t a rest below later edge activation belowRun _ _ laterHypothesis =>
      intro more
      induction more with
      | nil =>
          intro sublist
          cases sublist
      | cons head tail tailHypothesis =>
          intro sublist
          cases sublist with
          | cons _ inTail => exact (tailHypothesis inTail).idle
          | cons_cons _ inTail =>
              exact Run.activate edge activation belowRun (laterHypothesis inTail)

/-- A run that starts at `n` and executes the activation `v` with the
activations `below` under it. -/
structure RunsThrough (v : g.NodeId) (below : List g.NodeId) (n : g.NodeId) : Prop where
  transition :
    isTransition n = true → ∃ executed, Run [n] executed ∧ (v :: below).Sublist executed
  activation :
    isActivation n = true →
      ∃ executed, Run (activatedReactions n) executed ∧ (v :: below).Sublist executed
  pushPort :
    g.kind n = .pushPort →
      ∃ executed, Run (g.outgoing n) executed ∧ (v :: below).Sublist executed
  noGetter :
    isTransition n = true ∨ isActivation n = true ∨ g.kind n = .pushPort

private theorem runsThrough_single
    {v n : g.NodeId} {below : List g.NodeId}
    (isTarget : isActivation v = true) (run : Run (activatedReactions v) below)
    (edge : g.Edge n v) :
    RunsThrough v below n := by
  have allowed := edge_kinds edge
  have parent : isTransition n = true := by
    unfold isActivation at isTarget
    unfold isTransition
    generalize g.kind n = parent at allowed
    generalize g.kind v = child at allowed isTarget
    cases parent <;> cases child <;> simp_all [NodeKind.allowsEdge]
  have noActivation : isActivation n ≠ true := by
    intro activation
    have isPort := pushPort_of_edge_activation activation edge
    simp [isActivation, isPort] at isTarget
  refine ⟨?_, fun activation => absurd activation noActivation, ?_, Or.inl parent⟩
  · intro _
    refine ⟨v :: (below ++ []), Run.activate edge isTarget run Run.nil, ?_⟩
    rw [List.append_nil]
  · intro isPort
    simp [isTransition, isPort] at parent

private theorem runsThrough_step
    {v n m : g.NodeId} {below : List g.NodeId}
    (edge : g.Edge n m) (through : RunsThrough v below m) :
    RunsThrough v below n := by
  have allowed := edge_kinds edge
  refine ⟨?_, ?_, ?_, ?_⟩
  · intro transition
    have activation : isActivation m = true := by
      rcases through.noGetter with isTrans | isAct | isPort
      · unfold isTransition at transition isTrans
        generalize g.kind n = parent at allowed transition
        generalize g.kind m = child at allowed isTrans
        cases parent <;> cases child <;> simp_all [NodeKind.allowsEdge]
      · exact isAct
      · unfold isTransition at transition
        rw [isPort] at allowed
        generalize g.kind n = parent at allowed transition
        cases parent <;> simp_all [NodeKind.allowsEdge]
    obtain ⟨executed, run, sublist⟩ := through.activation activation
    refine ⟨m :: (executed ++ []), Run.activate edge activation run Run.nil, ?_⟩
    rw [List.append_nil]
    exact sublist.cons m
  · intro activation
    obtain ⟨executed, run, sublist⟩ :=
      through.pushPort (pushPort_of_edge_activation activation edge)
    refine ⟨executed, run.of_sublist ?_, sublist⟩
    exact List.sublist_flatten_of_mem (List.mem_map_of_mem edge)
  · intro isPort
    have transition : isTransition m = true := by
      rw [isPort] at allowed
      unfold isTransition
      generalize g.kind m = child at allowed
      cases child <;> simp_all [NodeKind.allowsEdge]
    obtain ⟨executed, run, sublist⟩ := through.transition transition
    exact ⟨executed, run.of_sublist (List.singleton_sublist.mpr edge), sublist⟩
  · rcases through.noGetter with isTrans | isAct | isPort
    · refine Or.inr (Or.inr ?_)
      unfold isTransition at isTrans
      generalize g.kind n = parent at allowed
      generalize g.kind m = child at allowed isTrans
      cases parent <;> cases child <;> simp_all [NodeKind.allowsEdge]
    · refine Or.inl ?_
      unfold isActivation at isAct
      unfold isTransition
      generalize g.kind n = parent at allowed
      generalize g.kind m = child at allowed isAct
      cases parent <;> cases child <;> simp_all [NodeKind.allowsEdge]
    · refine Or.inr (Or.inl ?_)
      rw [isPort] at allowed
      unfold isActivation
      generalize g.kind n = parent at allowed
      cases parent <;> simp_all [NodeKind.allowsEdge]

theorem runsThrough_of_path
    {v n : g.NodeId} {below : List g.NodeId}
    (isTarget : isActivation v = true) (run : Run (activatedReactions v) below)
    (path : Relation.TransGen g.Edge n v) :
    RunsThrough v below n := by
  induction path using Relation.TransGen.head_induction_on with
  | single edge => exact runsThrough_single isTarget run edge
  | head edge _ inductionHypothesis => exact runsThrough_step edge inductionHypothesis

theorem BodyWrites.isActivation
    {a : g.NodeId} {inst : InstanceId} (writes : BodyWrites a inst) :
    Graph.isActivation a = true := by
  have kind : g.kind a = .activation inst .accessWrite := writes
  rw [Graph.isActivation, kind]

theorem noNestedWriter_of_writersDisjoint
    (disjoint : g.WritersDisjoint) : g.NoNestedWriter := by
  intro a isAction v w inst reach writes path writesToo
  obtain ⟨below, belowRun, inBelow⟩ :=
    (runsThrough_of_path writesToo.isActivation
      (Run.idleAll (activatedReactions w)) path).activation writes.isActivation
  have actionKind := (g.actionsComplete a).mp isAction
  have isTrans : isTransition a = true := by
    unfold isTransition
    generalize g.kind a = kind at actionKind
    cases kind <;> simp_all [NodeKind.isAction]
  have strict : Relation.TransGen g.Edge a v := by
    rcases Relation.reflTransGen_iff_eq_or_transGen.mp reach with same | path
    · have activation := writes.isActivation
      rw [same] at activation
      unfold Graph.isActivation at activation
      unfold isTransition at isTrans
      generalize g.kind a = kind at activation isTrans
      cases kind <;> simp_all
    · exact path
  obtain ⟨executed, run, sublist⟩ :=
    (runsThrough_of_path writes.isActivation belowRun strict).transition isTrans
  have apart := disjoint a isAction executed run
  have pair : [v, w].Sublist executed := ((List.cons_sublist_cons.mpr inBelow)).trans sublist
  have bothApart := List.Pairwise.sublist pair apart
  exact
    (List.pairwise_cons.mp bothApart).1 w List.mem_cons_self inst ⟨writes, writesToo⟩

/-- An accepted composition is deterministic exactly when no activation that
writes an instance has an activation below it that writes it again: the only
writers that the compatibility checks do not compare. -/
theorem deterministic_iff_noNestedWriter
    {memo : g.Memo} (accepted : g.Accepted memo) :
    (g.WritersDisjoint ∧ g.OrderIndependent) ↔ g.NoNestedWriter := by
  constructor
  · intro deterministic
    exact noNestedWriter_of_writersDisjoint deterministic.1
  · intro noNested
    have disjoint := writersDisjoint_of_noNestedWriter accepted noNested
    refine ⟨disjoint, ?_⟩
    intro a isAction κ bodies order run within permuted state
    exact runBodies_perm (disjoint a isAction _ run) within permuted state

theorem deterministic_pipeline :
    pipeline.WritersDisjoint ∧ pipeline.OrderIndependent := by
  obtain ⟨memo, accepted⟩ := pipeline_accepted
  refine (deterministic_iff_noNestedWriter accepted).mpr ?_
  intro a _ v w inst _ writes path writesToo
  have forward :
      ∀ n m : pipeline.NodeId, m ∈ pipeline.outgoing n → n.val < m.val := by
    decide
  have unique :
      ∀ n m : pipeline.NodeId, n.val < m.val → pipeline.kind n = pipeline.kind m →
        isActivation n ≠ true := by
    decide
  have below : v.val < w.val := by
    clear writesToo
    induction path with
    | single edge => exact forward v _ edge
    | tail _ edge inductionHypothesis =>
        exact Nat.lt_trans inductionHypothesis (forward _ _ edge)
  exact unique v w below (writes.trans writesToo.symm) writes.isActivation

/-- A component whose push port is bound to its own reaction; the action and
the reaction both assign the state of the component. -/
def selfBound : Graph where
  size := 5
  kind n :=
    match n.val with
    | 0 => .action 0 .accessRead .accessNone
    | 1 => .activation 0 .accessWrite
    | 2 => .pushPort
    | 3 => .reaction 0 .accessNone
    | _ => .activation 0 .accessWrite
  outgoing n :=
    match n.val with
    | 0 => [(1 : Fin 5)]
    | 1 => [(2 : Fin 5)]
    | 2 => [(3 : Fin 5)]
    | 3 => [(4 : Fin 5)]
    | _ => []
  preconditionNodes _ := []
  actions := [(0 : Fin 5)]
  wellKinded := by decide
  actionsComplete := by decide

private theorem selfBound_run :
    Run (g := selfBound) [(0 : Fin 5)] [(1 : Fin 5), (4 : Fin 5)] := by
  have reaction : Run (g := selfBound) [(3 : Fin 5)] ((4 : Fin 5) :: ([] ++ [])) :=
    Run.activate List.mem_cons_self rfl Run.nil Run.nil
  have action : Run (g := selfBound) [(0 : Fin 5)] ((1 : Fin 5) :: ([(4 : Fin 5)] ++ [])) :=
    Run.activate List.mem_cons_self rfl reaction Run.nil
  exact action

/-- The body `this.flag = value`. -/
private def assignFlag (node : selfBound.NodeId) (value : Bool) :
    DeferredBody selfBound Bool :=
  ⟨node, fun state => Function.update state 0 value⟩

private theorem assignFlag_staysWithin
    {node : selfBound.NodeId} (writes : BodyWrites node 0) (value : Bool) :
    (assignFlag node value).StaysWithin := by
  constructor
  · intro state inst keeps
    have other : inst ≠ 0 := by
      rintro rfl
      exact keeps writes
    exact Function.update_of_ne other _ _
  · intro state other inst _ same
    by_cases isZero : inst = 0
    · subst isZero
      simp [assignFlag]
    · simp [assignFlag, Function.update_of_ne isZero, same]

/-- The composition is accepted, its transaction writes the component twice,
and the final state depends on the order of the two bodies. -/
theorem selfBound_nonDeterministic :
    (∃ memo, selfBound.Accepted memo) ∧
      ¬ selfBound.WritersDisjoint ∧ ¬ selfBound.OrderIndependent := by
  have isOk : (selfBound.analyze 6).satisfies (fun _ => true) = true := by decide
  obtain ⟨memo, run, _⟩ := Outcome.satisfies_iff.mp isOk
  have elder : BodyWrites (g := selfBound) (1 : Fin 5) 0 := rfl
  have younger : BodyWrites (g := selfBound) (4 : Fin 5) 0 := rfl
  refine ⟨⟨memo, 6, run⟩, ?_, ?_⟩
  · intro disjoint
    have apart := disjoint (0 : Fin 5) List.mem_cons_self _ selfBound_run
    exact (List.pairwise_cons.mp apart).1 (4 : Fin 5) List.mem_cons_self 0 ⟨elder, younger⟩
  · intro independent
    have within :
        ∀ body ∈ [assignFlag (1 : Fin 5) true, assignFlag (4 : Fin 5) false],
          body.StaysWithin := by
      intro body member
      rcases List.mem_pair.mp member with isElder | isYounger
      · rw [isElder]
        exact assignFlag_staysWithin elder true
      · rw [isYounger]
        exact assignFlag_staysWithin younger false
    have same :=
      independent (0 : Fin 5) List.mem_cons_self Bool
        [assignFlag (1 : Fin 5) true, assignFlag (4 : Fin 5) false]
        [assignFlag (4 : Fin 5) false, assignFlag (1 : Fin 5) true]
        selfBound_run within (List.Perm.swap _ _ _) (fun _ => false)
    have differs := congrFun same 0
    simp [runBodies, assignFlag] at differs

end Graph

end Rcgo.Composition
