import Rcgo.Transaction.ActivationEvents

/-!
# Transactions

The mutable phase walks back along the chain of frames and runs the deferred
bodies.
-/

namespace Rcgo.Transaction

open Rcgo.Foundation

variable {σ : Type} {code : Nat → Body σ}

/-! ## The mutable phase -/

/-- The event is a run of the body of the frame, on this frame and with the
receiver, parameters and locals of the snapshot. -/
def DeferredIn (code : Nat → Body σ) (event : Event σ) (frame : Frame) : Prop :=
  ∃ execution,
    event = .deferred frame.body execution ∧ execution.view.basePointer = frame.basePointer ∧
      (∀ a, (code frame.body).layout.Own frame.basePointer a →
        execution.memory a = frame.snapshot a) ∧
      execution.view.currentInfo =
        frame.snapshot (frame.basePointer - (code frame.body).layout.receiver)

theorem Frame.own_receiver (frame : Frame) :
    frame.layout.Own frame.basePointer (frame.basePointer - frame.layout.receiver) := by
  have inParameters := frame.layout.receiver_parameter
  simp only [Layout.Own, Frame.basePointer, wordSize] at *
  omega

theorem runDeferred_spec {frame : Frame} {exec : Executor σ}
    (atFrame : exec.basePointer = frame.basePointer) (holds : frame.Holds exec.memory)
    (compiled : (code frame.body).layout = frame.layout) :
    ∃ execution,
      DeferredIn code (.deferred frame.body execution) frame ∧
        (code frame.body).phase.Gives execution ∧ execution.components = exec.components ∧
        (runDeferred code frame.body exec).components = execution.componentsAfter ∧
        (runDeferred code frame.body exec).trace =
          exec.trace ++ [.deferred frame.body execution] ∧
        (runDeferred code frame.body exec).basePointer = exec.basePointer ∧
        (runDeferred code frame.body exec).currentInfo = exec.currentInfo ∧
        ∀ a, a < exec.top → ¬ frame.layout.Own frame.basePointer a →
          (runDeferred code frame.body exec).memory a = exec.memory a := by
  obtain ⟨received, isReceived⟩ :
      ∃ received : Executor σ,
        received = { exec with currentInfo := exec.receiver (code frame.body).layout } :=
    ⟨_, rfl⟩
  refine ⟨received.execution (code frame.body).phase, ⟨_, rfl, ?_, ?_, ?_⟩,
    received.execution_gives _, ?_, ?_, ?_, rfl, rfl, ?_⟩
  · rw [isReceived]
    exact atFrame
  · intro a own
    rw [compiled] at own
    rw [isReceived]
    exact holds.2 a own
  · have isReceiver := holds.2 _ frame.own_receiver
    rw [← atFrame, ← compiled] at isReceiver
    rw [isReceived, ← atFrame]
    exact isReceiver
  · rw [isReceived]
    rfl
  · rw [isReceived]
    rfl
  · rw [isReceived]
    rfl
  · intro a below notOwn
    rw [← compiled, ← atFrame] at notOwn
    exact (code frame.body).phase.writes
      ⟨exec.basePointer, exec.top,
        exec.memory (exec.basePointer - (code frame.body).layout.receiver)⟩
      exec.memory exec.components a below notOwn

/-- The loop runs the bodies of the chained frames and removes the frames. -/
theorem processDeferred_spec {low : Nat} :
    ∀ (frames : List Frame) (exec : Executor σ),
      FrameChain exec.memory exec.basePointer frames 0 → Stacked low frames exec.top →
      (∀ frame ∈ frames, (code frame.body).layout = frame.layout) →
        ∃ after events,
          (∀ depth, frames.length < depth → processDeferred code depth exec = .ok after) ∧
            after.trace = exec.trace ++ events ∧
            List.Forall₂ (DeferredIn code) events frames ∧
            RunsDeferred code exec.components events after.components ∧
            after.basePointer = 0 ∧ after.currentInfo = exec.currentInfo ∧
            (∀ a, a < low → after.memory a = exec.memory a) ∧
            after.top = frames.foldl (fun _ frame => frame.basePointer) exec.top
  | [], exec, chain, _, _ => by
      have isEnd : exec.basePointer = 0 := chain
      refine ⟨exec, [], ?_, (List.append_nil _).symm, List.Forall₂.nil, rfl, isEnd, rfl,
        fun _ _ => rfl, rfl⟩
      intro depth enough
      cases depth with
      | zero => exact absurd enough (Nat.not_lt_zero _)
      | succ depth => rw [processDeferred, if_pos isEnd]
  | frame :: rest, exec, chain, stacked, compiled => by
      obtain ⟨atFrame, holds, tail⟩ := chain
      obtain ⟨within, restStacked⟩ := stacked
      have lowLe := restStacked.le
      have isBody : exec.memory (exec.basePointer - wordSize) = frame.body := by
        rw [atFrame]
        exact holds.1
      obtain ⟨execution, isDeferred, gives, components, componentsAfter, trace, basePointer,
        currentInfo, unchanged⟩ :=
        runDeferred_spec atFrame holds (compiled frame List.mem_cons_self)
      obtain ⟨torn, isTorn⟩ :
          ∃ torn, torn = (runDeferred code frame.body exec).onStack Stack.teardown := ⟨_, rfl⟩
      obtain ⟨tornMemory, tornTop, tornPointer⟩ :=
        Stack.teardown_spec (runDeferred code frame.body exec).toStack
      have sameMemory : torn.memory = (runDeferred code frame.body exec).memory := by
        rw [isTorn]
        exact tornMemory
      have isTop : torn.top = frame.basePointer := by
        rw [isTorn, ← atFrame, ← basePointer]
        exact tornTop
      have notOwnPointer : ¬ frame.layout.Own frame.basePointer exec.basePointer := by
        rw [atFrame]
        simp only [Layout.Own, wordSize]
        omega
      have isPointer : torn.basePointer = exec.memory exec.basePointer := by
        rw [isTorn, ← unchanged exec.basePointer ?_ notOwnPointer, ← basePointer]
        · exact tornPointer
        · rw [atFrame]
          simp only [Frame.limit, wordSize] at within
          omega
      have belowFrame : ∀ a, a < frame.start → torn.memory a = exec.memory a := by
        intro a below
        rw [sameMemory]
        apply unchanged a
        · simp only [Frame.limit, Frame.basePointer] at within
          omega
        · simp only [Layout.Own, Frame.basePointer, wordSize]
          omega
      have restChain : FrameChain torn.memory torn.basePointer rest 0 := by
        rw [isPointer]
        apply tail.congr restStacked
        exact fun a _ below => belowFrame a below
      have tornStacked : Stacked low rest torn.top := by
        rw [isTop]
        have atLeast : Stacked frame.start [] frame.basePointer := by
          rw [Stacked, Frame.basePointer]
          omega
        exact restStacked.append atLeast
      obtain ⟨after, events, returns, afterTrace, spec, runs, isEnd, afterInfo, afterMemory,
        afterTop⟩ :=
        processDeferred_spec rest torn restChain tornStacked
          (fun other member => compiled other (List.mem_cons_of_mem frame member))
      have tornComponents : torn.components = execution.componentsAfter := by
        rw [isTorn]
        exact componentsAfter
      rw [tornComponents] at runs
      refine ⟨after, .deferred frame.body execution :: events, ?_, ?_,
        List.Forall₂.cons isDeferred spec,
        ⟨frame.body, execution, rfl, gives, components, runs⟩, isEnd, ?_, ?_, ?_⟩
      · intro depth enough
        cases depth with
        | zero => exact absurd enough (Nat.not_lt_zero _)
        | succ depth =>
            have notEnd : exec.basePointer ≠ 0 := by
              rw [atFrame, Frame.basePointer]
              simp only [wordSize]
              omega
            have restReturns := returns depth (Nat.lt_of_succ_lt_succ enough)
            rw [isTorn] at restReturns
            rw [processDeferred, if_neg notEnd, isBody]
            exact restReturns
      · rw [afterTrace, isTorn]
        simp only [Executor.onStack, trace, List.append_assoc, List.singleton_append]
      · rw [afterInfo, isTorn]
        exact currentInfo
      · intro a below
        rw [afterMemory a below]
        exact belowFrame a (by omega)
      · rw [afterTop, isTop, List.foldl_cons]

/-! ## The two phases of a transaction -/

def Event.deferral : Event σ → Option (Nat × Nat)
  | deferred body execution => some (execution.view.basePointer, body)
  | _ => none

/-- The events of a transaction: those of the immutable phase, and the
deferred bodies in the reverse order of their activate statements, each on the
frame of its transition as the activate statement left it. -/
structure TwoPhase (code : Nat → Body σ) (immutable deferred : List (Event σ)) : Prop where
  immutableFirst : ∀ event ∈ immutable, event.isDeferred = false
  reverse :
    deferred.map Event.deferral = (immutable.filterMap Event.activation).reverse.map some
  ownFrames : ((immutable.filterMap Event.activation).map Prod.fst).Nodup
  frames :
    ∀ body execution, Event.deferred body execution ∈ deferred →
      ∃ snapshot,
        (∀ other,
          Event.activated execution.view.basePointer other ∈ immutable ↔ other = snapshot) ∧
          (∀ a, (code body).layout.Own execution.view.basePointer a →
            execution.memory a = snapshot a) ∧
          execution.view.currentInfo =
            snapshot (execution.view.basePointer - (code body).layout.receiver)

theorem Stacked.nodup {low : Nat} :
    ∀ {frames : List Frame} {high : Nat}, Stacked low frames high →
      (frames.map Frame.basePointer).Nodup
  | [], _, _ => List.nodup_nil
  | frame :: rest, _, ⟨_, stacked⟩ => by
      rw [List.map_cons, List.nodup_cons]
      refine ⟨?_, stacked.nodup⟩
      intro member
      obtain ⟨other, inRest, same⟩ := List.mem_map.mp member
      have below := (stacked.mem other inRest).2
      simp only [Frame.limit, Frame.basePointer, wordSize] at *
      omega

private theorem mem_of_forall₂ {events : List (Event σ)} {frames : List Frame}
    (all : List.Forall₂ (DeferredIn code) events frames) :
    ∀ event ∈ events, ∃ frame ∈ frames, DeferredIn code event frame := by
  induction all with
  | nil =>
      intro event member
      exact absurd member List.not_mem_nil
  | cons here _ inductionHypothesis =>
      intro event member
      rcases List.mem_cons.mp member with isHead | inRest
      · rw [isHead]
        exact ⟨_, List.mem_cons_self, here⟩
      · obtain ⟨frame, inFrames, isDeferred⟩ := inductionHypothesis event inRest
        exact ⟨frame, List.mem_cons_of_mem _ inFrames, isDeferred⟩

private theorem map_deferral {events : List (Event σ)} {frames : List Frame}
    (all : List.Forall₂ (DeferredIn code) events frames) :
    events.map Event.deferral =
      frames.map fun frame => some (frame.basePointer, frame.body) := by
  induction all with
  | nil => rfl
  | cons here _ inductionHypothesis =>
      obtain ⟨execution, isEvent, isPointer, _⟩ := here
      rw [List.map_cons, List.map_cons, inductionHypothesis, isEvent, Event.deferral, isPointer]

theorem Event.finished_eq_some {event : Event σ} {basePointer : Nat} {memory : Memory} :
    event.finished = some (basePointer, memory) ↔ event = .activated basePointer memory := by
  cases event <;> simp [Event.finished]

theorem twoPhase_of_frames
    {immutable deferred : List (Event σ)} {frames : List Frame} {low high : Nat}
    (spec : ImmutableEvents immutable frames) (stacked : Stacked low frames high)
    (bodies : List.Forall₂ (DeferredIn code) deferred frames) :
    TwoPhase code immutable deferred := by
  refine ⟨spec.notDeferred, ?_, ?_, ?_⟩
  · rw [spec.activations, ← List.map_reverse, List.reverse_reverse, List.map_map]
    exact map_deferral bodies
  · rw [spec.activations, List.map_map, List.map_reverse, List.nodup_reverse]
    exact stacked.nodup
  · intro body execution member
    obtain ⟨frame, inFrames, other, isEvent, isPointer, own, isInfo⟩ :=
      mem_of_forall₂ bodies _ member
    rw [Event.deferred.injEq] at isEvent
    obtain ⟨isBody, isExecution⟩ := isEvent
    subst isBody isExecution
    rw [isPointer]
    refine ⟨frame.snapshot, ?_, own, isInfo⟩
    intro other
    have inEvents :
        Event.activated frame.basePointer other ∈ immutable ↔
          (frame.basePointer, other) ∈ immutable.filterMap Event.finished := by
      rw [List.mem_filterMap]
      constructor
      · intro inImmutable
        exact ⟨_, inImmutable, rfl⟩
      · intro found
        obtain ⟨event, inImmutable, isFinished⟩ := found
        rw [Event.finished_eq_some] at isFinished
        rw [← isFinished]
        exact inImmutable
    rw [inEvents, spec.finished.mem_iff, List.mem_map]
    constructor
    · intro found
      obtain ⟨same, inFramesToo, isPair⟩ := found
      rw [Prod.mk.injEq] at isPair
      have isFrame := List.inj_on_of_nodup_map stacked.nodup inFramesToo inFrames isPair.1
      rw [← isPair.2, isFrame]
    · intro isSnapshot
      exact ⟨frame, inFrames, by rw [isSnapshot]⟩

/-- What the caller of `execute` has pushed. -/
private theorem pushAction_spec (stack : Stack) (iota : Option Nat) (instance_ locals : Nat) :
    (((stack.pushAll iota.toList).push instance_).push 0).basePointer = stack.basePointer ∧
      (((stack.pushAll iota.toList).push instance_).push 0).top =
          stack.top + (Layout.ofAction iota locals).arguments + wordSize ∧
        Stack.Below stack (((stack.pushAll iota.toList).push instance_).push 0) := by
  obtain ⟨pushPointer, pushTop, pushBelow⟩ := Stack.pushAll_spec iota.toList stack
  refine ⟨pushPointer, ?_, ?_⟩
  · simp only [Stack.top_push, pushTop, Layout.ofAction]
    omega
  · intro a below
    have belowPush : a < (stack.pushAll iota.toList).top := by
      rw [pushTop]
      omega
    have belowInstance : a < ((stack.pushAll iota.toList).push instance_).top := by
      rw [Stack.top_push]
      omega
    rw [Stack.below_push 0 a belowInstance, Stack.below_push instance_ a belowPush]
    exact pushBelow a below

/-- `execute` runs the two phases and removes the frames. -/
private theorem execute_spec {layout : Layout} (action : Transition code layout)
    (exec : Executor σ) (start : Nat) (words : List Nat)
    (place : exec.top = start + layout.arguments + wordSize) (idle : exec.basePointer = 0)
    (fresh : FreshFrame words layout.locals exec.top (exec.setup layout.locals).memory) :
    ∃ after immutable deferred,
      Outcome.Returns (fun depth => execute depth action exec) after ∧
        after.trace = exec.trace ++ immutable ++ deferred ∧
        (∃ components,
          action.Executes exec.top words exec.components immutable components ∧
            RunsDeferred code components deferred after.components) ∧
        TwoPhase code immutable deferred ∧ after.top = exec.top ∧ after.basePointer = 0 ∧
        after.currentInfo = exec.currentInfo ∧
        ∀ a, a < start → after.memory a = exec.memory a := by
  obtain ⟨framed, isFramed⟩ :
      ∃ framed : Executor σ,
        framed =
          Executor.onStack { exec with mutablePhaseBasePointer := 0 }
            fun stack => stack.setup layout.locals :=
    ⟨_, rfl⟩
  obtain ⟨setupPointer, setupTop, saved, setupBelow⟩ :=
    Stack.setup_spec exec.toStack layout.locals
  have isPointer : framed.basePointer = exec.top := by
    rw [isFramed]
    exact setupPointer
  have isSaved : framed.memory framed.basePointer = 0 := by
    rw [isPointer, isFramed, ← idle]
    exact saved
  have framedBelow : ∀ a, a < start → framed.memory a = exec.memory a := by
    intro a below
    rw [isFramed]
    apply setupBelow a
    omega
  obtain ⟨frames, ran, cases⟩ :=
    action.call_spec framed start (isPointer.trans place) (by
      rw [isPointer, isFramed]
      exact le_of_eq setupTop.symm)
  obtain ⟨immutable, isTrace, spec⟩ := ran.trace
  have framedFresh : FreshFrame words layout.locals framed.basePointer framed.memory := by
    rw [isPointer, isFramed]
    exact fresh
  obtain ⟨events, eventsTrace, executes⟩ :=
    action.call_executes framed start words (isPointer.trans place) (by
      rw [isPointer, isFramed]
      exact le_of_eq setupTop.symm) framedFresh
  have sameEvents : events = immutable := by
    have both : framed.trace ++ events = framed.trace ++ immutable :=
      eventsTrace.symm.trans isTrace
    exact List.append_cancel_left both
  have framedComponents : framed.components = exec.components := by
    rw [isFramed]
    rfl
  rw [sameEvents, isPointer, framedComponents] at executes
  have noLast : framed.mutablePhaseBasePointer = 0 := by
    rw [isFramed]
    rfl
  have sameTrace : framed.trace = exec.trace := by
    rw [isFramed]
    rfl
  have sameInfo : framed.currentInfo = exec.currentInfo := by
    rw [isFramed]
    rfl
  have chain := ran.chain
  rw [noLast] at chain
  rcases cases with ⟨isNil, unchanged⟩ | ⟨above, body, snapshot, shape⟩
  · subst isNil
    have noActivation : (action.call framed).mutablePhaseBasePointer = 0 := chain
    obtain ⟨tornMemory, tornTop, tornPointer⟩ :=
      Stack.teardown_spec (action.call framed).toStack
    refine ⟨(action.call framed).onStack Stack.teardown, immutable, [], ?_, ?_,
      ⟨_, executes, rfl⟩, twoPhase_of_frames spec ran.stacked List.Forall₂.nil, ?_, ?_, ?_, ?_⟩
    · apply Outcome.Returns.of_forall
      intro depth
      simp only [execute, ← isFramed, if_pos noActivation]
    · rw [List.append_nil, ← sameTrace]
      exact isTrace
    · exact tornTop.trans (ran.basePointer.trans isPointer)
    · refine tornPointer.trans ?_
      rw [ran.basePointer, unchanged]
      exact isSaved
    · exact ran.currentInfo.trans sameInfo
    · intro a below
      rw [← framedBelow a below]
      exact (congrFun tornMemory a).trans (ran.memory a below id)
  · have head : (action.call framed).mutablePhaseBasePointer ≠ 0 := by
      intro isZero
      rw [isZero, shape] at chain
      cases above with
      | nil =>
          have isPointer := chain.1
          simp only [Frame.basePointer, wordSize] at isPointer
          omega
      | cons first rest =>
          have isPointer := chain.1
          simp only [Frame.basePointer, wordSize] at isPointer
          omega
    obtain ⟨after, deferred, returns, afterTrace, bodies, runs, isEnd, afterInfo, afterMemory,
      afterTop⟩ :=
      processDeferred_spec frames
        ((action.call framed).onStack fun stack =>
          { stack with basePointer := (action.call framed).mutablePhaseBasePointer })
        chain ran.stacked ran.compiled
    refine ⟨after, immutable, deferred, ⟨frames.length + 1, ?_⟩, ?_, ⟨_, executes, runs⟩,
      twoPhase_of_frames spec ran.stacked bodies, ?_, isEnd, ?_, ?_⟩
    · intro depth enough
      simp only [execute, ← isFramed, if_neg head]
      exact returns depth enough
    · rw [afterTrace, ← sameTrace]
      exact congrArg (· ++ deferred) isTrace
    · rw [afterTop, shape, List.foldl_append, place]
      rfl
    · exact afterInfo.trans (ran.currentInfo.trans sameInfo)
    · intro a below
      rw [afterMemory a below, ← framedBelow a below]
      exact ran.memory a below id

/-- The stack is as it was before. -/
structure SameStack (before after : Executor σ) : Prop where
  top : after.top = before.top
  basePointer : after.basePointer = before.basePointer
  memory : ∀ a, a < before.top → after.memory a = before.memory a

/-- What one transaction of the action does: the immutable phase that its activation
tree prescribes, in a frame with the iota and the instance as parameters, and then the
deferred bodies. -/
structure IsTransaction (iota : Option Nat) (instance_ : Nat) {locals : Nat}
    (action : Transition code (Layout.ofAction iota locals)) (before after : Executor σ)
    (immutable deferred : List (Event σ)) (components : σ) : Prop where
  trace : after.trace = before.trace ++ immutable ++ deferred
  immutablePhase :
    action.Executes (before.top + (Layout.ofAction iota locals).arguments + wordSize)
      (iota.toList ++ [instance_]) before.components immutable components
  mutablePhase : RunsDeferred code components deferred after.components
  twoPhase : TwoPhase code immutable deferred
  stack : SameStack before after
  currentInfo : after.currentInfo = before.currentInfo

theorem freshFrame_action (stack : Stack) (iota : Option Nat) (instance_ locals : Nat) :
    FreshFrame (iota.toList ++ [instance_]) locals
      (((stack.pushAll iota.toList).push instance_).push 0).top
      ((((stack.pushAll iota.toList).push instance_).push 0).setup locals).memory := by
  have isLeading : (stack.pushAll iota.toList).push instance_ =
      stack.pushAll (iota.toList ++ [instance_]) :=
    (pushAll_append stack iota.toList [instance_]).symm
  rw [isLeading]
  exact Stack.freshFrame_setup (stack.pushAll (iota.toList ++ [instance_])) stack.top
    (Stack.pushAll_spec _ stack).2.1 (holdsAt_pushAll stack _)

theorem executeNoCheck_spec (iota : Option Nat) (instance_ : Nat) {locals : Nat}
    (action : Transition code (Layout.ofAction iota locals)) (exec : Executor σ)
    (idle : exec.basePointer = 0) :
    ∃ after immutable deferred components,
      Outcome.Returns (fun depth => executeNoCheck depth iota instance_ action exec) after ∧
        IsTransaction iota instance_ action exec after immutable deferred components := by
  obtain ⟨pointer, top, below⟩ := pushAction_spec exec.toStack iota instance_ locals
  obtain ⟨middle, immutable, deferred, returns, trace, ⟨components, executes, runs⟩, phases,
    middleTop, middlePointer, middleInfo, middleMemory⟩ :=
    execute_spec action
      (exec.onStack fun stack => ((stack.pushAll iota.toList).push instance_).push 0) exec.top
      (iota.toList ++ [instance_]) top (pointer.trans idle)
      (freshFrame_action exec.toStack iota instance_ locals)
  obtain ⟨popMemory, popPointer, popTop⟩ :=
    Stack.popAll_spec iota.toList middle.toStack.pop.2.pop.2
  refine ⟨middle.onStack fun stack => stack.pop.2.pop.2.popAll iota.toList, immutable, deferred,
    components, returns.bind (Outcome.Returns.of_forall fun _ => rfl), trace, ?_, runs, phases,
    ⟨?_, ?_, ?_⟩, middleInfo⟩
  · rw [← top]
    exact executes
  · refine popTop.trans ?_
    have whole := middleTop.trans top
    simp only [Stack.pop, whole, Layout.ofAction]
    omega
  · exact popPointer.trans (middlePointer.trans idle.symm)
  · intro a belowTop
    refine (congrFun popMemory a).trans ?_
    exact (middleMemory a belowTop).trans (below a belowTop)

/-- The evaluation of a precondition leaves the stack as it was. -/
theorem enabled_spec (iota : Option Nat) (instance_ : Nat)
    (precondition : Phase σ (Layout.ofAction iota 0) Bool) (exec : Executor σ) :
    SameStack exec (enabled iota instance_ precondition exec).2 := by
  obtain ⟨pointer, top, below⟩ := pushAction_spec exec.toStack iota instance_ 0
  obtain ⟨pushed, isPushed⟩ :
      ∃ pushed, pushed = ((exec.toStack.pushAll iota.toList).push instance_).push 0 := ⟨_, rfl⟩
  rw [← isPushed] at pointer top below
  obtain ⟨setupPointer, setupTop, saved, setupBelow⟩ := Stack.setup_spec pushed 0
  obtain ⟨framed, isFramed⟩ :
      ∃ framed : Executor σ, framed =
        { exec.onStack fun _ => pushed.setup 0 with
          currentInfo :=
            (exec.onStack fun _ => pushed.setup 0).receiver (Layout.ofAction iota 0) } :=
    ⟨_, rfl⟩
  obtain ⟨ran, isRan⟩ : ∃ ran, ran = (framed.perform precondition).2 := ⟨_, rfl⟩
  have framedPointer : framed.basePointer = pushed.top := by
    rw [isFramed]
    exact setupPointer
  have framedTop : framed.top = pushed.top + wordSize := by
    rw [isFramed]
    exact setupTop
  have unchanged :
      ∀ a, a < exec.top ∨ a = pushed.top → ran.memory a = framed.memory a := by
    intro a place
    rw [isRan]
    apply precondition.writes ⟨framed.basePointer, framed.top, framed.currentInfo⟩
    · simp only [framedTop, wordSize] at *
      omega
    · simp only [Layout.Own, framedPointer, wordSize] at *
      have noLocals : (Layout.ofAction iota 0).locals = 0 := rfl
      omega
  have ranPointer : ran.basePointer = pushed.top := by
    rw [isRan]
    exact framedPointer
  obtain ⟨tornMemory, tornTop, tornPointer⟩ := Stack.teardown_spec ran.toStack
  obtain ⟨popMemory, popPointer, popTop⟩ :=
    Stack.popAll_spec iota.toList ran.toStack.teardown.pop.2.pop.2
  have isEnabled :
      (enabled iota instance_ precondition exec).2.toStack =
        ran.toStack.teardown.pop.2.pop.2.popAll iota.toList := by
    rw [isRan, isFramed, isPushed]
    rfl
  refine ⟨?_, ?_, ?_⟩
  · rw [isEnabled]
    refine popTop.trans ?_
    simp only [Stack.pop, tornTop, ranPointer, top, Layout.ofAction]
    omega
  · rw [isEnabled]
    refine popPointer.trans (tornPointer.trans ?_)
    rw [ranPointer, unchanged _ (Or.inr rfl), isFramed]
    exact saved.trans pointer
  · intro a belowTop
    rw [isEnabled]
    refine (congrFun popMemory a).trans ((congrFun tornMemory a).trans ?_)
    rw [unchanged a (Or.inl belowTop), isFramed]
    refine (setupBelow a ?_).trans (below a belowTop)
    rw [top]
    omega

/-- The states of an executor between transactions.  Other executors change
the components at any time. -/
inductive Reached (code : Nat → Body σ) : Executor σ → Prop
  /-- the constructors of `ExecutorBase` and `Stack` -/
  | start (data : Nat) (components : σ) :
      Reached code ⟨⟨fun _ => 0, 0, data⟩, 0, 0, components, []⟩
  | others {exec : Executor σ} (components : σ) :
      Reached code exec → Reached code { exec with components := components }
  | precondition {exec : Executor σ} (iota : Option Nat) (instance_ : Nat)
      (precondition : Phase σ (Layout.ofAction iota 0) Bool) :
      Reached code exec → Reached code (enabled iota instance_ precondition exec).2
  | transaction {exec after : Executor σ} {iota : Option Nat} {instance_ locals : Nat}
      {action : Transition code (Layout.ofAction iota locals)} :
      Reached code exec →
      Outcome.Returns (fun depth => executeNoCheck depth iota instance_ action exec) after →
        Reached code after

theorem Reached.idle {exec : Executor σ} (reached : Reached code exec) :
    exec.basePointer = 0 := by
  induction reached with
  | start data components => rfl
  | others components _ inductionHypothesis => exact inductionHypothesis
  | precondition iota instance_ precondition _ inductionHypothesis =>
      rw [(enabled_spec iota instance_ precondition _).basePointer]
      exact inductionHypothesis
  | @transaction exec after iota instance_ locals action _ returns inductionHypothesis =>
      obtain ⟨other, _, _, _, otherReturns, isTransaction⟩ :=
        executeNoCheck_spec iota instance_ action exec inductionHypothesis
      rw [returns.unique otherReturns, isTransaction.stack.basePointer]
      exact inductionHypothesis

/-- A transaction executes all immutable phases and port calls of its activation tree,
and then each deferred body once, in reverse order of activation, on its own frame, and
leaves the stack as it was. -/
theorem executeNoCheck_twoPhase {exec : Executor σ} (reached : Reached code exec)
    (iota : Option Nat) (instance_ : Nat) {locals : Nat}
    (action : Transition code (Layout.ofAction iota locals)) :
    ∃ after immutable deferred components,
      Outcome.Returns (fun depth => executeNoCheck depth iota instance_ action exec) after ∧
        IsTransaction iota instance_ action exec after immutable deferred components :=
  executeNoCheck_spec iota instance_ action exec reached.idle

/-! ## A station and a display -/

/-- The number of readings of a station, and what its display shows. -/
abbrev Readings := Nat × Nat

def reads {layout : Layout} {α : Type} (value : View → Memory → α) : Phase Readings layout α where
  run := fun view memory readings => (value view memory, memory, readings)
  writes := fun _ _ _ _ _ _ => rfl

def assigns {layout : Layout} (change : View → Memory → Readings → Readings) :
    Phase Readings layout Unit where
  run := fun view memory readings => ((), memory, change view memory readings)
  writes := fun _ _ _ _ _ _ => rfl

/-- The immutable phase `var next = this.count + 1; activate ..`. -/
def countNext : Phase Readings (Layout.ofAction none wordSize) (Option Nat) where
  run := fun view memory readings =>
    (some 0, Function.update memory (view.basePointer + wordSize) (readings.1 + 1), readings)
  writes := by
    intro view memory readings a _ notOwn
    apply Function.update_of_ne
    intro isLocal
    subst isLocal
    apply notOwn
    simp [Layout.Own, Layout.ofAction, wordSize]

/-- The bodies `this.count = next;` of the station and `this.shown = value;` of the
display. -/
def stationCode (operation : Nat) : Body Readings :=
  if operation = 1 then
    ⟨Layout.ofAction none wordSize,
      assigns fun view memory readings => (memory (view.basePointer + wordSize), readings.2)⟩
  else
    ⟨Layout.ofReaction none 1 0,
      assigns fun view memory readings => (readings.1, memory (view.basePointer - 2 * wordSize))⟩

/-- An action that calls its port with twice the next count.  Two reactions are bound to
the port: one shows the argument, the other one activates nothing. -/
def station : Transition stationCode (Layout.ofAction none wordSize) :=
  .mk countNext fun _ =>
    .mk
      (.cons (reads fun _ _ => 0)
        (reads fun view memory => ⟨[2 * memory (view.basePointer + wordSize)], rfl⟩) 16
        (fun _ =>
          .cons none 64 0 (.mk (reads fun _ _ => some 0) fun _ => .mk .nil 2 rfl)
            (.cons none 96 0 (.mk (reads fun _ _ => none) fun _ => .mk .nil 2 rfl) .null))
        .nil)
      1 rfl

def idleStation : Executor Readings :=
  ⟨⟨fun _ => 0, 0, 4096⟩, 0, 0, (20, 0), []⟩

/-- The transaction counts one reading and shows its double, with nine events of the
immutable phase and two deferred bodies. -/
theorem executeNoCheck_station :
    (∃ after immutable deferred components,
      Outcome.Returns (fun depth => executeNoCheck depth none 5 station idleStation) after ∧
        IsTransaction none 5 station idleStation after immutable deferred components) ∧
      (executeNoCheck 3 none 5 station idleStation).satisfies fun after =>
        after.components = (21, 42) ∧ after.trace.map Event.isDeferred =
          List.replicate 9 false ++ List.replicate 2 true := by
  constructor
  · exact executeNoCheck_twoPhase (Reached.start 4096 (20, 0)) none 5 station
  · decide +kernel

end Rcgo.Transaction
