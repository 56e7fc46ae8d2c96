import Rcgo.Transaction.ImmutablePhase
import Rcgo.Transaction.ParameterSlots

/-!
# The events of an activation tree

What an activation tree prescribes for the immutable phase: which generated code
runs, one after the other, in which frame, and what it finds there.
-/

namespace Rcgo.Transaction

section Executes

variable {σ : Type} {code : Nat → Body σ}

def Phase.Gives {layout : Layout} {α : Type} (phase : Phase σ layout α)
    (execution : Execution σ α) : Prop :=
  phase.run execution.view execution.memory execution.components =
    (execution.value, execution.memoryAfter, execution.componentsAfter)

/-- The parameters and locals of the frame are the same in both memories. -/
def Layout.SameOwn (layout : Layout) (basePointer : Nat) (memory other : Memory) : Prop :=
  ∀ a, layout.Own basePointer a → other a = memory a

/-- A frame as it is when its transition starts: the parameters are these words,
and the locals are zero. -/
structure FreshFrame (words : List Nat) (locals basePointer : Nat) (memory : Memory) : Prop where
  parameters : HoldsAt memory (basePointer - wordSize - wordSize * words.length) words
  locals : ∀ a, basePointer + wordSize ≤ a → a < basePointer + wordSize + locals → memory a = 0

mutual

/-- The events of a transition in the frame with this base pointer and these
parameters; they lead from the first state of the components to the last one. -/
def Transition.Executes {layout : Layout} :
    Transition code layout → Nat → List Nat → σ → List (Event σ) → σ → Prop
  | .mk immutable activation, basePointer, words, components, events, componentsAfter =>
      ∃ execution rest,
        events = .immutable execution :: rest ∧
          immutable.Gives execution ∧ execution.view.basePointer = basePointer ∧
          execution.view.currentInfo = execution.memory (basePointer - layout.receiver) ∧
          FreshFrame words layout.locals basePointer execution.memory ∧
          execution.components = components ∧
          match execution.value with
          | none => rest = [] ∧ execution.componentsAfter = componentsAfter
          | some statement =>
              (activation statement).Executes basePointer execution.memoryAfter
                execution.componentsAfter rest componentsAfter

/-- The events of an activate statement, whose frame holds the parameters and
locals of this memory. -/
def Activation.Executes {layout : Layout} :
    Activation code layout → Nat → Memory → σ → List (Event σ) → σ → Prop
  | .mk portCalls body _, basePointer, memory, components, events, componentsAfter =>
      ∃ calls memoryAfter,
        events = .activate basePointer body :: (calls ++ [.activated basePointer memoryAfter]) ∧
          portCalls.Executes basePointer memory components calls memoryAfter componentsAfter

/-- The events of the port calls, one call after the other. -/
def PortCalls.Executes {layout : Layout} :
    PortCalls code layout → Nat → Memory → σ → List (Event σ) → Memory → σ → Prop
  | .nil, basePointer, memory, components, events, memoryAfter, componentsAfter =>
      events = [] ∧ layout.SameOwn basePointer memory memoryAfter ∧ components = componentsAfter
  | .cons arrayOffset arguments portOffset ports rest, basePointer, memory, components, events,
      memoryAfter, componentsAfter =>
      ∃ offset words called others middle,
        events = .arrayOffset offset :: .arguments _ words :: (called ++ others) ∧
          arrayOffset.Gives offset ∧ offset.view.basePointer = basePointer ∧
          layout.SameOwn basePointer memory offset.memory ∧ offset.components = components ∧
          arguments.Gives words ∧ words.view.basePointer = basePointer ∧
          layout.SameOwn basePointer offset.memoryAfter words.memory ∧
          words.components = offset.componentsAfter ∧
          -- the receiver of the frame, which the code before may have written
          (ports (words.memoryAfter (basePointer - layout.receiver) + portOffset +
              offset.value)).Executes words.value.toList words.componentsAfter called middle ∧
          rest.Executes basePointer words.memoryAfter middle others memoryAfter componentsAfter

/-- The events of the reactions that are bound to a port, each in a frame of its
own. -/
def Port.Executes {count : Nat} :
    Port code count → List Nat → σ → List (Event σ) → σ → Prop
  | .null, _, components, events, componentsAfter => events = [] ∧ components = componentsAfter
  | .cons parameter instance_ _ reaction next, words, components, events, componentsAfter =>
      ∃ basePointer first others middle,
        events = first ++ others ∧
          reaction.Executes basePointer (parameter.toList ++ instance_ :: words) components first
            middle ∧
          next.Executes words middle others componentsAfter

end

/-- The events of the mutable phase, from the first state of the components to the
last one. -/
def RunsDeferred (code : Nat → Body σ) : σ → List (Event σ) → σ → Prop
  | components, [], componentsAfter => components = componentsAfter
  | components, event :: rest, componentsAfter =>
      ∃ body execution, event = .deferred body execution ∧ (code body).phase.Gives execution ∧
        execution.components = components ∧
        RunsDeferred code execution.componentsAfter rest componentsAfter

/-! ## Execution -/

variable {layout : Layout}

theorem Executor.execution_gives {α : Type} (exec : Executor σ) (phase : Phase σ layout α) :
    phase.Gives (exec.execution phase) :=
  rfl

theorem Layout.SameOwn.trans {basePointer : Nat} {memory middle other : Memory}
    (first : layout.SameOwn basePointer memory middle)
    (second : layout.SameOwn basePointer middle other) :
    layout.SameOwn basePointer memory other :=
  fun a own => (second a own).trans (first a own)

theorem Layout.SameOwn.receiver {basePointer : Nat} {memory other : Memory}
    (same : layout.SameOwn basePointer memory other)
    (room : layout.arguments + wordSize ≤ basePointer) :
    other (basePointer - layout.receiver) = memory (basePointer - layout.receiver) := by
  have inParameters := layout.receiver_parameter
  apply same
  simp only [Layout.Own, wordSize] at *
  omega

theorem Layout.sameOwn_of_below {basePointer top : Nat} {memory other : Memory}
    (room : basePointer + wordSize + layout.locals ≤ top)
    (below : ∀ a, a < top → other a = memory a) : layout.SameOwn basePointer memory other := by
  intro a own
  apply below
  simp only [Layout.Own, wordSize] at *
  omega

theorem Stack.setup_locals (stack : Stack) (size : Nat) :
    ∀ a, stack.top + wordSize ≤ a → a < stack.top + wordSize + size →
      (stack.setup size).memory a = 0 :=
  fun _ above inside => if_pos ⟨above, inside⟩

theorem holdsAt_load {stack : Stack} {source : Nat} {words : List Nat}
    (holds : HoldsAt stack.memory source words) :
    HoldsAt (stack.load source (wordSize * words.length)).memory stack.top words := by
  intro j isWord
  have inside : wordSize * j < wordSize * words.length :=
    Nat.mul_lt_mul_of_pos_left isWord (by decide)
  rw [← holds j isWord]
  have isCopied : stack.top ≤ stack.top + wordSize * j ∧
      stack.top + wordSize * j < stack.top + wordSize * words.length :=
    ⟨Nat.le_add_right _ _, Nat.add_lt_add_left inside _⟩
  exact (if_pos isCopied).trans (by rw [Nat.add_sub_cancel_left])

theorem HoldsAt.append {memory : Memory} {address : Nat} {words others : List Nat}
    (holds : HoldsAt memory address words)
    (rest : HoldsAt memory (address + wordSize * words.length) others) :
    HoldsAt memory address (words ++ others) := by
  intro j isWord
  by_cases inFirst : j < words.length
  · rw [List.getElem_append_left inFirst]
    exact holds j inFirst
  · have inRest := Nat.le_of_not_lt inFirst
    rw [List.length_append] at isWord
    rw [List.getElem_append_right inRest, ← rest (j - words.length) (by omega), Nat.mul_sub]
    congr 1
    have atLeast := Nat.mul_le_mul_left wordSize inRest
    omega

theorem Stack.freshFrame_setup (stack : Stack) {words : List Nat} {locals lastFrame : Nat}
    (start : Nat) (isTop : stack.top = start + wordSize * words.length)
    (holds : HoldsAt stack.memory start words) :
    FreshFrame words locals (stack.top + wordSize)
      ({ stack.push 0 with basePointer := lastFrame }.setup locals).memory where
  parameters := by
    have kept := (Stack.setup_spec { stack.push 0 with basePointer := lastFrame } locals).2.2.2
    have isStart : stack.top + wordSize - wordSize - wordSize * words.length = start := by
      omega
    rw [isStart]
    refine holds.congr fun a _ inside => ?_
    have isBelow : a < stack.top := by
      rw [isTop]
      exact inside
    refine (kept a ?_).trans (Stack.below_push 0 a isBelow)
    rw [Stack.top_push]
    exact Nat.lt_add_right wordSize isBelow
  locals := Stack.setup_locals { stack.push 0 with basePointer := lastFrame } locals

/-- `push_port_call` copies the arguments of the call, which lie below, behind the
parameter of the port and the instance. -/
theorem Stack.freshFrame_enter {stack : Stack} {words : List Nat} {topBefore : Nat}
    (parameter : Option Nat) (instance_ lastFrame locals : Nat)
    (holds : HoldsAt stack.memory topBefore words)
    (isBelow : topBefore + wordSize * words.length ≤ stack.top) :
    FreshFrame (parameter.toList ++ instance_ :: words) locals
      (stack.enter parameter instance_ topBefore words.length lastFrame locals).basePointer
      (stack.enter parameter instance_ topBefore words.length lastFrame locals).memory := by
  have isLeading : (stack.pushAll parameter.toList).push instance_ =
      stack.pushAll (parameter.toList ++ [instance_]) :=
    (pushAll_append stack parameter.toList [instance_]).symm
  obtain ⟨leading, isAll⟩ : ∃ leading, leading = parameter.toList ++ [instance_] := ⟨_, rfl⟩
  have isWords : parameter.toList ++ instance_ :: words = leading ++ words := by
    rw [isAll, List.append_assoc, List.singleton_append]
  obtain ⟨_, pushTop, pushBelow⟩ := Stack.pushAll_spec leading stack
  rw [Stack.enter, isLeading, ← isAll, isWords]
  refine Stack.freshFrame_setup
    ((stack.pushAll leading).load topBefore (wordSize * words.length)) stack.top ?_ ?_
  · rw [List.length_append, Nat.mul_add, ← Nat.add_assoc, ← pushTop]
    rfl
  · apply HoldsAt.append
    · refine (holdsAt_pushAll stack leading).congr fun a _ inside => ?_
      exact Stack.below_load _ _ a (by rw [pushTop]; exact inside)
    · rw [← pushTop]
      apply holdsAt_load
      exact holds.congr fun a _ inside => pushBelow a (Nat.lt_of_lt_of_le inside isBelow)

/-- What is known before the loop of `push_port_call`: the offset of the element,
the words of the arguments and the state with the arguments on the stack. -/
structure Pushed (σ : Type) (count : Nat) where
  offset : Nat
  words : List.Vector Nat count
  exec : Executor σ

/-- `push_port_call` up to its loop. -/
def enterPushPort {count : Nat} (arrayOffset : Phase σ layout Nat)
    (arguments : Phase σ layout (List.Vector Nat count)) (exec : Executor σ) : Pushed σ count :=
  let (offset, exec) := exec.record arrayOffset .arrayOffset
  let (words, exec) := exec.record arguments (.arguments _)
  ⟨offset, words, exec.onStack fun stack => stack.pushAll words.toList⟩

/-- The arguments lie on the stack from the old top on; below it, nothing has
changed since they were evaluated. -/
structure IsPushed {count : Nat} (exec : Executor σ) (offset : Execution σ Nat)
    (words : Execution σ (List.Vector Nat count)) (pushed : Pushed σ count) : Prop where
  isOffset : pushed.offset = offset.value
  areWords : pushed.words = words.value
  basePointer : pushed.exec.basePointer = exec.basePointer
  top : pushed.exec.top = exec.top + wordSize * count
  holds : HoldsAt pushed.exec.memory exec.top pushed.words.toList
  memory : ∀ a, a < exec.top → pushed.exec.memory a = words.memoryAfter a
  components : pushed.exec.components = words.componentsAfter
  trace : pushed.exec.trace = exec.trace ++ [.arrayOffset offset, .arguments count words]

theorem enterPushPort_spec {count : Nat} (arrayOffset : Phase σ layout Nat)
    (arguments : Phase σ layout (List.Vector Nat count)) (exec : Executor σ) :
    IsPushed exec (exec.execution arrayOffset)
      ((exec.record arrayOffset .arrayOffset).2.execution arguments)
      (enterPushPort arrayOffset arguments exec) := by
  obtain ⟨evaluated, isEvaluated⟩ :
      ∃ evaluated, evaluated =
        (exec.record arrayOffset .arrayOffset).2.record arguments (.arguments _) := ⟨_, rfl⟩
  have isPushed : enterPushPort arrayOffset arguments exec =
      ⟨(exec.record arrayOffset .arrayOffset).1, evaluated.1,
        evaluated.2.onStack fun stack => stack.pushAll evaluated.1.toList⟩ := by
    rw [isEvaluated]
    rfl
  have sameTop : evaluated.2.top = exec.top := by
    rw [isEvaluated]
    rfl
  obtain ⟨pushPointer, pushTop, pushBelow⟩ :=
    Stack.pushAll_spec evaluated.1.toList evaluated.2.toStack
  rw [List.Vector.toList_length] at pushTop
  rw [isPushed]
  constructor
  · rfl
  · rw [isEvaluated]
    rfl
  · refine pushPointer.trans ?_
    rw [isEvaluated]
    rfl
  · rw [← sameTop]
    exact pushTop
  · rw [← sameTop]
    exact holdsAt_pushAll evaluated.2.toStack evaluated.1.toList
  · intro a below
    rw [← sameTop] at below
    refine (pushBelow a below).trans ?_
    rw [isEvaluated]
    rfl
  · rw [isEvaluated]
    rfl
  · rw [isEvaluated]
    exact List.append_assoc _ _ _

mutual

/-- A transition does what its tree prescribes. -/
theorem Transition.call_executes {layout : Layout} :
    ∀ (transition : Transition code layout) (exec : Executor σ) (start : Nat) (words : List Nat),
      exec.basePointer = start + layout.arguments + wordSize →
      exec.basePointer + wordSize + layout.locals ≤ exec.top →
      FreshFrame words layout.locals exec.basePointer exec.memory →
        ∃ events, (transition.call exec).trace = exec.trace ++ events ∧
          transition.Executes exec.basePointer words exec.components events
            (transition.call exec).components
  | .mk immutable activation, exec, start, words, place, room, fresh => by
      obtain ⟨before, isBefore⟩ :
          ∃ before : Executor σ, before = { exec with currentInfo := exec.receiver layout } :=
        ⟨_, rfl⟩
      obtain ⟨performed, isPerformed⟩ :
          ∃ performed, performed = (before.record immutable .immutable).2 := ⟨_, rfl⟩
      have isTrace :
          performed.trace = exec.trace ++ [.immutable (before.execution immutable)] := by
        rw [isPerformed, isBefore]
        rfl
      have isPointer : before.basePointer = exec.basePointer := by rw [isBefore]
      have isMemory : before.memory = exec.memory := by rw [isBefore]
      have isComponents : before.components = exec.components := by rw [isBefore]
      have isInfo : before.currentInfo = exec.memory (exec.basePointer - layout.receiver) := by
        rw [isBefore]
        rfl
      have samePointer : performed.basePointer = exec.basePointer := by
        rw [isPerformed]
        exact isPointer
      have sameTop : performed.top = exec.top := by
        rw [isPerformed, isBefore]
        rfl
      have isMemoryAfter : (before.execution immutable).memoryAfter = performed.memory := by
        rw [isPerformed]
        rfl
      have isComponentsAfter :
          (before.execution immutable).componentsAfter = performed.components := by
        rw [isPerformed]
        rfl
      have gives := before.execution_gives immutable
      have starts : FreshFrame words layout.locals exec.basePointer before.memory := by
        rw [isMemory]
        exact fresh
      have receives : before.currentInfo = before.memory (exec.basePointer - layout.receiver) := by
        rw [isInfo, isMemory]
      cases isValue : (before.execution immutable).value with
      | none =>
          have isCall : (Transition.mk immutable activation).call exec =
              { performed with currentInfo := exec.currentInfo } := by
            have isNone : (before.record immutable .immutable).1 = none := isValue
            simp only [Transition.call, ← isBefore, isNone, ← isPerformed]
          rw [isCall]
          refine ⟨[.immutable (before.execution immutable)], isTrace,
            before.execution immutable, [], rfl, gives, isPointer, receives, starts,
            isComponents, ?_⟩
          rw [isValue]
          exact ⟨rfl, isComponentsAfter⟩
      | some statement =>
          have isCall : (Transition.mk immutable activation).call exec =
              { (activation statement).execute performed with currentInfo := exec.currentInfo } := by
            have isSome : (before.record immutable .immutable).1 = some statement := isValue
            simp only [Transition.call, ← isBefore, isSome, ← isPerformed]
          rw [← samePointer] at place room
          rw [← sameTop] at room
          obtain ⟨rest, restTrace, executes⟩ :=
            (activation statement).execute_executes performed start place room
          rw [isCall]
          refine ⟨.immutable (before.execution immutable) :: rest, ?_,
            before.execution immutable, rest, rfl, gives, isPointer, receives, starts,
            isComponents, ?_⟩
          · rw [restTrace, isTrace, List.append_assoc, List.singleton_append]
          · rw [isValue, isMemoryAfter, isComponentsAfter]
            rw [samePointer] at executes
            exact executes

theorem Activation.execute_executes {layout : Layout} :
    ∀ (activation : Activation code layout) (exec : Executor σ) (start : Nat),
      exec.basePointer = start + layout.arguments + wordSize →
      exec.basePointer + wordSize + layout.locals ≤ exec.top →
        ∃ events, (activation.execute exec).trace = exec.trace ++ events ∧
          activation.Executes exec.basePointer exec.memory exec.components events
            (activation.execute exec).components
  | .mk portCalls body compiled, exec, start, place, room => by
      obtain ⟨linked, isLinked⟩ :
          ∃ linked : Executor σ,
            linked =
              { exec with
                memory :=
                  Function.update
                    (Function.update exec.memory exec.basePointer exec.mutablePhaseBasePointer)
                    (exec.basePointer - wordSize) body
                mutablePhaseBasePointer := exec.basePointer
                trace := exec.trace ++ [.activate exec.basePointer body] } :=
        ⟨_, rfl⟩
      have samePointer : linked.basePointer = exec.basePointer := by rw [isLinked]
      have sameTop : linked.top = exec.top := by rw [isLinked]
      -- the words around the base pointer are neither parameters nor locals
      have same : layout.SameOwn exec.basePointer exec.memory linked.memory := by
        intro a own
        have isOther : a ≠ exec.basePointer ∧ a ≠ exec.basePointer - wordSize := by
          simp only [Layout.Own, wordSize] at *
          omega
        rw [isLinked]
        exact (Function.update_of_ne isOther.2 _ _).trans (Function.update_of_ne isOther.1 _ _)
      rw [← samePointer] at same place
      have linkedRoom : linked.basePointer + wordSize + layout.locals ≤ linked.top := by
        rw [samePointer, sameTop]
        exact room
      obtain ⟨frames, ran⟩ := portCalls.execute_spec linked linkedRoom
      obtain ⟨calls, isTrace, executes⟩ :=
        portCalls.execute_executes linked start exec.memory place linkedRoom same
      have isExecuted :
          (Activation.mk portCalls body compiled).execute exec =
            (portCalls.execute linked).log
              (.activated (portCalls.execute linked).basePointer
                (portCalls.execute linked).memory) := by
        rw [isLinked]
        rfl
      rw [samePointer] at executes
      refine ⟨.activate exec.basePointer body :: (calls ++
        [.activated exec.basePointer (portCalls.execute linked).memory]), ?_, calls,
        (portCalls.execute linked).memory, rfl, ?_⟩
      · rw [isExecuted, Executor.log, isTrace, ran.basePointer, samePointer, isLinked]
        simp
      · have isComponents : linked.components = exec.components := by rw [isLinked]
        rw [isComponents] at executes
        rw [isExecuted]
        exact executes

theorem PortCalls.execute_executes {layout : Layout} :
    ∀ (portCalls : PortCalls code layout) (exec : Executor σ) (start : Nat) (memory : Memory),
      exec.basePointer = start + layout.arguments + wordSize →
      exec.basePointer + wordSize + layout.locals ≤ exec.top →
      layout.SameOwn exec.basePointer memory exec.memory →
        ∃ events, (portCalls.execute exec).trace = exec.trace ++ events ∧
          portCalls.Executes exec.basePointer memory exec.components events
            (portCalls.execute exec).memory (portCalls.execute exec).components
  | .nil, exec, _, memory, _, _, same => ⟨[], (List.append_nil _).symm, rfl, same, rfl⟩
  | .cons arrayOffset arguments portOffset ports rest, exec, start, memory, place, room,
      sameBefore => by
      obtain ⟨pushed, isPushed⟩ :
          ∃ pushed, pushed = enterPushPort arrayOffset arguments exec := ⟨_, rfl⟩
      obtain ⟨offset, isOffset⟩ : ∃ offset, offset = exec.execution arrayOffset := ⟨_, rfl⟩
      obtain ⟨words, isWords⟩ :
          ∃ words, words = (exec.record arrayOffset .arrayOffset).2.execution arguments :=
        ⟨_, rfl⟩
      have spec := enterPushPort_spec arrayOffset arguments exec
      rw [← isPushed, ← isOffset, ← isWords] at spec
      -- the receiver is below what has been pushed
      have same : layout.SameOwn exec.basePointer words.memoryAfter pushed.exec.memory :=
        Layout.sameOwn_of_below room spec.memory
      have isReceiver : pushed.exec.receiver layout =
          words.memoryAfter (exec.basePointer - layout.receiver) := by
        rw [Executor.receiver, spec.basePointer]
        apply same.receiver
        omega
      obtain ⟨port, isPort⟩ :
          ∃ port, port =
            ports (pushed.exec.receiver layout + portOffset + pushed.offset) := ⟨_, rfl⟩
      obtain ⟨frames, ran⟩ := port.activate_spec exec.top pushed.exec
      obtain ⟨called, calledTrace, calledExecutes⟩ :=
        (ports (pushed.exec.receiver layout + portOffset + pushed.offset)).activate_executes
          pushed.words.toList exec.top pushed.exec pushed.words.toList_length spec.holds
          (le_of_eq spec.top.symm)
      rw [← isPort] at calledTrace calledExecutes
      obtain ⟨after, isAfter⟩ :
          ∃ after, after = port.activate exec.top pushed.exec.basePointer pushed.exec := ⟨_, rfl⟩
      rw [← isAfter] at ran calledTrace calledExecutes
      have afterPointer : after.basePointer = exec.basePointer :=
        ran.basePointer.trans spec.basePointer
      have pushedRoom : exec.basePointer + wordSize + layout.locals ≤ pushed.exec.top := by
        rw [spec.top]
        omega
      have afterRoom : after.basePointer + wordSize + layout.locals ≤ after.top := by
        rw [afterPointer]
        exact Nat.le_trans pushedRoom ran.stacked.le
      have sameAfter : layout.SameOwn after.basePointer words.memoryAfter after.memory := by
        rw [afterPointer]
        exact same.trans (Layout.sameOwn_of_below pushedRoom fun a below => ran.memory a below id)
      obtain ⟨others, othersTrace, othersExecutes⟩ :=
        rest.execute_executes after start words.memoryAfter (afterPointer.trans place) afterRoom
          sameAfter
      have isExecuted :
          (PortCalls.cons arrayOffset arguments portOffset ports rest).execute exec =
            rest.execute after := by
        rw [isAfter, isPort, isPushed]
        rfl
      rw [isExecuted]
      rw [isPort, isReceiver, spec.isOffset, spec.areWords, spec.components] at calledExecutes
      rw [afterPointer] at othersExecutes
      refine ⟨.arrayOffset offset :: .arguments _ words :: (called ++ others), ?_, offset, words,
        called, others, after.components, rfl, ?_⟩
      · rw [othersTrace, calledTrace, spec.trace]
        simp
      · subst isOffset isWords
        exact ⟨exec.execution_gives arrayOffset, rfl, sameBefore, rfl,
          Executor.execution_gives _ arguments, rfl, fun _ _ => rfl, rfl, calledExecutes,
          othersExecutes⟩

theorem Port.activate_executes {count : Nat} :
    ∀ (port : Port code count) (words : List Nat) (topBefore : Nat) (exec : Executor σ),
      words.length = count → HoldsAt exec.memory topBefore words →
      topBefore + wordSize * count ≤ exec.top →
        ∃ events,
          (port.activate topBefore exec.basePointer exec).trace = exec.trace ++ events ∧
            port.Executes words exec.components events
              (port.activate topBefore exec.basePointer exec).components
  | .null, _, _, exec, _, _, _ => ⟨[], (List.append_nil _).symm, rfl, rfl⟩
  | .cons parameter instance_ locals reaction next, words, topBefore, exec, isCount, holds,
      isBelow => by
      obtain ⟨framed, isFramed⟩ :
          ∃ framed : Executor σ,
            framed =
              exec.onStack fun stack =>
                stack.enter parameter instance_ topBefore count exec.mutablePhaseBasePointer
                  locals :=
        ⟨_, rfl⟩
      obtain ⟨basePointer, top, below⟩ :=
        exec.toStack.enter_spec parameter instance_ topBefore count exec.mutablePhaseBasePointer
          locals
      have isPointer : framed.basePointer =
          exec.top + (Layout.ofReaction parameter count locals).arguments + wordSize := by
        rw [isFramed]
        exact basePointer
      have isTop : framed.basePointer + wordSize + locals = framed.top := by
        rw [isPointer, isFramed]
        exact top.symm
      have fresh : FreshFrame (parameter.toList ++ instance_ :: words) locals
          framed.basePointer framed.memory := by
        subst isCount
        rw [isFramed]
        exact Stack.freshFrame_enter parameter instance_ exec.mutablePhaseBasePointer locals holds
          isBelow
      obtain ⟨first, firstTrace, firstExecutes⟩ :=
        reaction.call_executes framed exec.top _ isPointer (le_of_eq isTop) fresh
      obtain ⟨frames, ran⟩ :=
        (Port.cons parameter instance_ locals reaction .null).activate_spec topBefore exec
      obtain ⟨after, isAfter⟩ :
          ∃ after, after =
            (Port.cons parameter instance_ locals reaction .null).activate topBefore
              exec.basePointer exec := ⟨_, rfl⟩
      rw [← isAfter] at ran
      -- the arguments of the call stay where they are
      have holdsAfter : HoldsAt after.memory topBefore words := by
        refine holds.congr fun a _ inside => ran.memory a ?_ id
        rw [isCount] at inside
        exact Nat.lt_of_lt_of_le inside isBelow
      obtain ⟨others, othersTrace, othersExecutes⟩ :=
        next.activate_executes words topBefore after isCount holdsAfter
          (Nat.le_trans isBelow ran.stacked.le)
      have isReaction : after =
          (reaction.call framed).onStack fun stack =>
            { stack with basePointer := exec.basePointer } := by
        rw [isAfter, isFramed]
        rfl
      have isActivated :
          (Port.cons parameter instance_ locals reaction next).activate topBefore
              exec.basePointer exec =
            next.activate topBefore exec.basePointer after := by
        rw [isAfter]
        rfl
      have afterTrace : after.trace = exec.trace ++ first := by
        rw [isReaction]
        refine firstTrace.trans ?_
        rw [isFramed]
        rfl
      have afterComponents : after.components = (reaction.call framed).components := by
        rw [isReaction]
        rfl
      have framedComponents : framed.components = exec.components := by
        rw [isFramed]
        rfl
      rw [ran.basePointer] at othersTrace othersExecutes
      rw [← afterComponents, framedComponents] at firstExecutes
      rw [isActivated]
      refine ⟨first ++ others, ?_, framed.basePointer, first, others, after.components, rfl,
        firstExecutes, othersExecutes⟩
      rw [othersTrace, afterTrace, List.append_assoc]

end

end Executes

end Rcgo.Transaction
