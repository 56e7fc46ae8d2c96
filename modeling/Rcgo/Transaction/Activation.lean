import Rcgo.Foundation.Outcome
import Rcgo.Transaction.Stack
import Mathlib.Data.Vector.Basic

/-!
# Activation trees

The immutable phase of an action or a reaction ends with at most one of its
activate statements.  Its port calls run the reactions that are bound to the
ports, and its body is deferred to the mutable phase.
-/

namespace Rcgo.Transaction

open Rcgo.Foundation

/-! ## Phases -/

/-- The memory model of an action or a reaction, in bytes. -/
structure Layout where
  /-- the size of what has been pushed before the instruction pointer -/
  arguments : Nat
  /-- how far the receiver lies below the base pointer -/
  receiver : Nat
  locals : Nat
  /-- the receiver is one of the parameters -/
  receiver_parameter : wordSize < receiver ∧ receiver ≤ wordSize + arguments

namespace Layout

/-- The parameters and locals of the frame with this base pointer. -/
def Own (layout : Layout) (basePointer address : Nat) : Prop :=
  (basePointer ≤ address + wordSize + layout.arguments ∧
      address + wordSize < basePointer) ∨
    (basePointer + wordSize ≤ address ∧
      address < basePointer + wordSize + layout.locals)

/-- The frame of an action: `iota` if it has a dimension, and the instance. -/
def ofAction (iota : Option Nat) (locals : Nat) : Layout where
  arguments := wordSize * iota.toList.length + wordSize
  receiver := wordSize + wordSize
  locals := locals
  receiver_parameter := by
    simp only [wordSize]
    omega

/-- The frame of a reaction: the parameter of the port if the reaction has a
dimension, the instance and the arguments. -/
def ofReaction (parameter : Option Nat) (count locals : Nat) : Layout where
  arguments := wordSize * parameter.toList.length + wordSize + wordSize * count
  receiver := wordSize + wordSize * count + wordSize
  locals := locals
  receiver_parameter := by
    simp only [wordSize]
    omega

end Layout

/-- What generated code finds in the executor. -/
structure View where
  basePointer : Nat
  top : Nat
  currentInfo : Nat

/-- Generated code without activations that leaves the stack balanced, with
the value that it computes.  Below the top of the stack it writes to the
parameters and locals of its own frame only. -/
structure Phase (σ : Type) (layout : Layout) (α : Type) where
  run : View → Memory → σ → α × Memory × σ
  writes :
    ∀ view memory components a, a < view.top → ¬ layout.Own view.basePointer a →
      (run view memory components).2.1 a = memory a

/-- The body of an activate statement, compiled for the frame of its
transition. -/
structure Body (σ : Type) where
  layout : Layout
  phase : Phase σ layout Unit

/-! ## Trees -/

section Trees

variable {σ : Type} (code : Nat → Body σ)

mutual

/-- An action or a reaction.  The immutable phase tells which activate
statement it has come to, if any. -/
inductive Transition : Layout → Type
  | mk {layout : Layout} (immutable : Phase σ layout (Option Nat))
      (activation : Nat → Activation layout) : Transition layout

/-- An activate statement; its body is the operation at this address. -/
inductive Activation : Layout → Type
  | mk {layout : Layout} (portCalls : PortCalls layout) (body : Nat)
      (compiled : (code body).layout = layout) : Activation layout

/-- The port calls of an activate statement.  The offset of the element is 0
for a call without an index; `ports` gives the list of bound reactions that is
stored at an address. -/
inductive PortCalls : Layout → Type
  | nil {layout : Layout} : PortCalls layout
  | cons {layout : Layout} {count : Nat} (arrayOffset : Phase σ layout Nat)
      (arguments : Phase σ layout (List.Vector Nat count)) (portOffset : Nat)
      (ports : Nat → Port count) (rest : PortCalls layout) : PortCalls layout

/-- The list of reactions that are bound to a push port with `count` words of
arguments. -/
inductive Port : Nat → Type
  | null {count : Nat} : Port count
  | cons {count : Nat} (parameter : Option Nat) (instance_ locals : Nat)
      (reaction : Transition (Layout.ofReaction parameter count locals))
      (next : Port count) : Port count

end

end Trees

/-! ## Execution -/

/-- The part of `push_port_call` that sets up the frame of a reaction: the
parameter, the instance, a copy of the arguments and an instruction pointer;
then it jumps to the last frame. -/
def Stack.enter (stack : Stack) (parameter : Option Nat) (instance_ topBefore count : Nat)
    (lastFrame locals : Nat) : Stack :=
  let stack := stack.pushAll parameter.toList
  let stack := stack.push instance_
  let stack := stack.load topBefore (wordSize * count)
  let stack := stack.push 0
  let stack := { stack with basePointer := lastFrame }
  stack.setup locals

theorem Stack.enter_spec (stack : Stack) (parameter : Option Nat)
    (instance_ topBefore count lastFrame locals : Nat) :
    (stack.enter parameter instance_ topBefore count lastFrame locals).basePointer =
        stack.top + (Layout.ofReaction parameter count locals).arguments + wordSize ∧
      (stack.enter parameter instance_ topBefore count lastFrame locals).top =
          stack.top + (Layout.ofReaction parameter count locals).arguments + wordSize +
            wordSize + locals ∧
        Below stack (stack.enter parameter instance_ topBefore count lastFrame locals) := by
  obtain ⟨_, pushTop, pushBelow⟩ := pushAll_spec parameter.toList stack
  obtain ⟨loaded, isLoaded⟩ :
      ∃ loaded, loaded =
        ((stack.pushAll parameter.toList).push instance_).load topBefore (wordSize * count) :=
    ⟨_, rfl⟩
  have loadedTop :
      loaded.top = stack.top + (Layout.ofReaction parameter count locals).arguments := by
    rw [isLoaded, Layout.ofReaction]
    simp only [load, top_push, pushTop]
    omega
  obtain ⟨basePointer, top, _, below⟩ :=
    setup_spec { loaded.push 0 with basePointer := lastFrame } locals
  rw [enter, ← isLoaded]
  refine ⟨?_, ?_, ?_⟩
  · rw [basePointer, top_push, loadedTop]
  · rw [top, top_push, loadedTop]
  · intro a belowTop
    have aboveAll : a < loaded.top := by
      rw [loadedTop]
      omega
    have belowPush : a < ({ loaded.push 0 with basePointer := lastFrame } : Stack).top := by
      rw [top_push]
      omega
    have belowInstance : a < ((stack.pushAll parameter.toList).push instance_).top := by
      rw [top_push, pushTop]
      omega
    calc
      _ = (loaded.push 0).memory a := below a belowPush
      _ = loaded.memory a := below_push 0 a aboveAll
      _ = ((stack.pushAll parameter.toList).push instance_).memory a := by
        rw [isLoaded]
        exact below_load topBefore (wordSize * count) a belowInstance
      _ = (stack.pushAll parameter.toList).memory a :=
        below_push instance_ a (by rw [pushTop]; omega)
      _ = stack.memory a := pushBelow a belowTop

/-- A run of generated code: what it finds, the value that it computes, and what
it leaves. -/
structure Execution (σ α : Type) where
  view : View
  memory : Memory
  components : σ
  value : α
  memoryAfter : Memory
  componentsAfter : σ

/-- What happens in the course of a transaction. -/
inductive Event (σ : Type) where
  /-- an immutable phase has run -/
  | immutable (execution : Execution σ (Option Nat))
  /-- the index of a port call has been evaluated -/
  | arrayOffset (execution : Execution σ Nat)
  /-- the arguments of a port call have been evaluated -/
  | arguments (count : Nat) (execution : Execution σ (List.Vector Nat count))
  | activate (basePointer body : Nat)
  /-- an activate statement has finished -/
  | activated (basePointer : Nat) (memory : Memory)
  /-- the deferred body at this address has run -/
  | deferred (body : Nat) (execution : Execution σ Unit)

/-- `ExecutorBase`, with the events so far. -/
structure Executor (σ : Type) extends Stack where
  mutablePhaseBasePointer : Nat
  currentInfo : Nat
  components : σ
  trace : List (Event σ)

namespace Executor

variable {σ : Type} {layout : Layout} {α : Type}

def onStack (exec : Executor σ) (operation : Stack → Stack) : Executor σ :=
  { exec with toStack := operation exec.toStack }

def log (exec : Executor σ) (event : Event σ) : Executor σ :=
  { exec with trace := exec.trace ++ [event] }

def perform (exec : Executor σ) (phase : Phase σ layout α) : α × Executor σ :=
  let (value, memory, components) :=
    phase.run ⟨exec.basePointer, exec.top, exec.currentInfo⟩ exec.memory exec.components
  (value, { exec with toStack := { exec.toStack with memory := memory }, components := components })

/-- The run of generated code that begins in this state. -/
def execution (exec : Executor σ) (phase : Phase σ layout α) : Execution σ α :=
  let view : View := ⟨exec.basePointer, exec.top, exec.currentInfo⟩
  let (value, memory, components) := phase.run view exec.memory exec.components
  ⟨view, exec.memory, exec.components, value, memory, components⟩

def record (exec : Executor σ) (phase : Phase σ layout α) (event : Execution σ α → Event σ) :
    α × Executor σ :=
  let (value, performed) := exec.perform phase
  (value, performed.log (event (exec.execution phase)))

def receiver (exec : Executor σ) (layout : Layout) : Nat :=
  exec.memory (exec.basePointer - layout.receiver)

end Executor

section Execution

variable {σ : Type} {code : Nat → Body σ}

mutual

/-- The operation of a reaction or an action: `SetRestoreCurrentInstance` and
the statements. -/
def Transition.call {layout : Layout} :
    Transition code layout → Executor σ → Executor σ
  | .mk immutable activation, exec =>
      let oldInfo := exec.currentInfo
      let exec := { exec with currentInfo := exec.receiver layout }
      let (statement, exec) := exec.record immutable .immutable
      let exec :=
        match statement with
        | none => exec
        | some statement => (activation statement).execute exec
      { exec with currentInfo := oldInfo }

/-- `Activate::execute`. -/
def Activation.execute {layout : Layout} :
    Activation code layout → Executor σ → Executor σ
  | .mk portCalls body _, exec =>
      let exec :=
        exec.onStack fun stack =>
          { stack with
            memory :=
              Function.update stack.memory stack.basePointer exec.mutablePhaseBasePointer }
      let exec := { exec with mutablePhaseBasePointer := exec.basePointer }
      let exec :=
        exec.onStack fun stack =>
          { stack with
            memory := Function.update stack.memory (stack.basePointer - wordSize) body }
      let exec := exec.log (.activate exec.basePointer body)
      let exec := portCalls.execute exec
      exec.log (.activated exec.basePointer exec.memory)

/-- `PushPortCall::execute` and `IndexedPushPortCall::execute`, one after the
other. -/
def PortCalls.execute {layout : Layout} :
    PortCalls code layout → Executor σ → Executor σ
  | .nil, exec => exec
  | .cons arrayOffset arguments portOffset ports rest, exec =>
      let (offset, exec) := exec.record arrayOffset .arrayOffset
      let topBefore := exec.top
      let (words, exec) := exec.record arguments (.arguments _)
      let exec := exec.onStack fun stack => stack.pushAll words.toList
      let port := ports (exec.receiver layout + portOffset + offset)
      rest.execute (port.activate topBefore exec.basePointer exec)

/-- The loop of `push_port_call`. -/
def Port.activate {count : Nat} :
    Port code count → Nat → Nat → Executor σ → Executor σ
  | .null, _, _, exec => exec
  | .cons parameter instance_ locals reaction next, topBefore, basePointer, exec =>
      let exec :=
        exec.onStack fun stack =>
          stack.enter parameter instance_ topBefore count exec.mutablePhaseBasePointer locals
      let exec := reaction.call exec
      let exec := exec.onStack fun stack => { stack with basePointer := basePointer }
      next.activate topBefore basePointer exec

end

/-- The deferred operation at an address: `SetRestoreCurrentInstance` and the
body of the activate statement. -/
def runDeferred (code : Nat → Body σ) (operation : Nat) (exec : Executor σ) : Executor σ :=
  let body := code operation
  let oldInfo := exec.currentInfo
  let exec := { exec with currentInfo := exec.receiver body.layout }
  let (_, exec) := exec.record body.phase (.deferred operation)
  { exec with currentInfo := oldInfo }

/-- The loop over the deferred bodies in `execute`. -/
def processDeferred (code : Nat → Body σ) : Nat → Executor σ → Outcome Empty (Executor σ)
  | 0, _ => .outOfFuel
  | depth + 1, exec =>
      if exec.basePointer = 0 then
        .ok exec
      else
        -- the instruction pointer is just before the base pointer
        let operation := exec.memory (exec.basePointer - wordSize)
        let exec := runDeferred code operation exec
        processDeferred code depth (exec.onStack Stack.teardown)

/-- `enabled`: the precondition of an action. -/
def enabled (iota : Option Nat) (instance_ : Nat)
    (precondition : Phase σ (Layout.ofAction iota 0) Bool) (exec : Executor σ) :
    Bool × Executor σ :=
  let exec := exec.onStack fun stack => stack.pushAll iota.toList
  let exec := exec.onStack fun stack => stack.push instance_
  let exec := exec.onStack fun stack => stack.push 0
  let exec := exec.onStack fun stack => stack.setup 0
  let oldInfo := exec.currentInfo
  let exec := { exec with currentInfo := exec.receiver (Layout.ofAction iota 0) }
  let (retval, exec) := exec.perform precondition
  let exec := { exec with currentInfo := oldInfo }
  let exec := exec.onStack Stack.teardown
  let exec := exec.onStack fun stack => stack.pop.2
  let exec := exec.onStack fun stack => stack.pop.2
  (retval, exec.onStack fun stack => stack.popAll iota.toList)

/-- `execute`. -/
def execute {layout : Layout} (depth : Nat) (action : Transition code layout)
    (exec : Executor σ) : Outcome Empty (Executor σ) :=
  let exec := { exec with mutablePhaseBasePointer := 0 }
  let exec := exec.onStack fun stack => stack.setup layout.locals
  let exec := action.call exec
  if exec.mutablePhaseBasePointer = 0 then
    .ok (exec.onStack Stack.teardown)
  else
    processDeferred code depth
      (exec.onStack fun stack => { stack with basePointer := exec.mutablePhaseBasePointer })

/-- `execute_no_check`: one transaction of an action. -/
def executeNoCheck (depth : Nat) (iota : Option Nat) (instance_ : Nat) {locals : Nat}
    (action : Transition code (Layout.ofAction iota locals)) (exec : Executor σ) :
    Outcome Empty (Executor σ) := do
  let exec := exec.onStack fun stack => stack.pushAll iota.toList
  let exec := exec.onStack fun stack => stack.push instance_
  let exec := exec.onStack fun stack => stack.push 0
  let exec ← execute depth action exec
  let exec := exec.onStack fun stack => stack.pop.2
  let exec := exec.onStack fun stack => stack.pop.2
  pure (exec.onStack fun stack => stack.popAll iota.toList)

end Execution

end Rcgo.Transaction
