import Rcgo.Transaction.CallingConvention

/-!
# The paths of a call

Caller and callee agree on every path: the calls of functions, methods,
initializers and getters, of pull ports and push ports, the precondition of an
action and its execution.
-/

namespace Rcgo.Transaction

open Rcgo.Code Rcgo.Foundation

variable {σ : Type} {code : Nat → Body σ} {layout : Layout} {types : List DataType}

/-! ## Push ports -/

/-- Every reaction that is bound to the port finds the parameter of the port, its
instance and the arguments in the slots of its frame. -/
def Port.Agrees (types : List DataType) (values : List (List Nat)) (topBefore basePointer : Nat) :
    {count : Nat} → Port code count → Executor σ → Prop
  | _, .null, _ => True
  | count, .cons parameter instance_ locals reaction next, exec =>
      let entered :=
        exec.onStack fun stack =>
          stack.enter parameter instance_ topBefore count exec.mutablePhaseBasePointer locals
      (∀ component dimension body frame,
        allocateStackVariables (reactionCallable component types dimension) body = some frame →
        parameter.isSome = dimension.isSome → entered.basePointer < 2 ^ 64 →
          EntersFrame frame locals (leadingValues parameter instance_ ++ values) exec.toStack
            entered.toStack) ∧
      next.Agrees types values topBefore basePointer
        ((reaction.call entered).onStack fun stack => { stack with basePointer := basePointer })

theorem execute_pushPortCall {count : Nat} (arrayOffset : Phase σ layout Nat)
    (arguments : Phase σ layout (List.Vector Nat count)) (portOffset : Nat)
    (ports : Nat → Port code count) (exec : Executor σ) :
    (PortCalls.cons arrayOffset arguments portOffset ports .nil).execute exec =
      let pushed := enterPushPort arrayOffset arguments exec
      (ports (pushed.exec.receiver layout + portOffset + pushed.offset)).activate exec.top
        pushed.exec.basePointer pushed.exec :=
  rfl

theorem Port.agrees (values : List (List Nat)) (lengths : values.map List.length = types.map wordsOf) :
    ∀ {count : Nat} (port : Port code count) (topBefore : Nat) (exec : Executor σ),
      count = wordsOfAll types → HoldsFrom exec.memory topBefore values →
      topBefore + wordSize * wordsOfAll types ≤ exec.top →
        port.Agrees types values topBefore exec.basePointer exec
  | _, .null, _, _, _, _, _ => trivial
  | _, .cons parameter instance_ locals reaction next, topBefore, exec, isCount, holds, isBelow => by
      rcases (Port.cons parameter instance_ locals reaction .null).activate_spec topBefore exec with
        ⟨frames, ran⟩
      refine ⟨fun component dimension body frame allocated isIota fits => ?_, ?_⟩
      · subst isCount
        exact entersFrame_reaction allocated isIota lengths holds isBelow fits
      · rw [← ran.basePointer]
        apply next.agrees values lengths topBefore _ isCount _ (Nat.le_trans isBelow ran.stacked.le)
        refine holds.congr fun a _ inside => ran.memory a ?_ id
        rw [lengths, ← wordsOfAll] at inside
        exact Nat.lt_of_lt_of_le inside isBelow

/-- What a push port call leaves of the stack: the frame of the caller and all
that lies below, except for the caller's own parameters and locals. -/
structure Leaves (own : Nat → Prop) (before after : Executor σ) : Prop where
  basePointer : after.basePointer = before.basePointer
  top : before.top ≤ after.top
  memory : ∀ a, a < before.top → ¬own a → after.memory a = before.memory a

theorem pushPortCall_leaves {count : Nat} (arrayOffset : Phase σ layout Nat)
    (arguments : Phase σ layout (List.Vector Nat count)) (portOffset : Nat)
    (ports : Nat → Port code count) (exec : Executor σ)
    (room : exec.basePointer + wordSize + layout.locals ≤ exec.top) :
    Leaves (layout.Own exec.basePointer) exec
      ((PortCalls.cons arrayOffset arguments portOffset ports .nil).execute exec) := by
  rcases (PortCalls.cons arrayOffset arguments portOffset ports .nil).execute_spec exec room with
    ⟨frames, ran⟩
  exact ⟨ran.basePointer, ran.stacked.le, ran.memory⟩

/-! ## Preconditions and actions -/

/-- The precondition runs in the frame that `enterAction` sets up. -/
theorem enabled_eq (iota : Option Nat) (instance_ : Nat)
    (precondition : Phase σ (Layout.ofAction iota 0) Bool) (exec : Executor σ) :
    enabled iota instance_ precondition exec =
      let entered := exec.onStack fun stack => stack.enterAction iota instance_ 0
      let (retval, ran) :=
        { entered with currentInfo := entered.receiver (Layout.ofAction iota 0) }.perform precondition
      let ran := { ran with currentInfo := exec.currentInfo }
      (retval, ran.onStack fun stack => stack.teardown.pop.2.pop.2.popAll iota.toList) :=
  rfl

/-- The action runs in the frame that `enterAction` sets up. -/
theorem executeNoCheck_eq (depth : Nat) (iota : Option Nat) (instance_ : Nat) {locals : Nat}
    (action : Transition code (Layout.ofAction iota locals)) (exec : Executor σ) :
    executeNoCheck depth iota instance_ action exec =
      let entered :=
        { exec.onStack fun stack => stack.enterAction iota instance_ locals with
          mutablePhaseBasePointer := 0 }
      let ran := action.call entered
      let finished :=
        if ran.mutablePhaseBasePointer = 0 then
          .ok (ran.onStack Stack.teardown)
        else
          processDeferred code depth
            (ran.onStack fun stack => { stack with basePointer := ran.mutablePhaseBasePointer })
      finished >>= fun exec =>
        pure (exec.onStack fun stack => stack.pop.2.pop.2.popAll iota.toList) := by
  rw [executeNoCheck, execute]
  rfl

/-! ## All paths -/

variable {shared : Nat → Prop}

/-- Caller and callee agree on a call on every path.  The calls return with the
results on top of the stack as it was; a push port call leaves its arguments and
the frames of the reactions, which are there until the transaction is over. -/
structure CallingConvention (shared : Nat → Prop) (code : Nat → Body σ) : Prop where
  function :
    ∀ {parameters returns : List DataType} (callee : Callee σ shared parameters returns)
      (arguments : Operands σ shared parameters) (exec : Executor σ),
      Clear shared exec → Fits parameters returns exec →
        Agree callee (enterFunction callee arguments exec).1 exec
          (enterFunction callee arguments exec).2 (functionCall callee arguments exec)
  /-- methods, initializers and getters -/
  method :
    ∀ {receiver : DataType} {types returns : List DataType}
      (callee : Callee σ shared (receiver :: types) returns)
      (receiverOperand : Operand σ shared (wordsOf receiver)) (arguments : Operands σ shared types)
      (exec : Executor σ),
      Clear shared exec → Fits (receiver :: types) returns exec →
        Agree callee (enterMethod callee receiverOperand arguments exec).1 exec
          (enterMethod callee receiverOperand arguments exec).2
          (methodCall callee receiverOperand arguments exec)
  /-- the initializer of a top-level instance, whose results are dropped -/
  topLevelInitializer :
    ∀ {receiver : DataType} {types returns : List DataType}
      (callee : Callee σ shared (receiver :: types) returns)
      (receiverOperand : Operand σ shared (wordsOf receiver)) (arguments : Operands σ shared types)
      (exec : Executor σ),
      Clear shared exec → Fits (receiver :: types) returns exec →
        (initializeInstance callee receiverOperand arguments exec).top = exec.top ∧
          Kept shared exec (initializeInstance callee receiverOperand arguments exec)
  pullPort :
    ∀ {types returns : List DataType} (getters : Nat → BoundGetter σ shared types returns)
      (func : Operand σ shared 2) (arguments : Operands σ shared types) (exec : Executor σ),
      Clear shared exec →
      let (instance_, address, popped) := popPullPort func exec
      let entered := enterPullPort (getters address) instance_ arguments popped
      Fits (.pointer (getters address).component :: types) returns exec →
        Agree (getters address).callee entered.1 exec entered.2 (pullPortCall getters func arguments exec)
  pushPort :
    ∀ {layout : Layout} {types : List DataType} (arrayOffset : Phase σ layout Nat)
      (arguments : Phase σ layout (List.Vector Nat (wordsOfAll types))) (portOffset : Nat)
      (ports : Nat → Port code (wordsOfAll types)) (exec : Executor σ) (values : List (List Nat)),
      exec.basePointer + wordSize + layout.locals ≤ exec.top →
      let pushed := enterPushPort arrayOffset arguments exec
      values.map List.length = types.map wordsOf → values.flatten = pushed.words.toList →
        (ports (pushed.exec.receiver layout + portOffset + pushed.offset)).Agrees types values
            exec.top pushed.exec.basePointer pushed.exec ∧
          Leaves (layout.Own exec.basePointer) exec
            ((PortCalls.cons arrayOffset arguments portOffset ports .nil).execute exec)
  precondition :
    ∀ {component : DataType} {dimension : Option Nat} {body : Block DataType} {frame : StackFrame}
      (iota : Option Nat) (instance_ : Nat) (precondition : Phase σ (Layout.ofAction iota 0) Bool)
      (exec : Executor σ),
      allocateStackVariables (actionCallable component dimension) body = some frame →
      iota.isSome = dimension.isSome →
      (exec.toStack.enterAction iota instance_ 0).basePointer < 2 ^ 64 →
        EntersFrame frame 0 (leadingValues iota instance_) exec.toStack
            (exec.toStack.enterAction iota instance_ 0) ∧
          SameStack exec (enabled iota instance_ precondition exec).2
  action :
    ∀ {component : DataType} {dimension : Option Nat} {body : Block DataType} {frame : StackFrame}
      (iota : Option Nat) (instance_ : Nat)
      (action : Transition code
        (Layout.ofAction iota frame.memoryModel.localsSizeOnStack.toNat)) (exec : Executor σ),
      Reached code exec →
      allocateStackVariables (actionCallable component dimension) body = some frame →
      iota.isSome = dimension.isSome →
      let entered := exec.toStack.enterAction iota instance_ frame.memoryModel.localsSizeOnStack.toNat
      entered.basePointer < 2 ^ 64 →
        EntersFrame frame frame.memoryModel.localsSizeOnStack.toNat (leadingValues iota instance_)
            exec.toStack entered ∧
          ∃ after,
            Outcome.Returns (fun depth => executeNoCheck depth iota instance_ action exec) after ∧
              SameStack exec after

theorem pullPortCall_agree {types returns : List DataType}
    (getters : Nat → BoundGetter σ shared types returns) (func : Operand σ shared 2)
    (arguments : Operands σ shared types) (exec : Executor σ) (isClear : Clear shared exec)
    (fits : Fits (.pointer (getters (popPullPort func exec).2.1).component :: types) returns exec) :
    Agree (getters (popPullPort func exec).2.1).callee
      (enterPullPort (getters (popPullPort func exec).2.1) (popPullPort func exec).1 arguments
        (popPullPort func exec).2.2).1 exec
      (enterPullPort (getters (popPullPort func exec).2.1) (popPullPort func exec).1 arguments
        (popPullPort func exec).2.2).2 (pullPortCall getters func arguments exec) := by
  rcases popPullPort_kept func exec with ⟨kept, sameTop⟩
  have entered :=
    enterMethod_entered (getters (popPullPort func exec).2.1).callee
      (Operand.pointer (getters (popPullPort func exec).2.1).component (popPullPort func exec).1)
      arguments (popPullPort func exec).2.2 (kept.clear isClear)
  exact (entered.of_kept kept sameTop).agree isClear fits

theorem initializeInstance_kept {receiver : DataType} {types returns : List DataType}
    (callee : Callee σ shared (receiver :: types) returns)
    (receiverOperand : Operand σ shared (wordsOf receiver)) (arguments : Operands σ shared types)
    (exec : Executor σ) (isClear : Clear shared exec)
    (fits : Fits (receiver :: types) returns exec) :
    (initializeInstance callee receiverOperand arguments exec).top = exec.top ∧
      Kept shared exec (initializeInstance callee receiverOperand arguments exec) := by
  have agree := (enterMethod_entered callee receiverOperand arguments exec isClear).agree isClear fits
  have isTop : (initializeInstance callee receiverOperand arguments exec).top = exec.top := by
    have height : (methodCall callee receiverOperand arguments exec).top - _ = _ :=
      congrArg (· - wordSize * wordsOfAll returns) agree.top
    exact height.trans (Nat.add_sub_cancel _ _)
  exact ⟨isTop, agree.basePointer, Nat.le_of_eq isTop.symm, agree.memory⟩

/-- On every path a callee finds the arguments, the receiver and the iota in its
slots and its results in theirs. -/
theorem callingConvention (shared : Nat → Prop) (code : Nat → Body σ) :
    CallingConvention shared code where
  function := fun callee arguments exec isClear fits =>
    (enterFunction_entered callee arguments exec isClear).agree isClear fits
  method := fun callee receiverOperand arguments exec isClear fits =>
    (enterMethod_entered callee receiverOperand arguments exec isClear).agree isClear fits
  topLevelInitializer := initializeInstance_kept
  pullPort := pullPortCall_agree
  pushPort := by
    intro layout types arrayOffset arguments portOffset ports exec values room pushed lengths isFlat
    have spec := enterPushPort_spec arrayOffset arguments exec
    have holds := spec.holds
    rw [← isFlat] at holds
    constructor
    · exact Port.agrees values lengths _ exec.top _ rfl holds.holdsFrom (Nat.le_of_eq spec.top.symm)
    · exact pushPortCall_leaves arrayOffset arguments portOffset ports exec room
  precondition := fun iota instance_ precondition exec allocated isIota fits =>
    ⟨entersFrame_action allocated isIota fits, enabled_spec iota instance_ precondition exec⟩
  action := by
    intro component dimension body frame iota instance_ action exec reached allocated isIota entered fits
    rcases executeNoCheck_spec iota instance_ action exec reached.idle with
      ⟨after, _, _, _, returns, isTransaction⟩
    exact ⟨entersFrame_action allocated isIota fits, after, returns, isTransaction.stack⟩

def constant {layout : Layout} {α : Type} (value : α) : Phase Unit layout α where
  run := fun _ memory components => (value, memory, components)
  writes := fun _ _ _ _ _ _ => rfl

/-- The body of an action without a dimension, at address 1, and that of a
reaction without parameters, at any other address. -/
def oneReactionCode (operation : Nat) : Body Unit :=
  if operation = 1 then
    ⟨Layout.ofAction none 0, constant ()⟩
  else
    ⟨Layout.ofReaction none 0 0, constant ()⟩

/-- `func zero (x int) int`: the room of the result is all zeros. -/
def zeroFunction : Callee Unit (fun _ => False) [.basic .int] [.basic .int] where
  callable := .function [Parameter.make (.basic .int)] [Parameter.makeReturn (.basic .int)]
  signature := ⟨rfl, rfl⟩
  body := .list .nil
  frame := ((allocateStackVariables
    (.function [Parameter.make (.basic .int)] [Parameter.makeReturn (.basic .int)])
      (.list .nil)).get (by rfl))
  allocated := (Option.some_get _).symm
  run := fun view memory components => (memory, view.top, components)
  writes := fun _ _ _ _ _ _ _ => rfl

/-- The argument `3`. -/
def three : Operand Unit (fun _ => False) (wordsOf (.basic .int)) where
  run := fun _ memory components => (⟨[3], wordsOf_int.symm⟩, memory, components)
  writes := fun _ _ _ _ _ _ => rfl

/-- The call `zero (3)` above an empty frame. -/
theorem callingConvention_zeroFunction :
    Agree zeroFunction
      (enterFunction zeroFunction (.cons three .nil) ⟨⟨fun _ => 0, 4096, 4104⟩, 4096, 0, (), []⟩).1
      ⟨⟨fun _ => 0, 4096, 4104⟩, 4096, 0, (), []⟩
      (enterFunction zeroFunction (.cons three .nil) ⟨⟨fun _ => 0, 4096, 4104⟩, 4096, 0, (), []⟩).2
      (functionCall zeroFunction (.cons three .nil) ⟨⟨fun _ => 0, 4096, 4104⟩, 4096, 0, (), []⟩) :=
  (callingConvention (fun _ => False) oneReactionCode).function zeroFunction (.cons three .nil) _
    (fun _ isShared => isShared.elim) (by simp [Fits, wordsOf_int, wordSize])

def onePortCall : PortCalls oneReactionCode (Layout.ofAction none 0) :=
  .cons (constant 0) (constant List.Vector.nil) 0
    (fun _ => .cons none 7 0 (.mk (constant (some 0)) fun _ => .mk .nil 3 rfl) .null) .nil

/-- A push port call with one reaction does not return with the stack as it was. -/
theorem pushPortCall_not_sameStack :
    ¬SameStack (⟨⟨fun _ => 0, 4096, 4104⟩, 4096, 0, (), []⟩ : Executor Unit)
      (onePortCall.execute ⟨⟨fun _ => 0, 4096, 4104⟩, 4096, 0, (), []⟩) := by
  intro same
  exact absurd same.top (by decide)

end Rcgo.Transaction
