import Rcgo.Transaction.Activation
import Rcgo.Transaction.ParameterSlots

/-!
# Calls

`FunctionCall::execute`, `MethodCall::execute` and `DynamicPullPortCall::execute`:
the caller reserves the room of the result, pushes the arguments and sets up the
frame of the callee, and removes both behind the call.
-/

namespace Rcgo.Transaction

open Rcgo.Code

/-- `Stack::popn`. -/
def Stack.popn (stack : Stack) (size : Nat) : Stack :=
  { stack with top := stack.top - size }

variable {σ : Type} {shared : Nat → Prop} {parameters returns types : List DataType}
  {receiver : DataType}

/-- Generated code that computes an operand of `count` words.  Of what lies on
the stack it changes the `shared` addresses at most: those of the variables in
the frames below. -/
structure Operand (σ : Type) (shared : Nat → Prop) (count : Nat) where
  run : View → Memory → σ → List.Vector Nat count × Memory × σ
  writes :
    ∀ view memory components a, a < view.top → ¬shared a →
      (run view memory components).2.1 a = memory a

/-- The operation of an operand leaves its words on the stack. -/
def Operand.execute {count : Nat} (operand : Operand σ shared count) (exec : Executor σ) :
    List Nat × Executor σ :=
  let (words, memory, components) :=
    operand.run ⟨exec.basePointer, exec.top, exec.currentInfo⟩ exec.memory exec.components
  let exec := { exec with toStack := { exec.toStack with memory := memory }, components := components }
  (words.toList, exec.onStack fun stack => stack.pushAll words.toList)

/-- The arguments of a call, converted to the types of the parameters. -/
inductive Operands (σ : Type) (shared : Nat → Prop) : List DataType → Type
  | nil : Operands σ shared []
  | cons {type : DataType} {types : List DataType} (operand : Operand σ shared (wordsOf type))
      (rest : Operands σ shared types) : Operands σ shared (type :: types)

/-- `arguments->execute`, with the values that have been pushed. -/
def Operands.execute : {types : List DataType} → Operands σ shared types → Executor σ →
    List (List Nat) × Executor σ
  | _, .nil, exec => ([], exec)
  | _, .cons operand rest, exec =>
      let (words, exec) := operand.execute exec
      let (values, exec) := rest.execute exec
      (words :: values, exec)

/-- The callables with these parameters, the receiver included, and results. -/
def HasSignature (parameters returns : List DataType) : Callable → Prop
  | .function others results =>
      others = parameters.map Parameter.make ∧ results = returns.map Parameter.makeReturn
  | .method others results | .initializer others results | .getter others results =>
      ∃ receiver types, parameters = receiver :: types ∧
        others = Parameter.makeReceiver receiver :: types.map Parameter.make ∧
          results = returns.map Parameter.makeReturn
  | _ => False

def hasReceiver : Callable → Bool
  | .function _ _ => false
  | _ => true

/-- The parameters, the room of the result and the locals in a frame. -/
def OwnFrame (arguments locals basePointer address : Nat) : Prop :=
  (basePointer ≤ address + wordSize + arguments ∧ address + wordSize < basePointer) ∨
    (basePointer + wordSize ≤ address ∧ address < basePointer + wordSize + locals)

/-- What is called: a callable with its allocated frame, and its operation.  The
operation may leave the stack at any height. -/
structure Callee (σ : Type) (shared : Nat → Prop) (parameters returns : List DataType) where
  callable : Callable
  signature : HasSignature parameters returns callable
  body : Block DataType
  frame : StackFrame
  allocated : allocateStackVariables callable body = some frame
  run : View → Memory → σ → Memory × Nat × σ
  writes :
    ∀ view memory components a, a < view.top → ¬shared a →
      ¬OwnFrame (wordSize * (wordsOfAll parameters + wordsOfAll returns))
        frame.memoryModel.localsSizeOnStack.toNat view.basePointer a →
      (run view memory components).1 a = memory a

namespace Callee

/-- `memory_model.locals_size_on_stack ()`. -/
def locals (callee : Callee σ shared parameters returns) : Nat :=
  callee.frame.memoryModel.localsSizeOnStack.toNat

/-- `Callable::call`. -/
def call (callee : Callee σ shared parameters returns) (exec : Executor σ) : Executor σ :=
  let (memory, top, components) :=
    callee.run ⟨exec.basePointer, exec.top, exec.currentInfo⟩ exec.memory exec.components
  { exec with toStack := { exec.toStack with memory := memory, top := top }, components := components }

end Callee

/-- The instruction pointer and the frame of a callee. -/
def enterFrame (locals : Nat) (exec : Executor σ) : Executor σ :=
  let exec := exec.onStack fun stack => stack.push 0
  exec.onStack fun stack => stack.setup locals

/-- The part behind the call: tear down the frame, pop the instruction pointer
and the arguments. -/
def leaveCall (parameters : List DataType) (exec : Executor σ) : Executor σ :=
  let exec := exec.onStack Stack.teardown
  let exec := exec.onStack fun stack => stack.pop.2
  exec.onStack fun stack => stack.popn (wordSize * wordsOfAll parameters)

/-- `FunctionCall::execute` up to the call, with the values of the parameters. -/
def enterFunction (callee : Callee σ shared parameters returns)
    (arguments : Operands σ shared parameters) (exec : Executor σ) :
    List (List Nat) × Executor σ :=
  let exec := exec.onStack fun stack => stack.reserve (wordSize * wordsOfAll returns)
  let (values, exec) := arguments.execute exec
  (values, enterFrame callee.locals exec)

/-- `FunctionCall::execute`. -/
def functionCall (callee : Callee σ shared parameters returns)
    (arguments : Operands σ shared parameters) (exec : Executor σ) : Executor σ :=
  leaveCall parameters (callee.call (enterFunction callee arguments exec).2)

/-- `MethodCall::execute` up to the call, with the values of the parameters. -/
def enterMethod (callee : Callee σ shared (receiver :: types) returns)
    (receiverOperand : Operand σ shared (wordsOf receiver)) (arguments : Operands σ shared types)
    (exec : Executor σ) : List (List Nat) × Executor σ :=
  let exec := exec.onStack fun stack => stack.reserve (wordSize * wordsOfAll returns)
  let (words, exec) := receiverOperand.execute exec
  let (values, exec) := arguments.execute exec
  (words :: values, enterFrame callee.locals exec)

/-- `MethodCall::execute`; methods, initializers and getters are called with it. -/
def methodCall (callee : Callee σ shared (receiver :: types) returns)
    (receiverOperand : Operand σ shared (wordsOf receiver)) (arguments : Operands σ shared types)
    (exec : Executor σ) : Executor σ :=
  leaveCall (receiver :: types)
    (callee.call (enterMethod callee receiverOperand arguments exec).2)

/-- `runtime::initialize`: the initializer of a top-level instance. -/
def initializeInstance (callee : Callee σ shared (receiver :: types) returns)
    (receiverOperand : Operand σ shared (wordsOf receiver)) (arguments : Operands σ shared types)
    (exec : Executor σ) : Executor σ :=
  (methodCall callee receiverOperand arguments exec).onStack fun stack =>
    stack.popn (wordSize * wordsOfAll returns)

/-- A getter that a pull port may be bound to: its receiver is a pointer to the
component, its other parameters are those of the port. -/
structure BoundGetter (σ : Type) (shared : Nat → Prop) (types returns : List DataType) where
  component : DataType
  callee : Callee σ shared (.pointer component :: types) returns

/-- The value of a pull port: the instance and the getter. -/
def popPullPort (func : Operand σ shared 2) (exec : Executor σ) : Nat × Nat × Executor σ :=
  let (words, exec) := func.execute exec
  (words.getD 0 0, words.getD 1 0, exec.onStack fun stack => stack.popAll words)

/-- `DynamicPullPortCall::execute` up to the call, with the values of the parameters. -/
def enterPullPort (getter : BoundGetter σ shared types returns) (instance_ : Nat)
    (arguments : Operands σ shared types) (exec : Executor σ) : List (List Nat) × Executor σ :=
  let exec := exec.onStack fun stack => stack.reserve (wordSize * wordsOfAll returns)
  let exec := exec.onStack fun stack => stack.push instance_
  let (values, exec) := arguments.execute exec
  ([instance_] :: values, enterFrame getter.callee.locals exec)

/-- `DynamicPullPortCall::execute`; `getters` are the getters by their addresses. -/
def pullPortCall (getters : Nat → BoundGetter σ shared types returns) (func : Operand σ shared 2)
    (arguments : Operands σ shared types) (exec : Executor σ) : Executor σ :=
  let (instance_, address, exec) := popPullPort func exec
  let getter := getters address
  leaveCall (.pointer getter.component :: types)
    (getter.callee.call (enterPullPort getter instance_ arguments exec).2)

end Rcgo.Transaction
