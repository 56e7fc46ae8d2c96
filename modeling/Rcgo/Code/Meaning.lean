import Rcgo.Code.Execution
import Rcgo.Code.ExpressionMeaning

/-!
# The meaning of statements

What a statement means in the source language: what it reads and writes, in
which order, and whether it returns.
-/

namespace Rcgo.Code

open Rcgo.Foundation Machine

variable {World : Type}

namespace Expression

variable (context : Context World) (declarations : Declarations)

def place (expression : Expression) : Run World Nat := do
  expression.evaluate context declarations
  popPointer

/-- The value of an expression, an object with `size` bytes. -/
def value (expression : Expression) (size : Nat) : Run World Nat := do
  expression.valued (expression.evaluate context declarations)
  pop size

/-- The truth of a condition. -/
def truth (condition : Expression) : Run World Bool :=
  match condition.constant with
  | some b => pure b
  | none => do
      let word ← condition.value context declarations 1
      pure (word % 256 != 0)

/-- The expression is evaluated for its effect, its result is forgotten. -/
def effect (expression : Expression) : Run World Unit := fun machine => do
  let (_, after) ← expression.evaluate context declarations machine
  pure ((), { after with top := machine.top })

end Expression

section Writes

variable (context : Context World) (declarations : Declarations)

/-- A place is given the value of an expression. -/
def assignTo (place : Run World Nat) (type : Option DataType) (right : Expression) :
    Run World Unit := do
  let address ← place
  let size ← orStop (type.bind DataType.size)
  let word ← right.value context declarations size
  write address size word

/-- A place is given the sum of its value and the value of an expression. -/
def addTo (place : Run World Nat) (type : Option DataType) (right : Expression) :
    Run World Unit := do
  let kind ← orStop (type.map DataType.underlyingKind)
  let size ← orStop kind.size
  let address ← place
  let word ← right.value context declarations size
  let old ← read address size
  let sum ← orStop ((kind.cType.bind fun type =>
    Cxx.apply context.runtime.floating type .plus (.bits old) (.bits word)).bind Value.word)
  write address size sum

/-- The value of a place is made one greater or one less. -/
def stepBy (place : Run World Nat) (type : Option DataType) (up : Bool) : Run World Unit := do
  let address ← place
  let kind ← orStop (type.map DataType.underlyingKind)
  let size ← orStop kind.size
  let old ← read address size
  let next ← orStop (stepKind context.runtime kind up old)
  write address size next

/-- Variables without initializers are cleared. -/
def clearAll : List Variable → Run World Unit
  | [] => pure ()
  | symbol :: rest => do
      let size ← orStop symbol.type.size
      clear symbol.offset size
      clearAll rest

/-- Variables are given the values of their initializers, one after the other. -/
def initializeAll : List (Variable × Expression) → Run World Unit
  | [] => pure ()
  | (symbol, expression) :: rest => do
      let variablePlace := (Expression.identifier symbol.offset symbol.type).place context declarations
      assignTo context declarations variablePlace (some symbol.type) expression
      initializeAll rest

/-- The body is run for one item after the other, until it returns. -/
def forEach {α : Type} (body : α → Run World Control) : List α → Run World Control
  | [] => pure .controlContinue
  | item :: rest => do
      let control ← body item
      if control = .controlReturn then pure control else forEach body rest

end Writes

mutual

/-- The meaning of a statement.  It ends normally or it returns. -/
def Statement.meaning (context : Context World) (declarations : Declarations) :
    Statement → Run World Control
  | .empty => pure .controlContinue
  | .constDecl => pure .controlContinue
  | .list statements => statements.meaning context declarations
  | .expression child => do
      child.effect context declarations
      pure .controlContinue
  | .returnStatement child returnSymbol => do
      let size ← orStop returnSymbol.type.size
      let word ← child.value context declarations size
      let address ← getAddress returnSymbol.offset
      write address size word
      pure .controlReturn
  | .ifStatement before condition trueBody falseBody => do
      let control ← before.meaning context declarations
      if control = .controlReturn then pure control
      else do
        let c ← condition.truth context declarations
        if c then trueBody.meaning context declarations
        else falseBody.meaning context declarations
  | .whileStatement condition body =>
      repeatUntil context.fuel do
        let word ← condition.value context declarations 1
        if word % 256 != 0 then do
          let control ← body.meaning context declarations
          if control = .controlReturn then pure (some control) else pure none
        else pure (some .controlContinue)
  | .forIota symbol limit body =>
      forEach (fun idx => do
        let address ← getAddress symbol.offset
        write address wordBytes idx
        body.meaning context declarations) (List.range limit)
  | .var symbols expressions => do
      if expressions.isEmpty then clearAll symbols
      else initializeAll context declarations (symbols.zip expressions)
      pure .controlContinue
  | .assign left right => do
      assignTo context declarations (left.place context declarations) left.type right
      pure .controlContinue
  | .addAssign left right => do
      addTo context declarations (left.place context declarations) left.type right
      pure .controlContinue
  | .increment child => do
      stepBy context (child.place context declarations) child.type true
      pure .controlContinue
  | .decrement child => do
      stepBy context (child.place context declarations) child.type false
      pure .controlContinue
  | .change argument rootSymbol body => do
      let link ← argument.value context declarations wordBytes
      let (old, rootPointer) ← useOrStop (context.runtime.enterChange link)
      let address ← getAddress rootSymbol.offset
      write address wordBytes rootPointer
      let control ← body.meaning context declarations
      use (context.runtime.leaveChange link old)
      pure control

/-- The meaning of a block: its statements one after the other, until one returns. -/
def Statements.meaning (context : Context World) (declarations : Declarations) :
    Statements → Run World Control
  | .nil => pure .controlContinue
  | .cons statement rest => do
      let control ← statement.meaning context declarations
      if control = .controlReturn then pure control else rest.meaning context declarations

end

mutual

/-- The statement without the init statements of its `if` statements. -/
def Statement.withoutInit : Statement → Statement
  | .list statements => .list statements.withoutInit
  | .ifStatement _ condition trueBody falseBody =>
      .ifStatement .empty condition trueBody.withoutInit falseBody.withoutInit
  | .whileStatement condition body => .whileStatement condition body.withoutInit
  | .forIota symbol limit body => .forIota symbol limit body.withoutInit
  | .change argument rootSymbol body => .change argument rootSymbol body.withoutInit
  | .empty => .empty
  | .constDecl => .constDecl
  | .expression child => .expression child
  | .returnStatement child returnSymbol => .returnStatement child returnSymbol
  | .var symbols expressions => .var symbols expressions
  | .assign left right => .assign left right
  | .addAssign left right => .addAssign left right
  | .increment child => .increment child
  | .decrement child => .decrement child

/-- The statements without the init statements of their `if` statements. -/
def Statements.withoutInit : Statements → Statements
  | .nil => .nil
  | .cons statement rest => .cons statement.withoutInit rest.withoutInit

end

/-- The body without the init statements of its `if` statements. -/
def Body.withoutInit : Body World → Body World
  | .block body => .block body.withoutInit
  | .builtin effect => .builtin effect

/-- The program without the init statements of its `if` statements. -/
def SourceProgram.withoutInit (program : SourceProgram World) : SourceProgram World :=
  { program with body := fun callable => (program.body callable).withoutInit }

/-- The body of an initializer or a getter runs with the component of its
receiver as the current one. -/
def withInstance (runtime : Runtime World) (receiverOffset : Option Int)
    (body : Run World Control) : Run World Control :=
  match receiverOffset with
  | none => body
  | some offset => do
      let component ← readPointer offset
      let old ← use (runtime.enterInstance component)
      let control ← body
      use (runtime.leaveInstance old)
      pure control

namespace SourceProgram

/-- The meaning of a call, with calls nested at most as deeply as the fuel says. -/
def call (program : SourceProgram World) (runtime : Runtime World) : Nat → Nat → Run World Unit
  | 0, _ => fun _ => .outOfFuel
  | fuel + 1, callable =>
      match program.body callable with
      | .builtin effect => runBuiltin effect
      | .block body => do
          let _ ← withInstance runtime (program.receiverOffset callable)
            (body.meaning (program.context runtime (program.call runtime fuel) fuel)
              program.declarations)
          pure ()

def meaning (program : SourceProgram World) (runtime : Runtime World) (fuel : Nat)
    (statement : Statement) : Run World Control :=
  statement.meaning (program.context runtime (program.call runtime fuel) fuel) program.declarations

end SourceProgram

end Rcgo.Code
