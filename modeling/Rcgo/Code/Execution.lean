import Rcgo.Code.Generation

/-!
# Programs

The callables of a program, the code generated for their bodies, and the run of
an operation with calls to them.
-/

namespace Rcgo.Code

open Rcgo.Foundation Machine

variable {World : Type}

/-- The body of a callable: a block, or a function of the runtime that works on
the parameters and the result of its frame. -/
inductive Body (World : Type) where
  | block (body : Statement)
  | builtin (effect : Frame → Memory → World → Unit × Memory × World)

/-- The getters that a pull port can be bound to have its parameters and its
result, and their receivers are pointers. -/
def Declarations.GettersFit (declarations : Declarations) (getter : Nat → Nat → Option Nat) :
    Prop :=
  ∀ port pointer callable, getter port pointer = some callable →
    (declarations.signature callable).parameters = (declarations.port port).parameters ∧
      (declarations.signature callable).result = (declarations.port port).result ∧
        ∃ receiver, (declarations.signature callable).receiver = some receiver ∧
          receiver.underlyingKind = .pointer

/-- A program whose declarations have been checked. -/
structure SourceProgram (World : Type) where
  declarations : Declarations
  body : Nat → Body World
  receiverOffset : Nat → Option Int
  getter : Nat → Nat → Option Nat
  getter_fits : declarations.GettersFit getter

/-- The operation of the body of a callable.  Those of initializers and getters
run with the component of their receiver as the current one. -/
def wrap (receiverOffset : Option Int) (operation : Operation) : Operation :=
  match receiverOffset with
  | some offset => .setRestoreCurrentInstance operation offset
  | none => operation

/-- The code generator has been run on the bodies of a program. -/
structure CompiledProgram (World : Type) where
  source : SourceProgram World
  code : Nat → Operation
  generated :
    ∀ callable body, source.body callable = .block body →
      body.generate source.declarations = some (code callable)

/-- A builtin works on the memory and the world only. -/
def runBuiltin (effect : Frame → Memory → World → Unit × Memory × World) : Run World Unit :=
  fun machine => use (effect machine.frame) machine

/-- The context of a run, by how callables are called. -/
def SourceProgram.context (program : SourceProgram World) (runtime : Runtime World)
    (call : Nat → Run World Unit) (fuel : Nat) : Context World :=
  { runtime, signature := program.declarations.signature, getter := program.getter, call, fuel }

/-- `callable->call (exec)`, with calls nested at most as deeply as the fuel says. -/
def CompiledProgram.call (program : CompiledProgram World) (runtime : Runtime World) :
    Nat → Nat → Run World Unit
  | 0, _ => fun _ => .outOfFuel
  | fuel + 1, callable =>
      match program.source.body callable with
      | .builtin effect => runBuiltin effect
      | .block _ => do
          let _ ← execute (program.source.context runtime (program.call runtime fuel) fuel)
            (wrap (program.source.receiverOffset callable) (program.code callable))
          pure ()

def CompiledProgram.execute (program : CompiledProgram World) (runtime : Runtime World)
    (fuel : Nat) (operation : Operation) : Run World Control :=
  Code.execute (program.source.context runtime (program.call runtime fuel) fuel) operation

end Rcgo.Code
