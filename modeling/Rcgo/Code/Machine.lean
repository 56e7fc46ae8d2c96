import Rcgo.Code.Layout
import Rcgo.Foundation.StackEffect
import Mathlib.Algebra.Group.Nat.Defs

/-!
# The machine of the generated code

`stack.cpp` over a memory of bytes.  The saved base pointers are kept beside the
memory: no store of a program is meant to reach them.  Every pop is watched: one
that would go below the end of the locals of the running frame ends the run, so
that a run shows whether it took anything but its own operands.
-/

namespace Rcgo.Code

open Rcgo.Foundation

abbrev Memory := Nat → UInt8

/-- The number in `size` bytes from an address on, the low byte first. -/
def Memory.read (memory : Memory) (address : Nat) : Nat → Nat
  | 0 => 0
  | size + 1 => (memory address).toNat + 256 * memory.read (address + 1) size

def Memory.write (memory : Memory) (address size value : Nat) : Memory := fun a =>
  if address ≤ a ∧ a < address + size then UInt8.ofNat (value / 256 ^ (a - address)) else memory a

/-- `memcpy`. -/
def Memory.copy (memory : Memory) (target source size : Nat) : Memory := fun a =>
  if target ≤ a ∧ a < target + size then memory (source + (a - target)) else memory a

/-- What ends the program, or the run when a pop goes too far. -/
inductive Fault where
  | stopped
  | underflow
  deriving DecidableEq, Repr

/-- A frame: its base pointer, the end of its locals, and the same of its callers. -/
structure Frame where
  basePointer : Nat
  floor : Nat
  callers : List (Nat × Nat)
  deriving DecidableEq, Repr

/-- The state of an executor and of everything its operations reach. -/
structure Machine (World : Type) where
  memory : Memory
  top : Nat
  frame : Frame
  world : World

abbrev Run (World α : Type) := Program (Machine World) Fault α

/-- `Control`. -/
inductive Control where
  | controlContinue
  | controlReturn
  deriving DecidableEq, Repr

def Fault.Clean (fault : Fault) : Prop :=
  fault ≠ .underflow

def stackView (World : Type) : StackView (Machine World) Frame where
  top := Machine.top
  frame := Machine.frame
  floor := Frame.floor

/-- The program has the effect on the heights and never takes what is not its own. -/
abbrev Effect {World α : Type} (popped pushed : Nat) (property : α → Prop)
    (run : Run World α) : Prop :=
  Transfers (stackView World) Fault.Clean popped pushed property run

/-- `sizeof (void*)`. -/
def wordBytes : Nat := 8

namespace Machine

variable {World : Type}

def stop {α : Type} : Run World α := fun _ => .error .stopped

/-- `base_pointer_ + offset`. -/
def address (machine : Machine World) (offset : Int) : Nat :=
  (machine.frame.basePointer + offset).toNat

/-- `Stack::push` of an object with `size` bytes. -/
def push (size value : Nat) : Run World Unit := fun machine =>
  .ok ((), { machine with
    memory := machine.memory.write machine.top size value
    top := machine.top + aligned size })

/-- `Stack::popn`: the address of what was on top. -/
def popn (size : Nat) : Run World Nat := fun machine =>
  if machine.frame.floor + aligned size ≤ machine.top then
    .ok (machine.top - aligned size, { machine with top := machine.top - aligned size })
  else .error .underflow

def read (address size : Nat) : Run World Nat := fun machine =>
  .ok (machine.memory.read address size, machine)

def changeMemory (change : Machine World → Memory) : Run World Unit := fun machine =>
  .ok ((), { machine with memory := change machine })

/-- `Stack::pop` of an object with `size` bytes. -/
def pop (size : Nat) : Run World Nat := do
  let address ← popn size
  read address size

/-- `Stack::push_pointer`. -/
def pushPointer (pointer : Nat) : Run World Unit :=
  push wordBytes pointer

/-- `Stack::pop_pointer`. -/
def popPointer : Run World Nat :=
  pop wordBytes

/-- `Stack::push_address`. -/
def pushAddress (offset : Int) : Run World Unit := fun machine =>
  pushPointer (machine.address offset) machine

/-- `Stack::get_address`. -/
def getAddress (offset : Int) : Run World Nat := fun machine =>
  .ok (machine.address offset, machine)

/-- `Stack::reserve`. -/
def reserve (size : Nat) : Run World Unit := fun machine =>
  .ok ((), { machine with
    memory := machine.memory.write machine.top size 0
    top := machine.top + aligned size })

/-- `Stack::load`. -/
def load (pointer size : Nat) : Run World Unit := fun machine =>
  .ok ((), { machine with
    memory := machine.memory.copy machine.top pointer size
    top := machine.top + aligned size })

/-- `Stack::store`. -/
def store (pointer size : Nat) : Run World Unit := do
  let address ← popn size
  changeMemory fun machine => machine.memory.copy pointer address size

/-- `Stack::move`. -/
def move (offset : Int) (size : Nat) : Run World Unit := do
  let address ← popn size
  changeMemory fun machine => machine.memory.copy (machine.address offset) address size

/-- `Stack::clear`. -/
def clear (offset : Int) (size : Nat) : Run World Unit :=
  changeMemory fun machine => machine.memory.write (machine.address offset) (aligned size) 0

/-- `Stack::read_pointer`. -/
def readPointer (offset : Int) : Run World Nat := do
  let address ← getAddress offset
  read address wordBytes

/-- `Stack::setup`: the frame of a callee, above the saved base pointer. -/
def setup (size : Nat) : Run World Unit := fun machine =>
  .ok ((), { machine with
    memory := machine.memory.write machine.top wordBytes machine.frame.basePointer
      |>.write (machine.top + wordBytes) size 0
    top := machine.top + wordBytes + aligned size
    frame :=
      { basePointer := machine.top
        floor := machine.top + wordBytes + aligned size
        callers := (machine.frame.basePointer, machine.frame.floor) :: machine.frame.callers } })

/-- `Stack::teardown`: back to the frame of the caller. -/
def teardown : Run World Unit := fun machine =>
  match machine.frame.callers with
  | [] => .error .stopped
  | (basePointer, floor) :: callers =>
      .ok ((), { machine with
        top := machine.frame.basePointer
        frame := { basePointer, floor, callers } })

section Effects

/-! The part of the stack below the operands comes first in these rules: a push
leads from `rest` to the pushed size on top of `rest`. -/

theorem effect_stop {α : Type} {popped pushed : Nat} {property : α → Prop} :
    Effect popped pushed property (stop : Run World α) :=
  Transfers.stop (fun impossible => Fault.noConfusion impossible)

theorem effect_push (rest size value : Nat) :
    Effect rest (aligned size + rest) (fun _ => True) (push size value : Run World Unit) := by
  intro machine base _ isTop
  have isTop : machine.top = base + rest := isTop
  refine ⟨trivial, ?_, rfl⟩
  change machine.top + aligned size = base + (aligned size + rest)
  omega

theorem effect_reserve (rest size : Nat) :
    Effect rest (aligned size + rest) (fun _ => True) (reserve size : Run World Unit) :=
  effect_push rest size 0

theorem effect_load (rest pointer size : Nat) :
    Effect rest (aligned size + rest) (fun _ => True) (load pointer size : Run World Unit) := by
  intro machine base _ isTop
  have isTop : machine.top = base + rest := isTop
  refine ⟨trivial, ?_, rfl⟩
  change machine.top + aligned size = base + (aligned size + rest)
  omega

theorem effect_popn (rest size : Nat) :
    Effect (aligned size + rest) rest (fun _ => True) (popn size : Run World Nat) := by
  intro machine base above isTop
  have isTop : machine.top = base + (aligned size + rest) := isTop
  have above : machine.frame.floor ≤ base := above
  have isPop :
      popn size machine =
        .ok (machine.top - aligned size, { machine with top := machine.top - aligned size }) :=
    if_pos (by omega)
  rw [isPop]
  refine ⟨trivial, ?_, rfl⟩
  change machine.top - aligned size = base + rest
  omega

theorem popn_of_room {size : Nat} {machine : Machine World}
    (room : machine.frame.floor + aligned size ≤ machine.top) :
    popn size machine =
      .ok (machine.top - aligned size, { machine with top := machine.top - aligned size }) :=
  if_pos room

theorem top_of_popn {size : Nat} {machine : Machine World} {result : Nat × Machine World}
    (ends : popn size machine = .ok result) : result.2.top + aligned size = machine.top := by
  unfold popn at ends
  split at ends
  case isTrue room =>
    rw [← Outcome.ok.inj ends]
    change machine.top - aligned size + aligned size = machine.top
    omega
  case isFalse => cases ends

theorem effect_read (rest address size : Nat) :
    Effect rest rest (fun _ => True) (read address size : Run World Nat) :=
  Transfers.of_step (fun _ => trivial) (fun _ => rfl) (fun _ => rfl)

theorem effect_changeMemory (rest : Nat) (change : Machine World → Memory) :
    Effect rest rest (fun _ => True) (changeMemory change) :=
  Transfers.of_step (fun _ => trivial) (fun _ => rfl) (fun _ => rfl)

theorem effect_getAddress (rest : Nat) (offset : Int) :
    Effect rest rest (fun _ => True) (getAddress offset : Run World Nat) :=
  Transfers.of_step (fun _ => trivial) (fun _ => rfl) (fun _ => rfl)

theorem effect_pop (rest size : Nat) :
    Effect (aligned size + rest) rest (fun _ => True) (pop size : Run World Nat) :=
  (effect_popn rest size).bind fun address _ => effect_read rest address size

theorem effect_pushPointer (rest pointer : Nat) :
    Effect rest (wordBytes + rest) (fun _ => True) (pushPointer pointer : Run World Unit) :=
  effect_push rest wordBytes pointer

theorem effect_popPointer (rest : Nat) :
    Effect (wordBytes + rest) rest (fun _ => True) (popPointer : Run World Nat) :=
  effect_pop rest wordBytes

theorem effect_pushAddress (rest : Nat) (offset : Int) :
    Effect rest (wordBytes + rest) (fun _ => True) (pushAddress offset : Run World Unit) :=
  fun machine base above isTop =>
    effect_pushPointer rest (machine.address offset) machine base above isTop

theorem effect_store (rest pointer size : Nat) :
    Effect (aligned size + rest) rest (fun _ => True) (store pointer size : Run World Unit) :=
  (effect_popn rest size).bind fun _ _ => effect_changeMemory rest _

theorem effect_move (rest : Nat) (offset : Int) (size : Nat) :
    Effect (aligned size + rest) rest (fun _ => True) (move offset size : Run World Unit) :=
  (effect_popn rest size).bind fun _ _ => effect_changeMemory rest _

theorem effect_clear (rest : Nat) (offset : Int) (size : Nat) :
    Effect rest rest (fun _ => True) (clear offset size : Run World Unit) :=
  effect_changeMemory rest _

theorem effect_readPointer (rest : Nat) (offset : Int) :
    Effect rest rest (fun _ => True) (readPointer offset : Run World Nat) :=
  (effect_getAddress rest offset).bind fun address _ => effect_read rest address wordBytes

/-- The computation leaves the frame in which it runs and takes only what the
frame has pushed; the height at its end is not fixed. -/
def StaysInFrame (body : Run World Unit) : Prop :=
  ∀ machine, machine.frame.floor ≤ machine.top →
    (body machine).Meets Fault.Clean fun result => result.2.frame = machine.frame

theorem effect_call {body : Run World Unit} (stays : StaysInFrame body) (rest size : Nat) :
    Effect rest rest (fun _ => True) (do setup size; body; teardown) := by
  intro machine base above isTop
  have entered :
      setup size machine =
        .ok ((), { machine with
          memory := machine.memory.write machine.top wordBytes machine.frame.basePointer
            |>.write (machine.top + wordBytes) size 0
          top := machine.top + wordBytes + aligned size
          frame :=
            { basePointer := machine.top
              floor := machine.top + wordBytes + aligned size
              callers :=
                (machine.frame.basePointer, machine.frame.floor) :: machine.frame.callers } }) :=
    rfl
  change Outcome.Meets _ _ (setup size machine >>= fun entered =>
    body entered.2 >>= fun left => teardown left.2)
  rw [entered, Outcome.ok_bind]
  apply (stays _ (Nat.le_refl _)).bind
  intro left sameFrame
  rw [teardown, sameFrame]
  exact ⟨trivial, isTop, rfl⟩

end Effects

end Machine

end Rcgo.Code
