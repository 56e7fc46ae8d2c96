import Rcgo.Code.ExpressionPreservation
import Rcgo.Code.MemoryWords

/-!
# Execution of binary operations

The operation generated for a binary operator pushes what the operator computes
from the objects that the operations of its operands leave.
-/

namespace Rcgo.Code

open Rcgo.Foundation Machine

variable {World : Type} {context : Context World} {left right : Operation} {kind count : Kind}
  {machine between after : Machine World} {n m x y result : Nat}

/-- Run from the machine, the operation leaves an object with `size` bytes that
hold the word; `after` is the machine without the object. -/
def Leaves (context : Context World) (operation : Operation) (size : Nat)
    (machine : Machine World) (word : Nat) (after : Machine World) : Prop :=
  (do
    let _ ← execute context operation
    pop size) machine = .ok (word, after)

theorem Leaves.bind {α : Type} {operation : Operation} (leaves : Leaves context operation n machine x after)
    (rest : Nat → Run World α) :
    (do
      let _ ← execute context operation
      let word ← pop n
      rest word) machine = rest x after := by
  rw [← bind_assoc]
  change ((do
    let _ ← execute context operation
    pop n) machine >>= fun result => rest result.1 result.2) = _
  rw [leaves]
  rfl

/-- `Binary` pushes what it computes from its operands. -/
theorem execute_over_binary (functor : Functor) (isSize : kind.size = some n)
    (leavesLeft : Leaves context left n machine x between)
    (leavesRight : Leaves context right n between y after)
    (isResult :
      (BinaryOperation.binary functor kind).compute context.runtime.floating (.bits x) (.bits y) =
        some (.bits result)) :
    execute context ((BinaryOperation.binary functor kind).over left right) machine =
      (do
        push (if functor.isPredicate then 1 else n) result
        pure .controlContinue : Run World Control) after := by
  rw [BinaryOperation.over, execute, isSize, orStop_some, pure_bind, leavesLeft.bind,
    leavesRight.bind, isResult]
  rfl

theorem pop_push (small : x < 256 ^ n) (above : after.frame.floor ≤ after.top) :
    (do
      push n x
      pop n) after = .ok (x, { after with memory := after.memory.write after.top n x }) := by
  have room : after.frame.floor + aligned n ≤ after.top + aligned n := Nat.add_le_add_right above _
  change ((popn n { after with
    memory := after.memory.write after.top n x
    top := after.top + aligned n }) >>= fun result => read result.1 n result.2) = _
  rw [popn_of_room room, Outcome.ok_bind, Nat.add_sub_cancel, Machine.read,
    Memory.read_write_self small]

/-- `ConvertToUint` leaves the count as an `unsigned long`, and its bytes above
the stack. -/
theorem Leaves.convertToUint (isInteger : count.isTypedInteger = true) (isSize : count.size = some m)
    (leaves : Leaves context right m between y after) (above : after.frame.floor ≤ after.top) :
    ∃ word, Code.convertToUint count (.bits y) = some (.bits word) ∧
      Leaves context (.convertToUint count right) wordBytes between word
        { after with memory := after.memory.write after.top wordBytes word } := by
  have isKind : ∃ signed width, count.cType = some (.integer signed width) := by
    cases count <;> first | exact ⟨_, _, rfl⟩ | cases isInteger
  obtain ⟨signed, width, isType⟩ := isKind
  have isConverted :
      convertKind context.runtime count .uint y =
        Cxx.writeInteger 64 (Cxx.readInteger signed width y) := by
    rw [convertKind, isType]
    rfl
  have small : Cxx.writeInteger 64 (Cxx.readInteger signed width y) < 256 ^ wordBytes :=
    (BitVec.ofInt 64 (Cxx.readInteger signed width y)).isLt
  refine ⟨Cxx.writeInteger 64 (Cxx.readInteger signed width y), ?_, ?_⟩
  · rw [Code.convertToUint, isType]
  · rw [Leaves, execute, isSize, orStop_some]
    simp only [pure_bind, bind_assoc]
    rw [leaves.bind, isConverted]
    exact pop_push small above

/-- `Shift` pushes what it computes from its operands. -/
theorem execute_over_shift (operator : ShiftOperator) (isInteger : count.isTypedInteger = true)
    (isSize : kind.size = some n) (isCountSize : count.size = some m)
    (leavesLeft : Leaves context left n machine x between)
    (leavesRight : Leaves context right m between y after) (above : after.frame.floor ≤ after.top)
    (isResult :
      (BinaryOperation.shift operator kind count).compute context.runtime.floating (.bits x)
        (.bits y) = some (.bits result)) :
    ∃ memory : Memory, (∀ address < after.top, memory address = after.memory address) ∧
      execute context ((BinaryOperation.shift operator kind count).over left right) machine =
        (do
          push n result
          pure .controlContinue : Run World Control) { after with memory } := by
  obtain ⟨word, isWord, leavesCount⟩ := leavesRight.convertToUint isInteger isCountSize above
  have isCompute : (BinaryOperation.shift operator kind .uint).compute context.runtime.floating
      (.bits x) (.bits word) = some (.bits result) := by
    rw [BinaryOperation.compute, isWord, Option.bind_some] at isResult
    rw [compute_shift_uint]
    exact isResult
  refine ⟨after.memory.write after.top wordBytes word, ?_, ?_⟩
  · intro address below
    exact Memory.write_of_notMem fun inside => Nat.not_le_of_lt below inside.1
  · rw [BinaryOperation.over, execute, isSize, orStop_some, pure_bind, leavesLeft.bind,
      leavesCount.bind, isCompute]
    rfl

/-- Whether the left operand alone decides what a logical operation pushes. -/
def BinaryOperation.decides (b : Bool) : BinaryOperation → Bool
  | logicOr => b
  | logicAnd => !b
  | _ => false

theorem execute_over_decided {operation : BinaryOperation}
    (leaves : Leaves context left 1 machine x between)
    (decided : operation.decides (x % 256 != 0) = true) :
    ∃ b, (∀ right, operation.compute context.runtime.floating (.bits x) right = some (Cxx.ofBool b)) ∧
      execute context (operation.over left right) machine =
        (do
          pushBool b
          pure .controlContinue : Run World Control) between := by
  cases operation with
  | binary functor kind => cases decided
  | shift operator kind count => cases decided
  | logicOr =>
      have isTrue : (x % 256 != 0) = true := decided
      refine ⟨true, fun right => ?_, ?_⟩
      · rw [BinaryOperation.compute, Value.toBool, isTrue, Bool.true_or]
      · rw [BinaryOperation.over, execute, popBool]
        simp only [bind_assoc, pure_bind]
        rw [leaves.bind, isTrue]
        rfl
  | logicAnd =>
      have isFalse : (x % 256 != 0) = false := by simpa [BinaryOperation.decides] using decided
      refine ⟨false, fun right => ?_, ?_⟩
      · rw [BinaryOperation.compute, Value.toBool, isFalse, Bool.false_and]
      · rw [BinaryOperation.over, execute, popBool]
        simp only [bind_assoc, pure_bind]
        rw [leaves.bind, isFalse]
        rfl

/-- A logical operation that is not decided leaves the `bool` of its right
operand, which is what it computes. -/
theorem execute_over_undecided {operation : BinaryOperation}
    (isLogical : operation = .logicOr ∨ operation = .logicAnd)
    (leavesLeft : Leaves context left 1 machine x between)
    (undecided : operation.decides (x % 256 != 0) = false)
    (leavesRight : Leaves context right 1 between y after) :
    operation.compute context.runtime.floating (.bits x) (.bits y) =
        some (Cxx.ofBool (y % 256 != 0)) ∧
      Leaves context (operation.over left right) 1 machine y after := by
  rcases isLogical with isOr | isAnd
  · rw [isOr] at undecided ⊢
    have isFalse : (x % 256 != 0) = false := undecided
    constructor
    · rw [BinaryOperation.compute, Value.toBool, Value.toBool, isFalse, Bool.false_or]
    · rw [Leaves, BinaryOperation.over, execute, popBool]
      simp only [bind_assoc, pure_bind]
      rw [leavesLeft.bind, isFalse, if_neg Bool.false_ne_true, bind_assoc]
      exact leavesRight
  · rw [isAnd] at undecided ⊢
    have isTrue : (x % 256 != 0) = true := by simpa [BinaryOperation.decides] using undecided
    constructor
    · rw [BinaryOperation.compute, Value.toBool, Value.toBool, isTrue, Bool.true_and]
    · rw [Leaves, BinaryOperation.over, execute, popBool]
      simp only [bind_assoc, pure_bind]
      rw [leavesLeft.bind, isTrue, if_neg (by decide), bind_assoc]
      exact leavesRight

end Rcgo.Code
