import Mathlib.Logic.Function.Basic
import Mathlib.Tactic.Common

/-!
# The stack of an executor

The operand stack grows upwards in words of eight bytes.  A frame consists of
the parameters, an instruction pointer, the saved base pointer and the locals;
the base pointer is the address of the saved one.
-/

namespace Rcgo.Transaction

/-- `arch::stack_alignment ()`, the size of a pointer. -/
def wordSize : Nat := 8

/-- The words in the memory of the stack, by address. -/
abbrev Memory := Nat → Nat

/-- `Stack`.  Its capacity, which is asserted, is not part of the model. -/
structure Stack where
  memory : Memory
  basePointer : Nat
  top : Nat

namespace Stack

/-- `Stack::push_pointer` and `Stack::push` of one word. -/
def push (stack : Stack) (word : Nat) : Stack :=
  { stack with
    memory := Function.update stack.memory stack.top word
    top := stack.top + wordSize }

/-- The words of the argument list, pushed one after the other. -/
def pushAll (stack : Stack) : List Nat → Stack
  | [] => stack
  | word :: rest => (stack.push word).pushAll rest

/-- `Stack::pop_pointer` and `Stack::pop`: the word and the stack without it. -/
def pop (stack : Stack) : Nat × Stack :=
  (stack.memory (stack.top - wordSize), { stack with top := stack.top - wordSize })

/-- The pops for a list of words that has been pushed. -/
def popAll (stack : Stack) : List Nat → Stack
  | [] => stack
  | _ :: rest => stack.pop.2.popAll rest

/-- `Stack::reserve`. -/
def reserve (stack : Stack) (size : Nat) : Stack :=
  { stack with
    memory := fun a =>
      if stack.top ≤ a ∧ a < stack.top + size then 0 else stack.memory a
    top := stack.top + size }

/-- `Stack::load` from an address in the stack. -/
def load (stack : Stack) (source size : Nat) : Stack :=
  { stack with
    memory := fun a =>
      if stack.top ≤ a ∧ a < stack.top + size then
        stack.memory (source + (a - stack.top))
      else
        stack.memory a
    top := stack.top + size }

/-- `Stack::setup`. -/
def setup (stack : Stack) (size : Nat) : Stack :=
  let bp := stack.top
  reserve { stack.push stack.basePointer with basePointer := bp } size

/-- `Stack::teardown`. -/
def teardown (stack : Stack) : Stack :=
  let (bp, stack) := pop { stack with top := stack.basePointer + wordSize }
  { stack with basePointer := bp }

variable {stack : Stack}

@[simp]
theorem top_push (word : Nat) : (stack.push word).top = stack.top + wordSize :=
  rfl

/-- What an operation leaves below the top of the stack. -/
def Below (before after : Stack) : Prop :=
  ∀ a, a < before.top → after.memory a = before.memory a

theorem below_push (word : Nat) : Below stack (stack.push word) := by
  intro a below
  exact Function.update_of_ne (Nat.ne_of_lt below) _ _

theorem pushAll_spec (words : List Nat) :
    ∀ stack : Stack,
      (stack.pushAll words).basePointer = stack.basePointer ∧
        (stack.pushAll words).top = stack.top + wordSize * words.length ∧
          Below stack (stack.pushAll words) := by
  induction words with
  | nil =>
      intro stack
      exact ⟨rfl, rfl, fun _ _ => rfl⟩
  | cons word rest inductionHypothesis =>
      intro stack
      obtain ⟨basePointer, top, below⟩ := inductionHypothesis (stack.push word)
      refine ⟨basePointer, ?_, ?_⟩
      · rw [pushAll, top, top_push, List.length_cons, Nat.mul_succ]
        omega
      · intro a belowTop
        have belowPush : a < (stack.push word).top := by
          rw [top_push]
          omega
        exact (below a belowPush).trans (below_push word a belowTop)

theorem popAll_spec (words : List Nat) :
    ∀ stack : Stack,
      (stack.popAll words).memory = stack.memory ∧
        (stack.popAll words).basePointer = stack.basePointer ∧
          (stack.popAll words).top = stack.top - wordSize * words.length := by
  induction words with
  | nil =>
      intro stack
      exact ⟨rfl, rfl, rfl⟩
  | cons word rest inductionHypothesis =>
      intro stack
      obtain ⟨memory, basePointer, top⟩ := inductionHypothesis stack.pop.2
      refine ⟨memory, basePointer, ?_⟩
      rw [popAll, top, List.length_cons, Nat.mul_succ]
      simp only [pop]
      omega

theorem below_load (source size : Nat) : Below stack (stack.load source size) := by
  intro a below
  exact if_neg (fun inside => by omega)

theorem setup_spec (stack : Stack) (size : Nat) :
    (stack.setup size).basePointer = stack.top ∧
      (stack.setup size).top = stack.top + wordSize + size ∧
        (stack.setup size).memory stack.top = stack.basePointer ∧
          Below stack (stack.setup size) := by
  have belowLocals :
      ∀ a, a < stack.top + wordSize →
        (stack.setup size).memory a = (stack.push stack.basePointer).memory a := by
    intro a below
    exact if_neg (fun inside => absurd inside.1 (Nat.not_le_of_lt below))
  refine ⟨rfl, rfl, ?_, ?_⟩
  · rw [belowLocals stack.top (Nat.lt_add_of_pos_right (by decide))]
    exact Function.update_self _ _ _
  · intro a below
    rw [belowLocals a (Nat.lt_add_right wordSize below)]
    exact below_push _ a below

theorem teardown_spec (stack : Stack) :
    stack.teardown.memory = stack.memory ∧ stack.teardown.top = stack.basePointer ∧
      stack.teardown.basePointer = stack.memory stack.basePointer := by
  refine ⟨rfl, ?_, ?_⟩
  · simp [teardown, pop]
  · simp [teardown, pop]

end Stack

end Rcgo.Transaction
