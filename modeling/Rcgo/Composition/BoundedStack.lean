import Rcgo.Transaction.ParameterSlots

/-!
# The stack of the elaborator

`stack.cpp` with the assertions on its capacity, and the operations that find a
place: the receiver, a field of a place or an element of an array of places.
-/

namespace Rcgo.Composition

open Rcgo.Code Rcgo.Transaction

/-- `runtime::Stack` between `data_` and `limit_`. -/
structure BoundedStack extends Transaction.Stack where
  data : Nat
  limit : Nat

namespace BoundedStack

/-- `Stack::Stack`; the base pointer is null. -/
def fresh (memory : Transaction.Memory) (data capacity : Nat) : BoundedStack where
  memory a := if data ≤ a ∧ a < data + capacity then 0 else memory a
  basePointer := 0
  top := data
  data := data
  limit := data + capacity

/-- `Stack::push` and `Stack::push_pointer` of a word. -/
def push (stack : BoundedStack) (word : Nat) : Option BoundedStack :=
  if stack.top + wordSize ≤ stack.limit then
    some { stack with toStack := stack.toStack.push word }
  else none

/-- `Stack::pop` and `Stack::pop_pointer`. -/
def pop (stack : BoundedStack) : Option (Nat × BoundedStack) :=
  if stack.data + wordSize ≤ stack.top then
    some (stack.toStack.pop.1, { stack with toStack := stack.toStack.pop.2 })
  else none

/-- `Stack::reserve`. -/
def reserve (stack : BoundedStack) (size : Nat) : Option BoundedStack :=
  if stack.top + aligned size ≤ stack.limit then
    some
      { stack with
        memory := fun a =>
          if stack.top ≤ a ∧ a < stack.top + size then 0 else stack.memory a
        top := stack.top + aligned size }
  else none

/-- `Stack::setup`. -/
def setup (stack : BoundedStack) (size : Nat) : Option BoundedStack := do
  let bp := stack.top
  let stack ← stack.push stack.basePointer
  reserve { stack with basePointer := bp } size

/-- `base_pointer_ + offset`. -/
def address (stack : BoundedStack) (offset : Arch.Word) : Nat :=
  (stack.basePointer + offset.toInt).toNat

/-- `Reference::execute`. -/
def reference (stack : BoundedStack) (offset : Arch.Word) : Option BoundedStack :=
  stack.push (stack.address offset)

/-- `Load::execute` for a word, behind its child. -/
def load (stack : BoundedStack) : Option BoundedStack := do
  let (pointer, stack) ← stack.pop
  stack.push (stack.memory pointer)

end BoundedStack

/-- The offsets of the receiver and of the iota. -/
structure Slots where
  receiver : Option Arch.Word
  iota : Option Arch.Word

/-- The index of an element. -/
inductive ElementIndex where
  | constant (value : Int)
  | iota

/-- An expression made of the receiver, the iota, selects and constant indices. -/
inductive Place where
  | receiver
  | select (base : Place) (offset : Arch.Word)
  | index (base : Place) (element : ElementIndex) (dimension : Int) (unitSize : Arch.Word)

/-- The operation of the index. -/
def ElementIndex.execute (slots : Slots) (stack : BoundedStack) :
    ElementIndex → Option BoundedStack
  | constant value => stack.push (BitVec.ofInt 64 value).toNat
  | iota => do
      let stack ← stack.reference (← slots.iota)
      stack.load

namespace Place

/-- `Select::execute` and `IndexArray::execute` down to the load of the receiver;
none also where the index is out of bounds. -/
def execute (slots : Slots) (stack : BoundedStack) : Place → Option BoundedStack
  | receiver => do
      let stack ← stack.reference (← slots.receiver)
      stack.load
  | select base offset => do
      let stack ← base.execute slots stack
      let (pointer, stack) ← stack.pop
      stack.push (BitVec.ofNat 64 pointer + offset).toNat
  | index base element dimension unitSize => do
      let stack ← base.execute slots stack
      let (pointer, stack) ← stack.pop
      let stack ← element.execute slots stack
      let (word, stack) ← stack.pop
      let i := (BitVec.ofNat 64 word).toInt
      if i < 0 ∨ dimension ≤ i then none
      else stack.push (BitVec.ofNat 64 pointer + BitVec.ofInt 64 i * unitSize).toNat

/-- The address that the operation leaves on the stack. -/
def evaluate (slots : Slots) (stack : BoundedStack) (place : Place) : Option Nat := do
  let stack ← place.execute slots stack
  let (pointer, _) ← stack.pop
  some pointer

end Place

/-! ## What the operations compute -/

def ElementIndex.value (iota : Option Nat) : ElementIndex → Option Nat
  | constant value => some (BitVec.ofInt 64 value).toNat
  | .iota => iota

/-- The place for an address of the receiver and a value of the iota. -/
def Place.value (receiver : Nat) (iota : Option Nat) : Place → Option Nat
  | .receiver => some receiver
  | select base offset => do
      let pointer ← base.value receiver iota
      some (BitVec.ofNat 64 pointer + offset).toNat
  | index base element dimension unitSize => do
      let pointer ← base.value receiver iota
      let word ← element.value iota
      let i := (BitVec.ofNat 64 word).toInt
      if i < 0 ∨ dimension ≤ i then none
      else some (BitVec.ofNat 64 pointer + BitVec.ofInt 64 i * unitSize).toNat

namespace BoundedStack

/-- The slots hold the address of the receiver and the iota. -/
structure Holds (stack : BoundedStack) (slots : Slots) (receiver iota : Nat) : Prop where
  receiver : ∀ offset, slots.receiver = some offset →
    stack.address offset < stack.top ∧ stack.memory (stack.address offset) = receiver
  iota : ∀ offset, slots.iota = some offset →
    stack.address offset < stack.top ∧ stack.memory (stack.address offset) = iota

/-- There is room for a word. -/
structure HasRoom (stack : BoundedStack) : Prop where
  data : stack.data ≤ stack.top
  room : stack.top + wordSize ≤ stack.limit

/-- Nothing below the top has changed. -/
structure Same (stack after : BoundedStack) : Prop where
  data : after.data = stack.data
  limit : after.limit = stack.limit
  basePointer : after.basePointer = stack.basePointer
  top : after.top = stack.top
  memory : ∀ a, a < stack.top → after.memory a = stack.memory a

/-- A word has been pushed. -/
structure Pushed (stack : BoundedStack) (word : Nat) (after : BoundedStack) : Prop where
  data : after.data = stack.data
  limit : after.limit = stack.limit
  basePointer : after.basePointer = stack.basePointer
  top : after.top = stack.top + wordSize
  word : after.memory stack.top = word
  memory : ∀ a, a < stack.top → after.memory a = stack.memory a

variable {stack middle after : BoundedStack} {slots : Slots} {receiver iota : Nat}

theorem Same.refl (stack : BoundedStack) : Same stack stack :=
  ⟨rfl, rfl, rfl, rfl, fun _ _ => rfl⟩

theorem Same.push (same : Same stack middle) (hasRoom : stack.HasRoom) (word : Nat) :
    ∃ after, middle.push word = some after ∧ Pushed stack word after := by
  have room : middle.top + wordSize ≤ middle.limit := by
    rw [same.top, same.limit]
    exact hasRoom.room
  refine ⟨_, if_pos room, ⟨same.data, same.limit, same.basePointer, ?_, ?_, ?_⟩⟩
  · rw [Stack.top_push, same.top]
  · rw [← same.top]
    exact Function.update_self _ _ _
  · intro a below
    rw [← same.memory a below]
    exact Function.update_of_ne (by rw [same.top]; exact Nat.ne_of_lt below) _ _

theorem Pushed.pop {word : Nat} (pushed : Pushed stack word after) (hasRoom : stack.HasRoom) :
    ∃ popped, after.pop = some (word, popped) ∧ Same stack popped := by
  have isWord : after.data + wordSize ≤ after.top := by
    rw [pushed.data, pushed.top]
    exact Nat.add_le_add_right hasRoom.data _
  have isTop : after.top - wordSize = stack.top := by
    rw [pushed.top, Nat.add_sub_cancel]
  have popped : after.toStack.pop.1 = word := by
    rw [← pushed.word, ← isTop]
    rfl
  refine ⟨{ after with toStack := after.toStack.pop.2 }, ?_, ?_⟩
  · rw [BoundedStack.pop, if_pos isWord, popped]
  · exact ⟨pushed.data, pushed.limit, pushed.basePointer, isTop, pushed.memory⟩

theorem Same.hasRoom (same : Same stack after) (hasRoom : stack.HasRoom) : after.HasRoom := by
  constructor
  · rw [same.data, same.top]
    exact hasRoom.data
  · rw [same.top, same.limit]
    exact hasRoom.room

theorem Same.holds (same : Same stack after) (holds : stack.Holds slots receiver iota) :
    after.Holds slots receiver iota := by
  have slot : ∀ offset value, stack.address offset < stack.top ∧
      stack.memory (stack.address offset) = value → after.address offset < after.top ∧
        after.memory (after.address offset) = value := by
    intro offset value found
    rw [show after.address offset = stack.address offset by rw [address, address, same.basePointer],
      same.top, same.memory _ found.1]
    exact found
  exact ⟨fun offset isSlot => slot offset _ (holds.receiver offset isSlot),
    fun offset isSlot => slot offset _ (holds.iota offset isSlot)⟩

theorem exists_load (hasRoom : stack.HasRoom) {offset : Arch.Word}
    (inside : stack.address offset < stack.top) :
    ∃ after, (stack.reference offset).bind load = some after ∧
      Pushed stack (stack.memory (stack.address offset)) after := by
  rcases (Same.refl stack).push hasRoom (stack.address offset) with ⟨pushed, isPushed, isReference⟩
  rcases isReference.pop hasRoom with ⟨popped, isPopped, same⟩
  rcases same.push hasRoom (popped.memory (stack.address offset)) with ⟨after, isAfter, loaded⟩
  rw [same.memory _ inside] at loaded
  refine ⟨after, ?_, loaded⟩
  rw [reference, isPushed, Option.bind_some, load, isPopped]
  exact isAfter

/-- What an operation does that computes a word or stops the program. -/
def Computes (stack : BoundedStack) (word : Option Nat) (result : Option BoundedStack) : Prop :=
  match word with
  | none => result = none
  | some word => ∃ after, result = some after ∧ Pushed stack word after

theorem computes_index (hasRoom : stack.HasRoom) (holds : stack.Holds slots receiver iota)
    (index : ElementIndex) :
    Computes stack (index.value (slots.iota.map fun _ => iota)) (index.execute slots stack) := by
  cases index with
  | constant value => exact (Same.refl stack).push hasRoom _
  | iota =>
      rw [ElementIndex.value, ElementIndex.execute]
      cases isSlot : slots.iota with
      | none => exact rfl
      | some offset =>
          have found := holds.iota offset isSlot
          have loads := exists_load hasRoom found.1
          rw [found.2] at loads
          exact loads

theorem Same.pushed {word : Nat} (same : Same stack middle) (pushed : Pushed middle word after) :
    Pushed stack word after := by
  refine ⟨pushed.data.trans same.data, pushed.limit.trans same.limit,
    pushed.basePointer.trans same.basePointer, ?_, ?_, ?_⟩
  · rw [pushed.top, same.top]
  · rw [← same.top]
    exact pushed.word
  · intro a below
    rw [pushed.memory a (by rw [same.top]; exact below), same.memory a below]

theorem Same.computes {word : Option Nat} {result : Option BoundedStack} (same : Same stack middle)
    (computes : Computes middle word result) : Computes stack word result := by
  cases word with
  | none => exact computes
  | some word =>
      rcases computes with ⟨after, isResult, pushed⟩
      exact ⟨after, isResult, same.pushed pushed⟩

theorem Computes.bind {word : Option Nat} {result : Option BoundedStack}
    {continue_ : Nat × BoundedStack → Option BoundedStack} {spec : Nat → Option Nat}
    (computes : Computes stack word result) (hasRoom : stack.HasRoom)
    (goesOn : ∀ value popped, Same stack popped →
      Computes stack (spec value) (continue_ (value, popped))) :
    Computes stack (word.bind spec) (result.bind fun after => after.pop.bind continue_) := by
  cases word with
  | none =>
      rw [show result = none from computes]
      exact rfl
  | some value =>
      rcases computes with ⟨after, isResult, pushed⟩
      rcases pushed.pop hasRoom with ⟨popped, isPopped, same⟩
      rw [isResult, Option.bind_some, Option.bind_some, isPopped]
      exact goesOn value popped same

theorem computes_place (hasRoom : stack.HasRoom) (holds : stack.Holds slots receiver iota)
    (hasReceiver : slots.receiver ≠ none) (place : Place) :
    Computes stack (place.value receiver (slots.iota.map fun _ => iota))
      (place.execute slots stack) := by
  induction place with
  | receiver =>
      rw [Place.value, Place.execute]
      cases isSlot : slots.receiver with
      | none => exact absurd isSlot hasReceiver
      | some offset =>
          have found := holds.receiver offset isSlot
          have loads := exists_load hasRoom found.1
          rw [found.2] at loads
          exact loads
  | select base offset inductionHypothesis =>
      rw [Place.value, Place.execute]
      apply inductionHypothesis.bind hasRoom
      exact fun value popped same => same.push hasRoom _
  | index base element dimension unitSize inductionHypothesis =>
      rw [Place.value, Place.execute]
      apply inductionHypothesis.bind hasRoom
      intro pointer popped same
      apply same.computes
      apply (computes_index (same.hasRoom hasRoom) (same.holds holds) element).bind
        (same.hasRoom hasRoom)
      intro word last sameLast
      dsimp only
      by_cases outside : (BitVec.ofNat 64 word).toInt < 0 ∨ dimension ≤ (BitVec.ofNat 64 word).toInt
      · rw [if_pos outside, if_pos outside]
        exact rfl
      · rw [if_neg outside, if_neg outside]
        exact sameLast.push (same.hasRoom hasRoom) _

theorem evaluate_eq (hasRoom : stack.HasRoom) (holds : stack.Holds slots receiver iota)
    (hasReceiver : slots.receiver ≠ none) (place : Place) :
    place.evaluate slots stack = place.value receiver (slots.iota.map fun _ => iota) := by
  have computes := computes_place hasRoom holds hasReceiver place
  rw [Place.evaluate]
  cases isValue : place.value receiver (slots.iota.map fun _ => iota) with
  | none =>
      rw [isValue] at computes
      rw [show place.execute slots stack = none from computes]
      rfl
  | some value =>
      rw [isValue] at computes
      rcases computes with ⟨after, isAfter, pushed⟩
      rcases pushed.pop hasRoom with ⟨popped, isPopped, _⟩
      rw [isAfter]
      dsimp only [Option.bind_eq_bind, Option.bind_some]
      rw [isPopped]
      rfl

/-! ## Frames -/

/-- Bytes have been put on the stack. -/
structure Grown (stack : BoundedStack) (size : Nat) (after : BoundedStack) : Prop where
  data : after.data = stack.data
  limit : after.limit = stack.limit
  top : after.top = stack.top + size
  memory : ∀ a, a < stack.top → after.memory a = stack.memory a

theorem Grown.trans {size other : Nat} (first : Grown stack size middle)
    (second : Grown middle other after) : Grown stack (size + other) after := by
  refine ⟨second.data.trans first.data, second.limit.trans first.limit, ?_, ?_⟩
  · rw [second.top, first.top, Nat.add_assoc]
  · intro a below
    rw [second.memory a (by rw [first.top]; exact Nat.lt_add_right size below), first.memory a below]

theorem push_isSome (stack : BoundedStack) (word : Nat) :
    (∃ after, stack.push word = some after) ↔ stack.top + wordSize ≤ stack.limit := by
  rw [push]
  split
  · next room => exact iff_of_true ⟨_, rfl⟩ room
  · next noRoom => exact iff_of_false (fun ⟨_, isNone⟩ => by cases isNone) noRoom

theorem push_spec {word : Nat} (runs : stack.push word = some after) :
    Grown stack wordSize after ∧ after.basePointer = stack.basePointer ∧
      after.memory stack.top = word := by
  have room := (push_isSome _ _).1 ⟨after, runs⟩
  rw [push, if_pos room] at runs
  rw [← Option.some.inj runs]
  refine ⟨⟨rfl, rfl, rfl, ?_⟩, rfl, Function.update_self _ _ _⟩
  exact fun a below => Function.update_of_ne (Nat.ne_of_lt below) _ _

theorem reserve_isSome (stack : BoundedStack) (size : Nat) :
    (∃ after, stack.reserve size = some after) ↔ stack.top + aligned size ≤ stack.limit := by
  rw [reserve]
  split
  · next room => exact iff_of_true ⟨_, rfl⟩ room
  · next noRoom => exact iff_of_false (fun ⟨_, isNone⟩ => by cases isNone) noRoom

theorem reserve_spec {size : Nat} (runs : stack.reserve size = some after) :
    Grown stack (aligned size) after ∧ after.basePointer = stack.basePointer := by
  have room := (reserve_isSome _ _).1 ⟨after, runs⟩
  rw [reserve, if_pos room] at runs
  rw [← Option.some.inj runs]
  exact ⟨⟨rfl, rfl, rfl, fun a below => if_neg (by omega)⟩, rfl⟩

theorem reserve_zero (stack : BoundedStack) (inside : stack.top ≤ stack.limit) :
    stack.reserve 0 = some stack := by
  rw [reserve, show aligned 0 = 0 from rfl, Nat.add_zero, if_pos inside]
  have unchanged : (fun a => if stack.top ≤ a ∧ a < stack.top then 0 else stack.memory a) =
      stack.memory := by
    funext a
    exact if_neg (by omega)
  rw [unchanged]

theorem setup_isSome (stack : BoundedStack) (size : Nat) :
    (∃ after, stack.setup size = some after) ↔
      stack.top + (wordSize + aligned size) ≤ stack.limit := by
  constructor
  · rintro ⟨after, runs⟩
    rcases Option.bind_eq_some_iff.1 runs with ⟨pushed, isPushed, reserves⟩
    have room := (reserve_isSome _ _).1 ⟨after, reserves⟩
    have spec := (push_spec isPushed).1
    rw [spec.limit, spec.top] at room
    omega
  · intro room
    rcases (push_isSome stack stack.basePointer).2 (by omega) with ⟨pushed, isPushed⟩
    have spec := (push_spec isPushed).1
    rw [setup, isPushed]
    apply (reserve_isSome _ _).2
    rw [spec.limit, spec.top]
    omega

theorem setup_spec {size : Nat} (runs : stack.setup size = some after) :
    Grown stack (wordSize + aligned size) after ∧ after.basePointer = stack.top := by
  rcases Option.bind_eq_some_iff.1 runs with ⟨pushed, isPushed, reserves⟩
  have pushedSpec := (push_spec isPushed).1
  rcases reserve_spec reserves with ⟨grown, isBase⟩
  exact ⟨pushedSpec.trans ⟨grown.data, grown.limit, grown.top, grown.memory⟩, isBase⟩

end BoundedStack

end Rcgo.Composition
