import Rcgo.Code.Execution

/-!
# Stack effects of the operations

One rule for every operation: from the effects of its operands to its own.
-/

namespace Rcgo.Code

open Rcgo.Foundation Machine

variable {World : Type} {context : Context World}

/-- The operation pushes `size` bytes and goes on. -/
def Pushes (context : Context World) (operation : Operation) (size : Nat) : Prop :=
  ∀ rest, Effect rest (size + rest) (fun control => control = .controlContinue)
    (execute context operation)

/-- The operation pushes an object of the size on the stack and goes on; where
there is no size it does not get so far. -/
def PushesSize (context : Context World) (operation : Operation) (size : Option Nat) : Prop :=
  ∀ n, (∀ m ∈ size, m = n) → Pushes context operation n

/-- The operation leaves the stack as high as it was. -/
def Neutral (context : Context World) (operation : Operation) : Prop :=
  ∀ rest, Effect rest rest (fun _ => True) (execute context operation)

/-- Callables leave the frames of their callers alone. -/
def CallsStay (context : Context World) : Prop :=
  ∀ callable, StaysInFrame (context.call callable)

theorem effect_orStop {α : Type} (rest : Nat) (value : Option α) :
    Effect rest rest (fun result => value = some result) (orStop value : Run World α) := by
  cases value with
  | none => exact effect_stop
  | some value => exact Transfers.pure rfl

theorem orStop_some {α : Type} (value : α) : (orStop (some value) : Run World α) = pure value :=
  rfl

theorem effect_use {α : Type} (rest : Nat) (effect : Memory → World → α × Memory × World) :
    Effect rest rest (fun _ => True) (use effect) := by
  intro machine base _ isTop
  exact ⟨trivial, isTop, rfl⟩

theorem effect_useOrStop {α : Type} (rest : Nat)
    (effect : Memory → World → Option (α × Memory × World)) :
    Effect rest rest (fun _ => True) (useOrStop effect) := by
  intro machine base _ isTop
  unfold useOrStop
  cases effect machine.memory machine.world with
  | none => exact fun impossible => Fault.noConfusion impossible
  | some result => exact ⟨trivial, isTop, rfl⟩

theorem effect_done (rest : Nat) :
    Effect rest rest (fun control => control = .controlContinue)
      (pure .controlContinue : Run World Control) :=
  Transfers.pure rfl

theorem effect_cast {α : Type} {popped popped' pushed pushed' : Nat} {property : α → Prop}
    {run : Run World α} (effect : Effect popped pushed property run) (samePopped : popped = popped')
    (samePushed : pushed = pushed') : Effect popped' pushed' property run := by
  rw [← samePopped, ← samePushed]
  exact effect

theorem effect_popBool (rest : Nat) :
    Effect (aligned 1 + rest) rest (fun _ => True) (popBool : Run World Bool) :=
  (effect_pop rest 1).bind fun _ _ => Transfers.pure trivial

theorem effect_pushBool (rest : Nat) (b : Bool) :
    Effect rest (aligned 1 + rest) (fun _ => True) (pushBool b : Run World Unit) :=
  effect_push rest 1 b.toNat

theorem effect_popLong (rest : Nat) :
    Effect (wordBytes + rest) rest (fun _ => True) (popLong : Run World Int) :=
  (effect_pop rest wordBytes).bind fun _ _ => Transfers.pure trivial

theorem effect_pushLong (rest : Nat) (x : Int) :
    Effect rest (wordBytes + rest) (fun _ => True) (pushLong x : Run World Unit) :=
  effect_push rest wordBytes _

theorem effect_popSlice (rest : Nat) :
    Effect (3 * wordBytes + rest) rest (fun _ => True) (popSlice : Run World Slice) :=
  (effect_pop rest (3 * wordBytes)).bind fun _ _ => Transfers.pure trivial

theorem effect_pushSlice (rest : Nat) (slice : Slice) :
    Effect rest (3 * wordBytes + rest) (fun _ => True) (pushSlice slice : Run World Unit) :=
  effect_push rest (3 * wordBytes) _

theorem effect_write (rest address size value : Nat) :
    Effect rest rest (fun _ => True) (write address size value : Run World Unit) :=
  effect_changeMemory rest _

theorem effect_copy (rest target source size : Nat) :
    Effect rest rest (fun _ => True) (copy target source size : Run World Unit) :=
  effect_changeMemory rest _

section Operations

variable {child base index left right arguments body : Operation} {n : Nat}

theorem Pushes.size (pushes : Pushes context child n) : PushesSize context child (some n) := by
  intro m isSize
  rw [← isSize n rfl]
  exact pushes

theorem PushesSize.pushes (pushes : PushesSize context child (some n)) : Pushes context child n :=
  pushes n fun _ isSize => (Option.some.inj isSize).symm

theorem pushes_load (pushes : Pushes context child wordBytes) (type : DataType) :
    PushesSize context (.load child type) type.sizeOnStack := by
  intro n isSize rest
  rw [execute]
  apply (pushes rest).bind
  intro _ _
  apply (effect_popPointer rest).bind
  intro pointer _
  apply (effect_orStop rest type.size).bind
  intro size isTypeSize
  have isOnStack : aligned size = n := isSize (aligned size) (by rw [DataType.sizeOnStack, isTypeSize]; rfl)
  rw [← isOnStack]
  exact (effect_load rest pointer size).bind fun _ _ => effect_done _

theorem pushes_literal (size value : Nat) :
    Pushes context (.literal size value) (aligned size) := by
  intro rest
  rw [execute]
  exact (effect_push rest size value).bind fun _ _ => effect_done _

theorem pushes_reference (offset : Int) : Pushes context (.reference offset) wordBytes := by
  intro rest
  rw [execute]
  exact (effect_pushAddress rest offset).bind fun _ _ => effect_done _

theorem pushes_noop : Pushes context .noop 0 := by
  intro rest
  rw [execute, Nat.zero_add]
  exact effect_done rest

theorem Pushes.neutral (pushes : Pushes context child 0) : Neutral context child := by
  intro rest
  have effect := pushes rest
  rw [Nat.zero_add] at effect
  exact effect.mono fun _ _ => trivial

theorem pushes_select (pushes : Pushes context base wordBytes) (offset : Nat) :
    Pushes context (.select base offset) wordBytes := by
  intro rest
  rw [execute]
  exact (pushes rest).bind fun _ _ => (effect_popPointer rest).bind fun pointer _ =>
    (effect_pushPointer rest (pointer + offset)).bind fun _ _ => effect_done _

theorem pushes_indexArray (pushesBase : Pushes context base wordBytes)
    (pushesIndex : Pushes context index wordBytes) (dimension unitSize : Nat) :
    Pushes context (.indexArray base index dimension unitSize) wordBytes := by
  intro rest
  rw [execute]
  exact (pushesBase rest).bind fun _ _ => (effect_popPointer rest).bind fun pointer _ =>
    (pushesIndex rest).bind fun _ _ => (effect_popLong rest).bind fun i _ =>
      Transfers.ite effect_stop ((effect_pushPointer rest _).bind fun _ _ => effect_done _)

theorem pushes_indexSlice (pushesBase : Pushes context base (3 * wordBytes))
    (pushesIndex : Pushes context index wordBytes) (unitSize : Nat) :
    Pushes context (.indexSlice base index unitSize) wordBytes := by
  intro rest
  rw [execute]
  exact (pushesBase rest).bind fun _ _ => (effect_popSlice rest).bind fun s _ =>
    (pushesIndex rest).bind fun _ _ => (effect_popLong rest).bind fun i _ =>
      Transfers.ite effect_stop ((effect_pushPointer rest _).bind fun _ _ => effect_done _)

theorem pushes_convertToInt {kind : Kind} (isSize : kind.size = some n)
    (pushes : Pushes context child (aligned n)) :
    Pushes context (.convertToInt kind child) wordBytes := by
  intro rest
  rw [execute, isSize]
  exact (pushes rest).bind fun _ _ => (effect_pop rest n).bind fun word _ =>
    (effect_push rest wordBytes _).bind fun _ _ => effect_done _

theorem pushes_convertToUint {kind : Kind} (isSize : kind.size = some n)
    (pushes : Pushes context child (aligned n)) :
    Pushes context (.convertToUint kind child) wordBytes := by
  intro rest
  rw [execute, isSize]
  exact (pushes rest).bind fun _ _ => (effect_pop rest n).bind fun word _ =>
    (effect_push rest wordBytes _).bind fun _ _ => effect_done _

theorem pushes_conversion {source target : Kind} {m : Nat} (isSize : source.size = some n)
    (isTargetSize : target.size = some m) (pushes : Pushes context child (aligned n)) :
    Pushes context (.conversion source target child) (aligned m) := by
  intro rest
  rw [execute, isSize, isTargetSize]
  exact (pushes rest).bind fun _ _ => (effect_pop rest n).bind fun word _ =>
    (effect_push rest m _).bind fun _ _ => effect_done _

theorem pushes_logicOr (pushesLeft : Pushes context left (aligned 1))
    (pushesRight : Pushes context right (aligned 1)) :
    Pushes context (.logicOr left right) (aligned 1) := by
  intro rest
  rw [execute]
  exact (pushesLeft rest).bind fun _ _ => (effect_popBool rest).bind fun b _ =>
    Transfers.ite ((effect_pushBool rest b).bind fun _ _ => effect_done _)
      ((pushesRight rest).bind fun _ _ => effect_done _)

theorem pushes_logicAnd (pushesLeft : Pushes context left (aligned 1))
    (pushesRight : Pushes context right (aligned 1)) :
    Pushes context (.logicAnd left right) (aligned 1) := by
  intro rest
  rw [execute]
  exact (pushesLeft rest).bind fun _ _ => (effect_popBool rest).bind fun b _ =>
    Transfers.ite ((effect_pushBool rest b).bind fun _ _ => effect_done _)
      ((pushesRight rest).bind fun _ _ => effect_done _)

theorem pushes_logicNot (pushes : Pushes context child (aligned 1)) :
    Pushes context (.logicNot child) (aligned 1) := by
  intro rest
  rw [execute]
  exact (pushes rest).bind fun _ _ => (effect_popBool rest).bind fun b _ =>
    (effect_pushBool rest (!b)).bind fun _ _ => effect_done _

theorem pushes_binary (functor : Functor) {kind : Kind} (isSize : kind.size = some n)
    (pushesLeft : Pushes context left (aligned n)) (pushesRight : Pushes context right (aligned n)) :
    Pushes context (.binary functor kind left right)
      (aligned (if functor.isPredicate then 1 else n)) := by
  intro rest
  rw [execute, isSize, orStop_some, pure_bind]
  exact (pushesLeft rest).bind fun _ _ => (effect_pop rest n).bind fun x _ =>
    (pushesRight rest).bind fun _ _ => (effect_pop rest n).bind fun y _ =>
      (effect_orStop rest _).bind fun result _ =>
        (effect_push rest _ result).bind fun _ _ => effect_done _

theorem pushes_shift (operator : ShiftOperator) {kind : Kind} (isSize : kind.size = some n)
    (pushesLeft : Pushes context left (aligned n)) (pushesRight : Pushes context right wordBytes) :
    Pushes context (.shift operator kind left right) (aligned n) := by
  intro rest
  rw [execute, isSize, orStop_some, pure_bind]
  exact (pushesLeft rest).bind fun _ _ => (effect_pop rest n).bind fun x _ =>
    (pushesRight rest).bind fun _ _ => (effect_pop rest wordBytes).bind fun y _ =>
      (effect_orStop rest _).bind fun result _ =>
        (effect_push rest n result).bind fun _ _ => effect_done _

theorem pushes_convertStringToSliceOfBytes (pushes : Pushes context child (2 * wordBytes)) :
    Pushes context (.convertStringToSliceOfBytes child) (3 * wordBytes) := by
  intro rest
  rw [execute]
  exact (pushes rest).bind fun _ _ => (effect_pop rest (2 * wordBytes)).bind fun word _ =>
    (effect_use rest _).bind fun pointer _ => (effect_copy rest _ _ _).bind fun _ _ =>
      (effect_pushSlice rest _).bind fun _ _ => effect_done _

theorem pushes_convertSliceOfBytesToString (pushes : Pushes context child (3 * wordBytes)) :
    Pushes context (.convertSliceOfBytesToString child) (2 * wordBytes) := by
  intro rest
  rw [execute]
  exact (pushes rest).bind fun _ _ => (effect_popSlice rest).bind fun s _ =>
    (effect_use rest _).bind fun pointer _ => (effect_copy rest _ _ _).bind fun _ _ =>
      (effect_push rest (2 * wordBytes) _).bind fun _ _ => effect_done _

theorem pushes_newOp (size : Nat) : Pushes context (.newOp size) wordBytes := by
  intro rest
  rw [execute]
  exact (effect_use rest _).bind fun pointer _ =>
    (effect_pushPointer rest pointer).bind fun _ _ => effect_done _

theorem pushes_newHeapOp (size : Nat) : Pushes context (.newHeapOp size) wordBytes := by
  intro rest
  rw [execute]
  exact (effect_use rest _).bind fun link _ =>
    (effect_pushPointer rest link).bind fun _ _ => effect_done _

theorem pushes_moveOp (pushes : Pushes context arguments wordBytes) :
    Pushes context (.moveOp arguments) wordBytes := by
  intro rest
  rw [execute]
  exact (pushes rest).bind fun _ _ => (effect_popPointer rest).bind fun link _ =>
    (effect_use rest _).bind fun newLink _ =>
      (effect_pushPointer rest newLink).bind fun _ _ => effect_done _

theorem pushes_mergeOp (pushes : Pushes context arguments wordBytes) :
    Pushes context (.mergeOp arguments) wordBytes := by
  intro rest
  rw [execute]
  exact (pushes rest).bind fun _ _ => (effect_popPointer rest).bind fun link _ =>
    (effect_use rest _).bind fun root _ =>
      (effect_pushPointer rest root).bind fun _ _ => effect_done _

theorem pushes_lenOp (pushes : Pushes context arguments (3 * wordBytes)) :
    Pushes context (.lenOp arguments) wordBytes := by
  intro rest
  rw [execute]
  exact (pushes rest).bind fun _ _ => (effect_popSlice rest).bind fun slice _ =>
    (effect_pushLong rest _).bind fun _ _ => effect_done _

theorem pushes_appendOp (pushes : Pushes context arguments (aligned 1 + 3 * wordBytes))
    (unitSize : Nat) : Pushes context (.appendOp unitSize arguments) (3 * wordBytes) := by
  intro rest
  rw [execute]
  have pushed := pushes rest
  rw [Nat.add_assoc] at pushed
  exact pushed.bind fun _ _ => (effect_pop _ 1).bind fun element _ =>
    (effect_popSlice rest).bind fun slice _ =>
      Transfers.ite
        ((effect_use rest _).bind fun pointer _ => (effect_copy rest _ _ _).bind fun _ _ =>
          (effect_write rest _ _ _).bind fun _ _ =>
            (effect_pushSlice rest _).bind fun _ _ => effect_done _)
        ((effect_write rest _ _ _).bind fun _ _ =>
          (effect_pushSlice rest _).bind fun _ _ => effect_done _)

theorem pushes_copySliceOp (pushes : Pushes context arguments (3 * wordBytes)) (unitSize : Nat) :
    Pushes context (.copySliceOp unitSize arguments) (3 * wordBytes) := by
  intro rest
  rw [execute]
  exact (pushes rest).bind fun _ _ => (effect_popSlice rest).bind fun s _ =>
    (effect_use rest _).bind fun pointer _ => (effect_copy rest _ _ _).bind fun _ _ =>
      (effect_pushSlice rest _).bind fun _ _ => effect_done _

theorem pushes_copyStringOp (pushes : Pushes context arguments (2 * wordBytes)) :
    Pushes context (.copyStringOp arguments) (2 * wordBytes) := by
  intro rest
  rw [execute]
  exact (pushes rest).bind fun _ _ => (effect_pop rest (2 * wordBytes)).bind fun word _ =>
    (effect_use rest _).bind fun pointer _ => (effect_copy rest _ _ _).bind fun _ _ =>
      (effect_push rest (2 * wordBytes) _).bind fun _ _ => effect_done _

/-! Lists go on behind an operation that does. -/

/-- The operations push `size` bytes in all. -/
def PushesAll (context : Context World) (operations : Operations) (size : Nat) : Prop :=
  ∀ rest, Effect rest (size + rest) (fun control => control = .controlContinue)
    (executeList context operations)

theorem pushesAll_nil : PushesAll context .nil 0 := by
  intro rest
  rw [executeList_nil, Nat.zero_add]
  exact effect_done rest

theorem pushesAll_cons {operations : Operations} {m : Nat} (pushes : Pushes context child n)
    (pushesRest : PushesAll context operations m) :
    PushesAll context (.cons child operations) (n + m) := by
  intro rest
  rw [executeList_cons]
  apply (pushes rest).bind
  intro control goesOn
  rw [if_neg (by rw [goesOn]; exact Control.noConfusion)]
  exact effect_cast (pushesRest (n + rest)) rfl (by omega)

theorem pushes_list {operations : Operations} (pushes : PushesAll context operations n) :
    Pushes context (.list operations) n := by
  intro rest
  rw [execute]
  exact pushes rest

theorem pushes_single (pushes : Pushes context child n) : Pushes context child.single n :=
  pushes_list (pushesAll_cons pushes pushesAll_nil)

theorem pushes_pair {m : Nat} (pushesLeft : Pushes context left n)
    (pushesRight : Pushes context right m) : Pushes context (left.pair right) (n + m) :=
  pushes_list (pushesAll_cons pushesLeft (pushesAll_cons pushesRight pushesAll_nil))

end Operations

section Calls

variable {receiver arguments func : Operation} {callable n m : Nat}

theorem effect_enterCallable (calls : CallsStay context)
    (isParameters : ∀ size ∈ (context.signature callable).parametersSize, aligned size = n)
    (rest : Nat) :
    Effect (n + rest) rest (fun control => control = .controlContinue)
      (enterCallable context callable) := by
  have grouped :
      enterCallable context callable =
        (do
          pushPointer 0
          (do setup (context.signature callable).localsSize; context.call callable; teardown)
          let _ ← popPointer
          let size ← orStop (context.signature callable).parametersSize
          let _ ← popn size
          pure .controlContinue) := by
    simp only [enterCallable, bind_assoc]
  rw [grouped]
  apply (effect_pushPointer _ 0).bind
  intro _ _
  apply (effect_call (calls callable) _ _).bind
  intro _ _
  apply (effect_popPointer _).bind
  intro _ _
  apply (effect_orStop _ _).bind
  intro size isSize
  rw [← isParameters size isSize]
  exact (effect_popn rest size).bind fun _ _ => effect_done _

theorem effect_reserveResult (signature : Signature) (rest : Nat)
    (isResult : ∀ size ∈ signature.returnSize, size = n) (result : Nat)
    (isReturnSize : signature.returnSize = some result) :
    Effect rest (n + rest) (fun _ => True) (reserve result : Run World Unit) := by
  rw [← isResult result isReturnSize]
  exact effect_cast (effect_reserve rest result) rfl
    (congrArg (· + rest) (aligned_of_dvd (dvd_sizeOnStackOfList isReturnSize)))

theorem pushes_functionCall (calls : CallsStay context) (pushes : Pushes context arguments n)
    (isParameters : ∀ size ∈ (context.signature callable).parametersSize, aligned size = n) :
    PushesSize context (.functionCall callable arguments)
      (context.signature callable).returnSize := by
  intro m isResult rest
  rw [execute]
  exact (effect_orStop rest _).bind fun result isReturnSize =>
    (effect_reserveResult _ rest isResult result isReturnSize).bind fun _ _ =>
      (pushes _).bind fun _ _ => effect_enterCallable calls isParameters _

theorem pushes_methodCall (calls : CallsStay context) (pushesReceiver : Pushes context receiver n)
    (pushes : Pushes context arguments m)
    (isParameters : ∀ size ∈ (context.signature callable).parametersSize, aligned size = n + m) :
    PushesSize context (.methodCall callable receiver arguments)
      (context.signature callable).returnSize := by
  intro r isResult rest
  rw [execute]
  exact (effect_orStop rest _).bind fun result isReturnSize =>
    (effect_reserveResult _ rest isResult result isReturnSize).bind fun _ _ =>
      (pushesReceiver _).bind fun _ _ => (pushes _).bind fun _ _ =>
        effect_cast (effect_enterCallable calls isParameters _) (by omega) rfl

theorem pushes_dynamicPullPortCall (calls : CallsStay context) {port : Nat} {signature : Signature}
    (pushesFunc : Pushes context func (2 * wordBytes)) (pushes : Pushes context arguments n)
    (fits :
      ∀ pointer getter, context.getter port pointer = some getter →
        (context.signature getter).returnSize = signature.returnSize ∧
          ∀ size ∈ (context.signature getter).parametersSize, aligned size = wordBytes + n) :
    PushesSize context (.dynamicPullPortCall port func arguments) signature.returnSize := by
  intro r isResult rest
  rw [execute]
  apply (pushesFunc rest).bind
  intro _ _
  apply (effect_pop rest (2 * wordBytes)).bind
  intro pp _
  apply (effect_orStop rest _).bind
  intro getter isGetter
  have fit := fits _ getter isGetter
  rw [← fit.1] at isResult
  exact (effect_orStop rest _).bind fun result isReturnSize =>
    (effect_reserveResult _ rest isResult result isReturnSize).bind fun _ _ =>
      (effect_pushPointer _ _).bind fun _ _ => (pushes _).bind fun _ _ =>
        effect_cast (effect_enterCallable calls fit.2 _) (by omega) rfl

end Calls

section Slices

variable {base : Operation} {low high max : Operations}

/-- The operation of a bound leaves nothing on the stack but the bound. -/
def TakesBound (context : Context World) (operations : Operations) : Prop :=
  ∀ rest default, Effect rest rest (fun _ => True) (executeBound context operations default)

theorem takesBound_nil : TakesBound context .nil := by
  intro rest default
  rw [executeBound]
  exact Transfers.pure trivial

theorem takesBound_cons {operations : Operations} (pushes : Pushes context base wordBytes) :
    TakesBound context (.cons base operations) := by
  intro rest default
  rw [executeBound]
  exact (pushes rest).bind fun _ _ => effect_popLong rest

theorem effect_makeSlice (rest pointer unitSize : Nat) (low high max capacity : Int) :
    Effect rest (3 * wordBytes + rest) (fun _ => True)
      (makeSlice pointer unitSize low high max capacity : Run World Unit) := by
  rw [makeSlice]
  exact Transfers.ite (effect_pushSlice rest _) effect_stop

theorem pushes_sliceArray (pushes : Pushes context base wordBytes) (takesLow : TakesBound context low)
    (takesHigh : TakesBound context high) (takesMax : TakesBound context max)
    (dimension unitSize : Nat) :
    Pushes context (.sliceArray base low high max dimension unitSize) (3 * wordBytes) := by
  intro rest
  rw [execute]
  exact (pushes rest).bind fun _ _ => (effect_popPointer rest).bind fun pointer _ =>
    (takesLow rest _).bind fun low _ => (takesHigh rest _).bind fun high _ =>
      (takesMax rest _).bind fun max _ =>
        (effect_makeSlice rest _ _ _ _ _ _).bind fun _ _ => effect_done _

theorem pushes_sliceSlice (pushes : Pushes context base (3 * wordBytes))
    (takesLow : TakesBound context low) (takesHigh : TakesBound context high)
    (takesMax : TakesBound context max) (unitSize : Nat) :
    Pushes context (.sliceSlice base low high max unitSize) (3 * wordBytes) := by
  intro rest
  rw [execute]
  exact (pushes rest).bind fun _ _ => (effect_popSlice rest).bind fun s _ =>
    (takesLow rest _).bind fun low _ => (takesHigh rest _).bind fun high _ =>
      (takesMax rest _).bind fun max _ =>
        (effect_makeSlice rest _ _ _ _ _ _).bind fun _ _ => effect_done _

end Slices

section Printing

variable {child : Operation} {operations : Operations} {kind : Kind} {kinds : List Kind} {n : Nat}

def Prints (context : Context World) (operations : Operations) (kinds : List Kind) : Prop :=
  ∀ rest, Effect rest rest (fun _ => True) (executePrintln context operations kinds)

theorem prints_nil : Prints context .nil kinds := by
  intro rest
  rw [executePrintln]
  exact Transfers.pure trivial

theorem effect_printArgument (runtime : Runtime World)
    (isSize : kind.isPrintable = true → kind.size.map aligned = some n) (rest : Nat) :
    Effect (n + rest) rest (fun _ => True) (printArgument runtime kind) := by
  unfold printArgument
  split
  case isTrue isPrintable =>
    have isSize := isSize isPrintable
    cases sizeCase : kind.size with
    | none => exact effect_stop
    | some size =>
        rw [sizeCase, Option.map_some, Option.some.injEq] at isSize
        rw [← isSize]
        exact (effect_pop rest size).bind fun word _ => effect_use rest _
  case isFalse => exact effect_stop

theorem prints_cons (isSize : kind.isPrintable = true → kind.size.map aligned = some n)
    (pushes : Pushes context child n) (prints : Prints context operations kinds) :
    Prints context (.cons child operations) (kind :: kinds) := by
  intro rest
  rw [executePrintln]
  exact (pushes rest).bind fun _ _ =>
    (effect_printArgument context.runtime isSize rest).bind fun _ _ => prints rest

theorem prints_stop (notPrintable : kind.isPrintable = false) (pushes : Pushes context child n) :
    Prints context (.cons child operations) (kind :: kinds) := by
  intro rest
  rw [executePrintln, printArgument, notPrintable, if_neg Bool.false_ne_true]
  exact (pushes rest).bind fun _ _ => effect_stop

theorem pushes_println (prints : Prints context operations kinds) :
    Pushes context (.println kinds operations) 0 := by
  intro rest
  rw [execute, Nat.zero_add]
  exact (effect_use rest _).bind fun _ _ => (prints rest).bind fun _ _ =>
    (effect_use rest _).bind fun _ _ => effect_done _

end Printing

section Statements

variable {child condition left right body first second : Operation} {operations : Operations}
  {n : Nat}

/-- The operations of a block leave the stack as high as it was. -/
def NeutralAll (context : Context World) (operations : Operations) : Prop :=
  ∀ rest, Effect rest rest (fun _ => True) (executeList context operations)

theorem neutralAll_nil : NeutralAll context .nil := by
  intro rest
  rw [executeList_nil]
  exact Transfers.pure trivial

theorem neutralAll_cons (neutral : Neutral context child)
    (neutralRest : NeutralAll context operations) :
    NeutralAll context (.cons child operations) := by
  intro rest
  rw [executeList_cons]
  exact (neutral rest).bind fun control _ => Transfers.ite (Transfers.pure trivial)
    (neutralRest rest)

theorem neutral_list (neutral : NeutralAll context operations) :
    Neutral context (.list operations) := by
  intro rest
  rw [execute]
  exact neutral rest

theorem neutral_popn (pushes : Pushes context child (aligned n)) :
    Neutral context (.popn child n) := by
  intro rest
  rw [execute]
  exact (pushes rest).bind fun _ _ => (effect_popn rest n).bind fun _ _ => Transfers.pure trivial

theorem neutral_clear (offset : Int) (size : Nat) : Neutral context (.clear offset size) := by
  intro rest
  rw [execute]
  exact (effect_clear rest offset size).bind fun _ _ => Transfers.pure trivial

theorem neutral_assign (pushesLeft : Pushes context left wordBytes)
    (pushesRight : Pushes context right (aligned n)) :
    Neutral context (.assign left right n) := by
  intro rest
  rw [execute]
  exact (pushesLeft rest).bind fun _ _ => (effect_popPointer rest).bind fun pointer _ =>
    (pushesRight rest).bind fun _ _ => (effect_store rest pointer n).bind fun _ _ =>
      Transfers.pure trivial

theorem neutral_addAssign {kind : Kind} (isSize : kind.size = some n)
    (pushesLeft : Pushes context left wordBytes) (pushesRight : Pushes context right (aligned n)) :
    Neutral context (.addAssign kind left right) := by
  intro rest
  simp only [execute, isSize, orStop_some, pure_bind]
  exact (pushesLeft rest).bind fun _ _ => (effect_popPointer rest).bind fun pointer _ =>
    (pushesRight rest).bind fun _ _ => (effect_pop rest n).bind fun v _ =>
      (effect_read rest pointer n).bind fun old _ => (effect_orStop rest _).bind fun sum _ =>
        (effect_write rest pointer n sum).bind fun _ _ => Transfers.pure trivial

theorem neutral_increment (kind : Kind) (pushes : Pushes context child wordBytes) :
    Neutral context (.increment kind child) := by
  intro rest
  rw [execute]
  exact (pushes rest).bind fun _ _ => (effect_popPointer rest).bind fun pointer _ =>
    (effect_orStop rest _).bind fun size _ => (effect_read rest pointer size).bind fun old _ =>
      (effect_orStop rest _).bind fun next _ =>
        (effect_write rest pointer size next).bind fun _ _ => Transfers.pure trivial

theorem neutral_decrement (kind : Kind) (pushes : Pushes context child wordBytes) :
    Neutral context (.decrement kind child) := by
  intro rest
  rw [execute]
  exact (pushes rest).bind fun _ _ => (effect_popPointer rest).bind fun pointer _ =>
    (effect_orStop rest _).bind fun size _ => (effect_read rest pointer size).bind fun old _ =>
      (effect_orStop rest _).bind fun next _ =>
        (effect_write rest pointer size next).bind fun _ _ => Transfers.pure trivial

theorem neutral_returnOp (pushes : Pushes context child (aligned n)) (offset : Int) :
    Neutral context (.returnOp child offset n) := by
  intro rest
  rw [execute]
  exact (pushes rest).bind fun _ _ => (effect_move rest offset n).bind fun _ _ =>
    Transfers.pure trivial

theorem neutral_ifOp (pushes : Pushes context condition (aligned 1))
    (neutralFirst : Neutral context first) (neutralSecond : Neutral context second) :
    Neutral context (.ifOp condition first second) := by
  intro rest
  rw [execute]
  exact (pushes rest).bind fun _ _ => (effect_popBool rest).bind fun c _ =>
    Transfers.ite (neutralFirst rest) (neutralSecond rest)

theorem effect_whileBody (pushes : Pushes context condition (aligned 1))
    (neutral : Neutral context body) (rest : Nat) :
    Effect rest rest (fun _ => True)
      (whileBody (execute context condition) (execute context body)) :=
  (pushes rest).bind fun _ _ => (effect_popBool rest).bind fun _ _ =>
    Transfers.ite
      ((neutral rest).bind fun _ _ =>
        Transfers.ite (Transfers.pure trivial) (Transfers.pure trivial))
      (Transfers.pure trivial)

theorem neutral_whileOp (pushes : Pushes context condition (aligned 1))
    (neutral : Neutral context body) : Neutral context (.whileOp condition body) := by
  intro rest
  rw [execute]
  apply Transfers.repeatUntil
  exact (effect_whileBody pushes neutral rest).mono fun _ _ _ _ => trivial

theorem neutral_forIota (neutral : Neutral context body) (offset : Int) (limit : Nat) :
    Neutral context (.forIota offset limit body) := by
  intro rest
  rw [execute]
  generalize 0 = idx
  induction limit generalizing idx with
  | zero => exact Transfers.pure trivial
  | succ remaining inductionHypothesis =>
      exact (effect_getAddress rest offset).bind fun address _ =>
        (effect_write rest address wordBytes idx).bind fun _ _ =>
          (neutral rest).bind fun control _ =>
            Transfers.ite (Transfers.pure trivial) (inductionHypothesis (idx + 1))

theorem neutral_change (pushes : Pushes context child wordBytes) (neutral : Neutral context body)
    (offset : Int) : Neutral context (.change child offset body) := by
  intro rest
  rw [execute]
  exact (pushes rest).bind fun _ _ => (effect_popPointer rest).bind fun link _ =>
    (effect_useOrStop rest _).bind fun entered _ =>
      (effect_getAddress rest offset).bind fun address _ =>
        (effect_write rest address wordBytes entered.2).bind fun _ _ =>
          (neutral rest).bind fun control _ => (effect_use rest _).bind fun _ _ =>
            Transfers.pure trivial

theorem neutral_setRestoreCurrentInstance (neutral : Neutral context child) (offset : Int) :
    Neutral context (.setRestoreCurrentInstance child offset) := by
  intro rest
  rw [execute]
  exact (effect_readPointer rest offset).bind fun component _ =>
    (effect_use rest _).bind fun old _ => (neutral rest).bind fun control _ =>
      (effect_use rest _).bind fun _ _ => Transfers.pure trivial

end Statements

end Rcgo.Code
