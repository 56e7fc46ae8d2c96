import Rcgo.Transaction.Calls
import Rcgo.Transaction.TwoPhase

/-!
# The calling convention

The slots into which a caller puts arguments, the receiver and the iota are those
whose offsets the memory model has allocated for the parameters of the callee.
-/

namespace Rcgo.Transaction

open Rcgo.Code Rcgo.Foundation

section Frames

variable {σ : Type} {shared : Nat → Prop} {before middle after exec : Executor σ}

def Clear (shared : Nat → Prop) (exec : Executor σ) : Prop :=
  ∀ a, shared a → a < exec.top

/-- A part of a call leaves the frame of the caller and what lies below. -/
structure Kept (shared : Nat → Prop) (before after : Executor σ) : Prop where
  basePointer : after.basePointer = before.basePointer
  top : before.top ≤ after.top
  memory : ∀ a, a < before.top → ¬shared a → after.memory a = before.memory a

namespace Kept

theorem refl (exec : Executor σ) : Kept shared exec exec :=
  ⟨rfl, Nat.le_refl _, fun _ _ _ => rfl⟩

theorem trans (first : Kept shared before middle) (second : Kept shared middle after) :
    Kept shared before after where
  basePointer := second.basePointer.trans first.basePointer
  top := Nat.le_trans first.top second.top
  memory := fun a isBelow notShared =>
    (second.memory a (Nat.lt_of_lt_of_le isBelow first.top) notShared).trans
      (first.memory a isBelow notShared)

theorem clear (kept : Kept shared before after) (isClear : Clear shared before) :
    Clear shared after :=
  fun a isShared => Nat.lt_of_lt_of_le (isClear a isShared) kept.top

end Kept

theorem kept_reserve (exec : Executor σ) (size : Nat) :
    Kept shared exec (exec.onStack fun stack => stack.reserve size) where
  basePointer := rfl
  top := Nat.le_add_right _ _
  memory := fun _ isBelow _ => if_neg fun inside => absurd inside.1 (Nat.not_le_of_lt isBelow)

theorem Operand.execute_spec {count : Nat} (operand : Operand σ shared count)
    (exec : Executor σ) :
    (operand.execute exec).1.length = count ∧
      (operand.execute exec).2.top = exec.top + wordSize * count ∧
        Kept shared exec (operand.execute exec).2 ∧
          HoldsAt (operand.execute exec).2.memory exec.top (operand.execute exec).1 := by
  rcases isRun : operand.run ⟨exec.basePointer, exec.top, exec.currentInfo⟩ exec.memory
    exec.components with ⟨words, memory, components⟩
  have writes := operand.writes ⟨exec.basePointer, exec.top, exec.currentInfo⟩ exec.memory
    exec.components
  rw [isRun] at writes
  have isExecuted : operand.execute exec = (words.toList,
      Executor.onStack
        { exec with toStack := { exec.toStack with memory := memory }, components := components }
        fun stack => stack.pushAll words.toList) := by
    rw [Operand.execute, isRun]
  rcases Stack.pushAll_spec words.toList { exec.toStack with memory := memory } with
    ⟨pushPointer, pushTop, pushBelow⟩
  rw [isExecuted]
  rw [List.Vector.toList_length] at pushTop
  refine ⟨words.toList_length, pushTop, ⟨pushPointer, ?_, ?_⟩, ?_⟩
  · exact (Nat.le_add_right _ _).trans_eq pushTop.symm
  · intro a isBelow notShared
    exact (pushBelow a isBelow).trans (writes a isBelow notShared)
  · exact holdsAt_pushAll { exec.toStack with memory := memory } words.toList

theorem Operands.execute_spec {types : List DataType} (operands : Operands σ shared types)
    (exec : Executor σ) (isClear : Clear shared exec) :
    (operands.execute exec).1.map List.length = types.map wordsOf ∧
      (operands.execute exec).2.top = exec.top + wordSize * wordsOfAll types ∧
        Kept shared exec (operands.execute exec).2 ∧
          HoldsFrom (operands.execute exec).2.memory exec.top (operands.execute exec).1 := by
  induction operands generalizing exec with
  | nil => exact ⟨rfl, rfl, Kept.refl exec, trivial⟩
  | @cons type types operand rest inductionHypothesis =>
      rcases operand.execute_spec exec with ⟨isLength, isTop, kept, holds⟩
      rcases inductionHypothesis (operand.execute exec).2 (kept.clear isClear) with
        ⟨restLengths, restTop, restKept, restHolds⟩
      refine ⟨?_, ?_, kept.trans restKept, ?_, ?_⟩
      · rw [List.map_cons, ← isLength, ← restLengths]
        rfl
      · rw [wordsOfAll_cons, Nat.mul_add, ← Nat.add_assoc, ← isTop, ← restTop]
        rfl
      · refine holds.congr fun a above isBelow => ?_
        rw [isLength] at isBelow
        exact restKept.memory a (by omega) fun isShared => absurd (isClear a isShared) (by omega)
      · have place : exec.top + wordSize * (operand.execute exec).1.length =
            (operand.execute exec).2.top := by
          rw [isLength, isTop]
        change HoldsFrom _ (exec.top + wordSize * (operand.execute exec).1.length) _
        rw [place]
        exact restHolds

theorem enterFrame_spec (locals : Nat) (exec : Executor σ) :
    (enterFrame locals exec).basePointer = exec.top + wordSize ∧
      (enterFrame locals exec).top = exec.top + wordSize + wordSize + locals ∧
        (enterFrame locals exec).memory (exec.top + wordSize) = exec.basePointer ∧
          ∀ a, a < exec.top → (enterFrame locals exec).memory a = exec.memory a := by
  rcases Stack.setup_spec (exec.toStack.push 0) locals with ⟨isPointer, isTop, saved, isBelow⟩
  refine ⟨isPointer, isTop, saved, fun a belowTop => ?_⟩
  rw [← Stack.below_push 0 a belowTop]
  exact isBelow a (by rw [Stack.top_push]; omega)

end Frames

section Offsets

variable {parameters returns : List DataType} {callable : Callable} {body : Block DataType}
  {frame : StackFrame}

/-- The slots of a callable with these parameters and results: its parameters end
below the instruction pointer, and the results lie below the parameters. -/
structure Slots (frame : AllocatedParameters) (parameters returns : List DataType) : Prop where
  parameterTypes : typesOf frame.parameters = parameters
  returnTypes : typesOf frame.returns = returns
  parametersBelow : Descending wordSize frame.parameters
  returnsBelow : Descending (wordSize + wordSize * wordsOfAll parameters) frame.returns

theorem allocateSignature_slots {others results : List Parameter} {symbols : AllocatedParameters}
    {memoryModel : MemoryModel}
    (runs : allocateSignature others results = some (symbols, memoryModel)) :
    Slots symbols (others.map Parameter.type) (results.map Parameter.type) := by
  simp only [allocateSignature, Option.bind_eq_bind, Option.bind_eq_some_iff, Prod.exists,
    Option.some.injEq, Prod.mk.injEq] at runs
  rcases runs with ⟨parameters, middle, parametersRun, returns, last, returnsRun, rfl, _⟩
  rcases allocateParameters_spec parametersRun
    (show MemoryModel.initial.argumentsOffset = below wordSize from rfl) with
    ⟨parameterTypes, descending, isOffset⟩
  rcases allocateParameters_spec returnsRun isOffset with ⟨returnTypes, returnsDescending, _⟩
  rw [parameterTypes] at returnsDescending
  exact ⟨parameterTypes, returnTypes, descending, returnsDescending⟩

theorem allocateStackVariables_parameters
    (allocated : allocateStackVariables callable body = some frame) :
    ∃ memoryModel, callable.allocate = some (frame.parameters, memoryModel) ∧
      memoryModel.SameArguments frame.memoryModel := by
  simp only [allocateStackVariables, Option.bind_eq_bind, Option.bind_eq_some_iff,
    Prod.exists] at allocated
  rcases allocated with ⟨parameters, memoryModel, isAllocated, block, after, runs, isFrame⟩
  split at isFrame
  case isTrue =>
    rw [← Option.some.inj isFrame]
    exact ⟨memoryModel, isAllocated, allocateBlock_sameArguments runs⟩
  case isFalse => cases isFrame

theorem kind_ne_receiver (type : DataType) :
    (Parameter.make type).kind ≠ .receiver ∧ (Parameter.makeReturn type).kind ≠ .receiver := by
  constructor
  · intro same
    cases same
  · intro same
    cases same

theorem map_type_make (types : List DataType) :
    (types.map Parameter.make).map Parameter.type = types := by
  rw [List.map_map]
  exact List.map_id _

theorem map_type_makeReturn (types : List DataType) :
    (types.map Parameter.makeReturn).map Parameter.type = types := by
  rw [List.map_map]
  exact List.map_id _

theorem slots_of_hasSignature (signature : HasSignature parameters returns callable)
    (allocated : allocateStackVariables callable body = some frame) :
    Slots frame.parameters parameters returns := by
  rcases allocateStackVariables_parameters allocated with ⟨memoryModel, isAllocated, _⟩
  cases callable with
  | function others results =>
      have slots := allocateSignature_slots isAllocated
      rwa [signature.1, signature.2, map_type_make, map_type_makeReturn] at slots
  | method others results | initializer others results | getter others results =>
      rcases signature with ⟨receiver, types, rfl, rfl, rfl⟩
      have slots := allocateSignature_slots isAllocated
      rwa [List.map_cons, map_type_make, map_type_makeReturn] at slots
  | action receiver iota => exact signature.elim
  | bind receiver => exact signature.elim
  | reaction others iota => exact signature.elim

theorem receiverOffset_of_hasSignature (signature : HasSignature parameters returns callable)
    (allocated : allocateStackVariables callable body = some frame)
    (isMethod : hasReceiver callable = true) :
    frame.memoryModel.receiverOffset =
      frame.parameters.parameters.head?.map StackSymbol.offset := by
  rcases allocateStackVariables_parameters allocated with ⟨memoryModel, isAllocated, same⟩
  cases callable with
  | function others results => cases isMethod
  | method others results | initializer others results | getter others results =>
      rcases signature with ⟨receiver, types, rfl, rfl, rfl⟩
      simp only [Callable.allocate, allocateSignature, Option.bind_eq_bind, Option.bind_eq_some_iff,
        Prod.exists, Option.some.injEq, Prod.mk.injEq] at isAllocated
      rcases isAllocated with ⟨symbols, middle, parametersRun, results, last, returnsRun, isFrame, rfl⟩
      rw [same.2, allocateParameters_receiver returnsRun, ← isFrame]
      · exact allocateParameters_makeReceiver parametersRun
      · intro parameter isParameter
        rcases List.mem_map.mp isParameter with ⟨type, _, rfl⟩
        exact (kind_ne_receiver type).2
  | action receiver iota => exact signature.elim
  | bind receiver => exact signature.elim
  | reaction others iota => exact signature.elim

end Offsets

section Calls

variable {σ : Type} {shared : Nat → Prop} {parameters returns types : List DataType}
  {receiver : DataType}

/-- A callable is called with the values: `before` is the caller's state and
`entered` the state in which the operation of the callee starts. -/
structure Entered (callee : Callee σ shared parameters returns) (values : List (List Nat))
    (before entered : Executor σ) : Prop where
  lengths : values.map List.length = parameters.map wordsOf
  holds : HoldsFrom entered.memory (before.top + wordSize * wordsOfAll returns) values
  basePointer : entered.basePointer =
    before.top + wordSize * wordsOfAll returns + wordSize * wordsOfAll parameters + wordSize
  top : entered.top = entered.basePointer + wordSize + callee.locals
  saved : entered.memory entered.basePointer = before.basePointer
  memory : ∀ a, a < before.top → ¬shared a → entered.memory a = before.memory a

/-- Caller and callee agree on a call.  Every value is in the slot of its
parameter; the slots of the results, of the parameters and the locals lie one
behind the other, with the instruction pointer and the saved base pointer before
the locals; and behind the call the stack is what it was before with the results
on top, as the callee has left them. -/
structure Agree (callee : Callee σ shared parameters returns) (values : List (List Nat))
    (before entered after : Executor σ) : Prop where
  finds : Finds entered.memory entered.basePointer callee.frame.parameters.parameters values
  returnsPlaced : Consecutive entered.basePointer before.top callee.frame.parameters.returns
    (before.top + wordSize * wordsOfAll returns)
  parametersPlaced : Consecutive entered.basePointer (before.top + wordSize * wordsOfAll returns)
    callee.frame.parameters.parameters (entered.basePointer - wordSize)
  locals : entered.top = entered.basePointer + wordSize + callee.locals
  receiver : hasReceiver callee.callable = true →
    callee.frame.memoryModel.receiverOffset =
      callee.frame.parameters.parameters.head?.map StackSymbol.offset
  basePointer : after.basePointer = before.basePointer
  top : after.top = before.top + wordSize * wordsOfAll returns
  memory : ∀ a, a < before.top → ¬shared a → after.memory a = before.memory a
  result : ∀ a, before.top ≤ a → a < after.top → after.memory a = (callee.call entered).memory a

/-- The stack fits into the address space up to the frame of the callee. -/
def Fits (parameters returns : List DataType) (exec : Executor σ) : Prop :=
  exec.top + wordSize * wordsOfAll returns + wordSize * wordsOfAll parameters + wordSize < 2 ^ 64

theorem Entered.agree {callee : Callee σ shared parameters returns} {values : List (List Nat)}
    {before entered : Executor σ} (isEntered : Entered callee values before entered)
    (isClear : Clear shared before) (fits : Fits parameters returns before) :
    Agree callee values before entered (leaveCall parameters (callee.call entered)) := by
  have slots := slots_of_hasSignature callee.signature callee.allocated
  have isBase := isEntered.basePointer
  have inSpace : entered.basePointer < 2 ^ 64 := isBase ▸ fits
  have parametersPlaced := slots.parametersBelow.consecutive _ inSpace (by
    rw [slots.parameterTypes]
    exact isBase)
  have returnsPlaced := slots.returnsBelow.consecutive before.top inSpace (by
    rw [slots.returnTypes, isBase]
    omega)
  have returnsEnd : entered.basePointer - (wordSize + wordSize * wordsOfAll parameters) =
      before.top + wordSize * wordsOfAll returns := by
    rw [isBase]
    omega
  rw [returnsEnd] at returnsPlaced
  have isMemory : (leaveCall parameters (callee.call entered)).memory =
      (callee.call entered).memory := rfl
  have writes : ∀ a, a < before.top ∨ a = entered.basePointer → ¬shared a →
      (callee.call entered).memory a = entered.memory a := by
    intro a place notShared
    have isTop := isEntered.top
    apply callee.writes ⟨entered.basePointer, entered.top, entered.currentInfo⟩
    · simp only [wordSize] at *
      omega
    · exact notShared
    · simp only [OwnFrame, wordSize] at *
      omega
  refine ⟨parametersPlaced.finds isEntered.holds ?_, returnsPlaced, parametersPlaced, isEntered.top,
    receiverOffset_of_hasSignature callee.signature callee.allocated, ?_, ?_, ?_, fun a _ _ => rfl⟩
  · rw [isEntered.lengths, slots.parameterTypes]
  · have notShared : ¬shared entered.basePointer := fun isShared => by
      have := isClear _ isShared
      omega
    have teardown := (Stack.teardown_spec (callee.call entered).toStack).2.2
    exact teardown.trans ((writes _ (Or.inr rfl) notShared).trans isEntered.saved)
  · have teardown := (Stack.teardown_spec (callee.call entered).toStack).2.1
    change (callee.call entered).toStack.teardown.top - wordSize -
      wordSize * wordsOfAll parameters = _
    rw [teardown]
    change entered.basePointer - wordSize - wordSize * wordsOfAll parameters = _
    rw [isBase]
    omega
  · intro a isBelow notShared
    rw [isMemory, writes a (Or.inl isBelow) notShared]
    exact isEntered.memory a isBelow notShared

theorem entered_of_kept {callee : Callee σ shared parameters returns} {values : List (List Nat)}
    {before pushed : Executor σ} (lengths : values.map List.length = parameters.map wordsOf)
    (isTop : pushed.top = before.top + wordSize * wordsOfAll returns + wordSize * wordsOfAll parameters)
    (kept : Kept shared before pushed)
    (holds : HoldsFrom pushed.memory (before.top + wordSize * wordsOfAll returns) values) :
    Entered callee values before (enterFrame callee.locals pushed) := by
  rcases enterFrame_spec callee.locals pushed with ⟨isPointer, isFrameTop, saved, isBelow⟩
  refine ⟨lengths, ?_, ?_, ?_, ?_, ?_⟩
  · refine holds.congr fun a _ inside => isBelow a ?_
    rw [lengths] at inside
    rw [isTop]
    exact inside
  · rw [isPointer, isTop]
  · rw [isFrameTop, isPointer]
  · rw [isPointer, saved, kept.basePointer]
  · intro a belowTop notShared
    rw [isBelow a (Nat.lt_of_lt_of_le belowTop kept.top)]
    exact kept.memory a belowTop notShared

theorem enterFunction_entered (callee : Callee σ shared parameters returns)
    (arguments : Operands σ shared parameters) (exec : Executor σ) (isClear : Clear shared exec) :
    Entered callee (enterFunction callee arguments exec).1 exec
      (enterFunction callee arguments exec).2 := by
  have reserved : Kept shared exec _ := kept_reserve exec (wordSize * wordsOfAll returns)
  rcases arguments.execute_spec _ (reserved.clear isClear) with ⟨lengths, isTop, kept, holds⟩
  exact entered_of_kept lengths isTop (reserved.trans kept) holds

theorem enterMethod_entered (callee : Callee σ shared (receiver :: types) returns)
    (receiverOperand : Operand σ shared (wordsOf receiver)) (arguments : Operands σ shared types)
    (exec : Executor σ) (isClear : Clear shared exec) :
    Entered callee (enterMethod callee receiverOperand arguments exec).1 exec
      (enterMethod callee receiverOperand arguments exec).2 := by
  have reserved : Kept shared exec _ := kept_reserve exec (wordSize * wordsOfAll returns)
  rcases (Operands.cons receiverOperand arguments).execute_spec _ (reserved.clear isClear) with
    ⟨lengths, isTop, kept, holds⟩
  exact entered_of_kept lengths isTop (reserved.trans kept) holds

def Operand.pointer (component : DataType) (word : Nat) :
    Operand σ shared (wordsOf (.pointer component)) where
  run := fun _ memory components => (⟨[word], (wordsOf_pointer component).symm⟩, memory, components)
  writes := fun _ _ _ _ _ _ => rfl

theorem enterPullPort_eq (getter : BoundGetter σ shared types returns) (instance_ : Nat)
    (arguments : Operands σ shared types) (exec : Executor σ) :
    enterPullPort getter instance_ arguments exec =
      enterMethod getter.callee (Operand.pointer getter.component instance_) arguments exec :=
  rfl

theorem popPullPort_kept (func : Operand σ shared 2) (exec : Executor σ) :
    Kept shared exec (popPullPort func exec).2.2 ∧ (popPullPort func exec).2.2.top = exec.top := by
  rcases func.execute_spec exec with ⟨isLength, isTop, kept, _⟩
  rcases Stack.popAll_spec (func.execute exec).1 (func.execute exec).2.toStack with
    ⟨isMemory, isPointer, isPopped⟩
  have sameTop : (popPullPort func exec).2.2.top = exec.top := by
    change ((func.execute exec).2.toStack.popAll (func.execute exec).1).top = exec.top
    rw [isPopped, isTop, isLength]
    omega
  refine ⟨⟨isPointer.trans kept.basePointer, Nat.le_of_eq sameTop.symm, ?_⟩, sameTop⟩
  intro a isBelow notShared
  exact (congrFun isMemory a).trans (kept.memory a isBelow notShared)

theorem Entered.of_kept {callee : Callee σ shared parameters returns} {values : List (List Nat)}
    {before middle entered : Executor σ} (isEntered : Entered callee values middle entered)
    (kept : Kept shared before middle) (sameTop : middle.top = before.top) :
    Entered callee values before entered where
  lengths := isEntered.lengths
  holds := sameTop ▸ isEntered.holds
  basePointer := sameTop ▸ isEntered.basePointer
  top := isEntered.top
  saved := isEntered.saved.trans kept.basePointer
  memory := fun a isBelow notShared =>
    (isEntered.memory a (sameTop.symm ▸ isBelow) notShared).trans (kept.memory a isBelow notShared)

end Calls

/-! ## Actions and reactions -/

section Iota

variable {types : List DataType} {component : DataType} {dimension : Option Nat}
  {body : Block DataType} {frame : StackFrame}

/-- An action of a component; `none` stands for the dimension `-1`. -/
def actionCallable (component : DataType) (dimension : Option Nat) : Callable :=
  .action (Parameter.makeReceiver (.pointer component))
    (dimension.map fun _ => Parameter.make (.basic .int))

/-- A reaction of a component with the parameters of the ports it is bound to. -/
def reactionCallable (component : DataType) (types : List DataType) (dimension : Option Nat) :
    Callable :=
  .reaction (Parameter.makeReceiver (.pointer component) :: types.map Parameter.make)
    (dimension.map fun _ => Parameter.make (.basic .int))

/-- The iota and the parameters, in the order in which they lie on the stack. -/
def frameSlots (frame : StackFrame) : List StackSymbol :=
  frame.parameters.iota.toList ++ frame.parameters.parameters

/-- The types of the iota and the parameters of an action or a reaction. -/
def typesWithIota (component : DataType) (types : List DataType) (dimension : Option Nat) :
    List DataType :=
  (dimension.toList.map fun _ => DataType.basic .int) ++ .pointer component :: types

/-- What has been pushed for an action or a reaction is found in the slots that
are allocated for it, which end below the instruction pointer. -/
structure EntersFrame (frame : StackFrame) (locals : Nat) (values : List (List Nat))
    (before entered : Stack) : Prop where
  finds : Finds entered.memory entered.basePointer (frameSlots frame) values
  placed : Consecutive entered.basePointer before.top (frameSlots frame)
    (entered.basePointer - wordSize)
  locals : entered.top = entered.basePointer + wordSize + locals
  receiver : frame.memoryModel.receiverOffset =
    frame.parameters.parameters.head?.map StackSymbol.offset

theorem allocateIota_toList {memoryModel after : MemoryModel} {iota : Option Parameter}
    {symbol : Option StackSymbol} (runs : allocateIota memoryModel iota = some (symbol, after)) :
    allocateParameters memoryModel iota.toList = some (symbol.toList, after) := by
  cases iota with
  | none =>
      cases runs
      rfl
  | some parameter =>
      simp only [allocateIota, Option.map_eq_some_iff, Prod.exists, Prod.mk.injEq] at runs
      rcases runs with ⟨placed, last, isPlaced, rfl, rfl⟩
      simp only [Option.toList_some, allocateParameters, isPlaced, Option.bind_eq_bind,
        Option.bind_some]

theorem slots_of_withIota {symbols : AllocatedParameters} {memoryModel : MemoryModel}
    (runs : allocateWithIota (Parameter.makeReceiver (.pointer component) :: types.map Parameter.make)
      (dimension.map fun _ => Parameter.make (.basic .int)) = some (symbols, memoryModel)) :
    typesOf (symbols.iota.toList ++ symbols.parameters) = typesWithIota component types dimension ∧
      Descending wordSize (symbols.iota.toList ++ symbols.parameters) ∧
        memoryModel.receiverOffset = symbols.parameters.head?.map StackSymbol.offset := by
  simp only [allocateWithIota, Option.bind_eq_bind, Option.bind_eq_some_iff, Prod.exists,
    Option.some.injEq, Prod.mk.injEq] at runs
  rcases runs with ⟨parameters, middle, parametersRun, iota, last, iotaRuns, rfl, rfl⟩
  rcases allocateParameters_spec parametersRun
    (show MemoryModel.initial.argumentsOffset = below wordSize from rfl) with
    ⟨parameterTypes, descending, isOffset⟩
  have iotaRuns := allocateIota_toList iotaRuns
  rcases allocateParameters_spec iotaRuns isOffset with ⟨iotaTypes, iotaDescending, _⟩
  refine ⟨?_, iotaDescending.append descending, ?_⟩
  · rw [typesOf_append, iotaTypes, parameterTypes, List.map_cons, map_type_make]
    cases dimension with
    | none => rfl
    | some _ => rfl
  · rw [allocateParameters_receiver iotaRuns]
    · exact allocateParameters_makeReceiver parametersRun
    · cases dimension with
      | none => exact fun _ isParameter => absurd isParameter List.not_mem_nil
      | some _ =>
          intro parameter isParameter
          rw [List.mem_singleton.mp isParameter]
          exact (kind_ne_receiver (.basic .int)).1

theorem slots_of_action
    (allocated : allocateStackVariables (actionCallable component dimension) body = some frame) :
    typesOf (frameSlots frame) = typesWithIota component [] dimension ∧
      Descending wordSize (frameSlots frame) ∧
        frame.memoryModel.receiverOffset =
          frame.parameters.parameters.head?.map StackSymbol.offset := by
  rcases allocateStackVariables_parameters allocated with ⟨memoryModel, isAllocated, same⟩
  rw [same.2]
  exact slots_of_withIota isAllocated

theorem slots_of_reaction
    (allocated : allocateStackVariables (reactionCallable component types dimension) body =
      some frame) :
    typesOf (frameSlots frame) = typesWithIota component types dimension ∧
      Descending wordSize (frameSlots frame) ∧
        frame.memoryModel.receiverOffset =
          frame.parameters.parameters.head?.map StackSymbol.offset := by
  rcases allocateStackVariables_parameters allocated with ⟨memoryModel, isAllocated, same⟩
  rw [same.2]
  exact slots_of_withIota isAllocated

theorem entersFrame_of_holds {before : Stack} (pushed : Stack) (basePointer : Nat) {locals : Nat}
    {values : List (List Nat)}
    (slots : Descending wordSize (frameSlots frame) ∧
      frame.memoryModel.receiverOffset = frame.parameters.parameters.head?.map StackSymbol.offset)
    (lengths : values.map List.length = (typesOf (frameSlots frame)).map wordsOf)
    (isTop : pushed.top = before.top + wordSize * wordsOfAll (typesOf (frameSlots frame)))
    (holds : HoldsFrom pushed.memory before.top values) (fits : pushed.top + wordSize < 2 ^ 64) :
    EntersFrame frame locals values before
      (({ pushed.push 0 with basePointer := basePointer } : Stack).setup locals) := by
  rcases Stack.setup_spec ({ pushed.push 0 with basePointer := basePointer } : Stack) locals with
    ⟨isPointer, isFrameTop, _, isBelow⟩
  have isBase : (({ pushed.push 0 with basePointer := basePointer } : Stack).setup locals).basePointer =
      pushed.top + wordSize := isPointer
  have placed := slots.1.consecutive before.top fits (by rw [isTop])
  rw [← isBase] at placed
  refine ⟨placed.finds (holds.congr fun a _ inside => ?_) lengths, placed, ?_, slots.2⟩
  · rw [lengths] at inside
    have belowTop : a < pushed.top := by
      rw [isTop]
      exact inside
    exact (isBelow a (Nat.lt_add_right wordSize belowTop)).trans (Stack.below_push 0 a belowTop)
  · rw [isFrameTop, isBase]
    rfl

def leadingValues (iota : Option Nat) (instance_ : Nat) : List (List Nat) :=
  (iota.toList.map fun word => [word]) ++ [[instance_]]

theorem flatten_leadingValues (iota : Option Nat) (instance_ : Nat) :
    (leadingValues iota instance_).flatten = iota.toList ++ [instance_] := by
  cases iota with
  | none => rfl
  | some word => rfl

theorem lengths_leadingValues (component : DataType) {iota : Option Nat} (instance_ : Nat)
    (isIota : iota.isSome = dimension.isSome) {values : List (List Nat)}
    (lengths : values.map List.length = types.map wordsOf) :
    (leadingValues iota instance_ ++ values).map List.length =
      (typesWithIota component types dimension).map wordsOf := by
  cases iota with
  | none =>
      cases dimension with
      | none =>
          change 1 :: values.map List.length = wordsOf (.pointer component) :: types.map wordsOf
          rw [wordsOf_pointer, lengths]
      | some _ => cases isIota
  | some word =>
      cases dimension with
      | none => cases isIota
      | some _ =>
          change 1 :: 1 :: values.map List.length =
            wordsOf (.basic .int) :: wordsOf (.pointer component) :: types.map wordsOf
          rw [wordsOf_int, wordsOf_pointer, lengths]

theorem holdsFrom_leading (stack : Stack) (iota : Option Nat) (instance_ : Nat) :
    HoldsFrom ((stack.pushAll iota.toList).push instance_).memory stack.top
      (leadingValues iota instance_) := by
  have holds := holdsAt_pushAll stack (iota.toList ++ [instance_])
  rw [← flatten_leadingValues] at holds
  have holds := holds.holdsFrom
  rw [flatten_leadingValues, pushAll_append] at holds
  exact holds

theorem top_leading (stack : Stack) (iota : Option Nat) (instance_ : Nat) :
    ((stack.pushAll iota.toList).push instance_).top =
      stack.top + wordSize * ((leadingValues iota instance_).map List.length).sum := by
  rw [Stack.top_push, (Stack.pushAll_spec iota.toList stack).2.1]
  cases iota with
  | none => rfl
  | some word => rfl

theorem holdsFrom_load {stack : Stack} {source size : Nat} (distance : Nat)
    {values : List (List Nat)} (holds : HoldsFrom stack.memory (source + distance) values)
    (inside : distance + wordSize * (values.map List.length).sum ≤ size) :
    HoldsFrom (stack.load source size).memory (stack.top + distance) values := by
  induction values generalizing distance with
  | nil => trivial
  | cons words rest inductionHypothesis =>
      rw [List.map_cons, List.sum_cons, Nat.mul_add] at inside
      constructor
      · intro j isWord
        have isInside : wordSize * j < wordSize * words.length :=
          Nat.mul_lt_mul_of_pos_left isWord (by decide)
        have isCopied : (stack.load source size).memory (stack.top + distance + wordSize * j) =
            stack.memory (source + (stack.top + distance + wordSize * j - stack.top)) :=
          if_pos (by omega)
        rw [isCopied, ← holds.1 j isWord]
        congr 1
        omega
      · have restHolds := holds.2
        rw [Nat.add_assoc] at restHolds ⊢
        exact inductionHypothesis _ restHolds (by omega)

/-- The frame of a reaction: `push_port_call` copies the arguments of the call,
which lie below, behind the iota and the instance. -/
theorem entersFrame_reaction {stack : Stack} {parameter : Option Nat}
    {instance_ topBefore lastFrame locals : Nat} {values : List (List Nat)}
    (allocated : allocateStackVariables (reactionCallable component types dimension) body =
      some frame)
    (isIota : parameter.isSome = dimension.isSome)
    (lengths : values.map List.length = types.map wordsOf)
    (holds : HoldsFrom stack.memory topBefore values)
    (isBelow : topBefore + wordSize * wordsOfAll types ≤ stack.top)
    (fits : (stack.enter parameter instance_ topBefore (wordsOfAll types) lastFrame
      locals).basePointer < 2 ^ 64) :
    EntersFrame frame locals (leadingValues parameter instance_ ++ values) stack
      (stack.enter parameter instance_ topBefore (wordsOfAll types) lastFrame locals) := by
  rcases slots_of_reaction allocated with ⟨areTypes, descending, isReceiver⟩
  have allLengths := lengths_leadingValues component instance_ isIota lengths
  rw [← areTypes] at allLengths
  have isSum : (values.map List.length).sum = wordsOfAll types := by
    rw [lengths, wordsOfAll]
  have isTotal : ((leadingValues parameter instance_ ++ values).map List.length).sum =
      wordsOfAll (typesOf (frameSlots frame)) := by
    rw [allLengths, wordsOfAll]
  rw [List.map_append, List.sum_append, isSum] at isTotal
  have isTop := top_leading stack parameter instance_
  apply entersFrame_of_holds _ lastFrame ⟨descending, isReceiver⟩ allLengths
  · change ((stack.pushAll parameter.toList).push instance_).top + wordSize * wordsOfAll types = _
    rw [isTop, ← isTotal, Nat.mul_add, Nat.add_assoc]
  · rw [holdsFrom_append]
    constructor
    · refine (holdsFrom_leading stack parameter instance_).congr fun a _ inside => ?_
      exact Stack.below_load _ _ a (by rw [isTop]; exact inside)
    · rw [← isTop]
      apply holdsFrom_load 0
      · refine holds.congr fun a above inside => ?_
        rw [isSum] at inside
        have pushed := (Stack.pushAll_spec parameter.toList stack)
        exact (Stack.below_push instance_ a (by rw [pushed.2.1]; omega)).trans
          (pushed.2.2 a (by omega))
      · rw [isSum, Nat.zero_add]
  · exact fits

/-- What `enabled` and `execute_no_check` push before the operation of an action
runs: the iota, the instance and the instruction pointer, and its frame. -/
def Stack.enterAction (stack : Stack) (iota : Option Nat) (instance_ locals : Nat) : Stack :=
  (((stack.pushAll iota.toList).push instance_).push 0).setup locals

theorem entersFrame_action {stack : Stack} {iota : Option Nat} {instance_ locals : Nat}
    (allocated : allocateStackVariables (actionCallable component dimension) body = some frame)
    (isIota : iota.isSome = dimension.isSome)
    (fits : (stack.enterAction iota instance_ locals).basePointer < 2 ^ 64) :
    EntersFrame frame locals (leadingValues iota instance_) stack
      (stack.enterAction iota instance_ locals) := by
  rcases slots_of_action allocated with ⟨areTypes, descending, isReceiver⟩
  have lengths := lengths_leadingValues component instance_ isIota
    (show ([] : List (List Nat)).map List.length = ([] : List DataType).map wordsOf from rfl)
  rw [← areTypes, List.append_nil] at lengths
  have isTop := top_leading stack iota instance_
  rw [lengths] at isTop
  exact entersFrame_of_holds _ ((stack.pushAll iota.toList).push instance_).basePointer
    ⟨descending, isReceiver⟩ lengths isTop (holdsFrom_leading stack iota instance_) fits

end Iota

end Rcgo.Transaction
