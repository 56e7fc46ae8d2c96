import Rcgo.Code.ExpressionPreservation
import Rcgo.Code.Meaning
import Rcgo.Code.StackDiscipline
import Rcgo.Foundation.Sameness

/-!
# Code generation and the meaning of statements

The operation of a statement does what the statement means without the init
statements of its `if` statements.
-/

namespace Rcgo.Code

open Rcgo.Foundation Machine

/-! ## Memory -/

namespace Memory

theorem read_byte (memory : Memory) (address size i : Nat) (inside : i < size) :
    UInt8.ofNat (memory.read address size / 256 ^ i) = memory (address + i) := by
  induction size generalizing address i with
  | zero => exact absurd inside (Nat.not_lt_zero i)
  | succ size inductionHypothesis =>
      rw [read]
      cases i with
      | zero =>
          rw [Nat.pow_zero, Nat.div_one, Nat.add_zero address, ← UInt8.toNat_inj, UInt8.toNat_ofNat']
          have below : (memory address).toNat < 256 := (memory address).toNat_lt
          omega
      | succ i =>
          have below : (memory address).toNat < 256 := (memory address).toNat_lt
          have shifted :
              ((memory address).toNat + 256 * memory.read (address + 1) size) / 256 ^ (i + 1) =
                memory.read (address + 1) size / 256 ^ i := by
            rw [Nat.pow_succ', ← Nat.div_div_eq_div_mul]
            congr 1
            omega
          rw [shifted, inductionHypothesis (address + 1) i (Nat.lt_of_succ_lt_succ inside)]
          congr 1
          omega

theorem write_read (memory : Memory) (target source size : Nat) :
    memory.write target size (memory.read source size) = memory.copy target source size := by
  funext a
  unfold write copy
  split
  case isTrue inside => exact memory.read_byte source size (a - target) (by omega)
  case isFalse => rfl

end Memory

variable {World : Type}

theorem store_eq (pointer size : Nat) :
    (store pointer size : Run World Unit) =
      (do
        let word ← pop size
        write pointer size word) := by
  simp only [store, pop, bind_assoc]
  congr 1
  funext address machine
  change Outcome.ok ((), { machine with memory := machine.memory.copy pointer address size }) =
    Outcome.ok ((), { machine with
      memory := machine.memory.write pointer size (machine.memory.read address size) })
  rw [Memory.write_read]

theorem move_eq (offset : Int) (size : Nat) :
    (move offset size : Run World Unit) =
      (do
        let word ← pop size
        let address ← getAddress offset
        write address size word) := by
  simp only [move, pop, bind_assoc]
  congr 1
  funext address machine
  change
    Outcome.ok ((), { machine with
      memory := machine.memory.copy (machine.address offset) address size }) =
    Outcome.ok ((), { machine with
      memory := machine.memory.write (machine.address offset) size
        (machine.memory.read address size) })
  rw [Memory.write_read]

/-! ## Calls -/

section Calls

variable {context : Context World} {call : Nat → Run World Unit}

/-- The machines whose stack reaches to the end of the locals. -/
def AboveFloor (machine : Machine World) : Prop :=
  machine.frame.floor ≤ machine.top

theorem setup_congr {size : Nat} {body other : Run World Control} (same : SameOn AboveFloor body other) :
    (do setup size; body) = (do setup size; other) := by
  funext machine
  exact same _ (Nat.le_refl _)

/-- Callables that do the same when they are entered. -/
def SameCalls (context : Context World) (call : Nat → Run World Unit) : Prop :=
  ∀ callable, SameOn AboveFloor (context.call callable) (call callable)

theorem enterCallable_congr (same : SameCalls context call) (callable : Nat) :
    enterCallable context callable = enterCallable { context with call := call } callable := by
  unfold enterCallable
  congr 1
  funext _
  exact setup_congr (same callable).bind_right

mutual

theorem execute_congr (same : SameCalls context call) (operation : Operation) :
    execute context operation = execute { context with call := call } operation := by
  cases operation with
  | literal | clear | reference | newOp | newHeapOp | noop => rw [execute, execute]
  | load child | convertToInt kind child | convertToUint kind child | select child
  | setRestoreCurrentInstance child | logicNot child | increment kind child
  | decrement kind child | conversion source target child | convertStringToSliceOfBytes child
  | convertSliceOfBytesToString child | popn child | returnOp child | moveOp child
  | mergeOp child | lenOp child | appendOp unitSize child | copySliceOp unitSize child
  | copyStringOp child =>
      rw [execute, execute, execute_congr same child]
  | indexSlice first second | logicOr first second | logicAnd first second | assign first second
  | addAssign kind first second | indexArray first second | binary functor kind first second
  | shift operator kind first second | change first offset second | whileOp first second =>
      rw [execute, execute, execute_congr same first, execute_congr same second]
  | list operations => rw [execute, execute, executeList_congr same operations]
  | functionCall callable arguments =>
      rw [execute, execute, execute_congr same arguments, enterCallable_congr same]
  | methodCall callable receiver arguments =>
      rw [execute, execute, execute_congr same receiver, execute_congr same arguments,
        enterCallable_congr same]
  | dynamicPullPortCall type func arguments =>
      have entered :
          enterCallable context = enterCallable { context with call := call } :=
        funext (enterCallable_congr same)
      rw [execute, execute, execute_congr same func, execute_congr same arguments, entered]
  | sliceArray base low high max =>
      rw [execute, execute, execute_congr same base, executeBound_congr same low, executeBound_congr same high,
        executeBound_congr same max]
  | sliceSlice base low high max =>
      rw [execute, execute, execute_congr same base, executeBound_congr same low, executeBound_congr same high,
        executeBound_congr same max]
  | ifOp condition first second =>
      rw [execute, execute, execute_congr same condition, execute_congr same first, execute_congr same second]
  | forIota offset limit body => rw [execute, execute, execute_congr same body]
  | println kinds operations => rw [execute, execute, executePrintln_congr same operations]

theorem executeList_congr (same : SameCalls context call) (operations : Operations) :
    executeList context operations = executeList { context with call := call } operations := by
  cases operations with
  | nil => rw [executeList, executeList]
  | cons operation rest =>
      rw [executeList, executeList, execute_congr same operation, executeList_congr same rest]

theorem executePrintln_congr (same : SameCalls context call) (operations : Operations) :
    executePrintln context operations = executePrintln { context with call := call } operations := by
  funext kinds
  cases operations with
  | nil => rw [executePrintln, executePrintln]
  | cons operation rest =>
      cases kinds with
      | nil => rw [executePrintln, executePrintln]
      | cons kind kinds =>
          rw [executePrintln, executePrintln, execute_congr same operation, executePrintln_congr same rest]

theorem executeBound_congr (same : SameCalls context call) (operations : Operations) :
    executeBound context operations = executeBound { context with call := call } operations := by
  funext default
  cases operations with
  | nil => rw [executeBound, executeBound]
  | cons operation rest => rw [executeBound, executeBound, execute_congr same operation]

end

end Calls

/-! ## Statements -/

section Statements

variable {context : Context World} {declarations : Declarations} {operation loaded : Operation}
  {operations : Operations} {expression child : Expression} {n : Nat}

theorem Neutral.keeps (neutral : Neutral context operation) :
    Keeps AboveFloor (execute context operation) :=
  (neutral 0).keeps

theorem place_eq (isGenerated : expression.generate declarations = some operation) :
    expression.place context declarations =
      (do
        let _ ← execute context operation
        popPointer) :=
  ((expression.performs context isGenerated).bind popPointer).symm

theorem value_eq (isGenerated : expression.generate declarations = some operation)
    (isLoaded : expression.load operation = some loaded) (size : Nat) :
    expression.value context declarations size =
      (do
        let _ ← execute context loaded
        pop size) :=
  (((expression.performs context isGenerated).valued isLoaded).bind (pop size)).symm

theorem truth_eq (isGenerated : expression.generate declarations = some operation)
    (isLoaded : expression.load operation = some loaded) (notConstant : expression.constant = none) :
    expression.truth context declarations =
      (do
        let _ ← execute context loaded
        popBool) := by
  unfold Expression.truth
  rw [notConstant]
  dsimp only
  rw [value_eq isGenerated isLoaded, bind_assoc]
  rfl

theorem effect_apply (isGenerated : child.generate declarations = some operation) (machine : Machine World) :
    (do
      child.effect context declarations
      pure .controlContinue : Run World Control) machine =
      execute context operation machine >>= fun result =>
        .ok (.controlContinue, { result.2 with top := machine.top }) := by
  have performs : execute context operation = _ := child.performs context isGenerated
  rw [performs]
  change (child.effect context declarations machine >>= fun result =>
    Outcome.ok (Control.controlContinue, result.2)) =
      (child.evaluate context declarations machine >>= fun result =>
        Outcome.ok (Control.controlContinue, result.2)) >>= _
  rw [Expression.effect, bind_assoc, bind_assoc]
  rfl

theorem discard_preserved {discarded : Operation} (serves : context.Serves declarations)
    (checked : child.Checked declarations)
    (isKind : child.kind ∈ [ExpressionKind.value, .variable, .void])
    (balanced : child.IsBalanced) (isGenerated : child.generate declarations = some operation)
    (isDiscarded : child.discard operation = some discarded) :
    SameOn AboveFloor (execute context discarded)
      (do
        child.effect context declarations
        pure .controlContinue) := by
  intro machine above
  rw [effect_apply isGenerated]
  rcases discard_spec serves checked isKind balanced isGenerated isDiscarded with
    ⟨same, pushes⟩ | ⟨size, isPop, pushes⟩
  · have raised := pushes 0 machine machine.top above rfl
    rw [same]
    cases ends : execute context operation machine with
    | error fault => rfl
    | outOfFuel => rfl
    | ok result =>
        rw [ends] at raised
        obtain ⟨goesOn, isTop, _⟩ := raised
        have isTop : result.2.top = machine.top := isTop
        rw [Outcome.ok_bind, ← isTop, ← goesOn]
  · have raised := pushes 0 machine machine.top above rfl
    rw [isPop, execute]
    change (execute context operation machine >>= fun result =>
      popn size result.2 >>= fun popped => Outcome.ok (result.1, popped.2)) = _
    cases ends : execute context operation machine with
    | error fault => rfl
    | outOfFuel => rfl
    | ok result =>
        rw [ends] at raised
        obtain ⟨goesOn, isTop, sameFrame⟩ := raised
        have isTop : result.2.top = machine.top + aligned size := isTop
        have sameFrame : result.2.frame = machine.frame := sameFrame
        have room : result.2.frame.floor + aligned size ≤ result.2.top := by
          rw [sameFrame, isTop]
          exact Nat.add_le_add_right above _
        have goesOn : result.1 = .controlContinue := goesOn
        rw [Outcome.ok_bind, Outcome.ok_bind, popn_of_room room, Outcome.ok_bind, goesOn, isTop,
          Nat.add_sub_cancel]

theorem assignTo_eq {place : Run World Nat} {left right : Operation} {type : Option DataType}
    (isPlace : place = do
      let _ ← execute context left
      popPointer)
    (isGenerated : expression.generate declarations = some operation)
    (isLoaded : expression.load operation = some right)
    (isSize : type.bind DataType.size = some n) :
    (do
      assignTo context declarations place type expression
      pure .controlContinue) = execute context (.assign left right n) := by
  rw [execute, assignTo, isPlace, isSize]
  simp only [orStop_some, pure_bind, bind_assoc, value_eq isGenerated isLoaded, store_eq]

theorem clearAll_eq : ∀ (symbols : List Variable) {operations : Operations},
    generateClears symbols = some operations →
      executeList context operations =
        (do
          clearAll symbols
          pure .controlContinue)
  | [], operations, isGenerated => by
      rw [← Option.some.inj isGenerated, executeList_nil, clearAll, pure_bind]
  | symbol :: rest, operations, isGenerated => by
      simp only [generateClears, Option.bind_eq_bind, Option.bind_eq_some_iff] at isGenerated
      obtain ⟨size, isSize, restOperations, isRest, isCons⟩ := isGenerated
      rw [← Option.some.inj isCons, executeList_cons, clearAll_eq rest isRest, clearAll, execute,
        isSize]
      simp only [orStop_some, pure_bind, bind_assoc, reduceCtorEq, if_false]

theorem initializeAll_eq : ∀ (pairs : List (Variable × Expression)) {operations : Operations},
    generateInitializers declarations pairs = some operations →
      executeList context operations =
        (do
          initializeAll context declarations pairs
          pure .controlContinue)
  | [], operations, isGenerated => by
      rw [← Option.some.inj isGenerated, executeList_nil, initializeAll, pure_bind]
  | (symbol, expression) :: rest, operations, isGenerated => by
      simp only [generateInitializers, Option.bind_eq_bind, Option.bind_eq_some_iff] at isGenerated
      obtain ⟨operation, isOperation, loaded, isLoaded, size, isSize, restOperations, isRest,
        isCons⟩ := isGenerated
      have isPlace :
          (Expression.identifier symbol.offset symbol.type).place context declarations =
            (do
              let _ ← execute context (.reference symbol.offset)
              popPointer) :=
        place_eq (by rw [Expression.generate])
      rw [← Option.some.inj isCons, executeList_cons, initializeAll_eq rest isRest, initializeAll,
        ← assignTo_eq isPlace isOperation isLoaded (by rw [Option.bind_some, isSize])]
      simp only [pure_bind, bind_assoc, reduceCtorEq, if_false]

theorem addTo_eq {left right : Expression} {leftOperation rightOperation made : Operation}
    {type : DataType} (isLeft : left.generate declarations = some leftOperation)
    (isType : left.type = some type) (isRight : right.generate declarations = some rightOperation)
    (isLoaded : right.load rightOperation = some loaded)
    (isMade : makeAddAssign leftOperation loaded type = some made) :
    execute context made =
      (do
        addTo context declarations (left.place context declarations) left.type right
        pure .controlContinue) := by
  unfold makeAddAssign at isMade
  split at isMade
  case isFalse => cases isMade
  case isTrue isAddable =>
    obtain ⟨n, isSize⟩ := Kind.size_of_isAddable isAddable
    rw [← Option.some.inj isMade, execute, addTo, isType, Option.map_some]
    simp only [orStop_some, pure_bind, bind_assoc, isSize, place_eq isLeft,
      value_eq isRight isLoaded]

theorem stepUp_eq {made : Operation} {type : DataType}
    (isGenerated : child.generate declarations = some operation) (isType : child.type = some type)
    (isMade : makeIncrement operation type = some made) :
    execute context made =
      (do
        stepBy context (child.place context declarations) child.type true
        pure .controlContinue) := by
  unfold makeIncrement at isMade
  split at isMade
  case isFalse => cases isMade
  case isTrue =>
    rw [← Option.some.inj isMade, execute, stepBy, isType, Option.map_some]
    simp only [orStop_some, pure_bind, bind_assoc, place_eq isGenerated]

theorem stepDown_eq {made : Operation} {type : DataType}
    (isGenerated : child.generate declarations = some operation) (isType : child.type = some type)
    (isMade : makeDecrement operation type = some made) :
    execute context made =
      (do
        stepBy context (child.place context declarations) child.type false
        pure .controlContinue) := by
  unfold makeDecrement at isMade
  split at isMade
  case isFalse => cases isMade
  case isTrue =>
    rw [← Option.some.inj isMade, execute, stepBy, isType, Option.map_some]
    simp only [orStop_some, pure_bind, bind_assoc, place_eq isGenerated]

/-- The loop of `ForIota` goes through the numbers below the limit. -/
theorem iotaLoop_preserved {offset : Int} {body meaning : Run World Control}
    (same : SameOn AboveFloor body meaning)
    (keeps : Keeps AboveFloor body) (limit idx : Nat) :
    SameOn AboveFloor (iotaLoop offset body limit idx)
      (forEach (fun idx => do
        let address ← getAddress offset
        write address wordBytes idx
        meaning) (List.range' idx limit)) := by
  induction limit generalizing idx with
  | zero => exact .of_eq rfl
  | succ remaining inductionHypothesis =>
      have keepsAddress : Keeps AboveFloor (getAddress offset : Run World Nat) :=
        (effect_getAddress 0 offset).keeps
      rw [iotaLoop, List.range'_succ, forEach]
      simp only [bind_assoc]
      apply SameOn.bind (.of_eq rfl) keepsAddress
      intro address
      apply SameOn.bind (.of_eq rfl) (effect_write 0 address wordBytes idx).keeps
      intro _
      apply same.bind keeps
      intro control
      exact SameOn.ite (.of_eq rfl) (inductionHypothesis (idx + 1))

theorem condition_preserved {α : Type} {condition : Operation} {rest other : Bool → Run World α}
    (pushes : Pushes context condition (aligned 1))
    (same : ∀ c, SameOn AboveFloor (rest c) (other c)) :
    SameOn AboveFloor
      (do
        let _ ← execute context condition
        let c ← popBool
        rest c)
      (do
        let _ ← execute context condition
        let c ← popBool
        other c) := by
  have keeps : Keeps AboveFloor (do
      let _ ← execute context condition
      popBool : Run World Bool) :=
    ((pushes 0).bind fun _ _ => effect_popBool 0).keeps
  have grouped := SameOn.bind (.of_eq rfl) keeps same
  rw [bind_assoc, bind_assoc] at grouped
  exact grouped

/-- The operation of an `if` statement evaluates the condition and goes on in
one branch. -/
theorem ifOp_preserved {condition : Expression} {first second : Operation}
    {firstMeaning secondMeaning : Run World Control}
    (isCondition : condition.IsCondition declarations) (serves : context.Serves declarations)
    (isGenerated : condition.generate declarations = some operation)
    (isLoaded : condition.load operation = some loaded) (notConstant : condition.constant = none)
    (sameFirst : SameOn AboveFloor (execute context first) firstMeaning)
    (sameSecond : SameOn AboveFloor (execute context second) secondMeaning) :
    SameOn AboveFloor (execute context (.ifOp loaded first second))
      (do
        let c ← condition.truth context declarations
        if c then firstMeaning else secondMeaning) := by
  rw [truth_eq isGenerated isLoaded notConstant, execute, bind_assoc]
  exact condition_preserved (isCondition.pushes serves isGenerated isLoaded) fun c =>
    SameOn.ite sameFirst sameSecond

theorem whileOp_preserved {condition : Expression} {body : Operation}
    {bodyMeaning : Run World Control}
    (isCondition : condition.IsCondition declarations) (serves : context.Serves declarations)
    (isGenerated : condition.generate declarations = some operation)
    (isLoaded : condition.load operation = some loaded) (neutral : Neutral context body)
    (same : SameOn AboveFloor (execute context body) bodyMeaning) :
    SameOn AboveFloor (execute context (.whileOp loaded body))
      (repeatUntil context.fuel (do
        let word ← condition.value context declarations 1
        if word % 256 != 0 then do
          let control ← bodyMeaning
          if control = .controlReturn then pure (some control) else pure none
        else pure (some .controlContinue))) := by
  have pushes := isCondition.pushes serves isGenerated isLoaded
  rw [execute, whileLoop]
  apply SameOn.repeatUntil _ (effect_whileBody pushes neutral 0).keeps
  have isIteration :
      (do
        let word ← condition.value context declarations 1
        if word % 256 != 0 then do
          let control : Control ← bodyMeaning
          if control = .controlReturn then pure (some control) else pure none
        else pure (some .controlContinue) : Run World (Option Control)) =
      (do
        let _ ← execute context loaded
        let c ← popBool
        if c then do
          let control : Control ← bodyMeaning
          if control = .controlReturn then pure (some control) else pure none
        else pure (some .controlContinue)) := by
    simp only [value_eq isGenerated isLoaded, popBool, bind_assoc, pure_bind]
  rw [isIteration]
  exact condition_preserved pushes fun c => SameOn.ite same.bind_right (.of_eq rfl)

theorem change_preserved {argument : Expression} {body : Operation} {bodyMeaning : Run World Control}
    (serves : context.Serves declarations) (checked : argument.Checked declarations)
    (isValue : argument.isValueOrVariable = true) (isPointer : argument.isPointer = true)
    (isGenerated : argument.generate declarations = some operation)
    (isLoaded : argument.load operation = some loaded) (offset : Int)
    (same : SameOn AboveFloor (execute context body) bodyMeaning) :
    SameOn AboveFloor (execute context (.change loaded offset body))
      (do
        let link ← argument.value context declarations wordBytes
        let (old, rootPointer) ← useOrStop (context.runtime.enterChange link)
        let address ← getAddress offset
        write address wordBytes rootPointer
        let control ← bodyMeaning
        use (context.runtime.leaveChange link old)
        pure control) := by
  have prints : argument.PrintsValues := by
    obtain ⟨type, isType, _⟩ := Expression.type_of_any isPointer
    exact .of_type (by rw [isType]; rfl)
  have pushes : Pushes context loaded wordBytes :=
    Expression.load_pushes_of_kind (argument.sound serves checked prints _ isGenerated) isValue
      isPointer rfl isLoaded
  have keeps : Keeps AboveFloor (do
      let _ ← execute context loaded
      popPointer : Run World Nat) :=
    ((pushes 0).bind fun _ _ => effect_popPointer 0).keeps
  rw [execute, value_eq isGenerated isLoaded, ← bind_assoc]
  apply SameOn.bind (.of_eq rfl) keeps
  intro link
  apply SameOn.bind (.of_eq rfl) (effect_useOrStop 0 _).keeps
  intro entered
  apply SameOn.bind (.of_eq rfl) (effect_getAddress 0 offset).keeps
  intro address
  apply SameOn.bind (.of_eq rfl) (effect_write 0 address wordBytes entered.2).keeps
  intro _
  exact same.bind_right

mutual

/-- The operation of a checked and balanced statement does what the statement
means without its init statements. -/
theorem Statement.preserved (serves : context.Serves declarations) (statement : Statement)
    (checked : statement.Checked declarations) (balanced : statement.IsBalanced)
    {operation : Operation} (isGenerated : statement.generate declarations = some operation) :
    SameOn AboveFloor (execute context operation)
      (statement.withoutInit.meaning context declarations) := by
  cases statement with
  | empty =>
      rw [Statement.generate, Option.some.injEq] at isGenerated
      rw [← isGenerated, execute_noop, Statement.withoutInit, Statement.meaning]
      exact .of_eq rfl
  | constDecl =>
      rw [Statement.generate] at isGenerated
      cases isGenerated
  | list statements =>
      rw [Statement.generate] at isGenerated
      obtain ⟨operations, areGenerated, isList⟩ := Option.map_eq_some_iff.mp isGenerated
      rw [Statement.Checked] at checked
      rw [Statement.IsBalanced] at balanced
      rw [← isList, execute, Statement.withoutInit, Statement.meaning]
      exact statements.preserved serves checked balanced areGenerated
  | expression child =>
      simp only [Statement.generate, Option.bind_eq_bind, Option.bind_eq_some_iff] at isGenerated
      obtain ⟨childOperation, isChild, isDiscarded⟩ := isGenerated
      rw [Statement.Checked] at checked
      rw [Statement.IsBalanced] at balanced
      rw [Statement.withoutInit, Statement.meaning]
      exact discard_preserved serves checked.1 checked.2 balanced isChild isDiscarded
  | returnStatement child returnSymbol =>
      simp only [Statement.generate, Option.bind_eq_bind, Option.bind_eq_some_iff] at isGenerated
      obtain ⟨childOperation, isChild, loaded, isLoaded, size, isSize, isReturn⟩ := isGenerated
      apply SameOn.of_eq
      rw [← Option.some.inj isReturn, execute, Statement.withoutInit, Statement.meaning, isSize]
      simp only [orStop_some, pure_bind, bind_assoc, value_eq isChild isLoaded, move_eq]
  | ifStatement before condition trueBody falseBody =>
      simp only [Statement.generate, Option.bind_eq_bind, Option.bind_eq_some_iff] at isGenerated
      obtain ⟨_, _, conditionOperation, isCondition, trueOperation, isTrueBody, falseOperation,
        isFalseBody, isGenerated⟩ := isGenerated
      rw [Statement.Checked] at checked
      rw [Statement.IsBalanced] at balanced
      obtain ⟨_, conditionChecked, trueChecked, falseChecked⟩ := checked
      have sameTrue := trueBody.preserved serves trueChecked balanced.1 isTrueBody
      have sameFalse := falseBody.preserved serves falseChecked balanced.2 isFalseBody
      rw [Statement.withoutInit, Statement.meaning, Statement.meaning, pure_bind,
        if_neg Control.noConfusion]
      split at isGenerated
      case h_1 isConstant =>
        rw [← Option.some.inj isGenerated, Expression.truth, isConstant]
        exact sameTrue
      case h_2 isConstant =>
        rw [← Option.some.inj isGenerated, Expression.truth, isConstant]
        exact sameFalse
      case h_3 notConstant =>
        obtain ⟨loaded, isLoaded, isIf⟩ := Option.bind_eq_some_iff.mp isGenerated
        rw [← Option.some.inj isIf]
        exact ifOp_preserved conditionChecked serves isCondition isLoaded notConstant sameTrue
          sameFalse
  | whileStatement condition body =>
      simp only [Statement.generate, Option.bind_eq_bind, Option.bind_eq_some_iff] at isGenerated
      obtain ⟨conditionOperation, isCondition, bodyOperation, isBody, loaded, isLoaded,
        isWhile⟩ := isGenerated
      rw [Statement.Checked] at checked
      rw [Statement.IsBalanced] at balanced
      rw [← Option.some.inj isWhile, Statement.withoutInit, Statement.meaning]
      exact whileOp_preserved checked.1 serves isCondition isLoaded
        (body.neutral serves checked.2 balanced isBody)
        (body.preserved serves checked.2 balanced isBody)
  | forIota symbol limit body =>
      simp only [Statement.generate, Option.bind_eq_bind, Option.bind_eq_some_iff] at isGenerated
      obtain ⟨bodyOperation, isBody, isFor⟩ := isGenerated
      rw [Statement.Checked] at checked
      rw [Statement.IsBalanced] at balanced
      rw [← Option.some.inj isFor, execute, Statement.withoutInit, Statement.meaning,
        List.range_eq_range']
      exact iotaLoop_preserved (body.preserved serves checked balanced isBody)
        (body.neutral serves checked balanced isBody).keeps limit 0
  | var symbols expressions =>
      rw [Statement.generate] at isGenerated
      apply SameOn.of_eq
      rw [Statement.withoutInit, Statement.meaning]
      split at isGenerated
      case isTrue isEmpty =>
        obtain ⟨operations, areGenerated, isList⟩ := Option.map_eq_some_iff.mp isGenerated
        rw [← isList, execute, clearAll_eq symbols areGenerated, if_pos isEmpty]
      case isFalse notEmpty =>
        obtain ⟨operations, areGenerated, isList⟩ := Option.map_eq_some_iff.mp isGenerated
        rw [← isList, execute, initializeAll_eq _ areGenerated, if_neg notEmpty]
  | assign left right =>
      simp only [Statement.generate, Option.bind_eq_bind, Option.bind_eq_some_iff] at isGenerated
      obtain ⟨leftOperation, isLeft, rightOperation, isRight, loaded, isLoaded, type, isType, size,
        isSize, isAssign⟩ := isGenerated
      apply SameOn.of_eq
      rw [← Option.some.inj isAssign, Statement.withoutInit, Statement.meaning]
      exact (assignTo_eq (place_eq isLeft) isRight isLoaded
        (by rw [isType, Option.bind_some, isSize])).symm
  | addAssign left right =>
      simp only [Statement.generate, Option.bind_eq_bind, Option.bind_eq_some_iff] at isGenerated
      obtain ⟨leftOperation, isLeft, rightOperation, isRight, loaded, isLoaded, type, isType,
        isMade⟩ := isGenerated
      rw [Statement.withoutInit, Statement.meaning]
      exact .of_eq (addTo_eq isLeft isType isRight isLoaded isMade)
  | increment child =>
      simp only [Statement.generate, Option.bind_eq_bind, Option.bind_eq_some_iff] at isGenerated
      obtain ⟨childOperation, isChild, type, isType, isMade⟩ := isGenerated
      rw [Statement.withoutInit, Statement.meaning]
      exact .of_eq (stepUp_eq isChild isType isMade)
  | decrement child =>
      simp only [Statement.generate, Option.bind_eq_bind, Option.bind_eq_some_iff] at isGenerated
      obtain ⟨childOperation, isChild, type, isType, isMade⟩ := isGenerated
      rw [Statement.withoutInit, Statement.meaning]
      exact .of_eq (stepDown_eq isChild isType isMade)
  | change argument rootSymbol body =>
      simp only [Statement.generate, Option.bind_eq_bind, Option.bind_eq_some_iff] at isGenerated
      obtain ⟨argumentOperation, isArgument, bodyOperation, isBody, loaded, isLoaded,
        isChange⟩ := isGenerated
      rw [Statement.Checked] at checked
      rw [Statement.IsBalanced] at balanced
      obtain ⟨argumentChecked, isValue, isPointer, bodyChecked⟩ := checked
      rw [← Option.some.inj isChange, Statement.withoutInit, Statement.meaning]
      exact change_preserved serves argumentChecked isValue isPointer isArgument isLoaded
        rootSymbol.offset (body.preserved serves bodyChecked balanced isBody)

theorem Statements.preserved (serves : context.Serves declarations) (statements : Statements)
    (checked : statements.Checked declarations) (balanced : statements.AreBalanced)
    {operations : Operations} (areGenerated : statements.generate declarations = some operations) :
    SameOn AboveFloor (executeList context operations)
      (statements.withoutInit.meaning context declarations) := by
  cases statements with
  | nil =>
      rw [Statements.generate, Option.some.injEq] at areGenerated
      rw [← areGenerated, executeList_nil, Statements.withoutInit, Statements.meaning]
      exact .of_eq rfl
  | cons statement rest =>
      rw [Statements.Checked] at checked
      rw [Statements.AreBalanced] at balanced
      rw [Statements.withoutInit, Statements.meaning]
      by_cases isConst : statement = .constDecl
      case pos =>
        rw [isConst, Statements.generate] at areGenerated
        rw [isConst, Statement.withoutInit, Statement.meaning, pure_bind,
          if_neg Control.noConfusion]
        exact rest.preserved serves checked.2 balanced.2 areGenerated
      case neg =>
        rw [Statements.generate] at areGenerated
        · simp only [Option.bind_eq_bind, Option.bind_eq_some_iff] at areGenerated
          obtain ⟨operation, isOperation, restOperations, isRest, isCons⟩ := areGenerated
          rw [← Option.some.inj isCons, executeList_cons]
          apply (statement.preserved serves checked.1 balanced.1 isOperation).bind
            (statement.neutral serves checked.1 balanced.1 isOperation).keeps
          intro control
          exact SameOn.ite (.of_eq rfl) (rest.preserved serves checked.2 balanced.2 isRest)
        · exact isConst

end

end Statements

/-! ## Programs -/

theorem wrap_preserved {context : Context World} {operation : Operation}
    {meaning : Run World Control} (same : SameOn AboveFloor (execute context operation) meaning)
    (receiverOffset : Option Int) :
    SameOn AboveFloor (execute context (wrap receiverOffset operation))
      (withInstance context.runtime receiverOffset meaning) := by
  cases receiverOffset with
  | none => exact same
  | some offset =>
      rw [wrap, execute, withInstance]
      apply SameOn.bind (.of_eq rfl) (effect_readPointer 0 offset).keeps
      intro component
      apply SameOn.bind (.of_eq rfl) (effect_use 0 _).keeps
      intro old
      exact same.bind_right

theorem staysInFrame_of_same {body other : Run World Unit} (stays : StaysInFrame body)
    (same : SameOn AboveFloor body other) : StaysInFrame other := by
  intro machine above
  rw [← same machine above]
  exact stays machine above

theorem SourceProgram.withoutInit_body (program : SourceProgram World) (callable : Nat) :
    program.withoutInit.body callable = (program.body callable).withoutInit :=
  rfl

namespace CompiledProgram

variable {program : CompiledProgram World}

theorem call_preserved (checked : program.source.IsChecked) (balanced : program.source.IsBalanced)
    (runtime : Runtime World) (fuel : Nat) :
    ∀ callable, SameOn AboveFloor (program.call runtime fuel callable)
      (program.source.withoutInit.call runtime fuel callable) := by
  induction fuel with
  | zero => exact fun callable => .of_eq rfl
  | succ fuel inductionHypothesis =>
      intro callable
      rw [call, SourceProgram.call]
      rw [SourceProgram.withoutInit_body]
      cases isBody : program.source.body callable with
      | builtin effect => exact .of_eq rfl
      | block body =>
          have calls := (program.serves checked balanced runtime fuel fuel).calls
          have serves :
              (program.source.withoutInit.context runtime
                (program.source.withoutInit.call runtime fuel) fuel).Serves
                program.source.declarations :=
            ⟨rfl, program.source.getter_fits, fun callable =>
              staysInFrame_of_same (calls callable) (inductionHypothesis callable)⟩
          have same := body.preserved serves (checked callable body isBody)
            (balanced callable body isBody) (program.generated callable body isBody)
          have sameCalls :
              SameCalls (program.source.context runtime (program.call runtime fuel) fuel)
                (program.source.withoutInit.call runtime fuel) :=
            inductionHypothesis
          dsimp only [Body.withoutInit]
          rw [execute_congr sameCalls]
          exact (wrap_preserved same _).bind_right

theorem execute_preserved (checked : program.source.IsChecked)
    (balanced : program.source.IsBalanced) (runtime : Runtime World) (fuel : Nat)
    {statement : Statement} {operation : Operation}
    (isChecked : statement.Checked program.source.declarations) (isBalanced : statement.IsBalanced)
    (isGenerated : statement.generate program.source.declarations = some operation) :
    SameOn AboveFloor (program.execute runtime fuel operation)
      (program.source.withoutInit.meaning runtime fuel statement.withoutInit) := by
  have calls := (program.serves checked balanced runtime fuel fuel).calls
  have sameCalls :
      SameCalls (program.source.context runtime (program.call runtime fuel) fuel)
        (program.source.withoutInit.call runtime fuel) :=
    program.call_preserved checked balanced runtime fuel
  have serves :
      (program.source.withoutInit.context runtime
        (program.source.withoutInit.call runtime fuel) fuel).Serves program.source.declarations :=
    ⟨rfl, program.source.getter_fits, fun callable =>
      staysInFrame_of_same (calls callable) (sameCalls callable)⟩
  rw [CompiledProgram.execute, execute_congr sameCalls]
  exact statement.preserved serves isChecked isBalanced isGenerated

/-- The operation of a statement does what the statement means exactly when it
means the same without the init statements of its `if` statements and of those
in the program, as it does when there are none. -/
theorem execute_meaning_iff (program : CompiledProgram World) (checked : program.source.IsChecked)
    (balanced : program.source.IsBalanced) (runtime : Runtime World) (fuel : Nat)
    (statement : Statement) (operation : Operation)
    (isChecked : statement.Checked program.source.declarations) (isBalanced : statement.IsBalanced)
    (isGenerated : statement.generate program.source.declarations = some operation) :
    (SameOn AboveFloor (program.execute runtime fuel operation)
        (program.source.meaning runtime fuel statement) ↔
      SameOn AboveFloor (program.source.withoutInit.meaning runtime fuel statement.withoutInit)
        (program.source.meaning runtime fuel statement)) ∧
      (program.source.withoutInit = program.source → statement.withoutInit = statement →
        SameOn AboveFloor (program.execute runtime fuel operation)
          (program.source.meaning runtime fuel statement)) := by
  have preserved := program.execute_preserved checked balanced runtime fuel isChecked isBalanced
    isGenerated
  constructor
  · constructor
    · intro same machine above
      rw [← preserved machine above, same machine above]
    · intro same machine above
      rw [preserved machine above, same machine above]
  · intro sameProgram sameStatement
    rw [sameProgram, sameStatement] at preserved
    exact preserved

end CompiledProgram

section Examples

/-- `x = 1`, for a local variable `x` of type `int`. -/
def assignOne : Statement :=
  .assign (.identifier 8 (.basic .int)) (.literal (.basic .int) (.bits 1))

/-- `if before; b { return x; }`, for local variables `b` and `x`. -/
def branch (before : Statement) : Statement :=
  .ifStatement before (.identifier 16 (.basic .bool))
    (.returnStatement (.identifier 8 (.basic .int)) ⟨-24, .basic .int⟩) .empty

/-- The operation of `if b { return x; }`. -/
def branchCode : Operation :=
  .ifOp (.load (.reference 16) (.basic .bool))
    (.returnOp (.load (.reference 8) (.basic .int)) (-24) 8) .noop

theorem branch_isChecked {before : Statement}
    (checked : before.Checked identityProgram.source.declarations) :
    (branch before).Checked identityProgram.source.declarations := by
  simp [branch, Statement.Checked, checked, Expression.IsCondition, Expression.Converted,
    Expression.Checked, Expression.isValueOrVariable, Expression.kind, Expression.type,
    DataType.underlyingKind, DataType.underlyingType, DataType.kind]

/-- `if b { return x; }` means what its operation does. -/
theorem CompiledProgram.execute_meaning_iff_branch :
    SameOn AboveFloor (identityProgram.execute idleRuntime 7 branchCode)
      (identityProgram.source.meaning idleRuntime 7 (branch .empty)) :=
  (identityProgram.execute_meaning_iff identityProgram_isChecked identityProgram_isBalanced
    idleRuntime 7 (branch .empty) branchCode
    (branch_isChecked (by rw [Statement.Checked]; exact trivial)) ⟨trivial, trivial⟩ rfl).2 rfl rfl

/-- The assignment in `if x = 1; b { return x; }` is never executed. -/
theorem CompiledProgram.initStatement_not_preserved :
    ¬∀ (program : CompiledProgram Unit) (runtime : Runtime Unit) (fuel : Nat)
      (statement : Statement) (operation : Operation), program.source.IsChecked →
        statement.Checked program.source.declarations →
          statement.generate program.source.declarations = some operation →
            SameOn AboveFloor (program.execute runtime fuel operation)
              (program.source.meaning runtime fuel statement) := by
  intro preserved
  have checked : assignOne.Checked identityProgram.source.declarations := by
    simp [assignOne, Statement.Checked, Expression.Converted, Expression.Checked,
      Expression.isValueOrVariable, Expression.kind, Expression.type]
  have same :=
    preserved identityProgram idleRuntime 7 (branch assignOne) branchCode identityProgram_isChecked
      (branch_isChecked checked) rfl ⟨fun _ => 0, 40, ⟨0, 40, []⟩, ()⟩ (Nat.le_refl 40)
  have sameByte := congrArg
    (fun outcome => outcome.satisfies fun result => result.2.memory 8 == 1) same
  exact absurd sameByte (by decide +kernel)

end Examples

end Rcgo.Code
