import Rcgo.Code.ExpressionMeaning
import Rcgo.Code.OperandStack

/-!
# Code generation and the meaning of expressions

The operation of an expression does what the expression means.
-/

namespace Rcgo.Code

open Rcgo.Foundation Machine

variable {World : Type} {context : Context World} {declarations : Declarations}
  {operation base loaded made : Operation} {run other : Run World Unit} {expression : Expression}
  {type source target : DataType}

@[simp]
theorem stop_bind {α β : Type} (rest : α → Run World β) : (stop >>= rest) = stop :=
  rfl

/-- The operation does the same as the computation and goes on. -/
def Performs (context : Context World) (operation : Operation) (run : Run World Unit) : Prop :=
  execute context operation = (do
    run
    pure .controlContinue)

/-- The operations do the same as the computation and go on. -/
def PerformsAll (context : Context World) (operations : Operations) (run : Run World Unit) : Prop :=
  executeList context operations = (do
    run
    pure .controlContinue)

theorem Performs.bind {α : Type} (performs : Performs context operation run) (rest : Run World α) :
    (do
      let _ ← execute context operation
      rest) =
      (do
        run
        rest) := by
  rw [performs, bind_assoc]
  simp only [pure_bind]

theorem Performs.of_eq (performs : Performs context operation run) (same : run = other) :
    Performs context operation other :=
  same ▸ performs

theorem Performs.load (performs : Performs context operation run) (type : DataType) :
    Performs context (.load operation type) (do
      run
      fetch type) := by
  simp only [Performs, execute, performs.bind, fetch, bind_assoc]

theorem performsAll_nil : PerformsAll context .nil (pure ()) := by
  rw [PerformsAll, executeList_nil, pure_bind]

theorem Performs.cons {operations : Operations} (performs : Performs context operation run)
    (performsAll : PerformsAll context operations other) :
    PerformsAll context (.cons operation operations) (do
      run
      other) := by
  rw [PerformsAll, executeList_cons, performs, performsAll]
  simp only [bind_assoc, pure_bind, reduceCtorEq, if_false]

theorem PerformsAll.list {operations : Operations} (performsAll : PerformsAll context operations run) :
    Performs context (.list operations) run := by
  rw [Performs, execute, performsAll]

theorem Performs.single (performs : Performs context operation run) :
    Performs context operation.single run :=
  (performs.cons performsAll_nil).list.of_eq bind_pure_unit

theorem Performs.pair {second : Operation} (performs : Performs context operation run)
    (performsSecond : Performs context second other) :
    Performs context (operation.pair second) (do
      run
      other) :=
  (performs.cons (performsSecond.cons performsAll_nil)).list.of_eq (by simp)

/-! ## Values -/

theorem Performs.valued (performs : Performs context operation run)
    (isLoaded : expression.load operation = some loaded) :
    Performs context loaded (expression.valued run) := by
  unfold Expression.load at isLoaded
  unfold Expression.valued
  split at isLoaded
  case isTrue isVariable =>
    obtain ⟨type, isType, isLoad⟩ := Option.map_eq_some_iff.mp isLoaded
    rw [← isLoad, if_pos isVariable, isType, orStop_some]
    simp only [pure_bind]
    exact performs.load type
  case isFalse notVariable =>
    rw [← Option.some.inj isLoaded, if_neg notVariable]
    exact performs

theorem Performs.convertToInt (performs : Performs context operation run) (kind : Kind) :
    Performs context (.convertToInt kind operation) (do
      run
      convertTop context.runtime kind .int) := by
  simp only [Performs, execute, performs.bind, convertTop, bind_assoc]
  rfl

theorem Performs.convertToUint (performs : Performs context operation run) (kind : Kind) :
    Performs context (.convertToUint kind operation) (do
      run
      convertTop context.runtime kind .uint) := by
  simp only [Performs, execute, performs.bind, convertTop, bind_assoc]
  rfl

theorem Performs.conversion (performs : Performs context operation run) (source target : Kind) :
    Performs context (.conversion source target operation) (do
      run
      convertTop context.runtime source target) := by
  simp only [Performs, execute, performs.bind, convertTop, bind_assoc]

/-- The operation leaves the `int` that the computation gives. -/
def Yields (context : Context World) (operation : Operation) (run : Run World Int) : Prop :=
  (do
    let _ ← execute context operation
    popLong) = run

theorem Yields.bind {α : Type} {index : Operation} {run : Run World Int}
    (yields : Yields context index run) (rest : Int → Run World α) :
    (do
      let _ ← execute context index
      let i ← popLong
      rest i) = run >>= rest := by
  rw [← yields, bind_assoc]

/-- The operation of an index leaves its value as an `int`. -/
theorem Performs.asIndex (performs : Performs context operation run)
    (isIndex : expression.toIndex operation = some made) :
    Yields context made (expression.asIndex run context.runtime) := by
  unfold Yields
  simp only [Expression.toIndex, Option.bind_eq_bind, Option.bind_eq_some_iff] at isIndex
  obtain ⟨loaded, isLoaded, type, isType, kind, isKind, isConverted⟩ := isIndex
  rw [← Option.some.inj isConverted, ((performs.valued isLoaded).convertToInt kind).bind,
    Expression.asIndex, isType]
  simp only [orStop_some, bind_assoc, pure_bind, (makeConvertTo_spec isKind).1]

theorem Performs.makeConversion (performs : Performs context operation run)
    (isMade : makeConversion operation source target = some made) :
    Performs context made (do
      run
      convertValue context.runtime source target) := by
  unfold Code.makeConversion at isMade
  unfold convertValue
  split at isMade
  case isTrue same =>
    rw [if_pos same, ← Option.some.inj isMade]
    exact performs.of_eq bind_pure_unit.symm
  case isFalse differ =>
    rw [if_neg differ]
    split at isMade
    case isTrue areConvertible =>
      rw [Bool.and_eq_true] at areConvertible
      have notSlice : source.underlyingKind ≠ .slice := by
        intro isSlice
        rw [isSlice] at areConvertible
        cases areConvertible.1
      have notString : source.underlyingKind ≠ .string := by
        intro isString
        rw [isString] at areConvertible
        cases areConvertible.1
      rw [if_neg fun both => notSlice both.1, if_neg fun both => notString both.1,
        ← Option.some.inj isMade]
      exact performs.conversion _ _
    case isFalse =>
      split at isMade
      case isTrue areBytes =>
        rw [if_pos ⟨DataType.underlyingKind_of_elementKind areBytes.1, areBytes.2⟩,
          ← Option.some.inj isMade]
        simp only [Performs, execute, performs.bind, sliceToString, bind_assoc]
      case isFalse =>
        split at isMade
        case isTrue areBytes =>
          have isString : source.underlyingKind = .string := areBytes.1
          have notSlice : source.underlyingKind ≠ .slice := by
            rw [isString]
            exact Kind.noConfusion
          rw [if_neg fun both => notSlice both.1,
            if_pos ⟨isString, DataType.underlyingKind_of_elementKind areBytes.2⟩,
            ← Option.some.inj isMade]
          simp only [Performs, execute, performs.bind, stringToSlice, bind_assoc]
        case isFalse => cases isMade

/-! ## Operators -/

section Operators

variable {left right : Operation} {leftRun rightRun : Run World Unit} {functor : Functor}
  {shiftOperator : ShiftOperator} {leftType rightType : DataType} {generated : BinaryOperation}

theorem Performs.binary (performsLeft : Performs context left leftRun)
    (performsRight : Performs context right rightRun) (functor : Functor) (kind : Kind) :
    Performs context (.binary functor kind left right)
      (operate context.runtime.floating leftRun rightRun functor.operator functor.isPredicate
        kind) := by
  simp only [Performs, execute, performsLeft.bind, performsRight.bind, operate, bind_assoc,
    BinaryOperation.compute]

theorem Cxx.shift_mod (type : CType) (operator : ShiftOperator) (x : Value) (count : Nat) :
    Cxx.shift type operator x (.bits (count % 2 ^ 64)) = Cxx.shift type operator x (.bits count) := by
  cases x with
  | text _ => rfl
  | bits x => simp only [Cxx.shift, Nat.mod_mod]

theorem compute_shift_uint (floating : Floating) (operator : ShiftOperator) (kind : Kind)
    (x y : Nat) :
    (BinaryOperation.shift operator kind .uint).compute floating (.bits x) (.bits y) =
      kind.cType.bind fun type => Cxx.shift type operator (.bits x) (.bits y) := by
  have isCount : convertToUint .uint (.bits y) = some (.bits (y % 2 ^ 64)) := by
    simp [convertToUint, Kind.cType, Cxx.readInteger, Cxx.writeInteger]
    omega
  rw [BinaryOperation.compute, isCount, Option.bind_some]
  simp only [Cxx.shift_mod]

theorem Performs.shift (performsLeft : Performs context left leftRun)
    (performsRight : Performs context right rightRun) (operator : ShiftOperator) (kind count : Kind) :
    Performs context (.shift operator kind left (.convertToUint count right))
      (shiftBy leftRun rightRun context.runtime operator kind count) := by
  have performsCount := performsRight.convertToUint count
  rw [Performs, execute]
  simp only [performsLeft.bind, performsCount.bind, shiftBy, bind_assoc, compute_shift_uint]

theorem Performs.logicOr (performsLeft : Performs context left leftRun)
    (performsRight : Performs context right rightRun) :
    Performs context (.logicOr left right) (do
      leftRun
      let b ← popBool
      if b then pushBool true else rightRun) := by
  rw [Performs, execute, performsLeft.bind]
  simp only [performsRight.bind, bind_assoc]
  congr 1
  funext _
  congr 1
  funext b
  cases b with
  | false => rfl
  | true => rfl

theorem Performs.logicAnd (performsLeft : Performs context left leftRun)
    (performsRight : Performs context right rightRun) :
    Performs context (.logicAnd left right) (do
      leftRun
      let b ← popBool
      if b then rightRun else pushBool false) := by
  rw [Performs, execute, performsLeft.bind]
  simp only [performsRight.bind, bind_assoc]
  congr 1
  funext _
  congr 1
  funext b
  cases b with
  | false => rfl
  | true => rfl

theorem Performs.over (performsLeft : Performs context left leftRun)
    (performsRight : Performs context right rightRun) {operator : BinaryArithmetic}
    (isMade : operator.generateCode type leftType rightType = some generated) :
    Performs context (generated.over left right)
      (operator.evaluate leftRun rightRun context.runtime type leftType rightType) := by
  cases operator with
  | multiply | divide | subtract =>
      rw [makeBinaryArithmetic_eq isMade]
      exact performsLeft.binary performsRight _ _
  | modulus | bitAnd | bitAndNot | bitOr | bitXor | add =>
      rw [makeBinaryIntegral_eq isMade]
      exact performsLeft.binary performsRight _ _
  | equal | notEqual | lessThan | lessEqual | moreThan | moreEqual =>
      rw [makeBinaryArithmetic_eq isMade]
      exact performsLeft.binary performsRight _ _
  | leftShift | rightShift =>
      obtain ⟨count, isCount, isShift⟩ := Option.bind_eq_some_iff.mp isMade
      rw [makeShift_eq isShift, ← (makeConvertTo_spec isCount).1]
      exact performsLeft.shift performsRight _ _ _
  | logicOr =>
      rw [← Option.some.inj isMade]
      exact performsLeft.logicOr performsRight
  | logicAnd =>
      rw [← Option.some.inj isMade]
      exact performsLeft.logicAnd performsRight

end Operators

/-! ## Calls -/

section Calls

variable {receiver : DataType} {callable : Nat} {arguments : Operation}

theorem Performs.asReceiver (performs : Performs context operation run)
    (isReceiver : expression.toReceiver operation receiver = some made) :
    Performs context made (expression.asReceiver run receiver) := by
  simp only [Expression.toReceiver, Option.bind_eq_bind, Option.bind_eq_some_iff] at isReceiver
  obtain ⟨type, isType, isMade⟩ := isReceiver
  have isPointer : expression.isPointer = (type.underlyingKind == .pointer) := by
    rw [Expression.isPointer, isType, Option.any_some]
  have loads : expression.kind = .variable → expression.load operation = some (.load operation type) := by
    intro isVariable
    rw [Expression.load, if_pos isVariable, isType, Option.map_some]
  unfold Expression.asReceiver
  rw [isPointer]
  split at isMade
  case isTrue ofPointer =>
    rw [if_pos (beq_iff_eq.mpr ofPointer)]
    split at isMade
    case isTrue asked =>
      rw [if_pos asked]
      exact performs.valued isMade
    case isFalse notAsked =>
      rw [if_neg notAsked]
      split at isMade
      case isTrue isVariable =>
        rw [← Option.some.inj isMade]
        exact (performs.valued (loads isVariable)).load receiver
      case isFalse => cases isMade
  case isFalse notPointer =>
    rw [if_neg fun isTrue => notPointer (beq_iff_eq.mp isTrue)]
    split at isMade
    case isTrue isVariable =>
      split at isMade
      case isTrue asked =>
        rw [if_pos asked, ← Option.some.inj isMade]
        exact performs
      case isFalse notAsked =>
        rw [if_neg notAsked, ← Option.some.inj isMade]
        exact performs.valued (loads isVariable)
    case isFalse => cases isMade

theorem enterCallable_goesOn (context : Context World) (callable : Nat) :
    enterCallable context callable = (do
      let _ ← enterCallable context callable
      pure .controlContinue) := by
  simp only [enterCallable, bind_assoc, pure_bind]

theorem Performs.functionCall (performs : Performs context arguments run) (callable : Nat) :
    Performs context (.functionCall callable arguments) (callWith context callable run) := by
  rw [Performs, execute, callWith, enterCallable_goesOn]
  simp only [performs.bind, bind_assoc, pure_bind]

theorem Performs.methodCall {receiver : Operation} {receiverRun : Run World Unit}
    (performsReceiver : Performs context receiver receiverRun)
    (performs : Performs context arguments run) (callable : Nat) :
    Performs context (.methodCall callable receiver arguments)
      (callWith context callable do
        receiverRun
        run) := by
  rw [Performs, execute, callWith, enterCallable_goesOn]
  simp only [performsReceiver.bind, performs.bind, bind_assoc, pure_bind]

theorem Performs.pullPortCall {func : Operation} {funcRun : Run World Unit}
    (performsFunc : Performs context func funcRun) (performs : Performs context arguments run)
    (port : Nat) :
    Performs context (.dynamicPullPortCall port func arguments) (do
      funcRun
      let pp ← pop (2 * wordBytes)
      let getter ← orStop (context.getter port (pp / 2 ^ 64))
      callWith context getter do
        pushPointer (pp % 2 ^ 64)
        run) := by
  rw [Performs, execute]
  simp only [performsFunc.bind, performs.bind, callWith, bind_assoc, pure_bind]
  congr 1
  funext _
  congr 1
  funext pp
  congr 1
  funext getter
  rw [enterCallable_goesOn]
  simp only [bind_assoc, pure_bind]

end Calls

/-! ## Elements, slices and the heap -/

theorem pushElement_goesOn (place unitSize : Nat) (length index : Int) :
    (if index < 0 ∨ length ≤ index then stop
      else do
        pushPointer (place + index.toNat * unitSize)
        pure .controlContinue : Run World Control) =
      (do
        pushElement place unitSize length index
        pure .controlContinue) := by
  unfold pushElement
  split
  case isTrue => rfl
  case isFalse => rfl

section Elements

variable {index : Operation} {indexRun lowRun highRun maxRun : Run World Int}
  {low high max : Operations} {lowBound highBound maxBound : Int → Run World Int}

theorem Performs.indexArray (performs : Performs context base run)
    (yields : Yields context index indexRun) (dimension unitSize : Nat) :
    Performs context (.indexArray base index dimension unitSize) (do
      run
      let place ← popPointer
      let i ← indexRun
      pushElement place unitSize dimension i) := by
  rw [Performs, execute, performs.bind]
  simp only [yields.bind, pushElement_goesOn, bind_assoc]

theorem Performs.indexSlice (performs : Performs context base run)
    (yields : Yields context index indexRun) (unitSize : Nat) :
    Performs context (.indexSlice base index unitSize) (do
      run
      let s ← popSlice
      let i ← indexRun
      pushElement s.pointer unitSize s.length i) := by
  rw [Performs, execute, performs.bind]
  simp only [yields.bind, pushElement_goesOn, bind_assoc]

theorem Performs.sliceArray (performs : Performs context base run)
    (isLow : executeBound context low = lowBound) (isHigh : executeBound context high = highBound)
    (isMax : executeBound context max = maxBound) (dimension unitSize : Nat) :
    Performs context (.sliceArray base low high max dimension unitSize) (do
      run
      let place ← popPointer
      let low ← lowBound 0
      let high ← highBound dimension
      let max ← maxBound dimension
      makeSlice place unitSize low high max dimension) := by
  rw [Performs, execute, performs.bind, isLow, isHigh, isMax]
  simp only [bind_assoc]

theorem Performs.sliceSlice (performs : Performs context base run)
    (isLow : executeBound context low = lowBound) (isHigh : executeBound context high = highBound)
    (isMax : executeBound context max = maxBound) (unitSize : Nat) :
    Performs context (.sliceSlice base low high max unitSize) (do
      run
      let s ← popSlice
      let low ← lowBound 0
      let high ← highBound s.length
      let max ← maxBound s.capacity
      makeSlice s.pointer unitSize low high max s.capacity) := by
  rw [Performs, execute, performs.bind, isLow, isHigh, isMax]
  simp only [bind_assoc]

end Elements

theorem Performs.appendTop (performs : Performs context operation run) (unitSize : Nat) :
    Performs context (.appendOp unitSize operation) (do
      run
      Code.appendTop context.runtime unitSize) := by
  rw [Performs, execute, performs.bind]
  simp only [Code.appendTop, bind_assoc]
  congr 1
  funext _
  congr 1
  funext element
  congr 1
  funext slice
  split
  case isTrue => simp only [bind_assoc]
  case isFalse => simp only [bind_assoc]

theorem Performs.makeIndex {index : Operation} {indexRun : Run World Int}
    (performs : Performs context operation run) (yields : Yields context index indexRun)
    (isVariable : expression.kind = .variable) (isType : expression.type = some type)
    (isMade : makeIndex operation index type = some made) :
    Performs context made (expression.element run indexRun) := by
  unfold Code.makeIndex at isMade
  simp only [Expression.element, isType, orStop_some, pure_bind]
  split at isMade
  case h_1 dimension base isArray =>
    obtain ⟨unitSize, isUnitSize, isIndex⟩ := Option.map_eq_some_iff.mp isMade
    simp only [isArray, isUnitSize, orStop_some, pure_bind]
    rw [← isIndex]
    exact performs.indexArray yields dimension unitSize
  case h_2 base isSlice =>
    obtain ⟨unitSize, isUnitSize, isIndex⟩ := Option.map_eq_some_iff.mp isMade
    have isValue : Performs context (.load operation type.underlyingType) (expression.valued run) := by
      have sameSize : (fetch type.underlyingType : Run World Unit) = fetch type := by
        rw [fetch, type.size_underlyingType, fetch]
      rw [Expression.valued, if_pos isVariable, isType, orStop_some]
      simp only [pure_bind, ← sameSize]
      exact performs.load type.underlyingType
    simp only [isSlice, isUnitSize, orStop_some, pure_bind]
    rw [← isIndex]
    exact isValue.indexSlice yields unitSize
  case h_3 => cases isMade

theorem Performs.makeSliceArray {low high max : Operations}
    {lowBound highBound maxBound : Int → Run World Int} (performs : Performs context operation run)
    (isLow : executeBound context low = lowBound) (isHigh : executeBound context high = highBound)
    (isMax : executeBound context max = maxBound) (isType : expression.type = some type)
    (isMade : makeSliceArray operation low high max type = some made) :
    Performs context made (expression.part run lowBound highBound maxBound) := by
  unfold Code.makeSliceArray at isMade
  simp only [Expression.part, isType, orStop_some, pure_bind]
  split at isMade
  case h_1 dimension base isArray =>
    obtain ⟨unitSize, isUnitSize, isSlice⟩ := Option.map_eq_some_iff.mp isMade
    simp only [isArray, isUnitSize, orStop_some, pure_bind]
    rw [← isSlice]
    exact performs.sliceArray isLow isHigh isMax dimension unitSize
  case h_2 => cases isMade

theorem Performs.makeSliceSlice {low high max : Operations}
    {lowBound highBound maxBound : Int → Run World Int} (performs : Performs context operation run)
    (isLoaded : expression.load operation = some loaded)
    (isLow : executeBound context low = lowBound) (isHigh : executeBound context high = highBound)
    (isMax : executeBound context max = maxBound) (isType : expression.type = some type)
    (isMade : makeSliceSlice loaded low high max type = some made) :
    Performs context made (expression.part run lowBound highBound maxBound) := by
  unfold Code.makeSliceSlice at isMade
  simp only [Expression.part, isType, orStop_some, pure_bind]
  split at isMade
  case h_1 base isSlice =>
    obtain ⟨unitSize, isUnitSize, isPart⟩ := Option.map_eq_some_iff.mp isMade
    simp only [isSlice, isUnitSize, orStop_some, pure_bind]
    rw [← isPart]
    exact (performs.valued isLoaded).sliceSlice isLow isHigh isMax unitSize
  case h_2 => cases isMade

theorem Performs.makeAppend {element : Operation} (performs : Performs context operation run)
    (isLoaded : expression.load operation = some loaded)
    (performsElement : Performs context element other) (isType : expression.type = some type)
    (isMade : makeAppend type (loaded.pair element) = some made) :
    Performs context made (expression.appended run context.runtime other) := by
  unfold Code.makeAppend at isMade
  simp only [Expression.appended, isType, orStop_some, pure_bind]
  split at isMade
  case h_1 base isSlice =>
    split at isMade
    case isTrue =>
      obtain ⟨unitSize, isUnitSize, isAppend⟩ := Option.map_eq_some_iff.mp isMade
      have appended := ((performs.valued isLoaded).pair performsElement).appendTop unitSize
      simp only [bind_assoc] at appended
      simp only [isSlice, isUnitSize, orStop_some, pure_bind]
      rw [← isAppend]
      exact appended
    case isFalse => cases isMade
  case h_2 => cases isMade

theorem copyTop_of_not_slice (notSlice : ∀ element, type.underlyingType ≠ .slice element) :
    copyTop context.runtime type = copyString context.runtime := by
  unfold copyTop
  split
  case h_1 element isSlice => exact absurd isSlice (notSlice element)
  case h_2 => rfl

theorem Performs.makeCopy (performs : Performs context operation run)
    (isMade : makeCopy type operation = some made) :
    Performs context made (do
      run
      copyTop context.runtime type) := by
  unfold Code.makeCopy at isMade
  split at isMade
  case h_1 element isSlice =>
    obtain ⟨unitSize, isUnitSize, isCopy⟩ := Option.map_eq_some_iff.mp isMade
    rw [copyTop, isSlice, ← isCopy]
    simp only [isUnitSize, Performs, execute, performs.bind, copySlice, orStop_some, bind_assoc,
      pure_bind]
  case h_2 notSlice =>
    split at isMade
    case isTrue =>
      rw [copyTop_of_not_slice notSlice, ← Option.some.inj isMade]
      simp only [Performs, execute, performs.bind, copyString, bind_assoc]
    case isFalse => cases isMade

theorem pushNew_of_not_heap (notHeap : ∀ base, type ≠ .heap base) :
    pushNew context.runtime type = (do
      let size ← orStop type.size
      let pointer ← use (context.runtime.allocate size)
      pushPointer pointer) := by
  unfold pushNew
  split
  case h_1 base => exact absurd rfl (notHeap base)
  case h_2 => rfl

theorem performs_new (isMade : makeNew type = some made) :
    Performs context made (pushNew context.runtime type) := by
  unfold makeNew at isMade
  split at isMade
  case h_1 base =>
    obtain ⟨size, isSize, isNew⟩ := Option.map_eq_some_iff.mp isMade
    simp only [pushNew, isSize, ← isNew, Performs, execute, orStop_some, bind_assoc, pure_bind]
  case h_2 notHeap =>
    obtain ⟨size, isSize, isNew⟩ := Option.map_eq_some_iff.mp isMade
    rw [pushNew_of_not_heap notHeap]
    simp only [isSize, ← isNew, Performs, execute, orStop_some, bind_assoc, pure_bind]

/-! ## Expressions -/

theorem generate_cons_of_not_typeExpression {rest : Arguments} {operations : Operations}
    (notType : ∀ type, expression ≠ .typeExpression type)
    (areGenerated : (Arguments.cons expression rest).generate declarations = some operations) :
    ∃ operation, expression.generate declarations = some operation ∧
      ∃ loaded, expression.load operation = some loaded ∧
        ∃ others, rest.generate declarations = some others ∧ .cons loaded others = operations := by
  rw [Arguments.generate] at areGenerated
  · simp only [Option.bind_eq_bind, Option.bind_eq_some_iff, Option.some.injEq] at areGenerated
    exact areGenerated
  · exact notType

mutual

/-- The operation of an expression does what the expression means. -/
theorem Expression.performs (context : Context World) (expression : Expression)
    {operation : Operation} (isGenerated : expression.generate declarations = some operation) :
    Performs context operation (expression.evaluate context declarations) := by
  cases expression with
  | literal type value =>
      rw [Expression.generate] at isGenerated
      unfold makeLiteral at isGenerated
      split at isGenerated
      case h_16 => cases isGenerated
      all_goals
        obtain ⟨size, isSize, isLiteral⟩ := Option.map_eq_some_iff.mp isGenerated
        rw [← isLiteral, Performs, execute, Expression.evaluate, isSize, orStop_some, pure_bind]
  | identifier offset type =>
      rw [Expression.generate, Option.some.injEq] at isGenerated
      rw [← isGenerated, Performs, execute, Expression.evaluate]
  | typeName type =>
      rw [Expression.generate, Option.some.injEq] at isGenerated
      rw [← isGenerated, Performs, execute, Expression.evaluate, pure_bind]
  | typeExpression type =>
      rw [Expression.generate] at isGenerated
      cases isGenerated
  | dereference child type =>
      simp only [Expression.generate, Option.bind_eq_bind, Option.bind_eq_some_iff] at isGenerated
      obtain ⟨childOperation, isChild, isLoaded⟩ := isGenerated
      rw [Expression.evaluate]
      exact (child.performs context isChild).valued isLoaded
  | addressOf child type =>
      rw [Expression.generate_addressOf] at isGenerated
      rw [Expression.evaluate]
      exact child.performs context isGenerated
  | select base offset type =>
      simp only [Expression.generate, Option.bind_eq_bind, Option.bind_eq_some_iff] at isGenerated
      obtain ⟨baseOperation, isBase, type, isType, isSelect⟩ := isGenerated
      have performs := base.performs context isBase
      have isPointer : base.isPointer = (type.underlyingKind == .pointer) := by
        rw [Expression.isPointer, isType, Option.any_some]
      rw [Expression.evaluate, isPointer]
      split at isSelect
      case isFalse => cases isSelect
      case isTrue isVariable =>
        split at isSelect
        case isTrue ofPointer =>
          have isLoaded : base.load baseOperation = some (.load baseOperation type) := by
            rw [Expression.load, if_pos isVariable, isType, Option.map_some]
          rw [if_pos (beq_iff_eq.mpr ofPointer), ← Option.some.inj isSelect, Performs, execute,
            (performs.valued isLoaded).bind]
          simp only [bind_assoc]
        case isFalse notPointer =>
          rw [if_neg fun isTrue => notPointer (beq_iff_eq.mp isTrue), ← Option.some.inj isSelect,
            Performs, execute, performs.bind]
          simp only [bind_assoc]
  | index base index type =>
      simp only [Expression.generate, Option.bind_eq_bind, Option.bind_eq_some_iff] at isGenerated
      obtain ⟨baseOperation, isBase, indexOperation, isIndex, converted, isConverted, type, isType,
        isMade⟩ := isGenerated
      rw [Expression.evaluate]
      split at isMade
      case isTrue isVariable =>
        exact (base.performs context isBase).makeIndex
          ((index.performs context isIndex).asIndex isConverted) isVariable isType isMade
      case isFalse => cases isMade
  | indexSlice base low high max type =>
      simp only [Expression.generate, Option.bind_eq_bind, Option.bind_eq_some_iff] at isGenerated
      obtain ⟨baseOperation, isBase, lowBound, isLow, highBound, isHigh, maxBound, isMax, type,
        isType, isMade⟩ := isGenerated
      have performs := base.performs context isBase
      have lowSame := low.bound_eq context isLow
      have highSame := high.bound_eq context isHigh
      have maxSame := max.bound_eq context isMax
      rw [Expression.evaluate]
      split at isMade
      case isTrue =>
        split at isMade
        case isTrue => exact performs.makeSliceArray lowSame highSame maxSame isType isMade
        case isFalse => cases isMade
      case isFalse =>
        obtain ⟨loaded, isLoaded, isMade⟩ := Option.bind_eq_some_iff.mp isMade
        exact performs.makeSliceSlice isLoaded lowSame highSame maxSame isType isMade
  | logicNot child type =>
      simp only [Expression.generate, Option.bind_eq_bind, Option.bind_eq_some_iff] at isGenerated
      obtain ⟨childOperation, isChild, loaded, isLoaded, isMade⟩ := isGenerated
      split at isMade
      case isFalse => cases isMade
      case isTrue =>
        rw [← Option.some.inj isMade, Performs, execute, Expression.evaluate,
          ((child.performs context isChild).valued isLoaded).single.bind]
        simp only [bind_assoc]
  | binaryArithmetic operator left right type =>
      simp only [Expression.generate, Option.bind_eq_bind, Option.bind_eq_some_iff] at isGenerated
      obtain ⟨leftOperation, isLeft, leftLoaded, isLeftLoaded, rightOperation, isRight, rightLoaded,
        isRightLoaded, leftType, isLeftType, rightType, isRightType, generated, isMade,
        isOver⟩ := isGenerated
      have performs := ((left.performs context isLeft).valued isLeftLoaded).over
        ((right.performs context isRight).valued isRightLoaded) isMade
      rw [← Option.some.inj isOver, Expression.evaluate, isLeftType, isRightType]
      simp only [orStop_some, pure_bind]
      exact performs
  | conversion argument type =>
      simp only [Expression.generate, Option.bind_eq_bind, Option.bind_eq_some_iff] at isGenerated
      obtain ⟨argumentOperation, isArgument, loaded, isLoaded, source, isSource, isMade⟩ :=
        isGenerated
      have performs := ((argument.performs context isArgument).valued isLoaded).makeConversion isMade
      rw [Expression.evaluate, isSource]
      simp only [orStop_some, pure_bind]
      exact performs
  | functionCall callable arguments type =>
      simp only [Expression.generate, Option.bind_eq_bind, Option.bind_eq_some_iff] at isGenerated
      obtain ⟨operations, areGenerated, isCall⟩ := isGenerated
      rw [← Option.some.inj isCall, Expression.evaluate]
      exact (arguments.performsAll context areGenerated).list.functionCall callable
  | methodCall callable base arguments type =>
      simp only [Expression.generate, Option.bind_eq_bind, Option.bind_eq_some_iff] at isGenerated
      obtain ⟨operations, areGenerated, baseOperation, isBase, receiver, isReceiver, made, isMade,
        isCall⟩ := isGenerated
      rw [← Option.some.inj isCall, Expression.evaluate, isReceiver, orStop_some, pure_bind]
      exact ((base.performs context isBase).asReceiver isMade).methodCall
        (arguments.performsAll context areGenerated).list callable
  | pullPortCall port expression arguments type =>
      simp only [Expression.generate, Option.bind_eq_bind, Option.bind_eq_some_iff] at isGenerated
      obtain ⟨operations, areGenerated, func, isFunc, loaded, isLoaded, isCall⟩ := isGenerated
      rw [← Option.some.inj isCall, Expression.evaluate]
      exact ((expression.performs context isFunc).valued isLoaded).pullPortCall
        (arguments.performsAll context areGenerated).list port
  | new allocated type =>
      rw [Expression.generate] at isGenerated
      rw [Expression.evaluate]
      exact performs_new isGenerated
  | move argument type =>
      simp only [Expression.generate, Option.bind_eq_bind, Option.bind_eq_some_iff] at isGenerated
      obtain ⟨argumentOperation, isArgument, loaded, isLoaded, isMove⟩ := isGenerated
      rw [← Option.some.inj isMove, Performs, execute, Expression.evaluate,
        ((argument.performs context isArgument).valued isLoaded).single.bind]
      simp only [bind_assoc]
  | merge argument type =>
      simp only [Expression.generate, Option.bind_eq_bind, Option.bind_eq_some_iff] at isGenerated
      obtain ⟨argumentOperation, isArgument, loaded, isLoaded, isMerge⟩ := isGenerated
      rw [← Option.some.inj isMerge, Performs, execute, Expression.evaluate,
        ((argument.performs context isArgument).valued isLoaded).single.bind]
      simp only [bind_assoc]
  | len argument type =>
      simp only [Expression.generate, Option.bind_eq_bind, Option.bind_eq_some_iff] at isGenerated
      obtain ⟨argumentOperation, isArgument, loaded, isLoaded, isLen⟩ := isGenerated
      rw [← Option.some.inj isLen, Performs, execute, Expression.evaluate,
        ((argument.performs context isArgument).valued isLoaded).single.bind]
      simp only [bind_assoc]
  | append slice element type =>
      simp only [Expression.generate, Option.bind_eq_bind, Option.bind_eq_some_iff] at isGenerated
      obtain ⟨sliceOperation, isSlice, sliceLoaded, isSliceLoaded, elementOperation, isElement,
        elementLoaded, isElementLoaded, type, isType, isMade⟩ := isGenerated
      rw [Expression.evaluate]
      exact (slice.performs context isSlice).makeAppend isSliceLoaded
        ((element.performs context isElement).valued isElementLoaded) isType isMade
  | copy argument type =>
      simp only [Expression.generate, Option.bind_eq_bind, Option.bind_eq_some_iff] at isGenerated
      obtain ⟨argumentOperation, isArgument, loaded, isLoaded, source, isSource, isMade⟩ :=
        isGenerated
      have performs := ((argument.performs context isArgument).valued isLoaded).single.makeCopy isMade
      rw [Expression.evaluate, isSource]
      simp only [orStop_some, pure_bind]
      exact performs
  | println arguments =>
      simp only [Expression.generate, Option.bind_eq_bind, Option.bind_eq_some_iff] at isGenerated
      obtain ⟨operations, areGenerated, kinds, areKinds, isPrintln⟩ := isGenerated
      rw [← Option.some.inj isPrintln, Performs, execute, Expression.evaluate, areKinds,
        arguments.print_eq context areGenerated]
      simp only [orStop_some, pure_bind, bind_assoc]

theorem Arguments.performsAll (context : Context World) (arguments : Arguments)
    {operations : Operations} (areGenerated : arguments.generate declarations = some operations) :
    PerformsAll context operations (arguments.evaluate context declarations) := by
  cases arguments with
  | nil =>
      rw [Arguments.generate_nil, Option.some.injEq] at areGenerated
      rw [← areGenerated, Arguments.evaluate]
      exact performsAll_nil
  | cons expression rest =>
      rw [Arguments.evaluate]
      by_cases isType : ∃ type, expression = .typeExpression type
      case pos =>
        obtain ⟨type, isType⟩ := isType
        rw [isType, Arguments.generate] at areGenerated
        rw [isType, Expression.valued, if_neg (by simp [Expression.kind]), Expression.evaluate, pure_bind]
        exact rest.performsAll context areGenerated
      case neg =>
        obtain ⟨operation, isOperation, loaded, isLoaded, others, areOthers, isCons⟩ :=
          generate_cons_of_not_typeExpression (fun type is => isType ⟨type, is⟩) areGenerated
        rw [← isCons]
        exact ((expression.performs context isOperation).valued isLoaded).cons
          (rest.performsAll context areOthers)

/-- The operations of the arguments of `println` print what the arguments mean. -/
theorem Arguments.print_eq (context : Context World) (arguments : Arguments)
    {operations : Operations} (areGenerated : arguments.generate declarations = some operations) :
    executePrintln context operations = arguments.print context declarations := by
  funext kinds
  cases arguments with
  | nil =>
      rw [Arguments.generate_nil, Option.some.injEq] at areGenerated
      rw [← areGenerated, executePrintln, Arguments.print]
  | cons expression rest =>
      by_cases isType : ∃ type, expression = .typeExpression type
      case pos =>
        obtain ⟨type, isType⟩ := isType
        rw [isType, Arguments.generate] at areGenerated
        rw [isType, Arguments.print, rest.print_eq context areGenerated]
      case neg =>
        have notType : ∀ type, expression ≠ .typeExpression type := fun type is => isType ⟨type, is⟩
        obtain ⟨operation, isOperation, loaded, isLoaded, others, areOthers, isCons⟩ :=
          generate_cons_of_not_typeExpression notType areGenerated
        have performs := (expression.performs context isOperation).valued isLoaded
        rw [← isCons]
        cases kinds with
        | nil => rw [executePrintln, Arguments.print]; exact notType
        | cons kind kinds =>
            rw [executePrintln, performs.bind, rest.print_eq context areOthers, Arguments.print]
            exact notType

theorem Arguments.bound_eq (context : Context World) (arguments : Arguments)
    {operations : Operations} (areGenerated : arguments.generateBound declarations = some operations) :
    executeBound context operations = arguments.bound context declarations := by
  funext default
  cases arguments with
  | nil =>
      rw [Arguments.generateBound, Option.some.injEq] at areGenerated
      rw [← areGenerated, executeBound, Arguments.bound]
  | cons expression rest =>
      simp only [Arguments.generateBound, Option.bind_eq_bind, Option.bind_eq_some_iff] at areGenerated
      obtain ⟨operation, isOperation, converted, isConverted, isSingle⟩ := areGenerated
      rw [← Option.some.inj isSingle, executeBound, Arguments.bound]
      exact (expression.performs context isOperation).asIndex isConverted

end

end Rcgo.Code
