import Rcgo.Code.OperandStack

/-!
# What expressions push

The operation of a checked expression raises the stack by the size of its type
when it is a value, by one pointer when it is a variable and by nothing
otherwise.
-/

namespace Rcgo.Code

open Rcgo.Foundation Machine

/-- No argument of `println` is the name of a type with values that can be
printed. -/
def Arguments.ArePrinted : Arguments → Prop
  | nil => True
  | cons expression rest =>
      (expression.isValueOrVariable = true ∨
        ∀ type ∈ expression.type, type.underlyingKind.isPrintable = false) ∧ rest.ArePrinted

def Expression.PrintsValues (expression : Expression) : Prop :=
  ∀ arguments, expression = .println arguments → arguments.ArePrinted

section Expressions

variable {World : Type} (context : Context World) (declarations : Declarations)

/-- What is generated for the expression pushes what its kind and its type say. -/
def Expression.Sound (expression : Expression) : Prop :=
  ∀ operation, expression.generate declarations = some operation →
    PushesSize context operation expression.raises

def Arguments.Sound : Arguments → Prop
  | nil => True
  | cons expression rest =>
      (expression.type.isSome → expression.Sound context declarations) ∧ rest.Sound

def EachPushes : Operations → Prop
  | .nil => True
  | .cons operation rest => (∃ n, Pushes context operation n) ∧ EachPushes rest

variable {context declarations} {operation : Operation} {operations : Operations}
  {expression : Expression}

theorem Expression.PrintsValues.of_type (isSome : expression.type.isSome) :
    expression.PrintsValues := by
  intro arguments isPrintln
  rw [isPrintln] at isSome
  cases isSome

theorem Arguments.pushesAll : ∀ (arguments : Arguments) {operations : Operations}
    {parameters : List DataType}, arguments.Sound context declarations →
      arguments.types = parameters.map some → arguments.areValues = true →
        arguments.generate declarations = some operations →
          ∃ n, PushesAll context operations n ∧ ∀ size ∈ sizeOnStackOfList parameters, size = n
  | nil, operations, parameters, _, isTypes, _, isGenerated => by
      cases parameters with
      | cons parameter rest => cases isTypes
      | nil =>
          rw [generate, Option.some.injEq] at isGenerated
          rw [← isGenerated]
          exact ⟨0, pushesAll_nil, fun size isSize => (Option.some.inj isSize).symm⟩
  | cons expression rest, operations, parameters, sound, isTypes, areValues, isGenerated => by
      cases parameters with
      | nil => cases isTypes
      | cons parameter others =>
          rw [types, List.map_cons, List.cons.injEq] at isTypes
          rw [Arguments.areValues, Bool.and_eq_true] at areValues
          rw [generate] at isGenerated
          · simp only [Option.bind_eq_bind, Option.bind_eq_some_iff] at isGenerated
            obtain ⟨operation, isOperation, loaded, isLoaded, restOperations, isRest,
              isCons⟩ := isGenerated
            obtain ⟨n, pushesRest, isSize⟩ :=
              rest.pushesAll sound.2 isTypes.2 areValues.2 isRest
            have pushes :=
              Expression.load_pushes (sound.1 (by rw [isTypes.1]; rfl) operation isOperation)
                areValues.1 isTypes.1 isLoaded
            rw [← Option.some.inj isCons]
            refine ⟨_, pushesAll_cons pushes.getD pushesRest, fun size isSum => ?_⟩
            simp only [sizeOnStackOfList, Option.bind_eq_bind, Option.mem_def,
              Option.bind_eq_some_iff] at isSum
            obtain ⟨first, isFirst, second, isSecond, isSum⟩ := isSum
            rw [isFirst, ← isSize second isSecond, ← Option.some.inj isSum, Option.getD_some]
          · intro type isTypeExpression
            rw [isTypeExpression] at areValues
            exact Bool.false_ne_true areValues.1

theorem Expression.load_eachPushes {loaded : Operation}
    (pushes : PushesSize context operation expression.raises)
    (isLoaded : expression.load operation = some loaded) : ∃ n, Pushes context loaded n := by
  unfold Expression.load at isLoaded
  split at isLoaded
  case isTrue isVariable =>
    obtain ⟨type, _, isLoad⟩ := Option.map_eq_some_iff.mp isLoaded
    rw [raises_of_variable isVariable] at pushes
    rw [← isLoad]
    exact ⟨_, (pushes_load pushes.pushes type).getD⟩
  case isFalse =>
    rw [← Option.some.inj isLoaded]
    exact ⟨_, pushes.getD⟩

theorem prints_of_not_printable {kind : Kind} {kinds : List Kind}
    (notPrintable : kind.isPrintable = false) (pushes : EachPushes context operations) :
    Prints context operations (kind :: kinds) := by
  cases operations with
  | nil => exact prints_nil
  | cons operation rest =>
      obtain ⟨n, pushes⟩ := pushes.1
      exact prints_stop notPrintable pushes

theorem Arguments.eachPushes : ∀ (arguments : Arguments) {operations : Operations}
    {kinds : List Kind}, arguments.Sound context declarations →
      arguments.kinds = some kinds → arguments.generate declarations = some operations →
        EachPushes context operations
  | nil, operations, kinds, _, _, isGenerated => by
      rw [generate, Option.some.injEq] at isGenerated
      rw [← isGenerated]
      exact trivial
  | cons expression rest, operations, kinds, sound, areKinds, isGenerated => by
      simp only [Arguments.kinds, Option.bind_eq_bind, Option.bind_eq_some_iff] at areKinds
      obtain ⟨type, isType, restKinds, areRestKinds, _⟩ := areKinds
      by_cases isTypeExpression : ∃ type, expression = .typeExpression type
      case pos =>
        obtain ⟨type, isTypeExpression⟩ := isTypeExpression
        rw [isTypeExpression, generate] at isGenerated
        exact rest.eachPushes sound.2 areRestKinds isGenerated
      case neg =>
        rw [generate] at isGenerated
        · simp only [Option.bind_eq_bind, Option.bind_eq_some_iff] at isGenerated
          obtain ⟨operation, isOperation, loaded, isLoaded, restOperations, isRest,
            isCons⟩ := isGenerated
          have pushes := sound.1 (by rw [isType]; rfl) operation isOperation
          rw [← Option.some.inj isCons]
          exact ⟨expression.load_eachPushes pushes isLoaded,
            rest.eachPushes sound.2 areRestKinds isRest⟩
        · exact fun type isExpression => isTypeExpression ⟨type, isExpression⟩

/-- The operations of the arguments of `println` print what they push, one
after the other. -/
theorem Arguments.prints : ∀ (arguments : Arguments) {operations : Operations}
    {kinds : List Kind}, arguments.Sound context declarations → arguments.ArePrinted →
      arguments.kinds = some kinds → arguments.generate declarations = some operations →
        Prints context operations kinds
  | nil, operations, kinds, _, _, _, isGenerated => by
      rw [generate, Option.some.injEq] at isGenerated
      rw [← isGenerated]
      exact prints_nil
  | cons expression rest, operations, kinds, sound, arePrinted, areKinds, isGenerated => by
      have eachPushes := (cons expression rest).eachPushes sound areKinds isGenerated
      simp only [Arguments.kinds, Option.bind_eq_bind, Option.bind_eq_some_iff] at areKinds
      obtain ⟨type, isType, restKinds, areRestKinds, isKinds⟩ := areKinds
      rw [← Option.some.inj isKinds]
      by_cases isValue : expression.isValueOrVariable = true
      case neg =>
        exact prints_of_not_printable (arePrinted.1.resolve_left isValue type isType) eachPushes
      case pos =>
        rw [generate] at isGenerated
        · simp only [Option.bind_eq_bind, Option.bind_eq_some_iff] at isGenerated
          obtain ⟨operation, isOperation, loaded, isLoaded, restOperations, isRest,
            isCons⟩ := isGenerated
          have pushes := Expression.load_pushes (sound.1 (by rw [isType]; rfl) operation isOperation)
            isValue isType isLoaded
          rw [← Option.some.inj isCons]
          apply prints_cons _ pushes.getD (rest.prints sound.2 arePrinted.2 areRestKinds isRest)
          intro isPrintable
          obtain ⟨n, isSize⟩ := Kind.size_of_isPrintable isPrintable
          rw [DataType.sizeOnStack_of_kind rfl isSize, isSize]
          rfl
        · intro type isTypeExpression
          rw [isTypeExpression] at isValue
          exact Bool.false_ne_true isValue

theorem Arguments.takesBound (arguments : Arguments) (sound : arguments.Sound context declarations)
    (areBounds : arguments.AreBounds)
    (isGenerated : arguments.generateBound declarations = some operations) :
    TakesBound context operations := by
  cases arguments with
  | nil =>
      rw [generateBound, Option.some.injEq] at isGenerated
      rw [← isGenerated]
      exact takesBound_nil
  | cons expression rest =>
      obtain ⟨_, isValue, type, isType, _⟩ := areBounds
      simp only [generateBound, Option.bind_eq_bind, Option.bind_eq_some_iff] at isGenerated
      obtain ⟨operation, isOperation, index, isIndex, isCons⟩ := isGenerated
      rw [← Option.some.inj isCons]
      exact takesBound_cons (toIndex_pushes (sound.1 (by rw [isType]; rfl) operation isOperation)
        isValue isIndex)

/-! One lemma for each form of an expression. -/

variable {child base index left right argument slice element : Expression}
  {arguments low high max : Arguments} {type : DataType} {resultType : Option DataType}

theorem sound_literal (type : DataType) (value : Value) :
    (Expression.literal type value).Sound context declarations := by
  intro operation isGenerated
  rw [Expression.generate] at isGenerated
  exact makeLiteral_pushes isGenerated

theorem sound_identifier (offset : Int) (type : DataType) :
    (Expression.identifier offset type).Sound context declarations := by
  intro operation isGenerated
  rw [Expression.generate, Option.some.injEq] at isGenerated
  rw [← isGenerated]
  exact (pushes_reference offset).size

theorem sound_typeName (type : DataType) :
    (Expression.typeName type).Sound context declarations := by
  intro operation isGenerated
  rw [Expression.generate, Option.some.injEq] at isGenerated
  rw [← isGenerated]
  exact pushes_noop.size

theorem sound_typeExpression (type : DataType) :
    (Expression.typeExpression type).Sound context declarations := by
  intro operation isGenerated
  rw [Expression.generate] at isGenerated
  cases isGenerated

theorem sound_dereference (sound : child.Sound context declarations)
    (isValue : child.isValueOrVariable = true) (isPointer : child.isPointer = true) :
    (Expression.dereference child type).Sound context declarations := by
  intro operation isGenerated
  simp only [Expression.generate, Option.bind_eq_bind, Option.bind_eq_some_iff] at isGenerated
  obtain ⟨childOperation, isChild, isLoaded⟩ := isGenerated
  exact (Expression.load_pushes_of_kind (sound _ isChild) isValue isPointer rfl isLoaded).size

theorem sound_addressOf (sound : child.Sound context declarations)
    (isVariable : child.kind = .variable) (isPointer : type.underlyingKind = .pointer) :
    (Expression.addressOf child type).Sound context declarations := by
  intro operation isGenerated
  rw [Expression.generate] at isGenerated
  have pushes := sound operation isGenerated
  rw [Expression.raises_of_variable isVariable] at pushes
  exact pushes.pushes.size_of_kind isPointer rfl

theorem sound_select (sound : base.Sound context declarations) (offset : Nat) :
    (Expression.select base offset type).Sound context declarations := by
  intro operation isGenerated
  simp only [Expression.generate, Option.bind_eq_bind, Option.bind_eq_some_iff] at isGenerated
  obtain ⟨baseOperation, isBase, baseType, isType, isGenerated⟩ := isGenerated
  have pushes := sound baseOperation isBase
  split at isGenerated
  case isFalse => cases isGenerated
  case isTrue isVariable =>
    rw [Expression.raises_of_variable isVariable] at pushes
    have selected : (Expression.select base offset type).kind = .variable := by
      rw [Expression.kind, isVariable, ite_self]
    rw [Expression.raises_of_variable selected]
    split at isGenerated
    case isTrue isPointer =>
      rw [← Option.some.inj isGenerated]
      exact (pushes_select ((pushes_load pushes.pushes baseType).pushes_of_kind isPointer rfl)
        offset).size
    case isFalse =>
      rw [← Option.some.inj isGenerated]
      exact (pushes_select pushes.pushes offset).size

theorem sound_index (soundBase : base.Sound context declarations)
    (soundIndex : index.Sound context declarations) (isValue : index.isValueOrVariable = true) :
    (Expression.index base index type).Sound context declarations := by
  intro operation isGenerated
  simp only [Expression.generate, Option.bind_eq_bind, Option.bind_eq_some_iff] at isGenerated
  obtain ⟨baseOperation, isBase, indexOperation, isIndex, converted, isConverted, baseType, isType,
    isGenerated⟩ := isGenerated
  have pushes := soundBase baseOperation isBase
  split at isGenerated
  case isFalse => cases isGenerated
  case isTrue isVariable =>
    rw [Expression.raises_of_variable isVariable] at pushes
    have indexed : (Expression.index base index type).kind = .variable := by
      rw [Expression.kind, isVariable, ite_self]
    rw [Expression.raises_of_variable indexed]
    exact (makeIndex_pushes pushes.pushes
      (toIndex_pushes (soundIndex indexOperation isIndex) isValue isConverted) isGenerated).size

theorem sound_indexSlice (sound : base.Sound context declarations)
    (isValue : base.isValueOrVariable = true) (isSlice : type.underlyingKind = .slice)
    (soundLow : low.Sound context declarations) (areLow : low.AreBounds)
    (soundHigh : high.Sound context declarations) (areHigh : high.AreBounds)
    (soundMax : max.Sound context declarations) (areMax : max.AreBounds) :
    (Expression.indexSlice base low high max type).Sound context declarations := by
  intro operation isGenerated
  simp only [Expression.generate, Option.bind_eq_bind, Option.bind_eq_some_iff] at isGenerated
  obtain ⟨baseOperation, isBase, lowOperations, isLow, highOperations, isHigh, maxOperations, isMax,
    baseType, isType, isGenerated⟩ := isGenerated
  have pushes := sound baseOperation isBase
  have takesLow := low.takesBound soundLow areLow isLow
  have takesHigh := high.takesBound soundHigh areHigh isHigh
  have takesMax := max.takesBound soundMax areMax isMax
  apply Pushes.size_of_kind _ isSlice rfl
  split at isGenerated
  case isTrue isArray =>
    split at isGenerated
    case isFalse => cases isGenerated
    case isTrue isVariable =>
      rw [Expression.raises_of_variable isVariable] at pushes
      exact makeSliceArray_pushes pushes.pushes takesLow takesHigh takesMax isGenerated
  case isFalse notArray =>
    obtain ⟨loaded, isLoaded, isGenerated⟩ := Option.bind_eq_some_iff.mp isGenerated
    exact makeSliceSlice_pushes (Expression.load_pushes pushes isValue isType isLoaded) takesLow
      takesHigh takesMax isGenerated

theorem sound_logicNot (sound : child.Sound context declarations)
    (isValue : child.isValueOrVariable = true)
    (sameType : child.type.map DataType.underlyingType = some type.underlyingType) :
    (Expression.logicNot child type).Sound context declarations := by
  intro operation isGenerated
  simp only [Expression.generate, Option.bind_eq_bind, Option.bind_eq_some_iff] at isGenerated
  obtain ⟨childOperation, isChild, loaded, isLoaded, isGenerated⟩ := isGenerated
  obtain ⟨childType, isType, same⟩ := Option.map_eq_some_iff.mp sameType
  have pushes := Expression.load_pushes (sound _ isChild) isValue isType isLoaded
  split at isGenerated
  case isFalse => cases isGenerated
  case isTrue isBool =>
    rw [← Option.some.inj isGenerated]
    rw [DataType.sizeOnStack_congr same] at pushes
    exact (pushes_logicNot (pushes_single (pushes.pushes_of_kind isBool rfl))).size_of_kind isBool
      rfl

theorem sound_binaryArithmetic {operator : BinaryArithmetic}
    (soundLeft : left.Sound context declarations) (isLeftValue : left.isValueOrVariable = true)
    (soundRight : right.Sound context declarations) (isRightValue : right.isValueOrVariable = true)
    (typed : operator.Typed left.type right.type type) :
    (Expression.binaryArithmetic operator left right type).Sound context declarations := by
  intro operation isGenerated
  simp only [Expression.generate, Option.bind_eq_bind, Option.bind_eq_some_iff] at isGenerated
  obtain ⟨leftOperation, isLeft, leftLoaded, isLeftLoaded, rightOperation, isRight, rightLoaded,
    isRightLoaded, leftType, isLeftType, rightType, isRightType, binary, isBinary,
    isGenerated⟩ := isGenerated
  rw [isLeftType, isRightType] at typed
  rw [← Option.some.inj isGenerated]
  exact over_pushes typed isBinary
    (Expression.load_pushes (soundLeft _ isLeft) isLeftValue isLeftType isLeftLoaded)
    (Expression.load_pushes (soundRight _ isRight) isRightValue isRightType isRightLoaded)

theorem sound_conversion (sound : argument.Sound context declarations)
    (isValue : argument.isValueOrVariable = true) :
    (Expression.conversion argument type).Sound context declarations := by
  intro operation isGenerated
  simp only [Expression.generate, Option.bind_eq_bind, Option.bind_eq_some_iff] at isGenerated
  obtain ⟨argumentOperation, isArgument, loaded, isLoaded, source, isSource, isMade⟩ := isGenerated
  exact makeConversion_pushes (Expression.load_pushes (sound _ isArgument) isValue isSource isLoaded)
    isMade

theorem Signature.Returns.raises {signature : Signature} (returns : signature.Returns resultType)
    (isKind : expression.kind = Expression.kindOfResult resultType)
    (isType : expression.type = resultType) : expression.raises = signature.returnSize := by
  unfold Expression.raises Returns returnSize at *
  rw [isKind, isType]
  cases resultType with
  | none =>
      rw [Option.map_none, eq_comm, Option.map_eq_none_iff] at returns
      rw [returns]
      rfl
  | some type =>
      rw [Option.map_some, eq_comm, Option.map_eq_some_iff] at returns
      obtain ⟨result, isResult, same⟩ := returns
      rw [isResult]
      change type.sizeOnStack = sizeOnStackOfList [result]
      rw [← DataType.sizeOnStack_congr same, sizeOnStackOfList]
      cases result.sizeOnStack <;> rfl

theorem Signature.parametersSize_of_receiver {signature : Signature} {receiver : DataType}
    (hasReceiver : signature.receiver = some receiver) {size : Nat}
    (isSize : signature.parametersSize = some size) :
    ∃ n m, receiver.sizeOnStack = some n ∧ sizeOnStackOfList signature.parameters = some m ∧
      aligned size = n + m := by
  have isSum := isSize
  simp only [parametersSize, hasReceiver, Option.toList_some, List.singleton_append,
    sizeOnStackOfList, Option.bind_eq_bind, Option.bind_eq_some_iff] at isSum
  obtain ⟨n, isReceiver, m, areParameters, isSum⟩ := isSum
  refine ⟨n, m, isReceiver, areParameters, ?_⟩
  rw [aligned_of_dvd (dvd_sizeOnStackOfList isSize), ← Option.some.inj isSum]

theorem sound_functionCall {callable : Nat} (serves : context.Serves declarations)
    (sound : arguments.Sound context declarations)
    (fit : arguments.Fit (declarations.signature callable))
    (noReceiver : (declarations.signature callable).receiver = none)
    (returns : (declarations.signature callable).Returns resultType) :
    (Expression.functionCall callable arguments resultType).Sound context declarations := by
  intro operation isGenerated
  simp only [Expression.generate, Option.bind_eq_bind, Option.bind_eq_some_iff] at isGenerated
  obtain ⟨operations, areArguments, isGenerated⟩ := isGenerated
  obtain ⟨n, pushes, isSize⟩ := arguments.pushesAll sound fit.1 fit.2 areArguments
  rw [← Option.some.inj isGenerated, returns.raises rfl rfl, ← serves.signature]
  apply pushes_functionCall serves.calls (pushes_list pushes)
  intro size isParametersSize
  rw [serves.signature] at isParametersSize
  rw [aligned_of_dvd (dvd_sizeOnStackOfList isParametersSize)]
  apply isSize
  rw [Option.mem_def, Signature.parametersSize, noReceiver] at isParametersSize
  exact isParametersSize

theorem sound_methodCall {callable : Nat} (serves : context.Serves declarations)
    (soundBase : base.Sound context declarations) (isValue : base.isValueOrVariable = true)
    (sound : arguments.Sound context declarations)
    (fit : arguments.Fit (declarations.signature callable))
    (isReceiver : base.IsReceiver (declarations.signature callable))
    (returns : (declarations.signature callable).Returns resultType) :
    (Expression.methodCall callable base arguments resultType).Sound context declarations := by
  intro operation isGenerated
  simp only [Expression.generate, Option.bind_eq_bind, Option.bind_eq_some_iff] at isGenerated
  obtain ⟨operations, areArguments, baseOperation, isBase, receiver, hasReceiver, received,
    isReceived, isGenerated⟩ := isGenerated
  obtain ⟨n, pushes, isSize⟩ := arguments.pushesAll sound fit.1 fit.2 areArguments
  have pushesReceiver :=
    toReceiver_pushes (soundBase _ isBase) isValue isReceiver hasReceiver isReceived
  rw [← Option.some.inj isGenerated, returns.raises rfl rfl, ← serves.signature]
  apply pushes_methodCall serves.calls pushesReceiver.getD (pushes_list pushes)
  intro size isParametersSize
  rw [serves.signature] at isParametersSize
  obtain ⟨first, second, isFirst, isSecond, isSum⟩ :=
    Signature.parametersSize_of_receiver hasReceiver isParametersSize
  rw [isSum, isFirst, Option.getD_some, isSize second isSecond]

theorem sound_pullPortCall {port : Nat} (serves : context.Serves declarations)
    (soundPort : expression.Sound context declarations)
    (isValue : expression.isValueOrVariable = true)
    (isPort : (expression.type.any fun type => type.underlyingKind == .pullPort) = true)
    (sound : arguments.Sound context declarations)
    (fit : arguments.Fit (declarations.port port))
    (returns : (declarations.port port).Returns resultType) :
    (Expression.pullPortCall port expression arguments resultType).Sound context declarations := by
  intro operation isGenerated
  simp only [Expression.generate, Option.bind_eq_bind, Option.bind_eq_some_iff] at isGenerated
  obtain ⟨operations, areArguments, portOperation, isOperation, loaded, isLoaded,
    isGenerated⟩ := isGenerated
  obtain ⟨n, pushes, isSize⟩ := arguments.pushesAll sound fit.1 fit.2 areArguments
  have pushesPort :=
    Expression.load_pushes_of_kind (soundPort _ isOperation) isValue isPort rfl isLoaded
  rw [← Option.some.inj isGenerated, returns.raises rfl rfl]
  apply pushes_dynamicPullPortCall serves.calls pushesPort (pushes_list pushes)
  intro pointer getter isGetter
  obtain ⟨sameParameters, sameResult, receiver, hasReceiver, isPointer⟩ :=
    serves.getters port pointer getter isGetter
  rw [serves.signature, Signature.returnSize, Signature.returnSize, sameResult]
  refine ⟨rfl, fun size isParametersSize => ?_⟩
  obtain ⟨first, second, isFirst, isSecond, isSum⟩ :=
    Signature.parametersSize_of_receiver hasReceiver isParametersSize
  rw [DataType.sizeOnStack_of_kind isPointer rfl, Option.some.injEq] at isFirst
  rw [sameParameters] at isSecond
  rw [isSum, ← isFirst, isSize second isSecond]
  rfl

theorem sound_new (allocated : DataType) (isPointer : type.underlyingKind = .pointer) :
    (Expression.new allocated type).Sound context declarations := by
  intro operation isGenerated
  rw [Expression.generate] at isGenerated
  exact (makeNew_pushes isGenerated).size_of_kind isPointer rfl

theorem sound_move (sound : argument.Sound context declarations)
    (isValue : argument.isValueOrVariable = true) (isArgument : argument.isPointer = true)
    (isPointer : type.underlyingKind = .pointer) :
    (Expression.move argument type).Sound context declarations := by
  intro operation isGenerated
  simp only [Expression.generate, Option.bind_eq_bind, Option.bind_eq_some_iff] at isGenerated
  obtain ⟨argumentOperation, isOperation, loaded, isLoaded, isGenerated⟩ := isGenerated
  rw [← Option.some.inj isGenerated]
  exact (pushes_moveOp (pushes_single (Expression.load_pushes_of_kind (sound _ isOperation) isValue
    isArgument rfl isLoaded))).size_of_kind isPointer rfl

theorem sound_merge (sound : argument.Sound context declarations)
    (isValue : argument.isValueOrVariable = true) (isArgument : argument.isPointer = true)
    (isPointer : type.underlyingKind = .pointer) :
    (Expression.merge argument type).Sound context declarations := by
  intro operation isGenerated
  simp only [Expression.generate, Option.bind_eq_bind, Option.bind_eq_some_iff] at isGenerated
  obtain ⟨argumentOperation, isOperation, loaded, isLoaded, isGenerated⟩ := isGenerated
  rw [← Option.some.inj isGenerated]
  exact (pushes_mergeOp (pushes_single (Expression.load_pushes_of_kind (sound _ isOperation) isValue
    isArgument rfl isLoaded))).size_of_kind isPointer rfl

theorem sound_len (sound : argument.Sound context declarations)
    (isValue : argument.isValueOrVariable = true)
    (isSlice : (argument.type.any fun type => type.underlyingKind == .slice) = true)
    (isInt : type.underlyingKind = .int) :
    (Expression.len argument type).Sound context declarations := by
  intro operation isGenerated
  simp only [Expression.generate, Option.bind_eq_bind, Option.bind_eq_some_iff] at isGenerated
  obtain ⟨argumentOperation, isOperation, loaded, isLoaded, isGenerated⟩ := isGenerated
  rw [← Option.some.inj isGenerated]
  exact (pushes_lenOp (pushes_single (Expression.load_pushes_of_kind (sound _ isOperation) isValue
    isSlice rfl isLoaded))).size_of_kind isInt rfl

theorem sound_append (soundSlice : slice.Sound context declarations)
    (isSliceValue : slice.isValueOrVariable = true)
    (soundElement : element.Sound context declarations)
    (isElementValue : element.isValueOrVariable = true)
    (sameType : slice.type.map DataType.underlyingType = some type.underlyingType)
    (isElement : element.type.map DataType.slice = some type.underlyingType) :
    (Expression.append slice element type).Sound context declarations := by
  intro operation isGenerated
  simp only [Expression.generate, Option.bind_eq_bind, Option.bind_eq_some_iff] at isGenerated
  obtain ⟨sliceOperation, isSlice, sliceLoaded, isSliceLoaded, elementOperation, isElementOperation,
    elementLoaded, isElementLoaded, sliceType, isSliceType, isMade⟩ := isGenerated
  obtain ⟨elementType, isElementType, isSliceOf⟩ := Option.map_eq_some_iff.mp isElement
  rw [isSliceType, Option.map_some, Option.some.injEq] at sameType
  have isKind : type.underlyingKind = .slice := by
    rw [DataType.underlyingKind, ← isSliceOf]
    rfl
  exact (makeAppend_pushes
    (Expression.load_pushes (soundSlice _ isSlice) isSliceValue isSliceType isSliceLoaded)
    (Expression.load_pushes (soundElement _ isElementOperation) isElementValue isElementType
      isElementLoaded)
    (isSliceOf.trans sameType.symm) isMade).size_of_kind isKind rfl

theorem sound_copy (sound : argument.Sound context declarations)
    (isValue : argument.isValueOrVariable = true)
    (sameType : argument.type.map DataType.underlyingType = some type.underlyingType) :
    (Expression.copy argument type).Sound context declarations := by
  intro operation isGenerated
  simp only [Expression.generate, Option.bind_eq_bind, Option.bind_eq_some_iff] at isGenerated
  obtain ⟨argumentOperation, isOperation, loaded, isLoaded, source, isSource, isMade⟩ := isGenerated
  rw [isSource, Option.map_some, Option.some.injEq] at sameType
  exact (makeCopy_pushes (Expression.load_pushes (sound _ isOperation) isValue isSource isLoaded)
    isMade).of_eq (DataType.sizeOnStack_congr sameType)

theorem sound_println (sound : arguments.Sound context declarations)
    (arePrinted : arguments.ArePrinted) :
    (Expression.println arguments).Sound context declarations := by
  intro operation isGenerated
  simp only [Expression.generate, Option.bind_eq_bind, Option.bind_eq_some_iff] at isGenerated
  obtain ⟨operations, areArguments, kinds, areKinds, isGenerated⟩ := isGenerated
  rw [← Option.some.inj isGenerated]
  exact (pushes_println (arguments.prints sound arePrinted areKinds areArguments)).size

/-- An operand is no `println`. -/
private theorem printsValues_of_value (isValue : expression.isValueOrVariable = true) :
    expression.PrintsValues := by
  intro arguments isPrintln
  rw [isPrintln] at isValue
  cases isValue

private theorem isValue_of_variable (isVariable : expression.kind = .variable) :
    expression.isValueOrVariable = true := by
  rw [Expression.isValueOrVariable, isVariable]
  rfl

mutual

/-- What is generated for a checked expression pushes what its kind and its type say. -/
theorem Expression.sound (serves : context.Serves declarations) (expression : Expression)
    (checked : expression.Checked declarations) (prints : expression.PrintsValues) :
    expression.Sound context declarations := by
  have operand := fun (child : Expression) (isValue : child.isValueOrVariable = true) =>
    printsValues_of_value isValue
  cases expression with
  | literal type value => exact sound_literal type value
  | identifier offset type => exact sound_identifier offset type
  | typeName type => exact sound_typeName type
  | typeExpression type => exact sound_typeExpression type
  | dereference child type =>
      rw [Expression.Checked] at checked
      obtain ⟨isChecked, isValue, isPointer⟩ := checked
      exact sound_dereference (child.sound serves isChecked (operand child isValue)) isValue isPointer
  | addressOf child type =>
      rw [Expression.Checked] at checked
      obtain ⟨isChecked, isVariable, isPointer⟩ := checked
      exact sound_addressOf (child.sound serves isChecked
        (operand child (isValue_of_variable isVariable))) isVariable isPointer
  | select base offset type =>
      rw [Expression.Checked] at checked
      exact sound_select (base.sound serves checked.1 (operand base checked.2)) offset
  | index base index type =>
      rw [Expression.Checked] at checked
      obtain ⟨isBase, isBaseValue, isIndex, isIndexValue⟩ := checked
      exact sound_index (base.sound serves isBase (operand base isBaseValue))
        (index.sound serves isIndex (operand index isIndexValue)) isIndexValue
  | indexSlice base low high max type =>
      rw [Expression.Checked] at checked
      obtain ⟨isBase, isBaseValue, isSlice, isLow, areLow, isHigh, areHigh, isMax, areMax⟩ := checked
      exact sound_indexSlice (base.sound serves isBase (operand base isBaseValue)) isBaseValue isSlice
        (low.sound serves isLow) areLow (high.sound serves isHigh) areHigh (max.sound serves isMax)
        areMax
  | logicNot child type =>
      rw [Expression.Checked] at checked
      obtain ⟨isChecked, isValue, sameType⟩ := checked
      exact sound_logicNot (child.sound serves isChecked (operand child isValue)) isValue sameType
  | binaryArithmetic operator left right type =>
      rw [Expression.Checked] at checked
      obtain ⟨isLeft, isLeftValue, isRight, isRightValue, typed⟩ := checked
      exact sound_binaryArithmetic (left.sound serves isLeft (operand left isLeftValue)) isLeftValue
        (right.sound serves isRight (operand right isRightValue)) isRightValue typed
  | conversion argument type =>
      rw [Expression.Checked] at checked
      exact sound_conversion (argument.sound serves checked.1 (operand argument checked.2)) checked.2
  | functionCall callable arguments resultType =>
      rw [Expression.Checked] at checked
      obtain ⟨areChecked, fit, noReceiver, returns⟩ := checked
      exact sound_functionCall serves (arguments.sound serves areChecked) fit noReceiver returns
  | methodCall callable base arguments resultType =>
      rw [Expression.Checked] at checked
      obtain ⟨isBase, isValue, areChecked, fit, isReceiver, returns⟩ := checked
      exact sound_methodCall serves (base.sound serves isBase (operand base isValue)) isValue
        (arguments.sound serves areChecked) fit isReceiver returns
  | pullPortCall port expression arguments resultType =>
      rw [Expression.Checked] at checked
      obtain ⟨isChecked, isValue, isPort, areChecked, fit, returns⟩ := checked
      exact sound_pullPortCall serves
        (expression.sound serves isChecked (operand expression isValue)) isValue isPort
        (arguments.sound serves areChecked) fit returns
  | new allocated type =>
      rw [Expression.Checked] at checked
      exact sound_new allocated checked
  | move argument type =>
      rw [Expression.Checked] at checked
      obtain ⟨isChecked, isValue, isArgument, isPointer⟩ := checked
      exact sound_move (argument.sound serves isChecked (operand argument isValue)) isValue isArgument
        isPointer
  | merge argument type =>
      rw [Expression.Checked] at checked
      obtain ⟨isChecked, isValue, isArgument, isPointer⟩ := checked
      exact sound_merge (argument.sound serves isChecked (operand argument isValue)) isValue isArgument
        isPointer
  | len argument type =>
      rw [Expression.Checked] at checked
      obtain ⟨isChecked, isValue, isSlice, isInt⟩ := checked
      exact sound_len (argument.sound serves isChecked (operand argument isValue)) isValue isSlice isInt
  | append slice element type =>
      rw [Expression.Checked] at checked
      obtain ⟨isSlice, isSliceValue, isElement, isElementValue, sameType, isElementOf⟩ := checked
      exact sound_append (slice.sound serves isSlice (operand slice isSliceValue)) isSliceValue
        (element.sound serves isElement (operand element isElementValue)) isElementValue sameType
        isElementOf
  | copy argument type =>
      rw [Expression.Checked] at checked
      obtain ⟨isChecked, isValue, sameType⟩ := checked
      exact sound_copy (argument.sound serves isChecked (operand argument isValue)) isValue sameType
  | println arguments =>
      rw [Expression.Checked] at checked
      exact sound_println (arguments.sound serves checked) (prints arguments rfl)

theorem Arguments.sound (serves : context.Serves declarations) (arguments : Arguments)
    (checked : arguments.Checked declarations) : arguments.Sound context declarations := by
  cases arguments with
  | nil => exact trivial
  | cons expression rest =>
      rw [Arguments.Checked] at checked
      exact ⟨fun isSome => expression.sound serves checked.1 (.of_type isSome),
        rest.sound serves checked.2⟩

end

end Expressions

end Rcgo.Code
