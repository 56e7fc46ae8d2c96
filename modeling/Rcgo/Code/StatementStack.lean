import Rcgo.Code.ExpressionStack

/-!
# What statements leave

The operation of a checked statement leaves the stack as high as it was, as long
as every expression statement pops what its expression pushed.
-/

namespace Rcgo.Code

open Rcgo.Foundation Machine

/-- What is popped behind the expression is what the expression pushes: a
variable pushes a pointer, but the size of its type is popped. -/
def Expression.IsBalanced (child : Expression) : Prop :=
  (child.kind = .variable →
    ∀ size ∈ child.type.bind DataType.sizeOnStack, size = wordBytes) ∧
    child.PrintsValues

mutual

/-- Every expression statement pops what its expression pushes. -/
def Statement.IsBalanced : Statement → Prop
  | .list statements => statements.AreBalanced
  | .expression child => child.IsBalanced
  | .ifStatement _ _ trueBody falseBody => trueBody.IsBalanced ∧ falseBody.IsBalanced
  | .whileStatement _ body => body.IsBalanced
  | .forIota _ _ body => body.IsBalanced
  | .change _ _ body => body.IsBalanced
  | .empty | .constDecl | .returnStatement _ _ | .var _ _ | .assign _ _ | .addAssign _ _
  | .increment _ | .decrement _ => True

/-- Every expression statement pops what its expression pushes. -/
def Statements.AreBalanced : Statements → Prop
  | .nil => True
  | .cons statement rest => statement.IsBalanced ∧ rest.AreBalanced

end

section Statements

variable {World : Type} {context : Context World} {declarations : Declarations}
  {operation : Operation} {operations : Operations} {expression child : Expression}

theorem Expression.Converted.pushes {type : DataType} {loaded : Operation}
    (converted : expression.Converted declarations type) (serves : context.Serves declarations)
    (isGenerated : expression.generate declarations = some operation)
    (isLoaded : expression.load operation = some loaded) :
    PushesSize context loaded type.sizeOnStack := by
  obtain ⟨checked, isValue, isType⟩ := converted
  have prints : expression.PrintsValues := .of_type (by rw [isType]; rfl)
  exact expression.load_pushes (expression.sound serves checked prints operation isGenerated) isValue
    isType isLoaded

theorem Expression.IsCondition.pushes {loaded : Operation}
    (condition : expression.IsCondition declarations) (serves : context.Serves declarations)
    (isGenerated : expression.generate declarations = some operation)
    (isLoaded : expression.load operation = some loaded) : Pushes context loaded (aligned 1) := by
  obtain ⟨checked, isValue, isBool⟩ := condition
  obtain ⟨type, isType, _⟩ := Expression.type_of_any isBool
  have prints : expression.PrintsValues := .of_type (by rw [isType]; rfl)
  exact Expression.load_pushes_of_kind (expression.sound serves checked prints operation isGenerated)
    isValue isBool rfl isLoaded

theorem Expression.pushes_of_variable (serves : context.Serves declarations)
    (checked : expression.Checked declarations) (isVariable : expression.kind = .variable)
    (isGenerated : expression.generate declarations = some operation) :
    Pushes context operation wordBytes := by
  have prints : expression.PrintsValues := by
    intro arguments isPrintln
    rw [isPrintln] at isVariable
    cases isVariable
  have pushes := expression.sound serves checked prints operation isGenerated
  rw [raises_of_variable isVariable] at pushes
  exact pushes.pushes

theorem PushesSize.pushes_of_size {type : DataType} {n : Nat}
    (pushes : PushesSize context operation type.sizeOnStack) (isSize : type.size = some n) :
    Pushes context operation (aligned n) := by
  rw [DataType.sizeOnStack, isSize] at pushes
  exact pushes.pushes

theorem discard_spec {discarded : Operation} (serves : context.Serves declarations)
    (checked : child.Checked declarations)
    (isKind : child.kind ∈ [ExpressionKind.value, .variable, .void])
    (balanced : child.IsBalanced) (isGenerated : child.generate declarations = some operation)
    (isDiscarded : child.discard operation = some discarded) :
    (discarded = operation ∧ Pushes context operation 0) ∨
      ∃ size, discarded = .popn operation size ∧ Pushes context operation (aligned size) := by
  have pushes := child.sound serves checked balanced.2 operation isGenerated
  unfold Expression.discard at isDiscarded
  by_cases isVoid : child.kind = .void
  case pos =>
    rw [if_pos isVoid, Option.some.injEq] at isDiscarded
    rw [Expression.raises, isVoid] at pushes
    exact Or.inl ⟨isDiscarded.symm, pushes.pushes⟩
  case neg =>
    simp only [if_neg isVoid, Option.bind_eq_bind, Option.bind_eq_some_iff] at isDiscarded
    obtain ⟨type, isType, size, isSize, isDiscarded⟩ := isDiscarded
    have onStack : child.type.bind DataType.sizeOnStack = some (aligned size) := by
      rw [isType, Option.bind_some, DataType.sizeOnStack, isSize, Option.map_some]
    have isRaised : child.raises = some (aligned size) := by
      simp only [List.mem_cons, List.not_mem_nil, or_false, isVoid] at isKind
      rcases isKind with isValue | isVariable
      · rw [Expression.raises, isValue, onStack]
      · rw [Expression.raises_of_variable isVariable, balanced.1 isVariable _ onStack]
    rw [isRaised] at pushes
    split at isDiscarded
    case isTrue isZero =>
      rw [isZero] at pushes
      exact Or.inl ⟨(Option.some.inj isDiscarded).symm, pushes.pushes⟩
    case isFalse =>
      exact Or.inr ⟨size, (Option.some.inj isDiscarded).symm, pushes.pushes⟩

theorem discard_neutral {discarded : Operation} (serves : context.Serves declarations)
    (checked : child.Checked declarations)
    (isKind : child.kind ∈ [ExpressionKind.value, .variable, .void])
    (balanced : child.IsBalanced) (isGenerated : child.generate declarations = some operation)
    (isDiscarded : child.discard operation = some discarded) : Neutral context discarded := by
  rcases discard_spec serves checked isKind balanced isGenerated isDiscarded with
    ⟨same, pushes⟩ | ⟨size, isPop, pushes⟩
  · rw [same]
    exact pushes.neutral
  · rw [isPop]
    exact neutral_popn pushes

theorem clears_neutral : ∀ (symbols : List Variable) {operations : Operations},
    generateClears symbols = some operations → NeutralAll context operations
  | [], operations, isGenerated => by
      rw [← Option.some.inj isGenerated]
      exact neutralAll_nil
  | symbol :: rest, operations, isGenerated => by
      simp only [generateClears, Option.bind_eq_bind, Option.bind_eq_some_iff] at isGenerated
      obtain ⟨size, _, restOperations, isRest, isCons⟩ := isGenerated
      rw [← Option.some.inj isCons]
      exact neutralAll_cons (neutral_clear symbol.offset size) (clears_neutral rest isRest)

theorem initializers_neutral (serves : context.Serves declarations) :
    ∀ (pairs : List (Variable × Expression)) {operations : Operations},
      (∀ pair ∈ pairs, pair.2.Converted declarations pair.1.type) →
        generateInitializers declarations pairs = some operations → NeutralAll context operations
  | [], operations, _, isGenerated => by
      rw [← Option.some.inj isGenerated]
      exact neutralAll_nil
  | (symbol, expression) :: rest, operations, converted, isGenerated => by
      simp only [generateInitializers, Option.bind_eq_bind, Option.bind_eq_some_iff] at isGenerated
      obtain ⟨operation, isOperation, loaded, isLoaded, size, isSize, restOperations, isRest,
        isCons⟩ := isGenerated
      have pushes := (converted (symbol, expression) List.mem_cons_self).pushes serves isOperation
        isLoaded
      rw [← Option.some.inj isCons]
      exact neutralAll_cons
        (neutral_assign (pushes_reference symbol.offset) (pushes.pushes_of_size isSize))
        (initializers_neutral serves rest
          (fun pair isMember => converted pair (List.mem_cons_of_mem _ isMember)) isRest)

theorem Kind.size_of_isAddable {kind : Kind} (isAddable : kind.isAddable = true) :
    ∃ n, kind.size = some n := by
  cases kind <;> first | exact ⟨_, rfl⟩ | cases isAddable

theorem makeAddAssign_neutral {left right made : Operation} {type : DataType}
    (pushesLeft : Pushes context left wordBytes)
    (pushesRight : PushesSize context right type.sizeOnStack)
    (isMade : makeAddAssign left right type = some made) : Neutral context made := by
  unfold makeAddAssign at isMade
  split at isMade
  case isFalse => cases isMade
  case isTrue isAddable =>
    obtain ⟨n, isSize⟩ := Kind.size_of_isAddable isAddable
    rw [← Option.some.inj isMade]
    exact neutral_addAssign isSize pushesLeft (pushesRight.pushes_of_kind rfl isSize)

theorem makeIncrement_neutral {made : Operation} {type : DataType}
    (pushes : Pushes context operation wordBytes)
    (isMade : makeIncrement operation type = some made) : Neutral context made := by
  unfold makeIncrement at isMade
  split at isMade
  case isFalse => cases isMade
  case isTrue =>
    rw [← Option.some.inj isMade]
    exact neutral_increment _ pushes

theorem makeDecrement_neutral {made : Operation} {type : DataType}
    (pushes : Pushes context operation wordBytes)
    (isMade : makeDecrement operation type = some made) : Neutral context made := by
  unfold makeDecrement at isMade
  split at isMade
  case isFalse => cases isMade
  case isTrue =>
    rw [← Option.some.inj isMade]
    exact neutral_decrement _ pushes

mutual

/-- The operation of a checked and balanced statement leaves the stack as high
as it was. -/
theorem Statement.neutral (serves : context.Serves declarations) (statement : Statement)
    (checked : statement.Checked declarations) (balanced : statement.IsBalanced)
    {operation : Operation} (isGenerated : statement.generate declarations = some operation) :
    Neutral context operation := by
  cases statement with
  | empty =>
      rw [Statement.generate, Option.some.injEq] at isGenerated
      rw [← isGenerated]
      exact pushes_noop.neutral
  | constDecl =>
      rw [Statement.generate] at isGenerated
      cases isGenerated
  | list statements =>
      rw [Statement.generate] at isGenerated
      obtain ⟨operations, areGenerated, isList⟩ := Option.map_eq_some_iff.mp isGenerated
      rw [Statement.Checked] at checked
      rw [Statement.IsBalanced] at balanced
      rw [← isList]
      exact neutral_list (statements.neutral serves checked balanced areGenerated)
  | expression child =>
      simp only [Statement.generate, Option.bind_eq_bind, Option.bind_eq_some_iff] at isGenerated
      obtain ⟨childOperation, isChild, isDiscarded⟩ := isGenerated
      rw [Statement.Checked] at checked
      rw [Statement.IsBalanced] at balanced
      exact discard_neutral serves checked.1 checked.2 balanced isChild isDiscarded
  | returnStatement child returnSymbol =>
      simp only [Statement.generate, Option.bind_eq_bind, Option.bind_eq_some_iff] at isGenerated
      obtain ⟨childOperation, isChild, loaded, isLoaded, size, isSize, isReturn⟩ := isGenerated
      rw [Statement.Checked] at checked
      rw [← Option.some.inj isReturn]
      exact neutral_returnOp ((checked.pushes serves isChild isLoaded).pushes_of_size isSize) _
  | ifStatement before condition trueBody falseBody =>
      simp only [Statement.generate, Option.bind_eq_bind, Option.bind_eq_some_iff] at isGenerated
      obtain ⟨_, _, conditionOperation, isCondition, trueOperation, isTrueBody, falseOperation,
        isFalseBody, isGenerated⟩ := isGenerated
      rw [Statement.Checked] at checked
      rw [Statement.IsBalanced] at balanced
      obtain ⟨_, conditionChecked, trueChecked, falseChecked⟩ := checked
      have neutralTrue := trueBody.neutral serves trueChecked balanced.1 isTrueBody
      have neutralFalse := falseBody.neutral serves falseChecked balanced.2 isFalseBody
      split at isGenerated
      · rw [← Option.some.inj isGenerated]
        exact neutralTrue
      · rw [← Option.some.inj isGenerated]
        exact neutralFalse
      · obtain ⟨loaded, isLoaded, isIf⟩ := Option.bind_eq_some_iff.mp isGenerated
        rw [← Option.some.inj isIf]
        exact neutral_ifOp (conditionChecked.pushes serves isCondition isLoaded) neutralTrue
          neutralFalse
  | whileStatement condition body =>
      simp only [Statement.generate, Option.bind_eq_bind, Option.bind_eq_some_iff] at isGenerated
      obtain ⟨conditionOperation, isCondition, bodyOperation, isBody, loaded, isLoaded,
        isWhile⟩ := isGenerated
      rw [Statement.Checked] at checked
      rw [Statement.IsBalanced] at balanced
      rw [← Option.some.inj isWhile]
      exact neutral_whileOp (checked.1.pushes serves isCondition isLoaded)
        (body.neutral serves checked.2 balanced isBody)
  | forIota symbol limit body =>
      simp only [Statement.generate, Option.bind_eq_bind, Option.bind_eq_some_iff] at isGenerated
      obtain ⟨bodyOperation, isBody, isFor⟩ := isGenerated
      rw [Statement.Checked] at checked
      rw [Statement.IsBalanced] at balanced
      rw [← Option.some.inj isFor]
      exact neutral_forIota (body.neutral serves checked balanced isBody) symbol.offset limit
  | var symbols expressions =>
      rw [Statement.generate] at isGenerated
      rw [Statement.Checked] at checked
      split at isGenerated
      · obtain ⟨operations, areGenerated, isList⟩ := Option.map_eq_some_iff.mp isGenerated
        rw [← isList]
        exact neutral_list (clears_neutral symbols areGenerated)
      · obtain ⟨operations, areGenerated, isList⟩ := Option.map_eq_some_iff.mp isGenerated
        rw [← isList]
        exact neutral_list (initializers_neutral serves _ checked areGenerated)
  | assign left right =>
      simp only [Statement.generate, Option.bind_eq_bind, Option.bind_eq_some_iff] at isGenerated
      obtain ⟨leftOperation, isLeft, rightOperation, isRight, loaded, isLoaded, type, isType, size,
        isSize, isAssign⟩ := isGenerated
      rw [Statement.Checked] at checked
      obtain ⟨leftChecked, isVariable, leftType, isLeftType, converted⟩ := checked
      rw [isLeftType, Option.some.injEq] at isType
      rw [← isType] at isSize
      rw [← Option.some.inj isAssign]
      exact neutral_assign (left.pushes_of_variable serves leftChecked isVariable isLeft)
        ((converted.pushes serves isRight isLoaded).pushes_of_size isSize)
  | addAssign left right =>
      simp only [Statement.generate, Option.bind_eq_bind, Option.bind_eq_some_iff] at isGenerated
      obtain ⟨leftOperation, isLeft, rightOperation, isRight, loaded, isLoaded, type, isType,
        isMade⟩ := isGenerated
      rw [Statement.Checked] at checked
      obtain ⟨leftChecked, isVariable, leftType, isLeftType, converted⟩ := checked
      rw [isLeftType, Option.some.injEq] at isType
      rw [isType] at converted
      exact makeAddAssign_neutral (left.pushes_of_variable serves leftChecked isVariable isLeft)
        (converted.pushes serves isRight isLoaded) isMade
  | increment child =>
      simp only [Statement.generate, Option.bind_eq_bind, Option.bind_eq_some_iff] at isGenerated
      obtain ⟨childOperation, isChild, type, _, isMade⟩ := isGenerated
      rw [Statement.Checked] at checked
      exact makeIncrement_neutral (child.pushes_of_variable serves checked.1 checked.2 isChild) isMade
  | decrement child =>
      simp only [Statement.generate, Option.bind_eq_bind, Option.bind_eq_some_iff] at isGenerated
      obtain ⟨childOperation, isChild, type, _, isMade⟩ := isGenerated
      rw [Statement.Checked] at checked
      exact makeDecrement_neutral (child.pushes_of_variable serves checked.1 checked.2 isChild) isMade
  | change argument rootSymbol body =>
      simp only [Statement.generate, Option.bind_eq_bind, Option.bind_eq_some_iff] at isGenerated
      obtain ⟨argumentOperation, isArgument, bodyOperation, isBody, loaded, isLoaded,
        isChange⟩ := isGenerated
      rw [Statement.Checked] at checked
      rw [Statement.IsBalanced] at balanced
      obtain ⟨argumentChecked, isValue, isPointer, bodyChecked⟩ := checked
      have prints : argument.PrintsValues := by
        obtain ⟨type, isType, _⟩ := Expression.type_of_any isPointer
        exact .of_type (by rw [isType]; rfl)
      rw [← Option.some.inj isChange]
      exact neutral_change
        (Expression.load_pushes_of_kind
          (argument.sound serves argumentChecked prints _ isArgument) isValue isPointer rfl isLoaded)
        (body.neutral serves bodyChecked balanced isBody) rootSymbol.offset

theorem Statements.neutral (serves : context.Serves declarations) (statements : Statements)
    (checked : statements.Checked declarations) (balanced : statements.AreBalanced)
    {operations : Operations} (areGenerated : statements.generate declarations = some operations) :
    NeutralAll context operations := by
  cases statements with
  | nil =>
      rw [Statements.generate, Option.some.injEq] at areGenerated
      rw [← areGenerated]
      exact neutralAll_nil
  | cons statement rest =>
      rw [Statements.Checked] at checked
      rw [Statements.AreBalanced] at balanced
      by_cases isConst : statement = .constDecl
      case pos =>
        rw [isConst, Statements.generate] at areGenerated
        exact rest.neutral serves checked.2 balanced.2 areGenerated
      case neg =>
        rw [Statements.generate] at areGenerated
        · simp only [Option.bind_eq_bind, Option.bind_eq_some_iff] at areGenerated
          obtain ⟨operation, isOperation, restOperations, isRest, isCons⟩ := areGenerated
          rw [← Option.some.inj isCons]
          exact neutralAll_cons (statement.neutral serves checked.1 balanced.1 isOperation)
            (rest.neutral serves checked.2 balanced.2 isRest)
        · exact isConst

end

end Statements

end Rcgo.Code
