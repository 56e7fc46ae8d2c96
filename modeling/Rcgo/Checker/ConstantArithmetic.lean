import Rcgo.Checker.ConstantFolding
import Rcgo.Checker.UntypedConstants

/-!
# Arithmetic of constant expressions

A constant expression is checked to what it means, unless an operator in it
fails.
-/

namespace Rcgo.Checker

open Rcgo.Code

variable {environment : Environment}

/-! ## Unary operators -/

section Unary

variable {kind : Kind} {leftover word : Nat} {signed : Bool} {width : Nat}

end Unary

/-! ## Expressions -/

namespace ConstantExpression

variable {leftover : ConstantExpression → Nat}

theorem operand_checked {result : ExpressionValue} (isValue : result.expressionKind = .value) :
    (Node.checked result).operand = some result := by
  unfold Node.checked Node.operand
  have notError : ¬result.expressionKind = .error := by
    rw [isValue]
    decide
  exact if_neg notError

/-- The check of an operator and the check that tells errors apart. -/
theorem join_examineArithmetic {floating : Floating} {operator : BinaryArithmetic}
    {x y : ExpressionValue} :
    (operator.examineArithmetic floating x y).join = operator.checkArithmetic floating x y := by
  unfold BinaryArithmetic.examineArithmetic BinaryArithmetic.checkArithmetic
  by_cases areOperands : (x.isValueOrVariable && y.isValueOrVariable) = true
  case neg =>
    rw [if_neg areOperands, guard, if_neg areOperands]
    rfl
  rw [if_pos areOperands, guard, if_pos areOperands]
  change _ = if x.type.isUntyped && y.type.isUntyped then _ else _
  by_cases areUntyped : (x.type.isUntyped && y.type.isUntyped) = true
  · rw [if_pos areUntyped, if_pos areUntyped]
    cases operator.pick x.type y.type with
    | none => rfl
    | some type =>
        dsimp only [Option.bind_eq_bind, Option.bind_some]
        cases x.convert floating type with
        | none => rfl
        | some x =>
            cases y.convert floating type with
            | none => rfl
            | some y =>
                dsimp only [Option.bind_some]
                cases operator.conclude floating type x y <;> rfl
  · rw [if_neg areUntyped, if_neg areUntyped]
    cases eitherAssignable floating x y with
    | none => rfl
    | some assignable =>
        cases assignable with
        | false => rfl
        | true =>
            dsimp only [Option.bind_eq_bind, Option.bind_some]
            rw [if_pos rfl, guard, if_pos rfl]
            dsimp only [Option.pure_def, Option.bind_some]
            cases x.convert floating (choose x.type y.type) with
            | none => rfl
            | some left =>
                cases y.convert floating (choose x.type y.type) with
                | none => rfl
                | some right =>
                    dsimp only [Option.bind_some]
                    cases operator.pick (choose x.type y.type) (choose x.type y.type) with
                    | none => rfl
                    | some picked =>
                        dsimp only [Option.bind_some]
                        cases operator.conclude floating (choose x.type y.type) left right <;> rfl

theorem join_examineCount {floating : Floating} {y : ExpressionValue} :
    (examineCount floating y).join = convertCount floating y := by
  unfold examineCount convertCount
  cases y.value with
  | none => rfl
  | some value =>
      dsimp only
      cases Value.representable floating y.type (.basic .uint) (some value) with
      | none => rfl
      | some representable =>
          cases representable with
          | false => rfl
          | true =>
              dsimp only [Option.bind_eq_bind, Option.bind_some]
              rw [if_pos rfl, guard, if_pos rfl]
              cases value.convert floating y.type (.basic .uint) <;> rfl

theorem join_examineShift {floating : Floating} {operator : ShiftOperator} {x y : ExpressionValue} :
    (examineShift floating operator x y).join = checkShift floating operator x y := by
  unfold examineShift checkShift
  by_cases areOperands : (x.isValueOrVariable && y.isValueOrVariable) = true
  case neg =>
    rw [if_neg areOperands, guard, if_neg areOperands]
    rfl
  rw [if_pos areOperands, guard, if_pos areOperands]
  by_cases isCount : (y.type.underlyingKind.isTypedUnsignedInteger ||
      y.type.underlyingKind.isUntypedNumeric) = true
  case neg =>
    rw [if_neg isCount, guard, if_neg isCount]
    rfl
  rw [if_pos isCount, guard, if_pos isCount, ← join_examineCount]
  dsimp only [Option.pure_def, Option.bind_eq_bind, Option.bind_some]
  cases examineCount floating y with
  | none => rfl
  | some examined =>
      cases examined with
      | none => rfl
      | some count =>
          dsimp only [Option.join_some, Option.bind_some]
          by_cases integral : x.type.underlyingKind.isIntegral = true
          case neg =>
            rw [if_neg integral, guard, if_neg integral]
            rfl
          rw [if_pos integral, guard, if_pos integral]
          dsimp only [Option.pure_def, Option.bind_some]
          cases computeShiftValue operator x.type.underlyingKind x.value count.value <;> rfl

theorem join_examine {floating : Floating} {operator : BinaryArithmetic} {x y : ExpressionValue} :
    (operator.examine floating x y).join = operator.check floating x y := by
  cases operator with
  | leftShift | rightShift => exact join_examineShift
  | _ => exact join_examineArithmetic

theorem join_unary {operator : UnaryOperator} {leftover : Nat} {x : ExpressionValue} :
    (operator.examine environment leftover x).join = operator.check environment leftover x := by
  unfold UnaryOperator.examine
  by_cases applies : (x.isValueOrVariable && operator.applies x.type.underlyingKind) = true
  · rw [if_pos applies]
    cases operator.check environment leftover x <;> rfl
  · rw [if_neg applies, UnaryOperator.check, if_neg applies]
    rfl

theorem toExpressionValue_fixString (eval : Eval) :
    eval.fixStringIndirectionMutability.toExpressionValue = eval.toExpressionValue := by
  unfold Eval.fixStringIndirectionMutability
  split <;> rfl

/-- What a check that does not tell errors apart is left with. -/
def Node.accepted (node : Option Node) : Option ExpressionValue :=
  node.bind Node.operand

theorem checked_of_accepted {checked : Option (Option Eval)} {node : Option Node}
    (agree : checked.map (Option.map Eval.toExpressionValue) = (Node.accepted node).map some) :
    (checked = none ∧ Node.accepted node = none) ∨
      ∃ eval : Eval, checked = some (some eval) ∧ Node.accepted node = some eval.toExpressionValue := by
  cases isAccepted : Node.accepted node with
  | none =>
      rw [isAccepted] at agree
      exact Or.inl ⟨Option.map_eq_none_iff.mp agree, rfl⟩
  | some result =>
      rw [isAccepted] at agree
      rcases Option.map_eq_some_iff.mp agree with ⟨other, isChecked, isSame⟩
      rcases Option.map_eq_some_iff.mp isSame with ⟨eval, rfl, rfl⟩
      exact Or.inr ⟨eval, isChecked, rfl⟩

theorem accepted_ofResult {examined : Option (Option ExpressionValue)}
    (areValues : ∀ result, examined.join = some result → result.expressionKind = .value) :
    Node.accepted (examined.bind fun result => some (.ofResult result)) = examined.join := by
  cases examined with
  | none => rfl
  | some result =>
      cases result with
      | none => rfl
      | some result => exact operand_checked (areValues result rfl)

theorem map_computed (computed : Option ExpressionValue) :
    (computed.bind fun result => some (some (Eval.mk result .immutable .immutable))).map
      (Option.map Eval.toExpressionValue) = computed.map some := by
  cases computed <;> rfl

/-- The checker of expressions agrees with this one. -/
theorem check_toExpression {name : Constant → String}
    (named : ∀ symbol, environment.symbols (name symbol) = some (.constant symbol))
    (expression : ConstantExpression) :
    ((expression.toExpression name).check environment).map (Option.map Eval.toExpressionValue) =
      (Node.accepted (expression.examine environment fun expression =>
        environment.leftover (expression.toExpression name))).map some := by
  induction expression with
  | literal token => rfl
  | constant symbol =>
      rw [toExpression, Expression.check, named]
      change some (some (Eval.toExpressionValue (Eval.fixStringIndirectionMutability _))) = _
      rw [toExpressionValue_fixString]
      rfl
  | unaryArithmetic operator child induction =>
      rw [toExpression, Expression.check, examine]
      rcases checked_of_accepted induction with ⟨isNone, notAccepted⟩ | ⟨eval, isChecked, isAccepted⟩
      · rw [isNone]
        cases isNode : child.examine environment _ with
        | none => rfl
        | some node =>
            rw [isNode] at notAccepted
            dsimp only [Option.bind_eq_bind, Option.bind_some]
            rw [show node.operand = none from notAccepted]
            rfl
      · rw [isChecked]
        rcases Option.bind_eq_some_iff.mp isAccepted with ⟨node, isNode, isOperand⟩
        rw [isNode]
        dsimp only [Option.bind_eq_bind, Option.bind_some]
        rw [isOperand]
        dsimp only
        rw [accepted_ofResult, join_unary]
        · exact map_computed _
        · intro result isResult
          rw [join_unary] at isResult
          exact (UnaryOperator.check_spec isResult).isValue
  | binaryArithmetic operator left right leftInduction rightInduction =>
      rw [toExpression, Expression.check, examine]
      rcases checked_of_accepted leftInduction with
        ⟨isNone, notAccepted⟩ | ⟨leftEval, leftChecked, leftAccepted⟩
      · rw [isNone]
        cases isNode : left.examine environment _ with
        | none => rfl
        | some node =>
            rw [isNode] at notAccepted
            dsimp only [Option.bind_eq_bind, Option.bind_some]
            rw [show node.operand = none from notAccepted]
            cases right.examine environment _ <;> rfl
      rcases Option.bind_eq_some_iff.mp leftAccepted with ⟨leftNode, isLeft, leftOperand⟩
      rw [leftChecked, isLeft]
      rcases checked_of_accepted rightInduction with
        ⟨isNone, notAccepted⟩ | ⟨rightEval, rightChecked, rightAccepted⟩
      · rw [isNone]
        cases isNode : right.examine environment _ with
        | none => rfl
        | some node =>
            rw [isNode] at notAccepted
            dsimp only [Option.bind_eq_bind, Option.bind_some]
            rw [leftOperand, show node.operand = none from notAccepted]
            rfl
      rcases Option.bind_eq_some_iff.mp rightAccepted with ⟨rightNode, isRight, rightOperand⟩
      rw [rightChecked, isRight]
      dsimp only [Option.bind_eq_bind, Option.bind_some]
      rw [leftOperand, rightOperand, PolymorphicFunction.check, twoArguments]
      dsimp only [Option.bind_eq_bind, Option.bind_some]
      rw [← join_examine]
      cases isExamined : operator.examine environment.floating leftEval.toExpressionValue
        rightEval.toExpressionValue with
      | none => rfl
      | some examined =>
          cases examined with
          | none => rfl
          | some checked =>
              have runs : operator.check environment.floating leftEval.toExpressionValue
                  rightEval.toExpressionValue = some checked := by
                rw [← join_examine, isExamined]
                rfl
              have isValue : checked.result.expressionKind = .value := by
                rcases check_cases runs with ⟨_, _, isShift⟩ | ⟨_, isArithmetic⟩
                · exact isValue_of_checkShift isShift
                · exact isValue_of_checkArithmetic isArithmetic
              change _ = (Node.operand (Node.checked checked.result)).map some
              rw [operand_checked isValue]
              rfl

end ConstantExpression

end Rcgo.Checker
