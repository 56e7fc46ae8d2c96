import Rcgo.Checker.ConstantExpressions

/-!
# Binary operators on constants

Each binary operator either fails for its operands, or its check comes to an end
with what the operator means.
-/

namespace Rcgo.Code

variable {floating : Floating}

/-! ## Values -/

section Values

variable {operator : BinaryArithmetic} {kind : Kind} {x y : Value}

end Values

/-! ## Operands -/

/-- A constant of its type. -/
structure Folded.Proper (folded : Folded) : Prop where
  isType : folded.type.isDeclared = true ∨ folded.type.isUntyped = true
  isValue : folded.value.isText = folded.type.underlyingKind.isText

section Operands

variable {operator : BinaryArithmetic} {left right folded : Folded} {type : DataType}

end Operands

/-! ## Operators -/

section Operators

variable {operator : BinaryArithmetic} {left right : Folded} {type : DataType}

/-- The end of the check, from the conversions of the operands on. -/
def BinaryArithmetic.finish (floating : Floating) (operator : BinaryArithmetic) (type : DataType)
    (left right : ExpressionValue) : Option (Option ExpressionValue) := do
  let left ← left.convert floating type
  let right ← right.convert floating type
  match operator.pick type type with
  | none => some none
  | some _ => do
      let checked ← operator.conclude floating type left right
      some (some checked.result)

/-- The results of a check that has told errors apart. -/
def results (examined : Option (Option CheckedOperator)) : Option (Option ExpressionValue) :=
  examined.map (Option.map CheckedOperator.result)

end Operators

end Rcgo.Code
