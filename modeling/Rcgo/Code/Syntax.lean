import Rcgo.Code.Operation

/-!
# Checked syntax trees

The expressions and statements of the language as the checker leaves them: every
node carries the type it was given, symbols have been replaced by their offsets
and callables by their numbers.
-/

namespace Rcgo.Code

mutual

/-- An expression.  A node that the checker found a value for is a `literal`
whatever it was before; the type of an expression is the one it was converted to
by the node around it. -/
inductive Expression where
  | literal (type : DataType) (value : Value)
  | identifier (offset : Int) (type : DataType)
  | typeName (type : DataType)
  | typeExpression (type : DataType)
  | dereference (child : Expression) (type : DataType)
  | addressOf (child : Expression) (type : DataType)
  | select (base : Expression) (offset : Nat) (type : DataType)
  | index (base index : Expression) (type : DataType)
  | indexSlice (base : Expression) (low high max : Arguments) (type : DataType)
  | logicNot (child : Expression) (type : DataType)
  | binaryArithmetic (operator : BinaryArithmetic) (left right : Expression) (type : DataType)
  | conversion (argument : Expression) (type : DataType)
  | functionCall (callable : Nat) (arguments : Arguments) (type : Option DataType)
  | methodCall (callable : Nat) (base : Expression) (arguments : Arguments)
      (type : Option DataType)
  | pullPortCall (port : Nat) (expression : Expression) (arguments : Arguments)
      (type : Option DataType)
  | new (allocated type : DataType)
  | move (argument : Expression) (type : DataType)
  | merge (argument : Expression) (type : DataType)
  | len (argument : Expression) (type : DataType)
  | append (slice element : Expression) (type : DataType)
  | copy (argument : Expression) (type : DataType)
  | println (arguments : Arguments)

/-- `ExpressionList`. -/
inductive Arguments where
  | nil
  | cons (expression : Expression) (rest : Arguments)

end

/-- A local variable: its offset in the frame and its type. -/
structure Variable where
  offset : Int
  type : DataType

mutual

/-- A statement other than `activate`. -/
inductive Statement where
  | empty
  | constDecl
  | list (statements : Statements)
  | expression (child : Expression)
  | returnStatement (child : Expression) (returnSymbol : Variable)
  | ifStatement (before : Statement) (condition : Expression) (trueBody falseBody : Statement)
  | whileStatement (condition : Expression) (body : Statement)
  | forIota (symbol : Variable) (limit : Nat) (body : Statement)
  | var (symbols : List Variable) (expressions : List Expression)
  | assign (left right : Expression)
  | addAssign (left right : Expression)
  | increment (child : Expression)
  | decrement (child : Expression)
  | change (argument : Expression) (rootSymbol : Variable) (body : Statement)

/-- The statements of a block. -/
inductive Statements where
  | nil
  | cons (statement : Statement) (rest : Statements)

end

namespace Expression

/-- `node->eval.type`; a call without result has none. -/
def type : Expression → Option DataType
  | literal type _ | identifier _ type | typeName type | typeExpression type | dereference _ type
  | addressOf _ type | select _ _ type | index _ _ type | indexSlice _ _ _ _ type
  | logicNot _ type | binaryArithmetic _ _ _ type | conversion _ type | new _ type | move _ type
  | merge _ type | len _ type | append _ _ type | copy _ type => some type
  | functionCall _ _ type | methodCall _ _ _ type | pullPortCall _ _ _ type => type
  | println _ => none

/-- `node->eval.type->underlying_type ()->to_pointer ()`. -/
def isPointer (expression : Expression) : Bool :=
  expression.type.any fun type => type.underlyingKind == .pointer

def kindOfResult (type : Option DataType) : ExpressionKind :=
  if type.isSome then .value else .void

/-- `node->eval.expression_kind`. -/
def kind : Expression → ExpressionKind
  | literal _ _ => .value
  | identifier _ _ => .variable
  | typeName _ => .type
  | typeExpression _ => .type
  | dereference _ _ => .variable
  | addressOf _ _ => .value
  | select base _ _ => if base.isPointer then .variable else base.kind
  | index base _ _ =>
      if base.type.any fun type => type.underlyingKind == .array then base.kind else .variable
  | indexSlice _ _ _ _ _ => .value
  | logicNot _ _ => .value
  | binaryArithmetic _ _ _ _ => .value
  | conversion _ _ => .value
  | functionCall _ _ type => kindOfResult type
  | methodCall _ _ _ type => kindOfResult type
  | pullPortCall _ _ _ type => kindOfResult type
  | new _ _ => .value
  | move _ _ => .value
  | merge _ _ => .value
  | len _ _ => .value
  | append _ _ _ => .value
  | copy _ _ => .value
  | println _ => .void

/-- `ExpressionValue::is_value_or_variable`. -/
def isValueOrVariable (expression : Expression) : Bool :=
  expression.kind == .value || expression.kind == .variable

/-- `node->eval.value` of a condition, when it is present. -/
def constant : Expression → Option Bool
  | literal _ value => some value.toBool
  | _ => none

end Expression

/-- What an expression refers to: the signatures of the callables and of the
pull ports, and where the scanner has put the characters of the strings. -/
structure Declarations where
  signature : Nat → Signature
  port : Nat → Signature
  characters : List UInt8 → Nat

def Arguments.types : Arguments → List (Option DataType)
  | nil => []
  | cons expression rest => expression.type :: rest.types

def Arguments.areValues : Arguments → Bool
  | nil => true
  | cons expression rest => expression.isValueOrVariable && rest.areValues

/-- `check_types_arguments` and `require_value_or_variable_list`: after the
check the arguments have the types of the parameters. -/
def Arguments.Fit (arguments : Arguments) (signature : Signature) : Prop :=
  arguments.types = signature.parameters.map some ∧ arguments.areValues = true

/-- The kinds of the types of all arguments, the `evals` of `PrintlnOp`. -/
def Arguments.kinds : Arguments → Option (List Kind)
  | nil => some []
  | cons expression rest => do
      let type ← expression.type
      let kinds ← rest.kinds
      some (type.underlyingKind :: kinds)

/-- A bound of a slice expression is a value of integer type. -/
def Arguments.AreBounds : Arguments → Prop
  | nil => True
  | cons expression rest =>
      rest = nil ∧ expression.isValueOrVariable = true ∧
        ∃ type, expression.type = some type ∧ type.underlyingKind.isTypedInteger = true

def Signature.Returns (signature : Signature) (type : Option DataType) : Prop :=
  type.map DataType.underlyingType = signature.result.map DataType.underlyingType

/-- The expression is what the method is found by: its type is the type of the
receiver or a pointer to it. -/
def Expression.IsReceiver (base : Expression) (signature : Signature) : Prop :=
  ∃ receiver type, signature.receiver = some receiver ∧ base.type = some type ∧
    (type.underlyingKind = .pointer ∨ receiver.underlyingKind = .pointer ∨
      type.underlyingType = receiver.underlyingType)

/-- The operands and the result have the types that the check of the operator
gave them, and the result has no value. -/
def BinaryArithmetic.Typed (operator : BinaryArithmetic) (left right : Option DataType)
    (type : DataType) : Prop :=
  ∃ floating first second checked, operator.check floating first second = some checked ∧
    left = some checked.left.type ∧ right = some checked.right.type ∧
      type.underlyingType = checked.result.type.underlyingType ∧ checked.result.value = none

mutual

/-- What the checker guarantees of an expression, as far as the stack depends on it. -/
def Expression.Checked (declarations : Declarations) : Expression → Prop
  | .literal _ _ => True
  | .identifier _ _ => True
  | .typeName _ => True
  | .typeExpression _ => True
  | .dereference child _ =>
      child.Checked declarations ∧ child.isValueOrVariable = true ∧ child.isPointer = true
  | .addressOf child type =>
      child.Checked declarations ∧ child.kind = .variable ∧ type.underlyingKind = .pointer
  | .select base _ _ => base.Checked declarations ∧ base.isValueOrVariable = true
  | .index base index _ =>
      base.Checked declarations ∧ base.isValueOrVariable = true ∧
        index.Checked declarations ∧ index.isValueOrVariable = true
  | .indexSlice base low high max type =>
      base.Checked declarations ∧ base.isValueOrVariable = true ∧
        type.underlyingKind = .slice ∧ low.Checked declarations ∧ low.AreBounds ∧
          high.Checked declarations ∧ high.AreBounds ∧ max.Checked declarations ∧ max.AreBounds
  | .logicNot child type =>
      child.Checked declarations ∧ child.isValueOrVariable = true ∧
        child.type.map DataType.underlyingType = some type.underlyingType
  | .binaryArithmetic operator left right type =>
      left.Checked declarations ∧ left.isValueOrVariable = true ∧
        right.Checked declarations ∧ right.isValueOrVariable = true ∧
          operator.Typed left.type right.type type
  | .conversion argument _ =>
      argument.Checked declarations ∧ argument.isValueOrVariable = true
  | .functionCall callable arguments type =>
      arguments.Checked declarations ∧ arguments.Fit (declarations.signature callable) ∧
        (declarations.signature callable).receiver = none ∧
          (declarations.signature callable).Returns type
  | .methodCall callable base arguments type =>
      base.Checked declarations ∧ base.isValueOrVariable = true ∧
        arguments.Checked declarations ∧ arguments.Fit (declarations.signature callable) ∧
          base.IsReceiver (declarations.signature callable) ∧
            (declarations.signature callable).Returns type
  | .pullPortCall port expression arguments type =>
      expression.Checked declarations ∧ expression.isValueOrVariable = true ∧
        (expression.type.any fun type => type.underlyingKind == .pullPort) = true ∧
          arguments.Checked declarations ∧ arguments.Fit (declarations.port port) ∧
            (declarations.port port).Returns type
  | .new _ type => type.underlyingKind = .pointer
  | .move argument type =>
      argument.Checked declarations ∧ argument.isValueOrVariable = true ∧
        argument.isPointer = true ∧ type.underlyingKind = .pointer
  | .merge argument type =>
      argument.Checked declarations ∧ argument.isValueOrVariable = true ∧
        argument.isPointer = true ∧ type.underlyingKind = .pointer
  | .len argument type =>
      argument.Checked declarations ∧ argument.isValueOrVariable = true ∧
        (argument.type.any fun type => type.underlyingKind == .slice) = true ∧
          type.underlyingKind = .int
  | .append slice element type =>
      slice.Checked declarations ∧ slice.isValueOrVariable = true ∧
        element.Checked declarations ∧ element.isValueOrVariable = true ∧
          slice.type.map DataType.underlyingType = some type.underlyingType ∧
            element.type.map DataType.slice = some type.underlyingType
  | .copy argument type =>
      argument.Checked declarations ∧ argument.isValueOrVariable = true ∧
        argument.type.map DataType.underlyingType = some type.underlyingType
  | .println arguments => arguments.Checked declarations

def Arguments.Checked (declarations : Declarations) : Arguments → Prop
  | .nil => True
  | .cons expression rest => expression.Checked declarations ∧ rest.Checked declarations

end

/-- `check_condition`. -/
def Expression.IsCondition (condition : Expression) (declarations : Declarations) : Prop :=
  condition.Checked declarations ∧ condition.isValueOrVariable = true ∧
    (condition.type.any fun type => type.underlyingKind == .bool) = true

def Expression.Converted (expression : Expression) (declarations : Declarations)
    (type : DataType) : Prop :=
  expression.Checked declarations ∧ expression.isValueOrVariable = true ∧
    expression.type = some type

mutual

/-- What the checker guarantees of a statement, as far as the stack depends on it. -/
def Statement.Checked (declarations : Declarations) : Statement → Prop
  | .empty => True
  | .constDecl => True
  | .list statements => statements.Checked declarations
  | .expression child =>
      child.Checked declarations ∧ child.kind ∈ [ExpressionKind.value, .variable, .void]
  | .returnStatement child returnSymbol => child.Converted declarations returnSymbol.type
  | .ifStatement before condition trueBody falseBody =>
      before.Checked declarations ∧ condition.IsCondition declarations ∧
        trueBody.Checked declarations ∧ falseBody.Checked declarations
  | .whileStatement condition body =>
      condition.IsCondition declarations ∧ body.Checked declarations
  | .forIota _ _ body => body.Checked declarations
  | .var symbols expressions =>
      ∀ pair ∈ symbols.zip expressions, pair.2.Converted declarations pair.1.type
  | .assign left right =>
      left.Checked declarations ∧ left.kind = .variable ∧
        ∃ type, left.type = some type ∧ right.Converted declarations type
  | .addAssign left right =>
      left.Checked declarations ∧ left.kind = .variable ∧
        ∃ type, left.type = some type ∧ right.Converted declarations type
  | .increment child => child.Checked declarations ∧ child.kind = .variable
  | .decrement child => child.Checked declarations ∧ child.kind = .variable
  | .change argument _ body =>
      argument.Checked declarations ∧ argument.isValueOrVariable = true ∧
        argument.isPointer = true ∧ body.Checked declarations

def Statements.Checked (declarations : Declarations) : Statements → Prop
  | .nil => True
  | .cons statement rest => statement.Checked declarations ∧ rest.Checked declarations

end

end Rcgo.Code
