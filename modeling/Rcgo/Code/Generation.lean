import Rcgo.Code.Syntax

/-!
# Code generation

`generate_code.cpp` for expressions and for the statements other than
`activate`.  None stands for code that is marked unreachable or unimplemented.
-/

namespace Rcgo.Code

/-- `make_literal`: the object that is pushed. -/
def makeLiteral (characters : List UInt8 → Nat) (type : DataType) (value : Value) :
    Option Operation :=
  match type.underlyingKind with
  | .bool | .uint8 | .uint16 | .uint32 | .uint64 | .int8 | .int16 | .int32 | .int64 | .uint | .int
  | .float64 | .string | .pointer | .slice =>
      type.underlyingKind.size.map fun size => .literal size (value.object characters)
  | _ => none

/-- `load`: the value of a variable. -/
def Expression.load (expression : Expression) (operation : Operation) : Option Operation :=
  if expression.kind = .variable then expression.type.map (Operation.load operation)
  else some operation

/-- `make_conversion1`: the kinds it converts between. -/
def Kind.isConvertible : Kind → Bool
  | uint8 | uint16 | uint32 | uint64 | int8 | int16 | int32 | int64 | float32 | float64
  | uint | int => true
  | _ => false

def DataType.elementKind (type : DataType) : Option Kind :=
  match type.underlyingType with
  | .slice base => some base.underlyingKind
  | _ => none

/-- `make_conversion`. -/
def makeConversion (operation : Operation) (source target : DataType) : Option Operation :=
  if source.underlyingType = target.underlyingType then some operation
  else if source.underlyingKind.isConvertible && target.underlyingKind.isConvertible then
    some (.conversion source.underlyingKind target.underlyingKind operation)
  else if source.elementKind = some .uint8 ∧ target.underlyingKind = .string then
    some (.convertSliceOfBytesToString operation)
  else if source.underlyingKind = .string ∧ target.elementKind = some .uint8 then
    some (.convertStringToSliceOfBytes operation)
  else none

/-- The operation of a binary operator over those of its operands. -/
def BinaryOperation.over (left right : Operation) : BinaryOperation → Operation
  | binary functor kind => .binary functor kind left right
  | shift operator kind count => .shift operator kind left (.convertToUint count right)
  | logicOr => .logicOr left right
  | logicAnd => .logicAnd left right

/-- `MakeConvertToInt` of an index. -/
def Expression.toIndex (index : Expression) (operation : Operation) : Option Operation := do
  let operation ← index.load operation
  let type ← index.type
  let kind ← makeConvertTo type
  some (.convertToInt kind operation)

/-- The operation of an index expression, by the type of its base. -/
def makeIndex (base : Operation) (index : Operation) (type : DataType) : Option Operation :=
  match type.underlyingType with
  | .array dimension element =>
      element.unitSize.map fun unitSize => .indexArray base index dimension unitSize
  | .slice element =>
      element.unitSize.map fun unitSize =>
        .indexSlice (.load base type.underlyingType) index unitSize
  | _ => none

/-- The operation of a slice expression whose base is an array. -/
def makeSliceArray (base : Operation) (low high max : Operations) (type : DataType) :
    Option Operation :=
  match type.underlyingType with
  | .array dimension element =>
      element.unitSize.map fun unitSize => .sliceArray base low high max dimension unitSize
  | _ => none

/-- The operation of a slice expression whose base is a slice. -/
def makeSliceSlice (base : Operation) (low high max : Operations) (type : DataType) :
    Option Operation :=
  match type.underlyingType with
  | .slice element => element.unitSize.map fun unitSize => .sliceSlice base low high max unitSize
  | _ => none

/-- The receiver of a method call: the base is loaded as often as the receiver
asks for. -/
def Expression.toReceiver (base : Expression) (operation : Operation) (receiver : DataType) :
    Option Operation := do
  let type ← base.type
  if type.underlyingKind = .pointer then
    if receiver.underlyingKind = .pointer then base.load operation
    else if base.kind = .variable then some (.load (.load operation type) receiver)
    else none
  else if base.kind = .variable then
    if receiver.underlyingKind = .pointer then some operation else some (.load operation type)
  else none

/-- `New::generate_code`. -/
def makeNew : DataType → Option Operation
  | .heap base => base.size.map .newHeapOp
  | type => type.size.map .newOp

/-- `make_append`, with the size of an element. -/
def makeAppend (slice : DataType) (arguments : Operation) : Option Operation :=
  match slice.underlyingType with
  | .slice element =>
      if element.underlyingKind = .uint8 then
        element.unitSize.map fun unitSize => .appendOp unitSize arguments
      else none
  | _ => none

/-- `Copy::generate_code`. -/
def makeCopy (type : DataType) (argument : Operation) : Option Operation :=
  match type.underlyingType with
  | .slice element => element.unitSize.map fun unitSize => .copySliceOp unitSize argument
  | underlying => if underlying.kind = .string then some (.copyStringOp argument) else none

def Operation.single (operation : Operation) : Operation :=
  .list (.cons operation .nil)

def Operation.pair (first second : Operation) : Operation :=
  .list (.cons first (.cons second .nil))

mutual

/-- `node.operation` of an expression.  A `TypeExpression` has none. -/
def Expression.generate (declarations : Declarations) : Expression → Option Operation
  | .literal type value => makeLiteral declarations.characters type value
  | .identifier offset _ => some (.reference offset)
  | .typeName _ => some .noop
  | .typeExpression _ => none
  | .dereference child _ => do
      let operation ← child.generate declarations
      child.load operation
  | .addressOf child _ => child.generate declarations
  | .select base offset _ => do
      let operation ← base.generate declarations
      let type ← base.type
      if base.kind = .variable then
        if type.underlyingKind = .pointer then some (.select (.load operation type) offset)
        else some (.select operation offset)
      else none
  | .index base index _ => do
      let baseOperation ← base.generate declarations
      let indexOperation ← index.generate declarations
      let indexOperation ← index.toIndex indexOperation
      let type ← base.type
      if base.kind = .variable then makeIndex baseOperation indexOperation type else none
  | .indexSlice base low high max _ => do
      let operation ← base.generate declarations
      let low ← low.generateBound declarations
      let high ← high.generateBound declarations
      let max ← max.generateBound declarations
      let type ← base.type
      if type.underlyingKind = .array then
        if base.kind = .variable then makeSliceArray operation low high max type else none
      else do
        let operation ← base.load operation
        makeSliceSlice operation low high max type
  | .logicNot child type => do
      let operation ← child.generate declarations
      let operation ← child.load operation
      if type.underlyingKind = .bool then some (.logicNot operation.single) else none
  | .binaryArithmetic operator left right type => do
      let leftOperation ← left.generate declarations
      let leftOperation ← left.load leftOperation
      let rightOperation ← right.generate declarations
      let rightOperation ← right.load rightOperation
      let leftType ← left.type
      let rightType ← right.type
      let operation ← operator.generateCode type leftType rightType
      some (operation.over leftOperation rightOperation)
  | .conversion argument type => do
      let operation ← argument.generate declarations
      let operation ← argument.load operation
      let source ← argument.type
      makeConversion operation source type
  | .functionCall callable arguments _ => do
      let arguments ← arguments.generate declarations
      some (.functionCall callable (.list arguments))
  | .methodCall callable base arguments _ => do
      let arguments ← arguments.generate declarations
      let operation ← base.generate declarations
      let receiver ← (declarations.signature callable).receiver
      let operation ← base.toReceiver operation receiver
      some (.methodCall callable operation (.list arguments))
  | .pullPortCall port expression arguments _ => do
      let arguments ← arguments.generate declarations
      let operation ← expression.generate declarations
      let operation ← expression.load operation
      some (.dynamicPullPortCall port operation (.list arguments))
  | .new allocated _ => makeNew allocated
  | .move argument _ => do
      let operation ← argument.generate declarations
      let operation ← argument.load operation
      some (.moveOp operation.single)
  | .merge argument _ => do
      let operation ← argument.generate declarations
      let operation ← argument.load operation
      some (.mergeOp operation.single)
  | .len argument _ => do
      let operation ← argument.generate declarations
      let operation ← argument.load operation
      some (.lenOp operation.single)
  | .append slice element _ => do
      let sliceOperation ← slice.generate declarations
      let sliceOperation ← slice.load sliceOperation
      let elementOperation ← element.generate declarations
      let elementOperation ← element.load elementOperation
      let type ← slice.type
      makeAppend type (sliceOperation.pair elementOperation)
  | .copy argument _ => do
      let operation ← argument.generate declarations
      let operation ← argument.load operation
      let type ← argument.type
      makeCopy type operation.single
  | .println arguments => do
      let operations ← arguments.generate declarations
      let evals ← arguments.kinds
      some (.println evals operations)

/-- `node.operation` of an `ExpressionList`: the nodes without operation, which
are the type expressions, are left out. -/
def Arguments.generate (declarations : Declarations) : Arguments → Option Operations
  | .nil => some .nil
  | .cons (.typeExpression _) rest => rest.generate declarations
  | .cons expression rest => do
      let operation ← expression.generate declarations
      let operation ← expression.load operation
      let operations ← rest.generate declarations
      some (.cons operation operations)

/-- The operation of a bound of a slice expression, if it is there. -/
def Arguments.generateBound (declarations : Declarations) : Arguments → Option Operations
  | .nil => some .nil
  | .cons expression _ => do
      let operation ← expression.generate declarations
      let operation ← expression.toIndex operation
      some (.cons operation .nil)

end

@[simp]
theorem Arguments.generate_nil (declarations : Declarations) :
    Arguments.nil.generate declarations = some .nil := by
  rw [Arguments.generate]

@[simp]
theorem Expression.generate_addressOf (declarations : Declarations) (child : Expression)
    (type : DataType) :
    (Expression.addressOf child type).generate declarations = child.generate declarations := by
  rw [Expression.generate]

/-- The operations that clear variables. -/
def generateClears : List Variable → Option Operations
  | [] => some .nil
  | symbol :: rest => do
      let size ← symbol.type.size
      let operations ← generateClears rest
      some (.cons (.clear symbol.offset size) operations)

/-- The operations that initialize variables. -/
def generateInitializers (declarations : Declarations) :
    List (Variable × Expression) → Option Operations
  | [] => some .nil
  | (symbol, expression) :: rest => do
      let operation ← expression.generate declarations
      let operation ← expression.load operation
      let size ← symbol.type.size
      let operations ← generateInitializers declarations rest
      some (.cons (.assign (.reference symbol.offset) operation size) operations)

/-- The kinds of `make_add_assign`, `make_increment` and `make_decrement`. -/
def Kind.isAddable (kind : Kind) : Bool :=
  kind.isTypedInteger || kind.isTypedFloat || kind.isTypedComplex

/-- `make_add_assign`. -/
def makeAddAssign (left right : Operation) (type : DataType) : Option Operation :=
  if type.underlyingKind.isAddable then some (.addAssign type.underlyingKind left right) else none

/-- `make_increment`. -/
def makeIncrement (child : Operation) (type : DataType) : Option Operation :=
  if type.underlyingKind.isAddable then some (.increment type.underlyingKind child) else none

/-- `make_decrement`. -/
def makeDecrement (child : Operation) (type : DataType) : Option Operation :=
  if type.underlyingKind.isAddable then some (.decrement type.underlyingKind child) else none

/-- The operation of an expression statement: what the expression leaves on the
stack is popped by the size of its type. -/
def Expression.discard (child : Expression) (operation : Operation) : Option Operation :=
  if child.kind = .void then some operation
  else do
    let type ← child.type
    let size ← type.size
    if size = 0 then some operation else some (.popn operation size)

mutual

/-- `node.operation` of a statement.  A declaration of constants has none. -/
def Statement.generate (declarations : Declarations) : Statement → Option Operation
  | .empty => some .noop
  | .constDecl => none
  | .list statements => (statements.generate declarations).map .list
  | .expression child => do
      let operation ← child.generate declarations
      child.discard operation
  | .returnStatement child returnSymbol => do
      let operation ← child.generate declarations
      let operation ← child.load operation
      let size ← returnSymbol.type.size
      some (.returnOp operation returnSymbol.offset size)
  | .ifStatement before condition trueBody falseBody => do
      let _ ← before.generate declarations
      let operation ← condition.generate declarations
      let trueOperation ← trueBody.generate declarations
      let falseOperation ← falseBody.generate declarations
      match condition.constant with
      | some true => some trueOperation
      | some false => some falseOperation
      | none => do
          let operation ← condition.load operation
          some (.ifOp operation trueOperation falseOperation)
  | .whileStatement condition body => do
      let operation ← condition.generate declarations
      let bodyOperation ← body.generate declarations
      let operation ← condition.load operation
      some (.whileOp operation bodyOperation)
  | .forIota symbol limit body => do
      let operation ← body.generate declarations
      some (.forIota symbol.offset limit operation)
  | .var symbols expressions =>
      if expressions.isEmpty then (generateClears symbols).map .list
      else (generateInitializers declarations (symbols.zip expressions)).map .list
  | .assign left right => do
      let leftOperation ← left.generate declarations
      let rightOperation ← right.generate declarations
      let rightOperation ← right.load rightOperation
      let type ← left.type
      let size ← type.size
      some (.assign leftOperation rightOperation size)
  | .addAssign left right => do
      let leftOperation ← left.generate declarations
      let rightOperation ← right.generate declarations
      let rightOperation ← right.load rightOperation
      let type ← left.type
      makeAddAssign leftOperation rightOperation type
  | .increment child => do
      let operation ← child.generate declarations
      let type ← child.type
      makeIncrement operation type
  | .decrement child => do
      let operation ← child.generate declarations
      let type ← child.type
      makeDecrement operation type
  | .change argument rootSymbol body => do
      let operation ← argument.generate declarations
      let bodyOperation ← body.generate declarations
      let operation ← argument.load operation
      some (.change operation rootSymbol.offset bodyOperation)

/-- The operations of a `StatementList`: statements without one are left out. -/
def Statements.generate (declarations : Declarations) : Statements → Option Operations
  | .nil => some .nil
  | .cons .constDecl rest => rest.generate declarations
  | .cons statement rest => do
      let operation ← statement.generate declarations
      let operations ← rest.generate declarations
      some (.cons operation operations)

end

end Rcgo.Code
