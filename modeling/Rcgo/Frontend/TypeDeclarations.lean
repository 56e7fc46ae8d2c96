import Rcgo.Code.Kind
import Rcgo.Frontend.ErrorReporter

/-!
# Type declarations

The semantic analysis of programs that declare types: `process_type` for the
types without parameters, `Symbol::process_declaration`, and the entry of the
declared names.
-/

namespace Rcgo.Frontend

open Code Foundation

/-- The dimension of an array: what the evaluation of its expression finds, for an
expression of literals that checks and whose evaluation is defined.  One that names a
declaration, which is then processed, is left out. -/
inductive Dimension where
  | notConstant
  | nonInteger
  | constant (dim : Int)
  deriving DecidableEq, Repr

mutual

/-- The nodes of types. -/
inductive TypeSpec where
  | identifierType (identifier : String)
  | array (dimension : Dimension) (baseType : TypeSpec)
  | slice (child : TypeSpec)
  | pointer (child : TypeSpec)
  | heap (child : TypeSpec)
  | map (keyType valueType : TypeSpec)
  | fieldList (isComponent : Bool) (fields : VariableLists)

/-- The identifiers and the type of each declaration in a field list. -/
inductive VariableLists where
  | nil
  | cons (identifiers : List String) (type : TypeSpec) (rest : VariableLists)

end

/-- `Symbol::State`. -/
inductive SymbolState where
  | declared
  | inProgress
  | defined
  | undefined
  deriving DecidableEq, Repr

/-- `TypeDecl`. -/
structure TypeDecl where
  identifier : String
  type : TypeSpec

/-- `NamedType`, as far as its declaration is concerned. -/
structure NamedType where
  typedecl : TypeDecl
  state : SymbolState
  underlyingType : Option DataType

/-- The symbols of the package scope, in the order of their entry.  A declared
type is known by its position. -/
abbrev PackageScope := List NamedType

abbrev Phase := StateT PackageScope Analysis

def report (code : ErrorCode) : Phase Unit :=
  fun scope => .report code (.done ((), scope))

def exit {α : Type} : Phase α :=
  fun _ => .stop

/-- The symbols of the universal scope, with their types where they are types. -/
def predeclared : List (String × Option DataType) :=
  [("bool", some (.basic .bool)), ("uint8", some (.basic .uint8)),
    ("uint16", some (.basic .uint16)), ("uint32", some (.basic .uint32)),
    ("uint64", some (.basic .uint64)), ("int8", some (.basic .int8)),
    ("int16", some (.basic .int16)), ("int32", some (.basic .int32)),
    ("int64", some (.basic .int64)), ("float32", some (.basic .float32)),
    ("float64", some (.basic .float64)), ("complex64", some (.basic .complex64)),
    ("complex128", some (.basic .complex128)), ("byte", some (.basic .uint8)),
    ("rune", some (.basic .int32)), ("uint", some (.basic .uint)), ("int", some (.basic .int)),
    ("uintptr", some (.basic .uintptr)), ("string", some (.basic .string)),
    ("FileDescriptor", some (.basic .fileDescriptor)),
    ("timespec", some (.struct (.cons (.basic .uint64) (.cons (.basic .uint64) .nil)))),
    ("new", none), ("move", none), ("merge", none), ("len", none), ("append", none),
    ("copy", none), ("println", none), ("readable", none), ("read", none), ("writable", none),
    ("clock_gettime", none), ("timerfd_create", none), ("timerfd_settime", none),
    ("udp_socket", none), ("sendto", none), ("nil", none), ("true", none), ("false", none)]

/-- `process_array_dimension`, none for the result -1. -/
def processArrayDimension : Dimension → Phase (Option Nat)
  | .notConstant => do
      report .expressionIsNotConstant
      pure none
  | .nonInteger => do
      report .nonIntegerArrayDimension
      pure none
  | .constant dim =>
      if dim < 0 then do
        report .negativeArrayDimension
        pure none
      else pure (some dim.toNat)

/-- The members of a struct that is being built. -/
structure Members where
  names : List String
  types : List DataType

/-- The identifiers of a declaration in a field list, with `has_member` and
`append_field`. -/
def appendFields (type : DataType) : List String → Members → Phase Members
  | [], members => pure members
  | identifier :: rest, members =>
      if identifier ∈ members.names then do
        report .alreadyDeclared
        appendFields type rest members
      else
        appendFields type rest
          { names := members.names ++ [identifier], types := members.types ++ [type] }

def Members.fields (members : Members) : Fields :=
  members.types.foldr Fields.cons .nil

/-- The name that `Component::Component` enters before the fields. -/
def runtimeMember : Members where
  names := ["0runtime"]
  types := [.pointer (.basic .int32)]

section ProcessType

-- How a named type of the package is processed, and whether it is defined then.
variable (processDeclaration : Nat → Phase Bool)

mutual

/-- `process_type`, none where the node gets the kind of an error. -/
def processType (requireDefined : Bool) : TypeSpec → Phase (Option DataType)
  | .identifierType identifier => do
      let scope ← get
      match scope.findIdx? (·.typedecl.identifier = identifier) with
      | some i =>
          if requireDefined then do
            let defined ← processDeclaration i
            if defined then pure (some (.declared i))
            else do
              report .notDefined
              pure none
          else pure (some (.declared i))
      | none =>
          match predeclared.lookup identifier with
          | some (some type) => pure (some type)
          | some none => do
              report .expectedAType
              pure none
          | none => do
              report .notDeclared
              pure none
  | .array dimension baseType => do
      match ← processArrayDimension dimension with
      | none => pure none
      | some dimension => do
          let base ← processType true baseType
          pure (base.map (.array dimension))
  | .slice child => do
      let base ← processType false child
      pure (base.map .slice)
  | .pointer child => do
      let base ← processType false child
      pure (base.map .pointer)
  | .heap child => do
      let base ← processType false child
      pure (base.map .heap)
  | .map _ _ => exit
  | .fieldList isComponent fields => do
      let members ← processFields fields (if isComponent then runtimeMember else ⟨[], []⟩)
      pure (some (if isComponent then .component members.fields else .struct members.fields))

/-- The loop over a field list in `process_type`. -/
def processFields : VariableLists → Members → Phase Members
  | .nil, members => pure members
  | .cons identifiers type rest, members => do
      match ← processType true type with
      | none => processFields rest members
      | some type => do
          let members ← appendFields type identifiers members
          processFields rest members

end

end ProcessType

def update (i : Nat) (change : NamedType → NamedType) : Phase Unit :=
  modify fun scope => scope.modify i change

/-- `Symbol::process_declaration` for a named type, with
`NamedType::process_declaration_i`.  The types that are in progress bound the
depth of the recursion. -/
def processDeclaration : Nat → Nat → Phase Bool
  | 0, _ => exit
  | depth + 1, i => do
      let scope ← get
      match scope[i]? with
      | none => exit
      | some symbol =>
          match symbol.state with
          | .declared => do
              update i ({ · with state := .inProgress })
              match ← processType (processDeclaration depth) true symbol.typedecl.type with
              | some type => do
                  update i ({ · with state := .defined, underlyingType := some type })
                  pure true
              | none => do
                  update i ({ · with state := .undefined })
                  pure false
          | .inProgress => do
              report .definedRecursively
              update i ({ · with state := .undefined })
              pure false
          | .defined => pure true
          | .undefined => pure false

/-- `enter_top_level_identifiers`. -/
def enterTopLevelIdentifiers : List TypeDecl → Phase Unit
  | [] => pure ()
  | node :: rest => do
      let scope ← get
      if scope.any (·.typedecl.identifier = node.identifier) then report .alreadyDeclared
      set (scope ++ [{ typedecl := node, state := .declared, underlyingType := none }])
      enterTopLevelIdentifiers rest

/-- `process_top_level_declarations`. -/
def processTopLevelDeclarations (depth : Nat) : List Nat → Phase Unit
  | [] => pure ()
  | i :: rest => do
      let _ ← processDeclaration depth i
      processTopLevelDeclarations depth rest

end Rcgo.Frontend
