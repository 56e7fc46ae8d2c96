import Mathlib.Tactic.Common

/-!
# Types of the language

The kinds of `type.hpp` and the types built from them, as far as the checker of
operators and the code generator look at them.
-/

namespace Rcgo.Code

/-- `type::Kind`, in the order of the enumeration. -/
inductive Kind where
  | untypedNil
  | untypedBoolean
  | untypedRune
  | untypedInteger
  | untypedFloat
  | untypedComplex
  | untypedString
  | bool
  | uint8
  | uint16
  | uint32
  | uint64
  | int8
  | int16
  | int32
  | int64
  | float32
  | float64
  | complex64
  | complex128
  | uint
  | int
  | uintptr
  | string
  | struct
  | component
  | array
  | map
  | pointer
  | slice
  | heap
  | function
  | pushPort
  | pullPort
  | method
  | initializer
  | getter
  | reaction
  | interface
  | polymorphicFunction
  | fileDescriptor
  | named
  deriving DecidableEq, Repr

namespace Kind

/-- `Type::is_untyped`, by the kind. -/
def isUntyped (kind : Kind) : Bool :=
  kind.ctorIdx ≤ untypedString.ctorIdx

/-- `Type::is_untyped_numeric`. -/
def isUntypedNumeric : Kind → Bool
  | untypedRune | untypedInteger | untypedFloat | untypedComplex => true
  | _ => false

/-- `Type::is_typed_integer`. -/
def isTypedInteger : Kind → Bool
  | uint8 | uint16 | uint32 | uint64 | int8 | int16 | int32 | int64 | uint | int | uintptr => true
  | _ => false

/-- `Type::is_typed_unsigned_integer`. -/
def isTypedUnsignedInteger : Kind → Bool
  | uint8 | uint16 | uint32 | uint64 | uint => true
  | _ => false

/-- `Type::is_typed_float`. -/
def isTypedFloat : Kind → Bool
  | float32 | float64 => true
  | _ => false

/-- `Type::is_typed_complex`. -/
def isTypedComplex : Kind → Bool
  | complex64 | complex128 => true
  | _ => false

/-- `Type::is_integral`. -/
def isIntegral (kind : Kind) : Bool :=
  kind.isTypedInteger || kind == untypedRune || kind == untypedInteger

/-- `Type::is_any_boolean`. -/
def isAnyBoolean (kind : Kind) : Bool :=
  kind == bool || kind == untypedBoolean

end Kind

mutual

/-- A type.  A named type that occurs in its own definition is `declared`
there; elsewhere it comes with its definition. -/
inductive DataType where
  | basic (kind : Kind)
  | struct (fields : Fields)
  | component (fields : Fields)
  | array (dimension : Nat) (base : DataType)
  | pointer (base : DataType)
  | slice (base : DataType)
  | heap (base : DataType)
  | callable (kind : Kind) (signature : Nat)
  | named (name : Nat) (definition : DataType)
  | declared (name : Nat)

/-- The types of the fields of a struct, in order. -/
inductive Fields where
  | nil
  | cons (type : DataType) (rest : Fields)

end

deriving instance DecidableEq, Repr for DataType, Fields

namespace DataType

/-- `Type::kind`. -/
def kind : DataType → Kind
  | basic kind => kind
  | struct _ => .struct
  | component _ => .component
  | array _ _ => .array
  | pointer _ => .pointer
  | slice _ => .slice
  | heap _ => .heap
  | callable kind _ => kind
  | named _ _ => .named
  | declared _ => .named

/-- `Type::underlying_type`. -/
def underlyingType : DataType → DataType
  | named _ definition => definition.underlyingType
  | type => type

/-- `Type::underlying_kind`. -/
def underlyingKind (type : DataType) : Kind :=
  type.underlyingType.kind

/-- `Type::is_untyped`. -/
def isUntyped (type : DataType) : Bool :=
  type.kind.isUntyped

/-- `Type::is_named`. -/
def isNamed (type : DataType) : Bool :=
  type.kind == .named

end DataType

end Rcgo.Code
