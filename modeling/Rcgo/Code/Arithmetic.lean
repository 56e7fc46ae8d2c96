import Rcgo.Code.Kind
import Mathlib.Algebra.Group.Int.Defs
import Mathlib.Algebra.Group.Nat.Defs
import Mathlib.Data.Int.Basic

/-!
# Operators of C++

The values of constants and of the operand stack, and the built-in operators
that both the compile-time computers and the generated operations apply to them.
Floating point is a parameter.
-/

namespace Rcgo.Code

/-- The C++ type in which values of a kind are kept: the member of `Value` and
the type argument of the operations. -/
inductive CType where
  | boolean
  | integer (signed : Bool) (width : Nat)
  | floating (kind : Kind)
  | pointer
  | string
  deriving DecidableEq, Repr

/-- The member of `Value` for a kind. -/
def Kind.cType : Kind → Option CType
  | untypedBoolean | bool => some .boolean
  | untypedRune => some (.integer true 32)
  | untypedInteger => some (.integer true 64)
  | untypedFloat => some (.floating untypedFloat)
  | untypedComplex => some (.floating untypedComplex)
  | untypedString | string => some .string
  | uint8 => some (.integer false 8)
  | uint16 => some (.integer false 16)
  | uint32 => some (.integer false 32)
  | uint64 => some (.integer false 64)
  | int8 => some (.integer true 8)
  | int16 => some (.integer true 16)
  | int32 => some (.integer true 32)
  | int64 => some (.integer true 64)
  | float32 => some (.floating float32)
  | float64 => some (.floating float64)
  | complex64 => some (.floating complex64)
  | complex128 => some (.floating complex128)
  | uint => some (.integer false 64)
  | int => some (.integer true 64)
  | uintptr => some (.integer false 64)
  | pointer => some .pointer
  | _ => none

/-- A value: the bytes of the C++ object as a number, or the bytes of a string. -/
inductive Value where
  | bits (word : Nat)
  | text (bytes : List UInt8)
  deriving DecidableEq

/-- The built-in binary operators of C++, with `x & ~y` as one operator. -/
inductive CxxOperator where
  | times
  | over
  | remainder
  | plus
  | minus
  | bitAnd
  | bitAndNot
  | bitOr
  | bitXor
  | equals
  | differs
  | less
  | lessEqual
  | more
  | moreEqual
  deriving DecidableEq, Repr

/-- The shift operators of C++. -/
inductive ShiftOperator where
  | left
  | right
  deriving DecidableEq, Repr

/-- Floating-point and complex arithmetic, and the conversions of
`convert_numeric` and `to_and_back`, which go through it. -/
structure Floating where
  arithmetic : CxxOperator → Kind → Nat → Nat → Nat
  comparison : CxxOperator → Kind → Nat → Nat → Bool
  convertNumeric : Kind → Kind → Nat → Nat
  toAndBack : Kind → Kind → Nat → Bool

namespace Cxx

def readInteger (signed : Bool) (width word : Nat) : Int :=
  if signed then (BitVec.ofNat width word).toInt else (BitVec.ofNat width word).toNat

def writeInteger (width : Nat) (x : Int) : Nat :=
  (BitVec.ofInt width x).toNat

def promote (signed : Bool) (width : Nat) : Bool × Nat :=
  if width < 32 then (true, 32) else (signed, width)

/-- An arithmetic result in its type: unsigned types wrap around, in signed
types an overflow is undefined. -/
def settle (signed : Bool) (width : Nat) (x : Int) : Option Int :=
  if signed then
    if -2 ^ (width - 1) ≤ x ∧ x < 2 ^ (width - 1) then some x else none
  else
    some (x % 2 ^ width)

/-- An operator on the two's complement of its operands. -/
def bitwise (signed : Bool) (width : Nat) (f : BitVec width → BitVec width → BitVec width)
    (x y : Int) : Int :=
  readInteger signed width (f (BitVec.ofInt width x) (BitVec.ofInt width y)).toNat

/-- The comparison operators, none for the others. -/
def compare {α : Type} (equals less : α → α → Bool) (x y : α) : CxxOperator → Option Bool
  | .equals => some (equals x y)
  | .differs => some (!equals x y)
  | .less => some (less x y)
  | .lessEqual => some (!less y x)
  | .more => some (less y x)
  | .moreEqual => some (!less x y)
  | _ => none

/-- The arithmetic and bitwise operators on a promoted type. -/
def integerOperator (signed : Bool) (width : Nat) (x y : Int) : CxxOperator → Option Int
  | .times => settle signed width (x * y)
  | .over => if y = 0 then none else settle signed width (x.tdiv y)
  | .remainder =>
      if y = 0 then none else (settle signed width (x.tdiv y)).map fun _ => x.tmod y
  | .plus => settle signed width (x + y)
  | .minus => settle signed width (x - y)
  | .bitAnd => some (bitwise signed width (· &&& ·) x y)
  | .bitAndNot => some (bitwise signed width (fun x y => x &&& ~~~y) x y)
  | .bitOr => some (bitwise signed width (· ||| ·) x y)
  | .bitXor => some (bitwise signed width (· ^^^ ·) x y)
  | _ => none

/-- A `bool` as a value. -/
def ofBool (b : Bool) : Value :=
  .bits b.toNat

/-- `x op y` for integers of one type, the result converted to that type. -/
def applyInteger (signed : Bool) (width x y : Nat) (operator : CxxOperator) : Option Value :=
  let x := readInteger signed width x
  let y := readInteger signed width y
  match compare (fun x y => x == y) (fun x y => decide (x < y)) x y operator with
  | some result => some (ofBool result)
  | none =>
      let promoted := promote signed width
      (integerOperator promoted.1 promoted.2 x y operator).map fun result =>
        .bits (writeInteger width result)

/-- `x op y` for floating-point and complex numbers. -/
def applyFloating (floating : Floating) (kind : Kind) (x y : Nat) (operator : CxxOperator) :
    Option Value :=
  match operator with
  | .times | .over | .plus | .minus => some (.bits (floating.arithmetic operator kind x y))
  | .equals | .differs | .less | .lessEqual | .more | .moreEqual =>
      some (ofBool (floating.comparison operator kind x y))
  | _ => none

/-- `x op y` for two objects of one C++ type; none where it is undefined. -/
def apply (floating : Floating) (type : CType) (operator : CxxOperator) :
    Value → Value → Option Value
  | .bits x, .bits y =>
      match type with
      | .boolean =>
          (compare (fun x y : Bool => x == y) (fun x y => !x && y) (x % 256 != 0) (y % 256 != 0)
            operator).map ofBool
      | .integer signed width => applyInteger signed width x y operator
      | .floating kind => applyFloating floating kind x y operator
      | .pointer =>
          (compare (fun x y : Nat => x == y) (fun x y => decide (x < y)) (x % 2 ^ 64) (y % 2 ^ 64)
            operator).map ofBool
      | .string => none
  | .text x, .text y =>
      match type with
      | .string => (compare (fun x y => x == y) (fun x y => decide (x < y)) x y operator).map ofBool
      | _ => none
  | _, _ => none

/-- `x << count` and `x >> count` for an integer type and an `unsigned long`. -/
def shift (type : CType) (operator : ShiftOperator) : Value → Value → Option Value
  | .bits x, .bits count =>
      match type with
      | .integer signed width =>
          let x := readInteger signed width x
          let count := (count % 2 ^ 64)
          let promoted := promote signed width
          if promoted.2 ≤ count then none
          else
            match operator with
            | .left =>
                if promoted.1 && x < 0 then none
                else
                  (settle promoted.1 promoted.2 (x * 2 ^ count)).map fun result =>
                    .bits (writeInteger width result)
            | .right => some (.bits (writeInteger width (x / 2 ^ count)))
      | _ => none
  | _, _ => none

end Cxx

end Rcgo.Code
