import Rcgo.Code.UnaryOperators
import Rcgo.Code.OperandTypes

/-!
# Where arithmetic is defined

The operators of C++ on integers, told by the exact integers: where the result
is undefined, and which object holds it elsewhere.
-/

namespace Rcgo.Code

namespace Cxx

/-- The type of the result after the integral promotions is signed, and the
integer is out of its range. -/
def Overflows (signed : Bool) (width : Nat) (x : Int) : Prop :=
  (promote signed width).1 = true ∧ ¬InRange true (promote signed width).2 x

/-- The least integer of a signed type that is not promoted. -/
def IsLeast (signed : Bool) (width : Nat) (x : Int) : Prop :=
  signed = true ∧ 32 ≤ width ∧ x = -2 ^ (width - 1)

/-- `x op y` is undefined. -/
def Undefined (signed : Bool) (width : Nat) (x y : Int) : CxxOperator → Prop
  | .times => Overflows signed width (x * y)
  | .plus => Overflows signed width (x + y)
  | .minus => Overflows signed width (x - y)
  | .over | .remainder => y = 0 ∨ IsLeast signed width x ∧ y = -1
  | _ => False

/-- The integer that `x op y` stands for. -/
def exact (signed : Bool) (width : Nat) (x y : Int) : CxxOperator → Int
  | .times => x * y
  | .over => x.tdiv y
  | .remainder => x.tmod y
  | .plus => x + y
  | .minus => x - y
  | .bitAnd => bitwise signed width (· &&& ·) x y
  | .bitAndNot => bitwise signed width (fun x y => x &&& ~~~y) x y
  | .bitOr => bitwise signed width (· ||| ·) x y
  | .bitXor => bitwise signed width (· ^^^ ·) x y
  | _ => 0

/-- `x op y`, where it is defined. -/
def integerResult (signed : Bool) (width : Nat) (x y : Int) (operator : CxxOperator) : Value :=
  match compare (fun x y => x == y) (fun x y => decide (x < y)) x y operator with
  | some result => ofBool result
  | none =>
      .bits (writeInteger width
        (exact (promote signed width).1 (promote signed width).2 x y operator))

/-- A shift by at least the width of the promoted type, or a left shift of a
signed integer that is negative or gets out of range. -/
def UndefinedShift (signed : Bool) (width : Nat) (x : Int) (count : Nat) : ShiftOperator → Prop
  | .left =>
      (promote signed width).2 ≤ count ∨
        (promote signed width).1 = true ∧ x < 0 ∨ Overflows signed width (x * 2 ^ count)
  | .right => (promote signed width).2 ≤ count

/-- `x << count` and `x >> count`, where they are defined. -/
def shiftResult (width : Nat) (x : Int) (count : Nat) : ShiftOperator → Value
  | .left => .bits (writeInteger width (x * 2 ^ count))
  | .right => .bits (writeInteger width (x / 2 ^ count))

section Integers

variable {signed : Bool} {width : Nat} {x y : Int} {operator : CxxOperator}

end Integers

end Cxx

end Rcgo.Code
