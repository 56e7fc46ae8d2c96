import Rcgo.Scanner.Patterns
import Mathlib.Data.List.TakeWhile
import Mathlib.Data.Nat.Digits.Defs

/-!
# Integer literals

The actions of `scanner.l` for decimal, octal and hexadecimal literals.  They
call `strtoull`, which is modelled by its specification, and store the unsigned
result in a signed constant.
-/

namespace Rcgo.Scanner

open Rcgo.Foundation

/-! ## The library function -/

/-- `isspace`. -/
def isSpace (b : Byte) : Bool :=
  b == 32 || (9 ≤ b && b ≤ 13)

/-- The number that a digit or a letter stands for. -/
def digitValue (b : Byte) : Nat :=
  if 48 ≤ b ∧ b ≤ 57 then b.toNat - 48
  else if 97 ≤ b ∧ b ≤ 122 then b.toNat - 87
  else if 65 ≤ b ∧ b ≤ 90 then b.toNat - 55
  else 36

def isDigitIn (base : Nat) (b : Byte) : Bool :=
  digitValue b < base

def takeSign : List Byte → Bool × List Byte
  | [] => (false, [])
  | b :: rest => if b = 45 then (true, rest) else if b = 43 then (false, rest) else (false, b :: rest)

/-- In base 16 the text may begin with `0x`. -/
def dropHexPrefix (base : Nat) : List Byte → List Byte
  | zero :: x :: digit :: rest =>
      if base = 16 ∧ zero = 48 ∧ (x = 120 ∨ x = 88) ∧ isDigitIn 16 digit = true then digit :: rest
      else zero :: x :: digit :: rest
  | text => text

def readDigits (base : Nat) (digits : List Byte) : Nat :=
  digits.foldl (fun n b => n * base + digitValue b) 0

/-- `strtoull`; with whether it has set `errno` to `ERANGE`. -/
def strtoull (text : List Byte) (base : Nat) : BitVec 64 × Bool :=
  let (negative, text) := takeSign (text.dropWhile isSpace)
  let n := readDigits base ((dropHexPrefix base text).takeWhile (isDigitIn base))
  if 2 ^ 64 ≤ n then
    (BitVec.allOnes 64, true)
  else if negative then
    (-BitVec.ofNat 64 n, false)
  else
    (BitVec.ofNat 64 n, false)

/-! ## The actions -/

/-- The three kinds of integer literals. -/
inductive IntegerNotation where
  | decimal
  | octal
  | hexadecimal
  deriving DecidableEq, Repr

namespace IntegerNotation

def pattern : IntegerNotation → Pattern
  | decimal => decimalLiteral
  | octal => octalLiteral
  | hexadecimal => hexadecimalLiteral

/-- The base that the action gives to `strtoull`. -/
def base : IntegerNotation → Nat
  | decimal => 10
  | octal => 8
  | hexadecimal => 16

def message : IntegerNotation → String
  | decimal => "integer literal '%s' is out of range (E11)"
  | octal => "octal literal '%s' is out of range (E12)"
  | hexadecimal => "hex literal '%s' is out of range (E13)"

/-- The `untyped_integer_value` of the literal, or the message. -/
def scan (form : IntegerNotation) (text : List Byte) : Except String Int :=
  let (value, isOutOfRange) := strtoull text form.base
  if isOutOfRange then .error form.message else .ok value.toInt

def digits : IntegerNotation → List Byte → List Byte
  | decimal, text => text
  | octal, text => text
  | hexadecimal, text => text.drop 2

def denotes (form : IntegerNotation) (text : List Byte) : Nat :=
  Nat.ofDigits form.base ((form.digits text).reverse.map digitValue)

/-- A literal that is not rejected stands for the number that its digits denote. -/
def AsWritten (form : IntegerNotation) (text : List Byte) : Prop :=
  ∀ value, form.scan text = .ok value → value = form.denotes text

end IntegerNotation

/-! ## Reading digits -/

theorem readDigits_eq (base : Nat) (digits : List Byte) :
    readDigits base digits = Nat.ofDigits base (digits.reverse.map digitValue) := by
  rw [readDigits, Nat.ofDigits_eq_foldr, List.foldr_map, List.foldr_reverse]
  congr 1
  funext n b
  exact (Nat.add_comm _ _).trans (congrArg _ (Nat.mul_comm _ _))

theorem not_space_of_digit {b : Byte} (isDecimal : isDecimalDigit b = true) :
    isSpace b = false ∧ b ≠ 45 ∧ b ≠ 43 := by
  unfold isDecimalDigit at isDecimal
  rw [Bool.and_eq_true, decide_eq_true_eq, decide_eq_true_eq, UInt8.le_iff_toNat_le,
    UInt8.le_iff_toNat_le] at isDecimal
  have least : 48 ≤ b.toNat := isDecimal.1
  refine ⟨?_, ?_, ?_⟩
  · rw [isSpace, Bool.or_eq_false_iff, Bool.and_eq_false_iff]
    constructor
    · rw [beq_eq_false_iff_ne]
      intro isBlank
      rw [isBlank] at least
      exact absurd least (by decide)
    · right
      rw [decide_eq_false_iff_not, UInt8.le_iff_toNat_le]
      intro greatest
      have atMost : b.toNat ≤ 13 := greatest
      omega
  · intro isMinus
    rw [isMinus] at least
    exact absurd least (by decide)
  · intro isPlus
    rw [isPlus] at least
    exact absurd least (by decide)

theorem dropHexPrefix_of_ne {base : Nat} (isOther : base ≠ 16) (text : List Byte) :
    dropHexPrefix base text = text := by
  unfold dropHexPrefix
  split
  · exact if_neg fun both => isOther both.1
  · rfl

theorem strtoull_digits {base : Nat} (first : Byte) {rest digits : List Byte}
    (isDecimal : isDecimalDigit first = true)
    (areDigits : dropHexPrefix base (first :: rest) = digits)
    (inBase : ∀ b ∈ digits, isDigitIn base b = true) :
    strtoull (first :: rest) base =
      if 2 ^ 64 ≤ Nat.ofDigits base (digits.reverse.map digitValue) then
        (BitVec.allOnes 64, true)
      else
        (BitVec.ofNat 64 (Nat.ofDigits base (digits.reverse.map digitValue)), false) := by
  obtain ⟨notSpace, notMinus, notPlus⟩ := not_space_of_digit isDecimal
  have sign : takeSign ((first :: rest).dropWhile isSpace) = (false, first :: rest) := by
    rw [List.dropWhile_cons, notSpace]
    simp only [Bool.false_eq_true, if_false, takeSign, if_neg notMinus, if_neg notPlus]
  rw [strtoull, sign]
  dsimp only
  rw [areDigits, List.takeWhile_eq_self_iff.2 inBase, readDigits_eq]
  rfl

theorem isDigitIn_of_decimal {b : Byte} (isDecimal : isDecimalDigit b = true) :
    isDigitIn 10 b = true := by
  unfold isDecimalDigit at isDecimal
  rw [Bool.and_eq_true, decide_eq_true_eq, decide_eq_true_eq] at isDecimal
  have greatest := UInt8.le_iff_toNat_le.1 isDecimal.2
  rw [isDigitIn, decide_eq_true_eq, digitValue, if_pos isDecimal]
  have atMost : b.toNat ≤ 57 := greatest
  omega

theorem isDigitIn_of_octal {b : Byte} (isOctal : isOctalDigit b = true) :
    isDigitIn 8 b = true := by
  unfold isOctalDigit at isOctal
  rw [Bool.and_eq_true, decide_eq_true_eq, decide_eq_true_eq] at isOctal
  have atMost : b.toNat ≤ 55 := UInt8.le_iff_toNat_le.1 isOctal.2
  have decimal : b ≤ 57 := UInt8.le_trans isOctal.2 (by decide)
  rw [isDigitIn, decide_eq_true_eq, digitValue, if_pos (And.intro isOctal.1 decimal)]
  omega

theorem isDigitIn_of_hexadecimal {b : Byte} (isHexadecimal : isHexadecimalDigit b = true) :
    isDigitIn 16 b = true := by
  unfold isHexadecimalDigit at isHexadecimal
  simp only [Bool.or_eq_true, Bool.and_eq_true, decide_eq_true_eq] at isHexadecimal
  rw [isDigitIn, decide_eq_true_eq]
  rcases isHexadecimal with (isDecimal | isLower) | isUpper
  · have inTen := isDigitIn_of_decimal isDecimal
    rw [isDigitIn, decide_eq_true_eq] at inTen
    omega
  · have least : 97 ≤ b.toNat := UInt8.le_iff_toNat_le.1 isLower.1
    have greatest : b.toNat ≤ 102 := UInt8.le_iff_toNat_le.1 isLower.2
    have notDecimal : ¬(48 ≤ b ∧ b ≤ 57) := by
      intro both
      have atMost : b.toNat ≤ 57 := UInt8.le_iff_toNat_le.1 both.2
      omega
    rw [digitValue, if_neg notDecimal, if_pos (And.intro isLower.1 (UInt8.le_trans isLower.2 (by decide)))]
    omega
  · have least : 65 ≤ b.toNat := UInt8.le_iff_toNat_le.1 isUpper.1
    have greatest : b.toNat ≤ 70 := UInt8.le_iff_toNat_le.1 isUpper.2
    have notDecimal : ¬(48 ≤ b ∧ b ≤ 57) := by
      intro both
      have atMost : b.toNat ≤ 57 := UInt8.le_iff_toNat_le.1 both.2
      omega
    have notLower : ¬(97 ≤ b ∧ b ≤ 122) := by
      intro both
      have atLeast : 97 ≤ b.toNat := UInt8.le_iff_toNat_le.1 both.1
      omega
    rw [digitValue, if_neg notDecimal, if_neg notLower,
      if_pos (And.intro isUpper.1 (UInt8.le_trans isUpper.2 (by decide)))]
    omega

/-! ## Literals -/

namespace IntegerNotation

/-- The call of `strtoull` reads the digits of the literal. -/
theorem strtoull_literal {form : IntegerNotation} {text : List Byte}
    (isLiteral : text ∈ form.pattern.language) :
    strtoull text form.base =
      if 2 ^ 64 ≤ form.denotes text then (BitVec.allOnes 64, true)
      else (BitVec.ofNat 64 (form.denotes text), false) := by
  cases form with
  | decimal =>
      obtain ⟨_, rest, isText, ⟨first, isFirst, isSingle⟩, areDigits⟩ := mem_append.1 isLiteral
      have isDecimal : isDecimalDigit first = true := by
        unfold isDecimalDigit
        rw [Bool.and_eq_true, decide_eq_true_eq, decide_eq_true_eq] at isFirst ⊢
        exact And.intro (UInt8.le_trans (by decide) isFirst.1) isFirst.2
      rw [isText, isSingle, List.singleton_append]
      apply strtoull_digits _ isDecimal (dropHexPrefix_of_ne (by decide) _)
      intro b member
      rcases List.mem_cons.1 member with isHead | inRest
      · rw [isHead]
        exact isDigitIn_of_decimal isDecimal
      · exact isDigitIn_of_decimal (mem_star_symbol.1 areDigits b inRest)
  | octal =>
      obtain ⟨_, rest, isText, isZero, areDigits⟩ := mem_append.1 isLiteral
      rw [isText, mem_literal.1 isZero]
      apply strtoull_digits 48 rfl (dropHexPrefix_of_ne (by decide) _)
      intro b member
      rcases List.mem_cons.1 member with isHead | inRest
      · rw [isHead]
        rfl
      · exact isDigitIn_of_octal (mem_star_symbol.1 areDigits b inRest)
  | hexadecimal =>
      obtain ⟨_, _, isText, isZero, isTail⟩ := mem_sequence_cons.1 isLiteral
      obtain ⟨_, _, isRest, ⟨x, isX, isSingle⟩, isDigits⟩ := mem_sequence_cons.1 isTail
      obtain ⟨digits, _, isBack, areDigits, isEnd⟩ := mem_sequence_cons.1 isDigits
      obtain ⟨nonempty, inBase⟩ := mem_plus_symbol.1 areDigits
      obtain ⟨digit, others, isCons⟩ := List.exists_cons_of_ne_nil nonempty
      have whole : text = 48 :: x :: digits := by
        rw [isText, mem_literal.1 isZero, isRest, isSingle, isBack, mem_sequence_nil.1 isEnd,
          List.append_nil]
        rfl
      have inSixteen : ∀ b ∈ digits, isDigitIn 16 b = true :=
        fun b member => isDigitIn_of_hexadecimal (inBase b member)
      have isEither : x = 120 ∨ x = 88 := by
        have contained : [120, 88].contains x = true := isX
        simpa using contained
      rw [whole]
      apply strtoull_digits 48 rfl _ inSixteen
      rw [isCons, dropHexPrefix, if_pos]
      exact ⟨rfl, rfl, isEither, inSixteen digit (isCons ▸ List.mem_cons_self)⟩

theorem scan_literal {form : IntegerNotation} {text : List Byte}
    (isLiteral : text ∈ form.pattern.language) :
    form.scan text =
      if 2 ^ 64 ≤ form.denotes text then .error form.message
      else .ok (BitVec.ofNat 64 (form.denotes text)).toInt := by
  rw [scan, strtoull_literal isLiteral]
  by_cases large : 2 ^ 64 ≤ form.denotes text
  · rw [if_pos large, if_pos large]
    rfl
  · rw [if_neg large, if_neg large]
    rfl

/-- A literal is as written unless its number fits an unsigned word and not a
signed one. -/
theorem asWritten_iff {form : IntegerNotation} {text : List Byte}
    (isLiteral : text ∈ form.pattern.language) :
    form.AsWritten text ↔ ¬(2 ^ 63 ≤ form.denotes text ∧ form.denotes text < 2 ^ 64) := by
  rw [AsWritten, scan_literal isLiteral]
  generalize form.denotes text = n
  by_cases large : 2 ^ 64 ≤ n
  · rw [if_pos large]
    apply iff_of_true
    · intro value isValue
      cases isValue
    · omega
  · rw [if_neg large]
    have unsigned : (BitVec.ofNat 64 n).toNat = n := by
      rw [BitVec.toNat_ofNat, Nat.mod_eq_of_lt (by omega)]
    have signed := BitVec.toInt_eq_toNat_cond (BitVec.ofNat 64 n)
    rw [unsigned] at signed
    constructor
    · intro isValue band
      have same := isValue _ rfl
      rw [signed, if_neg (by omega)] at same
      omega
    · intro outside value isValue
      rw [← Except.ok.inj isValue, signed, if_pos (by omega)]

theorem asWritten_fortyTwo : hexadecimal.AsWritten (bytes "0x2A") :=
  (asWritten_iff (mem_of_longest rfl)).2 (by decide)

/-- The literal `9223372036854775808` is a negative constant. -/
theorem not_asWritten_signBit :
    bytes "9223372036854775808" ∈ decimalLiteral.language ∧
      decimal.scan (bytes "9223372036854775808") = .ok (-9223372036854775808) ∧
      ¬decimal.AsWritten (bytes "9223372036854775808") := by
  have scanned : decimal.scan (bytes "9223372036854775808") = .ok (-9223372036854775808) := by
    rfl
  refine ⟨mem_of_longest rfl, scanned, ?_⟩
  intro asWritten
  have negative := asWritten _ scanned
  omega

end IntegerNotation

end Rcgo.Scanner
