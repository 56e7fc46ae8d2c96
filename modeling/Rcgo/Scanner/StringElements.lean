import Rcgo.Scanner.Utf8
import Mathlib.Data.Nat.Digits.Defs

/-!
# Plain bytes and escape sequences

A text without broken escape sequences is a list of elements.  One iteration of
`parseInterprettedString` decodes one element, and writes not more bytes than it
has read.
-/

namespace Rcgo.Scanner

open Rcgo.Foundation

/-- `{OCTAL_DIGIT}`. -/
abbrev OctalDigit :=
  { b : Byte // isOctalDigit b = true }

/-- `{HEXADECIMAL_DIGIT}`. -/
abbrev HexDigit :=
  { b : Byte // isHexadecimalDigit b = true }

def OctalDigit.value (d : OctalDigit) : Nat :=
  d.val.toNat - 48

def HexDigit.value (d : HexDigit) : Nat :=
  if d.val ≤ 57 then d.val.toNat - 48
  else if d.val ≤ 70 then d.val.toNat - 55
  else d.val.toNat - 87

/-- The escape sequences of one letter. -/
inductive SimpleEscape where
  | alert
  | backspace
  | formFeed
  | newline
  | carriageReturn
  | tab
  | verticalTab
  | backslash
  | quote
  deriving DecidableEq, Repr

namespace SimpleEscape

/-- The character after the backslash. -/
def letter : SimpleEscape → Byte
  | alert => 97
  | backspace => 98
  | formFeed => 102
  | newline => 110
  | carriageReturn => 114
  | tab => 116
  | verticalTab => 118
  | backslash => 92
  | quote => 34

def meaning : SimpleEscape → Byte
  | alert => 7
  | backspace => 8
  | formFeed => 12
  | newline => 10
  | carriageReturn => 13
  | tab => 9
  | verticalTab => 11
  | backslash => 92
  | quote => 34

theorem simpleEscape_letter (e : SimpleEscape) : simpleEscape e.letter = some e.meaning := by
  cases e <;> rfl

end SimpleEscape

/-- A byte that stands for itself, or a complete escape sequence. -/
inductive Element where
  | plain (b : Byte) (notBackslash : b ≠ 92)
  | simple (escape : SimpleEscape)
  | octal (a b c : OctalDigit)
  | hex (a b : HexDigit)
  | littleU (a b c d : HexDigit)
  | bigU (a b c d e f g h : HexDigit)

namespace Element

/-- The source text. -/
def text : Element → List Byte
  | plain b _ => [b]
  | simple escape => [92, escape.letter]
  | octal a b c => [92, a.val, b.val, c.val]
  | hex a b => [92, 120, a.val, b.val]
  | littleU a b c d => [92, 117, a.val, b.val, c.val, d.val]
  | bigU a b c d e f g h => [92, 85, a.val, b.val, c.val, d.val, e.val, f.val, g.val, h.val]

/-- The number that the digits stand for. -/
def value : Element → Nat
  | octal a b c => Nat.ofDigits 8 [c.value, b.value, a.value]
  | hex a b => Nat.ofDigits 16 [b.value, a.value]
  | littleU a b c d => Nat.ofDigits 16 [d.value, c.value, b.value, a.value]
  | bigU a b c d e f g h =>
      Nat.ofDigits 16
        [h.value, g.value, f.value, e.value, d.value, c.value, b.value, a.value]
  | _ => 0

def IsUnicode : Element → Prop
  | littleU _ _ _ _ => True
  | bigU _ _ _ _ _ _ _ _ => True
  | _ => False

/-- The bytes that the element denotes, if it denotes any. -/
def denotes : Element → Option (List Byte)
  | plain b _ => some [b]
  | simple escape => some [escape.meaning]
  | octal a b c =>
      let v := (octal a b c).value
      if v ≤ 255 then some [UInt8.ofNat v] else none
  | hex a b => some [UInt8.ofNat (hex a b).value]
  | littleU a b c d =>
      let v := (littleU a b c d).value
      if v.isValidChar then some (String.utf8EncodeChar (Char.ofNat v)) else none
  | bigU a b c d e f g h =>
      let v := (bigU a b c d e f g h).value
      if v.isValidChar then some (String.utf8EncodeChar (Char.ofNat v)) else none

/-- The bytes that one iteration writes for the element. -/
def decode : Element → Outcome DecodeFault (List Byte)
  | plain b _ => .ok [b]
  | simple escape => .ok [escape.meaning]
  | octal a b c =>
      let v := (octal a b c).value
      if v > 255 then .error .octalRange else .ok [UInt8.ofNat v]
  | hex a b => .ok [UInt8.ofNat (hex a b).value]
  | littleU a b c d => do
      let x := BitVec.ofNat 32 (littleU a b c d).value
      validUnicode x
      pure (utf8Bytes x)
  | bigU a b c d e f g h => do
      let x := BitVec.ofNat 32 (bigU a b c d e f g h).value
      validUnicode x
      pure (utf8Bytes x)

end Element

/-! ## The values of the digits -/

theorem OctalDigit.bounds (d : OctalDigit) : 48 ≤ d.val.toNat ∧ d.val.toNat ≤ 55 := by
  have isDigit := d.property
  unfold isOctalDigit at isDigit
  rw [Bool.and_eq_true, decide_eq_true_eq, decide_eq_true_eq, UInt8.le_iff_toNat_le,
    UInt8.le_iff_toNat_le] at isDigit
  exact isDigit

theorem HexDigit.cases (d : HexDigit) :
    (48 ≤ d.val.toNat ∧ d.val.toNat ≤ 57) ∨ (97 ≤ d.val.toNat ∧ d.val.toNat ≤ 102) ∨
      (65 ≤ d.val.toNat ∧ d.val.toNat ≤ 70) := by
  have isDigit := d.property
  unfold isHexadecimalDigit isDecimalDigit at isDigit
  simp only [Bool.or_eq_true, Bool.and_eq_true, decide_eq_true_eq, UInt8.le_iff_toNat_le] at isDigit
  rcases isDigit with (isDecimal | isLower) | isUpper
  · exact Or.inl isDecimal
  · exact Or.inr (Or.inl isLower)
  · exact Or.inr (Or.inr isUpper)

theorem OctalDigit.value_lt (d : OctalDigit) : d.value < 8 := by
  have bounds := d.bounds
  unfold OctalDigit.value
  omega

theorem HexDigit.value_lt (d : HexDigit) : d.value < 16 := by
  have cases := d.cases
  unfold HexDigit.value
  simp only [UInt8.le_iff_toNat_le, show (57 : UInt8).toNat = 57 from rfl,
    show (70 : UInt8).toNat = 70 from rfl]
  split
  · omega
  · split
    · omega
    · omega

theorem hexvalue_digit (d : HexDigit) : hexvalue d.val = .ok (BitVec.ofNat 32 d.value) := by
  have cases := d.cases
  unfold hexvalue HexDigit.value
  simp only [UInt8.le_iff_toNat_le, show (48 : UInt8).toNat = 48 from rfl,
    show (57 : UInt8).toNat = 57 from rfl, show (65 : UInt8).toNat = 65 from rfl,
    show (70 : UInt8).toNat = 70 from rfl, show (97 : UInt8).toNat = 97 from rfl,
    show (102 : UInt8).toNat = 102 from rfl]
  rcases cases with isDecimal | isLower | isUpper
  · rw [if_pos isDecimal, if_pos isDecimal.2]
  · rw [if_neg (by omega), if_pos isLower, if_neg (by omega), if_neg (by omega)]
    exact congrArg (fun v => Outcome.ok (BitVec.ofNat 32 v)) (by omega)
  · rw [if_neg (by omega), if_neg (by omega), if_pos isUpper, if_neg (by omega),
      if_pos isUpper.2]
    exact congrArg (fun v => Outcome.ok (BitVec.ofNat 32 v)) (by omega)

/-- One more digit of `w` bits behind those that have been shifted into place. -/
theorem or_shiftLeft {x d w : Nat} (k : Nat) (digit : d < 2 ^ w)
    (small : (2 ^ w * x + d) * 2 ^ k < 2 ^ 32) :
    (BitVec.ofNat 32 x <<< (k + w)) ||| (BitVec.ofNat 32 d <<< k) =
      BitVec.ofNat 32 (2 ^ w * x + d) <<< k := by
  have isPower : (2 : Nat) ^ (k + w) = 2 ^ w * 2 ^ k := by
    rw [Nat.pow_add, Nat.mul_comm]
  have xBound : x * 2 ^ (k + w) < 2 ^ 32 := by
    rw [isPower]
    calc x * (2 ^ w * 2 ^ k) = 2 ^ w * x * 2 ^ k := by ring
      _ ≤ (2 ^ w * x + d) * 2 ^ k := Nat.mul_le_mul_right _ (Nat.le_add_right _ _)
      _ < 2 ^ 32 := small
  have dBound : d * 2 ^ k < 2 ^ (k + w) := by
    rw [isPower]
    exact Nat.mul_lt_mul_of_pos_right digit (Nat.two_pow_pos k)
  have toNat : ∀ v j : Nat, v * 2 ^ j < 2 ^ 32 →
      (BitVec.ofNat 32 v <<< j).toNat = v * 2 ^ j := by
    intro v j bound
    have less : v < 2 ^ 32 :=
      Nat.lt_of_le_of_lt (Nat.le_mul_of_pos_right v (Nat.two_pow_pos j)) bound
    rw [BitVec.toNat_shiftLeft, BitVec.toNat_ofNat, Nat.mod_eq_of_lt less,
      Nat.shiftLeft_eq, Nat.mod_eq_of_lt bound]
  apply BitVec.eq_of_toNat_eq
  rw [BitVec.toNat_or, toNat x (k + w) xBound, toNat _ k small, toNat d k]
  · rw [Nat.mul_comm x, ← Nat.two_pow_add_eq_or_of_lt dBound, isPower]
    ring
  · refine Nat.lt_of_le_of_lt ?_ small
    exact Nat.mul_le_mul_right _ (Nat.le_add_left _ _)

theorem or_shiftLeft_hex {x d : Nat} (k : Nat) (digit : d < 16)
    (small : (16 * x + d) * 2 ^ k < 2 ^ 32) :
    (BitVec.ofNat 32 x <<< (k + 4)) ||| (BitVec.ofNat 32 d <<< k) =
      BitVec.ofNat 32 (16 * x + d) <<< k :=
  or_shiftLeft k digit small

theorem octalvalue_digit (d : OctalDigit) : octalvalue d.val = BitVec.ofNat 32 d.value := by
  obtain ⟨b, isDigit⟩ := d
  have bounds := OctalDigit.bounds ⟨b, isDigit⟩
  have isByte : b = UInt8.ofNat b.toNat := UInt8.ofNat_toNat.symm
  unfold OctalDigit.value
  dsimp only at bounds ⊢
  rw [isByte]
  generalize b.toNat = n at bounds
  obtain ⟨least, greatest⟩ := bounds
  interval_cases n <;> rfl

theorem octalCode_digits (a b c : OctalDigit) :
    octalCode a.val b.val c.val = BitVec.ofNat 32 (Element.octal a b c).value := by
  have aBound := a.value_lt
  have bBound := b.value_lt
  have cBound := c.value_lt
  rw [octalCode, octalvalue_digit, octalvalue_digit, octalvalue_digit,
    show (6 : Nat) = 3 + 3 from rfl, or_shiftLeft 3 bBound (by omega),
    show (3 : Nat) = 0 + 3 from rfl, or_shiftLeft 0 cBound (by omega), BitVec.shiftLeft_zero]
  apply congrArg
  simp only [Element.value, Nat.ofDigits_cons, Nat.ofDigits_nil]
  push_cast
  ring

theorem hexCode_digits (a b : HexDigit) :
    (BitVec.ofNat 32 a.value <<< 4) ||| (BitVec.ofNat 32 b.value <<< 0) =
      BitVec.ofNat 32 (Element.hex a b).value := by
  have aBound := a.value_lt
  have bBound := b.value_lt
  rw [show (4 : Nat) = 0 + 4 from rfl, or_shiftLeft_hex 0 bBound (by omega), BitVec.shiftLeft_zero]
  apply congrArg
  simp only [Element.value, Nat.ofDigits_cons, Nat.ofDigits_nil]
  push_cast
  ring

theorem littleUCode_digits (a b c d : HexDigit) :
    (BitVec.ofNat 32 a.value <<< 12) ||| (BitVec.ofNat 32 b.value <<< 8) |||
        (BitVec.ofNat 32 c.value <<< 4) ||| (BitVec.ofNat 32 d.value <<< 0) =
      BitVec.ofNat 32 (Element.littleU a b c d).value := by
  have aBound := a.value_lt
  have bBound := b.value_lt
  have cBound := c.value_lt
  have dBound := d.value_lt
  rw [show (12 : Nat) = 8 + 4 from rfl, or_shiftLeft_hex 8 bBound (by omega),
    show (8 : Nat) = 4 + 4 from rfl, or_shiftLeft_hex 4 cBound (by omega),
    show (4 : Nat) = 0 + 4 from rfl, or_shiftLeft_hex 0 dBound (by omega), BitVec.shiftLeft_zero]
  apply congrArg
  simp only [Element.value, Nat.ofDigits_cons, Nat.ofDigits_nil]
  push_cast
  ring

theorem bigUCode_digits (a b c d e f g h : HexDigit) :
    (BitVec.ofNat 32 a.value <<< 28) ||| (BitVec.ofNat 32 b.value <<< 24) |||
        (BitVec.ofNat 32 c.value <<< 20) ||| (BitVec.ofNat 32 d.value <<< 16) |||
        (BitVec.ofNat 32 e.value <<< 12) ||| (BitVec.ofNat 32 f.value <<< 8) |||
        (BitVec.ofNat 32 g.value <<< 4) ||| (BitVec.ofNat 32 h.value <<< 0) =
      BitVec.ofNat 32 (Element.bigU a b c d e f g h).value := by
  have aBound := a.value_lt
  have bBound := b.value_lt
  have cBound := c.value_lt
  have dBound := d.value_lt
  have eBound := e.value_lt
  have fBound := f.value_lt
  have gBound := g.value_lt
  have hBound := h.value_lt
  rw [show (28 : Nat) = 24 + 4 from rfl, or_shiftLeft_hex 24 bBound (by omega),
    show (24 : Nat) = 20 + 4 from rfl, or_shiftLeft_hex 20 cBound (by omega),
    show (20 : Nat) = 16 + 4 from rfl, or_shiftLeft_hex 16 dBound (by omega),
    show (16 : Nat) = 12 + 4 from rfl, or_shiftLeft_hex 12 eBound (by omega),
    show (12 : Nat) = 8 + 4 from rfl, or_shiftLeft_hex 8 fBound (by omega),
    show (8 : Nat) = 4 + 4 from rfl, or_shiftLeft_hex 4 gBound (by omega),
    show (4 : Nat) = 0 + 4 from rfl, or_shiftLeft_hex 0 hBound (by omega), BitVec.shiftLeft_zero]
  apply congrArg
  simp only [Element.value, Nat.ofDigits_cons, Nat.ofDigits_nil]
  push_cast
  ring

end Rcgo.Scanner
