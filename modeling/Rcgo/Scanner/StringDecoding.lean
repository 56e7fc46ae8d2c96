import Rcgo.Foundation.Outcome
import Rcgo.Scanner.Rules
import Mathlib.Logic.Function.Basic

/-!
# Decoding the text of a string literal

`parseInterprettedString` and the functions of `scanner.l` that it calls.  The
text is decoded in place: `out` follows `pos` through the same buffer.  An
`int` has 32 bits.
-/

namespace Rcgo.Scanner

open Rcgo.Foundation

/-- How the decoding can end otherwise than by returning. -/
inductive DecodeFault where
  /-- the error E134 -/
  | octalRange
  /-- the error E135 -/
  | unicodeRange
  /-- the error E136 -/
  | surrogate
  /-- `NOT_REACHED` -/
  | notReached
  /-- the closing quote or what follows it is read -/
  | overrun
  /-- what has not been read is written -/
  | overtaken
  deriving DecidableEq, Repr

/-- The fault is an error message about the literal. -/
def DecodeFault.isReport : DecodeFault → Bool
  | octalRange => true
  | unicodeRange => true
  | surrogate => true
  | _ => false

abbrev Buffer :=
  Nat → Byte

/-- `s[0]`, of a pointer that has not reached the limit. -/
def readByte (limit : Nat) (m : Buffer) (pos : Nat) : Outcome DecodeFault Byte :=
  if pos < limit then .ok (m pos) else .error .overrun

/-- `*out++ = b`, where the bytes before `pos` have been read. -/
def writeByte (pos : Nat) (m : Buffer) (out : Nat) (b : Byte) :
    Outcome DecodeFault (Buffer × Nat) :=
  if out < pos then .ok (Function.update m out b, out + 1) else .error .overtaken

def writeBytes (pos : Nat) : Buffer → Nat → List Byte → Outcome DecodeFault (Buffer × Nat)
  | m, out, [] => .ok (m, out)
  | m, out, b :: bs => do
      let (m, out) ← writeByte pos m out b
      writeBytes pos m out bs

/-! ## Escape values -/

/-- `octalvalue`; a `char` is signed. -/
def octalvalue (c : Byte) : BitVec 32 :=
  c.toBitVec.signExtend 32 - 48

/-- `hexvalue`. -/
def hexvalue (c : Byte) : Outcome DecodeFault (BitVec 32) :=
  if 48 ≤ c ∧ c ≤ 57 then
    .ok (BitVec.ofNat 32 (c.toNat - 48))
  else if 97 ≤ c ∧ c ≤ 102 then
    .ok (BitVec.ofNat 32 (c.toNat - 97 + 10))
  else if 65 ≤ c ∧ c ≤ 70 then
    .ok (BitVec.ofNat 32 (c.toNat - 65 + 10))
  else
    .error .notReached

/-- The value of three octal digits before it is checked. -/
def octalCode (a b c : Byte) : BitVec 32 :=
  (octalvalue a <<< 6) ||| (octalvalue b <<< 3) ||| (octalvalue c <<< 0)

/-- `validUnicode`. -/
def validUnicode (u : BitVec 32) : Outcome DecodeFault Unit :=
  if u.toInt > 0x10FFFF then
    .error .unicodeRange
  else if u.toInt ≥ 0xD800 ∧ u.toInt ≤ 0xDFFF then
    .error .surrogate
  else
    .ok ()

/-- `hexvalue (s[0])`. -/
def readHex (limit : Nat) (m : Buffer) (pos : Nat) : Outcome DecodeFault (BitVec 32) := do
  let c ← readByte limit m pos
  hexvalue c

/-- `parseOctal`. -/
def parseOctal (limit : Nat) (m : Buffer) (pos : Nat) : Outcome DecodeFault (BitVec 32) := do
  let a ← readByte limit m pos
  let b ← readByte limit m (pos + 1)
  let c ← readByte limit m (pos + 2)
  if (octalCode a b c).toInt > 255 then .error .octalRange else .ok (octalCode a b c)

/-- `parseHex`. -/
def parseHex (limit : Nat) (m : Buffer) (pos : Nat) : Outcome DecodeFault (BitVec 32) := do
  let a ← readHex limit m pos
  let b ← readHex limit m (pos + 1)
  pure ((a <<< 4) ||| (b <<< 0))

/-- `parseU4`. -/
def parseU4 (limit : Nat) (m : Buffer) (pos : Nat) : Outcome DecodeFault (BitVec 32) := do
  let a ← readHex limit m pos
  let b ← readHex limit m (pos + 1)
  let c ← readHex limit m (pos + 2)
  let d ← readHex limit m (pos + 3)
  let x := (a <<< 12) ||| (b <<< 8) ||| (c <<< 4) ||| (d <<< 0)
  validUnicode x
  pure x

/-- `parseU8`. -/
def parseU8 (limit : Nat) (m : Buffer) (pos : Nat) : Outcome DecodeFault (BitVec 32) := do
  let a ← readHex limit m pos
  let b ← readHex limit m (pos + 1)
  let c ← readHex limit m (pos + 2)
  let d ← readHex limit m (pos + 3)
  let e ← readHex limit m (pos + 4)
  let f ← readHex limit m (pos + 5)
  let g ← readHex limit m (pos + 6)
  let h ← readHex limit m (pos + 7)
  let x :=
    (a <<< 28) ||| (b <<< 24) ||| (c <<< 20) ||| (d <<< 16) ||| (e <<< 12) ||| (f <<< 8) |||
      (g <<< 4) ||| (h <<< 0)
  validUnicode x
  pure x

/-! ## Encoding -/

/-- The low byte of an `int`. -/
def lowByte (x : BitVec 32) : Byte :=
  UInt8.ofNat x.toNat

/-- The first loop of `writeUtf8`, which fills `u`. -/
def utf8Units : Nat → BitVec 32 → List Byte
  | 0, _ => []
  | room + 1, x =>
      if x ≠ 0 then
        lowByte (0x80 ||| (x &&& 0x3F)) :: utf8Units room (x.sshiftRight 6)
      else
        []

/-- The bits that the `switch` of `writeUtf8` sets in the last of the units. -/
def leadBits : Nat → Byte
  | 2 => 0xC0
  | 3 => 0xE0
  | 4 => 0xF0
  | 5 => 0xF8
  | 6 => 0xFC
  | _ => 0

/-- The bytes in the order in which `writeUtf8` writes them. -/
def utf8Bytes (x : BitVec 32) : List Byte :=
  if x.toInt < 128 then
    [lowByte x]
  else
    let u := utf8Units 6 x
    match u.reverse with
    | [] => []
    | last :: others => (last ||| leadBits u.length) :: others

/-- `writeUtf8`. -/
def writeUtf8 (pos : Nat) (x : BitVec 32) (m : Buffer) (out : Nat) :
    Outcome DecodeFault (Buffer × Nat) :=
  writeBytes pos m out (utf8Bytes x)

/-! ## The loop -/

/-- What a simple escape sequence stands for. -/
def simpleEscape (c : Byte) : Option Byte :=
  if c = 97 then some 7
  else if c = 98 then some 8
  else if c = 102 then some 12
  else if c = 110 then some 10
  else if c = 114 then some 13
  else if c = 116 then some 9
  else if c = 118 then some 11
  else if c = 92 then some 92
  else if c = 34 then some 34
  else none

/-- Where the loop is: the buffer, `pos` and `out`. -/
structure Decoding where
  buffer : Buffer
  pos : Nat
  out : Nat

/-- One iteration of the loop of `parseInterprettedString`. -/
def decodeStep (limit : Nat) (s : Decoding) : Outcome DecodeFault Decoding := do
  let c ← readByte limit s.buffer s.pos
  if c ≠ 92 then
    let (m, out) ← writeByte (s.pos + 1) s.buffer s.out c
    pure ⟨m, s.pos + 1, out⟩
  else
    let c ← readByte limit s.buffer (s.pos + 1)
    if isOctalDigit c then
      let x ← parseOctal limit s.buffer (s.pos + 1)
      let (m, out) ← writeByte (s.pos + 4) s.buffer s.out (lowByte x)
      pure ⟨m, s.pos + 4, out⟩
    else if c = 120 then
      let x ← parseHex limit s.buffer (s.pos + 2)
      let (m, out) ← writeByte (s.pos + 4) s.buffer s.out (lowByte x)
      pure ⟨m, s.pos + 4, out⟩
    else if c = 117 then
      let x ← parseU4 limit s.buffer (s.pos + 2)
      let (m, out) ← writeUtf8 (s.pos + 6) x s.buffer s.out
      pure ⟨m, s.pos + 6, out⟩
    else if c = 85 then
      let x ← parseU8 limit s.buffer (s.pos + 2)
      let (m, out) ← writeUtf8 (s.pos + 10) x s.buffer s.out
      pure ⟨m, s.pos + 10, out⟩
    else
      match simpleEscape c with
      | some b =>
          let (m, out) ← writeByte (s.pos + 2) s.buffer s.out b
          pure ⟨m, s.pos + 2, out⟩
      -- the `switch` has no case for the other characters
      | none => pure ⟨s.buffer, s.pos + 1, s.out⟩

/-- `parseInterprettedString`. -/
def parseInterprettedString (limit : Nat) : Nat → Decoding → Outcome DecodeFault Decoding
  | 0, _ => .outOfFuel
  | fuel + 1, s =>
      if s.pos ≠ limit then do
        let s ← decodeStep limit s
        parseInterprettedString limit fuel s
      else
        .ok s

/-- The call of the scanner: both pointers at the first byte of the text. -/
def Decoding.start (buffer : Buffer) : Decoding :=
  ⟨buffer, 0, 0⟩

/-- The bytes from `begin` to `out`. -/
def Decoding.result (s : Decoding) : List Byte :=
  (List.range s.out).map s.buffer

end Rcgo.Scanner
