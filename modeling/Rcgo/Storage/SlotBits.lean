import Mathlib.Logic.Function.Basic
import Mathlib.Tactic.Common

/-!
# The status bits of the slots of a block

A block keeps four bits for each of its slots, two slots in a byte.
-/

namespace Rcgo.Storage

/-- The array `bits_`. -/
abbrev BitArray := Nat → BitVec 8

/-- The four status bits. -/
inductive Flag where
  | object
  | allocated
  | mark
  | scanned
  deriving DecidableEq, Repr

/-- `OBJECT`, `ALLOCATED`, `MARK` and `SCANNED`. -/
def Flag.mask : Flag → BitVec 8
  | object => 0x01
  | allocated => 0x02
  | mark => 0x04
  | scanned => 0x08

namespace BitArray

def empty : BitArray :=
  fun _ => 0

/-- The position of a mask of four bits in the byte of the slot. -/
def shift (slot : Nat) (mask : BitVec 8) : BitVec 8 :=
  if slot % 2 = 1 then mask <<< 4 else mask

/-- `Block::set_bits`. -/
def setBits (bits : BitArray) (slot : Nat) (mask : BitVec 8) : BitArray :=
  Function.update bits (slot / 2) (bits (slot / 2) ||| shift slot mask)

/-- `Block::reset_bits`. -/
def resetBits (bits : BitArray) (slot : Nat) (mask : BitVec 8) : BitArray :=
  Function.update bits (slot / 2) (bits (slot / 2) &&& ~~~ shift slot mask)

/-- `Block::clear_bits`. -/
def clearBits (bits : BitArray) (slot : Nat) : BitArray :=
  resetBits bits slot 0x0F

/-- `Block::get_bits`. -/
def getBits (bits : BitArray) (slot : Nat) : BitVec 8 :=
  (if slot % 2 = 1 then bits (slot / 2) >>> 4 else bits (slot / 2)) &&& 0x0F

/-- The test `(get_bits (slot) & flag) != 0`. -/
def has (bits : BitArray) (slot : Nat) (flag : Flag) : Bool :=
  getBits bits slot &&& flag.mask != 0

/-- The position of the flag among the four bits of a slot. -/
private def index : Flag → Nat
  | .object => 0
  | .allocated => 1
  | .mark => 2
  | .scanned => 3

private theorem and_mask_ne_zero (flag : Flag) :
    ∀ byte : BitVec 8, (byte &&& flag.mask != 0) = byte.getLsbD (index flag) := by
  cases flag <;> decide

private theorem has_eq (bits : BitArray) (slot : Nat) (flag : Flag) :
    has bits slot flag = (bits (slot / 2)).getLsbD (4 * (slot % 2) + index flag) := by
  rw [has, getBits, and_mask_ne_zero, BitVec.getLsbD_and]
  have parity : slot % 2 = 0 ∨ slot % 2 = 1 := by omega
  rcases parity with even | odd
  · rw [even]
    cases flag <;> simp [index]
  · rw [odd]
    cases flag <;> simp [index]

private theorem getLsbD_shift (slot other : Nat) {mask : BitVec 8} (flag : Flag)
    (small : ∀ flag : Flag, (mask <<< 4).getLsbD (index flag) = false ∧
      (mask <<< 4).getLsbD (4 + index flag) = mask.getLsbD (index flag) ∧
      mask.getLsbD (4 + index flag) = false) :
    (shift slot mask).getLsbD (4 * (other % 2) + index flag) =
      (decide (other % 2 = slot % 2) && mask.getLsbD (index flag)) := by
  have parity : slot % 2 = 0 ∨ slot % 2 = 1 := by omega
  have otherParity : other % 2 = 0 ∨ other % 2 = 1 := by omega
  rcases parity with even | odd <;> rcases otherParity with otherEven | otherOdd
  · simp [shift, even, otherEven]
  · simp [shift, even, otherOdd, (small flag).2.2]
  · simp only [shift, odd, otherEven, (small flag).1, if_true, Nat.mul_zero, Nat.zero_add]
    rfl
  · simp only [shift, odd, otherOdd, (small flag).2.1, if_true, Nat.mul_one, decide_true,
      Bool.true_and]

private theorem eq_iff_half_parity (slot other : Nat) :
    other = slot ↔ other / 2 = slot / 2 ∧ other % 2 = slot % 2 := by
  omega

private theorem inByte (other : Nat) (flag : Flag) : 4 * (other % 2) + index flag < 8 := by
  cases flag <;> simp only [index] <;> omega

theorem has_setBits
    (bits : BitArray) (slot : Nat) (set : Flag) (other : Nat) (flag : Flag) :
    has (setBits bits slot set.mask) other flag = true ↔
      has bits other flag = true ∨ (other = slot ∧ set = flag) := by
  rw [has_eq, has_eq, eq_iff_half_parity slot other]
  by_cases sameByte : other / 2 = slot / 2
  · rw [setBits, sameByte, Function.update_self, BitVec.getLsbD_or,
      getLsbD_shift slot other flag (by intro flag; cases set <;> cases flag <;> decide)]
    cases set <;> cases flag <;> simp [Flag.mask, index]
  · rw [setBits, Function.update_of_ne sameByte]
    simp [sameByte]

/-- The reset of `SCANNED` and `MARK` in `sweep`. -/
theorem has_resetBits (bits : BitArray) (slot : Nat) (other : Nat) (flag : Flag) :
    has (resetBits bits slot (Flag.scanned.mask ||| Flag.mark.mask)) other flag = true ↔
      has bits other flag = true ∧
        (other = slot → flag = .object ∨ flag = .allocated) := by
  rw [has_eq, has_eq, eq_iff_half_parity slot other]
  by_cases sameByte : other / 2 = slot / 2
  · rw [resetBits, sameByte, Function.update_self, BitVec.getLsbD_and, BitVec.getLsbD_not,
      getLsbD_shift slot other flag (by intro flag; cases flag <;> decide),
      decide_eq_true (inByte other flag)]
    cases flag <;> simp [Flag.mask, index]
  · rw [resetBits, Function.update_of_ne sameByte]
    simp [sameByte]

theorem has_clearBits (bits : BitArray) (slot : Nat) (other : Nat) (flag : Flag) :
    has (clearBits bits slot) other flag = true ↔
      has bits other flag = true ∧ other ≠ slot := by
  rw [has_eq, has_eq, Ne, eq_iff_half_parity slot other]
  by_cases sameByte : other / 2 = slot / 2
  · rw [clearBits, resetBits, sameByte, Function.update_self, BitVec.getLsbD_and,
      BitVec.getLsbD_not,
      getLsbD_shift slot other flag (by intro flag; cases flag <;> decide),
      decide_eq_true (inByte other flag)]
    cases flag <;> simp [index]
  · rw [clearBits, resetBits, Function.update_of_ne sameByte]
    simp [sameByte]

@[simp]
theorem has_empty (slot : Nat) (flag : Flag) : has empty slot flag = false := by
  rw [has_eq]
  simp [empty]

end BitArray

end Rcgo.Storage
