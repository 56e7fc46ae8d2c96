import Rcgo.Code.Machine
import Rcgo.Foundation.Placement

/-!
# Numbers in the memory

What is read where a number has been written, and where none has been.
-/

namespace Rcgo.Code.Memory

open Rcgo.Foundation

variable {memory other : Memory} {address size value : Nat}

theorem read_congr (same : ∀ byte ∈ bytesAt address size, other byte = memory byte) :
    other.read address size = memory.read address size := by
  induction size generalizing address with
  | zero => rfl
  | succ size inductionHypothesis =>
      have isFirst : address ∈ bytesAt address (size + 1) :=
        ⟨Nat.le_refl _, Nat.lt_add_of_pos_right (Nat.succ_pos size)⟩
      have areRest : ∀ byte ∈ bytesAt (address + 1) size, other byte = memory byte := by
        intro byte isByte
        have above := isByte.1
        have below := isByte.2
        exact same byte ⟨by omega, by omega⟩
      rw [read, read, same address isFirst, inductionHypothesis areRest]

theorem read_eq_mod (areDigits : ∀ k < size, memory (address + k) = UInt8.ofNat (value / 256 ^ k)) :
    memory.read address size = value % 256 ^ size := by
  induction size generalizing address value with
  | zero => rw [read, Nat.pow_zero, Nat.mod_one]
  | succ size inductionHypothesis =>
      have isFirst : (memory address).toNat = value % 256 := by
        have isDigit := areDigits 0 (Nat.succ_pos size)
        rw [Nat.add_zero, Nat.pow_zero, Nat.div_one] at isDigit
        rw [isDigit]
        exact UInt8.toNat_ofNat'
      have areRest : ∀ k < size,
          memory (address + 1 + k) = UInt8.ofNat (value / 256 / 256 ^ k) := by
        intro k inside
        have isDigit := areDigits (k + 1) (Nat.succ_lt_succ inside)
        rw [Nat.pow_succ', ← Nat.div_div_eq_div_mul] at isDigit
        rw [← isDigit, Nat.add_assoc, Nat.add_comm 1 k]
      rw [read, isFirst, inductionHypothesis areRest, Nat.pow_succ', Nat.mod_mul]

theorem write_of_notMem {target width byte : Nat} (outside : byte ∉ bytesAt target width) :
    memory.write target width value byte = memory byte :=
  if_neg outside

theorem read_write_self (small : value < 256 ^ size) :
    (memory.write address size value).read address size = value := by
  rw [read_eq_mod, Nat.mod_eq_of_lt small]
  intro k inside
  rw [write, if_pos ⟨Nat.le_add_right _ _, Nat.add_lt_add_left inside _⟩, Nat.add_sub_cancel_left]

theorem read_write_of_disjoint {target width : Nat}
    (apart : Disjoint (bytesAt address size) (bytesAt target width)) :
    (memory.write target width value).read address size = memory.read address size :=
  read_congr fun _ isByte => write_of_notMem (Set.disjoint_left.mp apart isByte)

theorem read_eq_zero (areZero : ∀ byte ∈ bytesAt address size, memory byte = 0) :
    memory.read address size = 0 := by
  rw [read_eq_mod, Nat.zero_mod]
  intro k inside
  rw [areZero _ ⟨Nat.le_add_right _ _, Nat.add_lt_add_left inside _⟩, Nat.zero_div]
  rfl

end Rcgo.Code.Memory
