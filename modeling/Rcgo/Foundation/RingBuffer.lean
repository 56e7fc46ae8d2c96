import Mathlib.Data.List.Rotate
import Mathlib.Tactic.Common

/-!
# Ring buffers

A fixed number of slots is written in a cycle.  What has been recorded last stands
in the slots, from the next slot on around the cycle.
-/

namespace Rcgo.Foundation

universe u

/-- The slots, the one that is written next, and whether all of them have been written. -/
structure RingBuffer (α : Type u) where
  slots : List α
  next : Nat
  full : Bool

namespace RingBuffer

variable {α : Type u} {ring : RingBuffer α} {blank recorded : List α}

def record (ring : RingBuffer α) (value : α) : RingBuffer α where
  slots := ring.slots.set ring.next value
  next := (ring.next + 1) % ring.slots.length
  full := ring.full || (ring.next + 1) % ring.slots.length == 0

/-- The slots that have been written, in their order. -/
def written (ring : RingBuffer α) : List α :=
  if ring.full then ring.slots else ring.slots.take ring.next

/-- The values have been recorded one after another over the blank slots. -/
structure Holds (blank recorded : List α) (ring : RingBuffer α) : Prop where
  next : ring.next = recorded.length % blank.length
  full : ring.full = decide (blank.length ≤ recorded.length)
  slots : ring.slots.rotate ring.next = (blank ++ recorded).drop recorded.length

theorem holds_blank (some : blank ≠ []) : Holds blank [] ⟨blank, 0, false⟩ where
  next := (Nat.zero_mod _).symm
  full := by simpa using some
  slots := by simp

theorem Holds.length_slots (holds : Holds blank recorded ring) :
    ring.slots.length = blank.length := by
  have lengths := congrArg List.length holds.slots
  simpa using lengths

theorem rotate_set {slots : List α} {next : Nat} (isSlot : next < slots.length) (value : α) :
    (slots.set next value).rotate (next + 1) = (slots.rotate next).tail ++ [value] := by
  rw [List.rotate_eq_drop_append_take (by rw [List.length_set]; exact isSlot),
    List.rotate_eq_drop_append_take isSlot.le, List.drop_eq_getElem_cons isSlot,
    List.cons_append, List.tail_cons, List.append_assoc, List.drop_set_of_lt (Nat.lt_succ_self _),
    List.take_succ_eq_append_getElem (by simpa using isSlot), List.getElem_set_self,
    List.take_set_of_le le_rfl]

theorem Holds.record (holds : Holds blank recorded ring) (some : blank ≠ []) (value : α) :
    Holds blank (recorded ++ [value]) (ring.record value) := by
  have length := holds.length_slots
  have positive : 0 < blank.length := List.length_pos_iff.mpr some
  have isSlot : ring.next < ring.slots.length := by
    rw [holds.next, length]
    exact Nat.mod_lt _ positive
  have isNext : (ring.next + 1) % ring.slots.length =
      (recorded ++ [value]).length % blank.length := by
    rw [holds.next, length, List.length_append, List.length_singleton, Nat.mod_add_mod]
  refine ⟨isNext, ?_, ?_⟩
  · change (ring.full || (ring.next + 1) % ring.slots.length == 0) = _
    rw [isNext, holds.full, List.length_append, List.length_singleton]
    by_cases isFull : blank.length ≤ recorded.length
    · simp [isFull, Nat.le_succ_of_le isFull]
    · -- The slots become full with the last of them.
      rw [decide_eq_false isFull, Bool.false_or]
      by_cases isLast : recorded.length + 1 = blank.length
      · simp [isLast]
      · have notYet : ¬blank.length ≤ recorded.length + 1 := by omega
        rw [Nat.mod_eq_of_lt (by omega), decide_eq_false notYet]
        simp
  · change (ring.slots.set ring.next value).rotate ((ring.next + 1) % ring.slots.length) = _
    have rotates : ∀ count, (ring.slots.set ring.next value).rotate (count % ring.slots.length) =
        (ring.slots.set ring.next value).rotate count := by
      intro count
      have sameLength : (ring.slots.set ring.next value).length = ring.slots.length :=
        List.length_set
      rw [← sameLength, List.rotate_mod]
    have notAll : recorded.length + 1 ≤ (blank ++ recorded).length := by
      rw [List.length_append]
      omega
    rw [rotates, rotate_set isSlot, holds.slots, List.tail_drop, List.length_append,
      List.length_singleton, ← List.append_assoc]
    exact (List.drop_append_of_le_length notAll).symm

theorem Holds.rotate_written (holds : Holds blank recorded ring) :
    ring.written.rotate ring.next = recorded.drop (recorded.length - blank.length) := by
  rw [written, holds.full]
  by_cases isFull : blank.length ≤ recorded.length
  · rw [decide_eq_true isFull, if_pos rfl, holds.slots, List.drop_append,
      List.drop_eq_nil_of_le isFull, List.nil_append]
  · have isFew : recorded.length < blank.length := Nat.lt_of_not_le isFull
    have isNext : ring.next = recorded.length := holds.next.trans (Nat.mod_eq_of_lt isFew)
    have isSlot : ring.next ≤ ring.slots.length := by
      rw [isNext, holds.length_slots]
      exact isFew.le
    have around := holds.slots
    rw [List.rotate_eq_drop_append_take isSlot, List.drop_append_of_le_length isFew.le] at around
    have written : ring.slots.take ring.next = recorded := by
      apply (List.append_inj' around _).2
      rw [List.length_take_of_le isSlot, isNext]
    have isAll : recorded.length - blank.length = 0 := Nat.sub_eq_zero_of_le isFew.le
    rw [decide_eq_false isFull, if_neg Bool.false_ne_true, written, isNext, List.rotate_length,
      isAll, List.drop_zero]

end RingBuffer

end Rcgo.Foundation
