import Mathlib.Algebra.Ring.Nat
import Mathlib.Data.List.Nodup
import Mathlib.Tactic.Common

/-!
# Counting marked members

Each member of a list carries a mark.  A counter of the members with one mark can
follow the marks one at a time, and a mark with a stamp that nobody has had so far
is carried by no member.
-/

namespace Rcgo.Foundation

universe u v

variable {μ : Type u} {κ : Type v} [DecidableEq κ]

def countMarked (members : List μ) (marks : μ → κ) (mark : κ) : Nat :=
  members.countP fun member => marks member = mark

variable {members : List μ} {marks : μ → κ} {mark : κ}

theorem countMarked_le (members : List μ) (marks : μ → κ) (mark : κ) :
    countMarked members marks mark ≤ members.length :=
  List.countP_le_length

theorem countMarked_eq_zero (nobody : ∀ member ∈ members, marks member ≠ mark) :
    countMarked members marks mark = 0 := by
  rw [countMarked, List.countP_eq_zero]
  intro member isMember
  rw [decide_eq_true_eq]
  exact nobody member isMember

variable [DecidableEq μ]

theorem countMarked_erase (marks : μ → κ) {member : μ} (isMember : member ∈ members) :
    countMarked members marks mark =
      countMarked (members.erase member) marks mark + if marks member = mark then 1 else 0 := by
  rw [countMarked, (List.perm_cons_erase isMember).countP_eq, List.countP_cons, countMarked]
  simp only [decide_eq_true_eq]

theorem countMarked_erase_update {member : μ} (nodup : members.Nodup) (new : κ) :
    countMarked (members.erase member) (Function.update marks member new) mark =
      countMarked (members.erase member) marks mark := by
  apply List.countP_congr
  intro other isOther
  have different : other ≠ member := (nodup.mem_erase_iff.mp isOther).1
  rw [Function.update_of_ne different]

theorem countMarked_update {member : μ} (nodup : members.Nodup) (isMember : member ∈ members)
    (new : κ) :
    countMarked members (Function.update marks member new) mark +
        (if marks member = mark then 1 else 0) =
      countMarked members marks mark + if new = mark then 1 else 0 := by
  rw [countMarked_erase (Function.update marks member new) isMember,
    countMarked_erase marks isMember, countMarked_erase_update nodup,
    Function.update_self, Nat.add_right_comm]

theorem ofNat_countMarked_update {width : Nat} {counter next : BitVec width} {member : μ}
    (nodup : members.Nodup) (isMember : member ∈ members) (new : κ)
    (isCounter : counter = BitVec.ofNat width (countMarked members marks mark))
    (follows : next + (if marks member = mark then 1 else 0) =
      counter + if new = mark then 1 else 0) :
    next = BitVec.ofNat width (countMarked members (Function.update marks member new) mark) := by
  have isOne : ∀ (proposition : Prop) [Decidable proposition],
      (if proposition then 1 else 0 : BitVec width) =
        BitVec.ofNat width (if proposition then 1 else 0) := by
    intro proposition _
    split <;> rfl
  rw [isOne, isOne, isCounter, BitVec.ofNat_add_ofNat, ← countMarked_update nodup isMember new,
    BitVec.ofNat_add, BitVec.add_left_inj] at follows
  exact follows

theorem serial_injective {width first second : Nat} (isFirst : first < 2 ^ width)
    (isSecond : second < 2 ^ width)
    (same : BitVec.ofNat width first = BitVec.ofNat width second) : first = second := by
  have := congrArg BitVec.toNat same
  rwa [BitVec.toNat_ofNat, BitVec.toNat_ofNat, Nat.mod_eq_of_lt isFirst,
    Nat.mod_eq_of_lt isSecond] at this

end Rcgo.Foundation
