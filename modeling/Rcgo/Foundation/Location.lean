import Mathlib.Data.List.Nodup
import Mathlib.Logic.Function.Basic

/-!
# Items that are in one place at a time

Every place has a list of items.  Items move from the front of one list to the
end of another one.
-/

namespace Rcgo.Foundation

universe u v

variable {α : Type u} {π : Type v}

/-- The lists hold every item exactly where it is. -/
structure Located (contents : π → List α) (place : α → Option π) : Prop where
  mem_iff : ∀ p item, item ∈ contents p ↔ place item = some p
  nodup : ∀ p, (contents p).Nodup

/-- The contents once the items of `front` have left `source` for `target`. -/
def transferred [DecidableEq π] (contents : π → List α) (source target : π) (front back : List α) :
    π → List α :=
  Function.update (Function.update contents source back) target (contents target ++ front)

/-- The places once the items of `front` have left for `target`. -/
def relocated [DecidableEq α] (place : α → Option π) (target : π) (front : List α) :
    α → Option π :=
  fun item => if item ∈ front then some target else place item

section Transferred

variable [DecidableEq π] {contents : π → List α} {source target : π} {front back : List α}

theorem transferred_target :
    transferred contents source target front back target = contents target ++ front :=
  Function.update_self _ _ _

theorem transferred_source (different : source ≠ target) :
    transferred contents source target front back source = back := by
  rw [transferred, Function.update_of_ne different, Function.update_self]

theorem transferred_other {p : π} (notSource : p ≠ source) (notTarget : p ≠ target) :
    transferred contents source target front back p = contents p := by
  rw [transferred, Function.update_of_ne notTarget, Function.update_of_ne notSource]

end Transferred

section Relocated

variable [DecidableEq α] {place : α → Option π} {target : π} {front : List α} {item : α}

theorem relocated_of_mem (member : item ∈ front) : relocated place target front item = some target :=
  if_pos member

theorem relocated_of_not_mem (absent : item ∉ front) :
    relocated place target front item = place item :=
  if_neg absent

end Relocated

namespace Located

variable {contents : π → List α} {place : α → Option π}

theorem unique (located : Located contents place) {p other : π} {item : α}
    (here : item ∈ contents p) (there : item ∈ contents other) : p = other := by
  have isHere := (located.mem_iff p item).mp here
  rw [(located.mem_iff other item).mp there, Option.some.injEq] at isHere
  exact isHere.symm

theorem place_of_mem (located : Located contents place) {p : π} {item : α}
    (here : item ∈ contents p) : place item = some p :=
  (located.mem_iff p item).mp here

theorem not_mem_of_ne (located : Located contents place) {p other : π} {item : α}
    (here : item ∈ contents p) (different : p ≠ other) : item ∉ contents other :=
  fun there => different (located.unique here there)

variable [DecidableEq α] [DecidableEq π] {source target : π} {front back : List α}

theorem transfer (located : Located contents place) (isFront : contents source = front ++ back)
    (different : source ≠ target) :
    Located (transferred contents source target front back) (relocated place target front) := by
  have nodup := located.nodup source
  rw [isFront] at nodup
  have apart := (List.nodup_append.mp nodup).2.2
  have isSource : ∀ item ∈ front, item ∈ contents source := by
    intro item member
    rw [isFront]
    exact List.mem_append_left _ member
  constructor
  · intro p item
    by_cases member : item ∈ front
    · rw [relocated_of_mem member, Option.some.injEq]
      by_cases isTarget : p = target
      · rw [isTarget, transferred_target]
        exact iff_of_true (List.mem_append_right _ member) rfl
      · refine iff_of_false ?_ (Ne.symm isTarget)
        by_cases here : p = source
        · rw [here, transferred_source different]
          intro inBack
          exact apart item member item inBack rfl
        · rw [transferred_other here isTarget]
          exact located.not_mem_of_ne (isSource item member) (Ne.symm here)
    · rw [relocated_of_not_mem member, ← located.mem_iff]
      by_cases isTarget : p = target
      · rw [isTarget, transferred_target, List.mem_append]
        exact or_iff_left member
      · by_cases here : p = source
        · rw [here, transferred_source different, isFront, List.mem_append]
          exact (or_iff_right member).symm
        · rw [transferred_other here isTarget]
  · intro p
    by_cases isTarget : p = target
    · rw [isTarget, transferred_target, List.nodup_append]
      refine ⟨located.nodup target, (List.nodup_append.mp nodup).1, ?_⟩
      rintro item inTarget _ inFront rfl
      exact different (located.unique (isSource item inFront) inTarget)
    · by_cases here : p = source
      · rw [here, transferred_source different]
        exact (List.nodup_append.mp nodup).2.1
      · rw [transferred_other here isTarget]
        exact located.nodup p

end Located

end Rcgo.Foundation
