import Mathlib.Logic.Function.Basic
import Mathlib.Tactic.Common

/-!
# Lists of objects that grow at the front

Each object holds a pointer to the next one, and a null pointer ends the list.  A new
object is put in front of the others.
-/

namespace Rcgo.Foundation

universe u v

namespace ObjectList

variable {π : Type u} {ο : Type v}

section Walk

variable [DecidableEq π]

/-- The objects that a loop goes through, with a bound for its tests. -/
def walk (objects : π → Option ο) (next : ο → π) (null : π) : Nat → π → Option (List ο)
  | 0, _ => none
  | bound + 1, pointer =>
      if pointer = null then some []
      else do
        let object ← objects pointer
        let rest ← walk objects next null bound (next object)
        some (object :: rest)

end Walk

/-- From the pointer on, the list consists of these objects at their addresses. -/
def Leads (objects : π → Option ο) (next : ο → π) (null : π) : π → List (π × ο) → Prop
  | pointer, [] => pointer = null
  | pointer, (address, object) :: rest =>
      pointer = address ∧ address ≠ null ∧ objects address = some object ∧
        Leads objects next null (next object) rest

variable {objects other : π → Option ο} {next : ο → π} {null pointer : π} {items : List (π × ο)}

theorem Leads.congr (leads : Leads objects next null pointer items)
    (same : ∀ item ∈ items, other item.1 = objects item.1) :
    Leads other next null pointer items := by
  induction items generalizing pointer with
  | nil => exact leads
  | cons item rest inductionHypothesis =>
      rcases leads with ⟨isAddress, notNull, isObject, leads⟩
      refine ⟨isAddress, notNull, (same item List.mem_cons_self).trans isObject, ?_⟩
      exact inductionHypothesis leads fun later isRest => same later (List.mem_cons_of_mem _ isRest)

variable [DecidableEq π]

theorem Leads.update {address : π} {object : ο} (leads : Leads objects next null pointer items)
    (isFresh : ∀ item ∈ items, item.1 ≠ address) :
    Leads (Function.update objects address (some object)) next null pointer items :=
  leads.congr fun item isItem => Function.update_of_ne (isFresh item isItem) _ _

theorem Leads.push {address : π} {object : ο} (leads : Leads objects next null pointer items)
    (notNull : address ≠ null) (isFresh : ∀ item ∈ items, item.1 ≠ address)
    (isNext : next object = pointer) :
    Leads (Function.update objects address (some object)) next null address
      ((address, object) :: items) := by
  refine ⟨rfl, notNull, Function.update_self _ _ _, ?_⟩
  rw [isNext]
  exact leads.update isFresh

theorem Leads.walk_eq {bound : Nat} (leads : Leads objects next null pointer items)
    (enough : items.length < bound) :
    walk objects next null bound pointer = some (items.map Prod.snd) := by
  induction items generalizing pointer bound with
  | nil =>
      cases bound with
      | zero => exact absurd enough (Nat.not_lt_zero _)
      | succ bound =>
          have isNull : pointer = null := leads
          rw [walk, if_pos isNull, List.map_nil]
  | cons item rest inductionHypothesis =>
      cases bound with
      | zero => exact absurd enough (Nat.not_lt_zero _)
      | succ bound =>
          rcases leads with ⟨rfl, notNull, isObject, leads⟩
          have isRest := inductionHypothesis leads (Nat.lt_of_succ_lt_succ enough)
          simp [walk, notNull, isObject, isRest]

end ObjectList

end Rcgo.Foundation
