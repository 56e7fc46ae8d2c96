import Mathlib.Data.List.Basic
import Mathlib.Tactic.Common

/-!
# Placement in nested scopes

A scope is known by its path from the outermost one.  Items that are placed in
scopes one after the other, where the place of a scope is free again at its end,
keep apart from the items of the scopes around them.
-/

namespace Rcgo.Foundation

universe u

variable {α : Type u}

/-- Items in the order in which they are placed.  They lie between `start` and
`bound`; those in `scope` itself end before `stop`, the others are in one of the
scopes `first`, ..., `limit - 1` inside it. -/
structure ScopedPlacement (lower upper : α → Nat) (scope : List Nat)
    (first limit start stop bound : Nat) (items : List (List Nat × α)) : Prop where
  start_le : start ≤ stop
  stop_le : stop ≤ bound
  within : ∀ item ∈ items, start ≤ lower item.2 ∧ upper item.2 ≤ bound
  scopes : ∀ item ∈ items, item.1 = scope ∧ upper item.2 ≤ stop ∨
    ∃ inner, first ≤ inner ∧ inner < limit ∧ scope ++ [inner] <+: item.1
  apart : items.Pairwise fun item other => item.1 <+: other.1 → upper item.2 ≤ lower other.2

namespace ScopedPlacement

variable {lower upper : α → Nat} {scope : List Nat} {first limit start stop bound : Nat}
  {items others : List (List Nat × α)}

theorem empty (scope : List Nat) (first limit start : Nat) :
    ScopedPlacement lower upper scope first limit start start start [] where
  start_le := Nat.le_refl start
  stop_le := Nat.le_refl start
  within := by simp
  scopes := by simp
  apart := List.Pairwise.nil

theorem single (first limit : Nat) {item : α} (isLower : start ≤ lower item)
    (isUpper : upper item = stop) (isItem : lower item ≤ upper item) :
    ScopedPlacement lower upper scope first limit start stop stop [(scope, item)] where
  start_le := by omega
  stop_le := Nat.le_refl stop
  within := by
    simp only [List.mem_singleton, forall_eq]
    omega
  scopes := by
    intro own isOwn
    rw [List.mem_singleton.mp isOwn]
    exact Or.inl ⟨rfl, Nat.le_of_eq isUpper⟩
  apart := List.pairwise_singleton _ _

theorem scope_prefix (placed : ScopedPlacement lower upper scope first limit start stop bound items)
    {item : List Nat × α} (isItem : item ∈ items) : scope <+: item.1 := by
  rcases placed.scopes item isItem with ⟨same, _⟩ | ⟨inner, _, _, inside⟩
  · exact same ▸ List.prefix_rfl
  · exact (List.prefix_append scope [inner]).trans inside

theorem nest {inner : Nat}
    (placed : ScopedPlacement lower upper (scope ++ [inner]) first limit start stop bound items) :
    ScopedPlacement lower upper scope inner (inner + 1) start start bound items where
  start_le := Nat.le_refl start
  stop_le := Nat.le_trans placed.start_le placed.stop_le
  within := placed.within
  scopes := fun _ isItem =>
    Or.inr ⟨inner, Nat.le_refl inner, Nat.lt_succ_self inner, placed.scope_prefix isItem⟩
  apart := placed.apart

theorem eq_of_prefix {path : List Nat} {inner other : Nat} (isInner : scope ++ [inner] <+: path)
    (isOther : scope ++ [other] <+: path) : inner = other := by
  have same : scope ++ [inner] = scope ++ [other] :=
    List.prefix_of_prefix_length_le isInner isOther (by simp) |>.eq_of_length (by simp)
  simpa using same

theorem append {last start' stop' bound' : Nat}
    (placed : ScopedPlacement lower upper scope first limit start stop bound items)
    (othersPlaced : ScopedPlacement lower upper scope limit last start' stop' bound' others)
    (behind : stop ≤ start') (firstLe : first ≤ limit) (lastLe : limit ≤ last)
    (boundLe : bound ≤ bound') :
    ScopedPlacement lower upper scope first last start stop' bound' (items ++ others) where
  start_le := Nat.le_trans placed.start_le (Nat.le_trans behind othersPlaced.start_le)
  stop_le := othersPlaced.stop_le
  within := by
    have startLe := placed.start_le
    intro item isItem
    rcases List.mem_append.mp isItem with isFirst | isSecond
    · have within := placed.within item isFirst
      omega
    · have within := othersPlaced.within item isSecond
      omega
  scopes := by
    have stopLe := othersPlaced.start_le
    intro item isItem
    rcases List.mem_append.mp isItem with isFirst | isSecond
    · rcases placed.scopes item isFirst with ⟨same, before⟩ | ⟨inner, isFrom, isBefore, inside⟩
      · exact Or.inl ⟨same, by omega⟩
      · exact Or.inr ⟨inner, isFrom, by omega, inside⟩
    · rcases othersPlaced.scopes item isSecond with own | ⟨inner, isFrom, isBefore, inside⟩
      · exact Or.inl own
      · exact Or.inr ⟨inner, by omega, isBefore, inside⟩
  apart := by
    rw [List.pairwise_append]
    refine ⟨placed.apart, othersPlaced.apart, fun item isItem other isOther around => ?_⟩
    rcases placed.scopes item isItem with ⟨_, before⟩ | ⟨inner, _, isBefore, inside⟩
    · have within := othersPlaced.within other isOther
      omega
    · rcases othersPlaced.scopes other isOther with ⟨same, _⟩ | ⟨otherInner, isFrom, _, otherInside⟩
      · have longer := (inside.trans around).length_le
        rw [same, List.length_append, List.length_singleton] at longer
        omega
      · have same := eq_of_prefix (inside.trans around) otherInside
        omega

theorem mono {stop' bound' : Nat}
    (placed : ScopedPlacement lower upper scope first limit start stop bound items)
    (stopLe : stop ≤ stop') (boundLe : bound ≤ bound') (le : stop' ≤ bound') :
    ScopedPlacement lower upper scope first limit start stop' bound' items where
  start_le := Nat.le_trans placed.start_le stopLe
  stop_le := le
  within := fun item isItem =>
    ⟨(placed.within item isItem).1, Nat.le_trans (placed.within item isItem).2 boundLe⟩
  scopes := fun item isItem =>
    (placed.scopes item isItem).imp (And.imp_right fun before => Nat.le_trans before stopLe) id
  apart := placed.apart

end ScopedPlacement

end Rcgo.Foundation
