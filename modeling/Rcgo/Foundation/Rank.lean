import Mathlib.Data.Set.Finite.Lattice
import Mathlib.Logic.Relation
import Mathlib.Order.Preorder.Finite
import Mathlib.Tactic.Common

/-!
# Ranks

A relation is ranked when a natural number increases along it.  The relation
from children to parents in a finite forest is ranked.
-/

namespace Rcgo.Foundation

open Relation

universe u v

variable {α : Type u}

def Ranked (r : α → α → Prop) : Prop :=
  ∃ rank : α → Nat, ∀ a b, r a b → rank a < rank b

theorem rank_le_of_path {r : α → α → Prop} {rank : α → Nat}
    (increases : ∀ a b, r a b → rank a < rank b) {a b : α} (path : ReflTransGen r a b) :
    rank a ≤ rank b := by
  induction path with
  | refl => exact Nat.le_refl _
  | tail _ last inductionHypothesis =>
      exact Nat.le_trans inductionHypothesis (Nat.le_of_lt (increases _ _ last))

namespace Ranked

variable {r s : α → α → Prop}

theorem mono (ranked : Ranked r) (smaller : ∀ a b, s a b → r a b) : Ranked s := by
  obtain ⟨rank, increases⟩ := ranked
  exact ⟨rank, fun a b related => increases a b (smaller a b related)⟩

theorem not_above (ranked : Ranked r) {a b : α} (step : r a b) : ¬ ReflTransGen r b a := by
  obtain ⟨rank, increases⟩ := ranked
  intro path
  have := rank_le_of_path increases path
  have := increases a b step
  omega

/-- What is below `x` can be put below an item that is not below `x`. -/
theorem graft (ranked : Ranked r) {x p : α} (apart : ¬ ReflTransGen r p x) :
    Ranked fun a b => r a b ∨ (b = p ∧ ReflTransGen r a x) := by
  classical
  obtain ⟨rank, increases⟩ := ranked
  refine ⟨fun a => if ReflTransGen r p a then rank a + rank x + 1 else rank a, ?_⟩
  intro a b related
  rcases related with old | ⟨isTarget, below⟩
  · have := increases a b old
    by_cases above : ReflTransGen r p a
    · simp only [if_pos above, if_pos (above.tail old)]
      omega
    · simp only [if_neg above]
      split <;> omega
  · have notAbove : ¬ ReflTransGen r p a := fun above => apart (above.trans below)
    have := rank_le_of_path increases below
    simp only [isTarget, if_neg notAbove, if_pos ReflTransGen.refl]
    omega

end Ranked

/-- Processes wait for resources of an order.  Somebody can go on when each
waiting process leads to one that can go on or to one that waits for a greater
resource. -/
theorem exists_able {ρ : Type v} [Finite α] [Preorder ρ] {blocked able : α → Prop} {target : α → ρ}
    (leads : ∀ t, blocked t → (∃ u, able u) ∨ ∃ u, blocked u ∧ target t < target u) {t : α}
    (isBlocked : blocked t) : ∃ u, able u := by
  by_contra nobody
  have finite : {t | blocked t}.Finite := Set.toFinite _
  obtain ⟨last, lastBlocked, isLast⟩ := finite.exists_maximalFor target _ ⟨t, isBlocked⟩
  rcases leads last lastBlocked with able | ⟨u, blockedToo, above⟩
  · exact nobody able
  · exact not_le_of_gt above (isLast blockedToo above.le)

end Rcgo.Foundation
