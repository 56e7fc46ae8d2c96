import Mathlib.Data.Fintype.Card
import Mathlib.Logic.Relation
import Mathlib.Tactic.Common

/-!
# Nodes that reach no cycle

In a finite graph the nodes from which no cycle can be reached are those from
which every walk ends, so one can argue by induction along the edges.
-/

namespace Rcgo.Foundation

open Relation

universe u

variable {α : Type u}

/-- No node on a cycle can be reached from the node. -/
def NoCycleFrom (r : α → α → Prop) (n : α) : Prop :=
  ∀ m, ReflTransGen r n m → ¬ TransGen r m m

namespace NoCycleFrom

variable {r : α → α → Prop} {n m : α}

theorem step (noCycle : NoCycleFrom r n) (edge : r n m) : NoCycleFrom r m :=
  fun k path => noCycle k (.head edge path)

theorem not_back (noCycle : NoCycleFrom r n) (edge : r n m) : ¬ ReflTransGen r m n :=
  fun path => noCycle n .refl (TransGen.head' edge path)

theorem of_steps (steps : ∀ m, r n m → NoCycleFrom r m) : NoCycleFrom r n := by
  intro k path cycle
  rcases ReflTransGen.cases_head path with isSame | ⟨m, edge, rest⟩
  · rw [← isSame] at cycle
    obtain ⟨m, edge, back⟩ := TransGen.head'_iff.mp cycle
    exact steps m edge n back cycle
  · exact steps m edge k rest cycle

theorem induction [Finite α] {motive : α → Prop}
    (steps : ∀ n, NoCycleFrom r n → (∀ m, r n m → motive m) → motive n)
    (noCycle : NoCycleFrom r n) : motive n := by
  have transitive : IsTrans α (TransGen fun m n => r n m ∧ NoCycleFrom r n) := inferInstance
  have irreflexive : Std.Irrefl (TransGen fun m n => r n m ∧ NoCycleFrom r n) := by
    constructor
    intro a cycle
    obtain ⟨b, _, last⟩ := TransGen.tail'_iff.mp cycle
    have reversed : TransGen r a a := by
      rw [← transGen_swap]
      exact TransGen.mono (fun _ _ edge => edge.1) _ _ cycle
    exact last.2 a .refl reversed
  have wellFounded := Finite.wellFounded_of_trans_of_irrefl
    (TransGen fun m n => r n m ∧ NoCycleFrom r n)
  induction n using wellFounded.induction with
  | _ n inductionHypothesis =>
      exact steps n noCycle fun m edge =>
        inductionHypothesis m (.single ⟨edge, noCycle⟩) (noCycle.step edge)

end NoCycleFrom

end Rcgo.Foundation
