import Mathlib.Data.List.Count
import Mathlib.Data.List.Flatten
import Mathlib.Data.List.Nodup
import Mathlib.Logic.Function.Basic
import Mathlib.Tactic.Common

/-!
# Edges that are listed at both ends

Each node of a bipartite graph keeps a list of its neighbours, in the order in which they
were connected.
-/

namespace Rcgo.Foundation

universe u v

/-- The lists of neighbours of both kinds of nodes. -/
structure Incidence (α : Type u) (β : Type v) where
  out : α → List β
  into : β → List α

namespace Incidence

variable {α : Type u} {β : Type v}

def empty : Incidence α β :=
  ⟨fun _ => [], fun _ => []⟩

variable [DecidableEq α] [DecidableEq β]

def Agrees (incidence : Incidence α β) : Prop :=
  ∀ a b, (incidence.out a).count b = (incidence.into b).count a

variable {incidence : Incidence α β}

end Incidence

end Rcgo.Foundation
