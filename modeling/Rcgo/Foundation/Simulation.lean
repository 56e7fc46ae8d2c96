import Rcgo.Foundation.Outcome

/-!
# Runs that correspond

Two versions of a program correspond when they end in the same way, with values
that are related.
-/

namespace Rcgo.Foundation.Outcome

universe u v w

variable {ε : Type u} {α β α' β' : Type v}

/-- The runs end in the same way, with related values. -/
inductive Related (r : α → β → Prop) : Outcome ε α → Outcome ε β → Prop
  | ok {a b} : r a b → Related r (.ok a) (.ok b)
  | error (code) : Related r (.error code) (.error code)
  | outOfFuel : Related r .outOfFuel .outOfFuel

namespace Related

variable {r : α → β → Prop} {r' : α' → β' → Prop} {x : Outcome ε α} {y : Outcome ε β}

theorem bind {f : α → Outcome ε α'} {g : β → Outcome ε β'} (first : Related r x y)
    (rest : ∀ a b, r a b → Related r' (f a) (g b)) : Related r' (x >>= f) (y >>= g) := by
  cases first with
  | @ok a b related => exact rest a b related
  | error code => exact .error code
  | outOfFuel => exact .outOfFuel

theorem foldlM {ι : Type w} {body : α → ι → Outcome ε α} {other : β → ι → Outcome ε β}
    {items : List ι} (step : ∀ item ∈ items, ∀ a b, r a b → Related r (body a item) (other b item)) :
    ∀ {a b}, r a b → Related r (items.foldlM body a) (items.foldlM other b) := by
  induction items with
  | nil => exact fun related => .ok related
  | cons item rest inductionHypothesis =>
      intro a b related
      rw [List.foldlM_cons, List.foldlM_cons]
      apply (step item List.mem_cons_self a b related).bind
      intro next otherNext
      exact inductionHypothesis fun later member => step later (List.mem_cons_of_mem _ member)

theorem exists_ok {b : β} (related : Related r x y) (isValue : y = .ok b) :
    ∃ a, x = .ok a ∧ r a b := by
  subst isValue
  cases related with
  | @ok a _ related => exact ⟨a, rfl, related⟩

end Related

end Rcgo.Foundation.Outcome
