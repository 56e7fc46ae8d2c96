import Mathlib.Data.Option.Basic
import Mathlib.Data.List.Basic

/-!
# Loops whose steps may fail

`foldlM` in `Option`: what a loop keeps, when it ends, and what its end says of its steps.
-/

namespace Rcgo.Foundation

variable {α σ : Type} {step : σ → α → Option σ} {items : List α}

theorem foldlM_keeps {holds : σ → Prop}
    (keeps : ∀ item ∈ items, ∀ state next, holds state → step state item = some next → holds next)
    {state after : σ} (isHeld : holds state) (runs : items.foldlM step state = some after) :
    holds after := by
  induction items generalizing state with
  | nil =>
      cases runs
      exact isHeld
  | cons item rest inductionHypothesis =>
      rw [List.foldlM_cons, Option.bind_eq_bind, Option.bind_eq_some_iff] at runs
      rcases runs with ⟨next, isNext, runs⟩
      exact inductionHypothesis (fun other isRest => keeps other (List.mem_cons_of_mem _ isRest))
        (keeps item List.mem_cons_self state next isHeld isNext) runs

theorem exists_foldlM (ends : ∀ item ∈ items, ∀ state, ∃ next, step state item = some next)
    (state : σ) : ∃ after, items.foldlM step state = some after := by
  induction items generalizing state with
  | nil => exact ⟨state, rfl⟩
  | cons item rest inductionHypothesis =>
      rcases ends item List.mem_cons_self state with ⟨next, isNext⟩
      rcases inductionHypothesis (fun other isRest => ends other (List.mem_cons_of_mem _ isRest))
        next with ⟨after, runs⟩
      exact ⟨after, by simp [isNext, runs]⟩

theorem exists_step_of_foldlM {state after : σ} (runs : items.foldlM step state = some after) :
    ∀ item ∈ items, ∃ before next, step before item = some next := by
  induction items generalizing state with
  | nil => exact fun _ isItem => absurd isItem List.not_mem_nil
  | cons item rest inductionHypothesis =>
      rw [List.foldlM_cons, Option.bind_eq_bind, Option.bind_eq_some_iff] at runs
      rcases runs with ⟨next, isNext, runs⟩
      exact List.forall_mem_cons.mpr ⟨⟨state, next, isNext⟩, inductionHypothesis runs⟩

end Rcgo.Foundation
