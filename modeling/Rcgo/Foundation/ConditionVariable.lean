import Mathlib.Logic.Function.Basic
import Mathlib.Tactic.Common

/-!
# Condition variables

Threads sleep on a condition variable until it is signalled.  A signal wakes at least one
of them if there are any.
-/

namespace Rcgo.Foundation

universe u

variable {ε : Type u} {asleep next : ε → Bool} {alive : ε → Prop}

/-- The threads that sleep before and after a signal. -/
structure Signalled (asleep next : ε → Bool) : Prop where
  onlyWakes : ∀ e, next e = true → asleep e = true
  wakes : ∀ e, asleep e = true → ∃ f, asleep f = true ∧ next f = false

def Attended (asleep : ε → Bool) (alive : ε → Prop) : Prop :=
  ∀ e, asleep e = true → ∃ f, asleep f = false ∧ alive f

theorem exists_signalled [DecidableEq ε] (asleep : ε → Bool) :
    ∃ next, Signalled asleep next := by
  by_cases sleeps : ∃ f, asleep f = true
  · rcases sleeps with ⟨f, isAsleep⟩
    refine ⟨Function.update asleep f false, ?_, ?_⟩
    · intro e isNext
      by_cases isWoken : e = f
      · rw [isWoken, Function.update_self] at isNext
        cases isNext
      · rwa [Function.update_of_ne isWoken] at isNext
    · exact fun _ _ => ⟨f, isAsleep, Function.update_self f false asleep⟩
  · exact ⟨asleep, fun _ => id, fun e isAsleep => absurd ⟨e, isAsleep⟩ sleeps⟩

theorem attended_of_awake {f : ε} (isAwake : asleep f = false) (isAlive : alive f) :
    Attended asleep alive :=
  fun _ _ => ⟨f, isAwake, isAlive⟩

theorem Signalled.attended (signalled : Signalled asleep next)
    (areAlive : ∀ e, asleep e = true → alive e) : Attended next alive := by
  intro e isAsleep
  rcases signalled.wakes e (signalled.onlyWakes e isAsleep) with ⟨f, wasAsleep, isAwake⟩
  exact ⟨f, isAwake, areAlive f wasAsleep⟩

end Rcgo.Foundation
