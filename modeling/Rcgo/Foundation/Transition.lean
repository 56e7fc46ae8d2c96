import Mathlib.Data.List.Basic
import Mathlib.Tactic.Common

/-!
# Runs as lists of transitions

A run of a system keeps the state before and after each event, so that a
property of steps can be asked of every step of the run.
-/

namespace Rcgo.Foundation

universe u v

/-- An event with the states around it. -/
structure Transition (σ : Type u) (ε : Type v) where
  before : σ
  event : ε
  after : σ

variable {σ : Type u} {ε : Type v}

/-- The transitions of a run from one state to another. -/
inductive Trace (step : σ → ε → σ → Prop) : σ → List (Transition σ ε) → σ → Prop where
  | nil (state : σ) : Trace step state [] state
  | cons {before after finish : σ} {event : ε} {rest : List (Transition σ ε)}
      (first : step before event after) (others : Trace step after rest finish) :
      Trace step before ({ before, event, after } :: rest) finish

namespace Trace

variable {step : σ → ε → σ → Prop} {start finish : σ} {transitions : List (Transition σ ε)}

theorem forall_of_invariant (invariant : σ → Prop) (allowed : Transition σ ε → Prop)
    {property : Transition σ ε → Prop}
    (preserves : ∀ before event after, invariant before → step before event after →
      allowed { before, event, after } → invariant after)
    (has : ∀ before event after, invariant before → step before event after →
      allowed { before, event, after } → property { before, event, after })
    (run : Trace step start transitions finish) (initially : invariant start)
    (areAllowed : ∀ transition ∈ transitions, allowed transition) :
    ∀ transition ∈ transitions, property transition := by
  induction run with
  | nil _ => exact fun _ isTransition => absurd isTransition List.not_mem_nil
  | cons first _ inductionHypothesis =>
      obtain ⟨firstAllowed, restAllowed⟩ := List.forall_mem_cons.mp areAllowed
      refine List.forall_mem_cons.mpr ⟨has _ _ _ initially first firstAllowed, ?_⟩
      exact inductionHypothesis (preserves _ _ _ initially first firstAllowed) restAllowed

theorem forall_of_steps (invariant : σ → Prop) {property : Transition σ ε → Prop}
    (preserves : ∀ before event after, invariant before → step before event after →
      invariant after)
    (has : ∀ before event after, invariant before → step before event after →
      property { before, event, after })
    (run : Trace step start transitions finish) (initially : invariant start) :
    ∀ transition ∈ transitions, property transition :=
  forall_of_invariant invariant (fun _ => True)
    (fun _ _ _ isInvariant taken _ => preserves _ _ _ isInvariant taken)
    (fun _ _ _ isInvariant taken _ => has _ _ _ isInvariant taken) run initially
    fun _ _ => trivial

/-- Where no step makes a measure greater and the steps with counted events make it
smaller, a run has no more counted events than the measure. -/
theorem countP_add_le (invariant : σ → Prop) (measure : σ → Nat) (counted : ε → Bool)
    (preserves : ∀ before event after, invariant before → step before event after →
      invariant after)
    (keeps : ∀ before event after, invariant before → step before event after →
      measure after ≤ measure before)
    (decreases : ∀ before event after, invariant before → step before event after →
      counted event → measure after < measure before)
    (run : Trace step start transitions finish) (initially : invariant start) :
    invariant finish ∧
      (transitions.countP fun transition => counted transition.event) + measure finish ≤
        measure start := by
  induction run with
  | nil _ => exact ⟨initially, Nat.le_of_eq (Nat.zero_add _)⟩
  | @cons _ _ _ event _ first _ inductionHypothesis =>
      rcases inductionHypothesis (preserves _ _ _ initially first) with ⟨atEnd, isShort⟩
      have noMore := keeps _ _ _ initially first
      refine ⟨atEnd, ?_⟩
      rw [List.countP_cons]
      cases isCounted : counted event with
      | false =>
          simp only [Bool.false_eq_true, if_false]
          omega
      | true =>
          have isLess := decreases _ _ _ initially first isCounted
          simp only [if_true]
          omega

theorem of_allowed {allowed : Transition σ ε → Prop}
    (run : Trace (fun before event after => step before event after ∧
      allowed { before, event, after }) start transitions finish) :
    Trace step start transitions finish ∧ ∀ transition ∈ transitions, allowed transition := by
  induction run with
  | nil state => exact ⟨.nil state, fun _ isTransition => absurd isTransition List.not_mem_nil⟩
  | cons first _ inductionHypothesis =>
      exact ⟨.cons first.1 inductionHypothesis.1,
        List.forall_mem_cons.mpr ⟨first.2, inductionHypothesis.2⟩⟩

theorem snoc {event : ε} {last : σ} (run : Trace step start transitions finish)
    (next : step finish event last) :
    Trace step start (transitions ++ [{ before := finish, event := event, after := last }])
      last := by
  induction run with
  | nil state => exact .cons next (.nil last)
  | cons first _ inductionHypothesis => exact .cons first (inductionHypothesis next)

end Trace

/-- Some run of the given length leads to a state with a property. -/
def Reaches (step : σ → ε → σ → Prop) (target : σ → Prop) (length : Nat) (state : σ) : Prop :=
  ∃ transitions finish, transitions.length = length ∧ target finish ∧
    Trace step state transitions finish

namespace Reaches

variable {step : σ → ε → σ → Prop} {target : σ → Prop} {length : Nat} {before after : σ}

theorem here (isTarget : target before) : Reaches step target 0 before :=
  ⟨[], before, rfl, isTarget, .nil before⟩

theorem cons (event : ε) (first : step before event after)
    (others : Reaches step target length after) : Reaches step target (length + 1) before := by
  rcases others with ⟨transitions, finish, isLength, isTarget, trace⟩
  exact ⟨_, finish, congrArg (· + 1) isLength, isTarget, .cons first trace⟩

end Reaches

end Rcgo.Foundation
