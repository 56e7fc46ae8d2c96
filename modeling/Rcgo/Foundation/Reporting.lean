import Mathlib.Data.List.Basic
import Mathlib.Tactic.Common

/-!
# Computations that report errors

A computation that goes on after it reports an error, and may stop by itself.
What it reports, and what it returns, does not depend on who listens.
-/

namespace Rcgo.Foundation

universe u v w

/-- A computation that reports errors and returns a value or stops. -/
inductive Reporting (ε : Type u) (α : Type v) where
  | done (value : α)
  | report (code : ε) (rest : Reporting ε α)
  | stop
  deriving DecidableEq, Repr

namespace Reporting

variable {ε : Type u} {α β : Type v} {ρ : Type w}

def bind (x : Reporting ε α) (f : α → Reporting ε β) : Reporting ε β :=
  match x with
  | done value => f value
  | report code rest => report code (rest.bind f)
  | stop => stop

instance : Monad (Reporting ε) where
  pure := done
  bind := bind

@[simp]
theorem pure_eq (value : α) : (pure value : Reporting ε α) = done value :=
  rfl

@[simp]
theorem done_bind (value : α) (f : α → Reporting ε β) : (done value >>= f) = f value :=
  rfl

@[simp]
theorem report_bind (code : ε) (rest : Reporting ε α) (f : α → Reporting ε β) :
    (report code rest >>= f) = report code (rest >>= f) :=
  rfl

@[simp]
theorem stop_bind (f : α → Reporting ε β) : ((stop : Reporting ε α) >>= f) = stop :=
  rfl

instance : LawfulMonad (Reporting ε) :=
  LawfulMonad.mk' (Reporting ε)
    (fun x => by induction x with
      | done value => rfl
      | report code rest inductionHypothesis => exact congrArg (report code) inductionHypothesis
      | stop => rfl)
    (fun _ _ => rfl)
    (fun x f g => by induction x with
      | done value => rfl
      | report code rest inductionHypothesis => exact congrArg (report code) inductionHypothesis
      | stop => rfl)

/-- The errors that are reported before the computation ends by itself. -/
def errors : Reporting ε α → List ε
  | done _ => []
  | report code rest => code :: rest.errors
  | stop => []

def result : Reporting ε α → Option α
  | done value => some value
  | report _ rest => rest.result
  | stop => none

/-- A run against a reporter that can end the program at a report: the reporter
in the end, and the value if the run was not ended. -/
def run (bump : ρ → ε → ρ × Bool) : Reporting ε α → ρ → ρ × Option α
  | done value, reporter => (reporter, some value)
  | report code rest, reporter =>
      let (reporter, ends) := bump reporter code
      if ends then (reporter, none) else rest.run bump reporter
  | stop, reporter => (reporter, none)

theorem result_bind (x : Reporting ε α) (f : α → Reporting ε β) :
    (x >>= f).result = x.result.bind fun value => (f value).result := by
  induction x with
  | done value => rfl
  | report code rest inductionHypothesis => exact inductionHypothesis
  | stop => rfl

section Completion

variable {σ : Type v} (related : σ → σ → Prop)

/-- The computation ends with a value, in a state related to the first. -/
def Completes (x : StateT σ (Reporting ε) α) (state : σ) : Prop :=
  ∃ value after, (x state).result = some (value, after) ∧ related state after

variable {related}

theorem completes_pure (refl : ∀ state, related state state) (value : α) (state : σ) :
    Completes related (pure value : StateT σ (Reporting ε) α) state :=
  ⟨value, state, rfl, refl state⟩

theorem completes_get (refl : ∀ state, related state state) (state : σ) :
    Completes related (get : StateT σ (Reporting ε) σ) state :=
  ⟨state, state, rfl, refl state⟩

theorem Completes.bind
    {x : StateT σ (Reporting ε) α} {f : α → StateT σ (Reporting ε) β} {state : σ}
    (first : Completes related x state)
    (trans : ∀ a b c, related a b → related b c → related a c)
    (second : ∀ value after, (x state).result = some (value, after) → related state after →
      Completes related (f value) after) :
    Completes related (x >>= f) state := by
  rcases first with ⟨value, middle, isResult, toMiddle⟩
  rcases second value middle isResult toMiddle with ⟨last, after, isLast, toAfter⟩
  refine ⟨last, after, ?_, trans _ _ _ toMiddle toAfter⟩
  change ((x state) >>= fun pair => f pair.1 pair.2).result = some (last, after)
  rw [result_bind, isResult]
  exact isLast

end Completion

end Reporting

end Rcgo.Foundation
