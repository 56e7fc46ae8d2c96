import Rcgo.Foundation.StackEffect

/-!
# Programs that do the same

Two programs do the same on a set of states that the first one keeps.
-/

namespace Rcgo.Foundation

variable {σ ε α β : Type} {good : σ → Prop} {program other : Program σ ε α}
  {rest otherRest : α → Program σ ε β}

def SameOn (good : σ → Prop) (program other : Program σ ε α) : Prop :=
  ∀ state, good state → program state = other state

/-- The program goes from good states to good states. -/
def Keeps (good : σ → Prop) (program : Program σ ε α) : Prop :=
  ∀ state, good state → (program state).Meets (fun _ => True) fun result => good result.2

namespace SameOn

theorem of_eq (same : program = other) : SameOn good program other :=
  fun state _ => congrFun same state

theorem bind (same : SameOn good program other) (keeps : Keeps good program)
    (restSame : ∀ value, SameOn good (rest value) (otherRest value)) :
    SameOn good (program >>= rest) (other >>= otherRest) := by
  intro state isGood
  change (program state >>= fun result => rest result.1 result.2) =
    other state >>= fun result => otherRest result.1 result.2
  have keeps := keeps state isGood
  rw [← same state isGood]
  cases ends : program state with
  | ok result =>
      rw [ends] at keeps
      exact restSame result.1 result.2 keeps
  | error code => rfl
  | outOfFuel => rfl

theorem bind_right (same : SameOn good program other) :
    SameOn good (program >>= rest) (other >>= rest) := by
  intro state isGood
  exact congrArg (fun outcome => outcome >>= fun result => rest result.1 result.2)
    (same state isGood)

theorem ite {condition : Prop} [Decidable condition] {second otherSecond : Program σ ε α}
    (same : SameOn good program other) (secondSame : SameOn good second otherSecond) :
    SameOn good (if condition then program else second)
      (if condition then other else otherSecond) := by
  split
  · exact same
  · exact secondSame

theorem repeatUntil {body otherBody : Program σ ε (Option α)} (same : SameOn good body otherBody)
    (keeps : Keeps good body) (fuel : Nat) :
    SameOn good (repeatUntil fuel body) (Foundation.repeatUntil fuel otherBody) := by
  induction fuel with
  | zero => exact of_eq rfl
  | succ fuel inductionHypothesis =>
      apply same.bind keeps
      intro value
      cases value with
      | none => exact inductionHypothesis
      | some value => exact of_eq rfl

end SameOn

theorem Transfers.keeps {φ : Type} {view : StackView σ φ} {allowed : ε → Prop} {pushed : Nat}
    {property : α → Prop} (effect : Transfers view allowed 0 pushed property program) :
    Keeps (fun state => view.floor (view.frame state) ≤ view.top state) program := by
  intro state above
  have ends := effect state (view.top state) above rfl
  cases result : program state with
  | ok after =>
      rw [result] at ends
      change view.floor (view.frame after.2) ≤ view.top after.2
      rw [ends.2.2, ends.2.1]
      exact Nat.le_add_right_of_le above
  | error code => exact trivial
  | outOfFuel => exact trivial

end Rcgo.Foundation
