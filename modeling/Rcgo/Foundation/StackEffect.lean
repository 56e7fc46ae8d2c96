import Rcgo.Foundation.Outcome

/-!
# Stack effects

A calculus for programs over a state with a stack.  A computation has the effect
`popped → pushed` when it takes the stack from `popped` words above any point to
`pushed` words above it, never goes below that point, and leaves the frame it
runs in as it was.
-/

namespace Rcgo.Foundation

universe u v w

/-- What the calculus looks at in a state: the top of the stack, and the data of
the running frame with the point below which the frame must not pop. -/
structure StackView (σ : Type u) (φ : Type w) where
  top : σ → Nat
  frame : σ → φ
  floor : φ → Nat

/-- A program: it changes the state, may stop with an error and may run on. -/
abbrev Program (σ ε α : Type) := StateT σ (Outcome ε) α

section Effects

variable {σ φ ε α β : Type} (view : StackView σ φ) (allowed : ε → Prop)

/-- The computation has the effect `popped → pushed`, and its value has the
property. -/
def Transfers (popped pushed : Nat) (property : α → Prop) (program : Program σ ε α) : Prop :=
  ∀ state base, view.floor (view.frame state) ≤ base → view.top state = base + popped →
    (program state).Meets allowed fun result =>
      property result.1 ∧ view.top result.2 = base + pushed ∧
        view.frame result.2 = view.frame state

variable {view allowed} {popped between pushed : Nat} {property weaker : α → Prop}
  {result : β → Prop} {program : Program σ ε α} {rest : α → Program σ ε β}

namespace Transfers

theorem pure {value : α} (holds : property value) :
    Transfers view allowed popped popped property (pure value : Program σ ε α) :=
  fun _ _ _ isTop => ⟨holds, isTop, rfl⟩

theorem bind (first : Transfers view allowed popped between property program)
    (second : ∀ value, property value → Transfers view allowed between pushed result (rest value)) :
    Transfers view allowed popped pushed result (program >>= rest) := by
  intro state base above isTop
  apply (first state base above isTop).bind
  intro after holds
  have aboveAfter : view.floor (view.frame after.2) ≤ base := by
    rw [holds.2.2]
    exact above
  apply (second after.1 holds.1 after.2 base aboveAfter holds.2.1).mono
  intro last ends
  exact ⟨ends.1, ends.2.1, ends.2.2.trans holds.2.2⟩

theorem mono (effect : Transfers view allowed popped pushed property program)
    (implies : ∀ value, property value → weaker value) :
    Transfers view allowed popped pushed weaker program := by
  intro state base above isTop
  apply (effect state base above isTop).mono
  intro after ends
  exact ⟨implies after.1 ends.1, ends.2⟩

theorem of_step {step : σ → α × σ} (holds : ∀ state, property (step state).1)
    (sameTop : ∀ state, view.top (step state).2 = view.top state)
    (sameFrame : ∀ state, view.frame (step state).2 = view.frame state) :
    Transfers view allowed popped popped property
      (fun state => Outcome.ok (step state) : Program σ ε α) :=
  fun state _ _ isTop => ⟨holds state, (sameTop state).trans isTop, sameFrame state⟩

theorem stop {code : ε} (isAllowed : allowed code) :
    Transfers view allowed popped pushed property
      (fun _ => Outcome.error code : Program σ ε α) :=
  fun _ _ _ _ => isAllowed

theorem outOfFuel :
    Transfers view allowed popped pushed property
      (fun _ => Outcome.outOfFuel : Program σ ε α) :=
  fun _ _ _ _ => trivial

theorem ite {condition : Prop} [Decidable condition] {other : Program σ ε α}
    (first : Transfers view allowed popped pushed property program)
    (second : Transfers view allowed popped pushed property other) :
    Transfers view allowed popped pushed property (if condition then program else other) := by
  split
  · exact first
  · exact second

end Transfers

/-- The body of a loop is run until it gives a result, at most as often as the
fuel says. -/
def repeatUntil (fuel : Nat) (body : Program σ ε (Option α)) : Program σ ε α :=
  match fuel with
  | 0 => fun _ => Outcome.outOfFuel
  | fuel + 1 => body >>= fun
      | none => repeatUntil fuel body
      | some value => Pure.pure value

theorem Transfers.repeatUntil {body : Program σ ε (Option α)}
    (effect : Transfers view allowed popped popped
      (fun value => ∀ result ∈ value, property result) body) (fuel : Nat) :
    Transfers view allowed popped popped property (repeatUntil fuel body) := by
  induction fuel with
  | zero => exact Transfers.outOfFuel
  | succ fuel inductionHypothesis =>
      apply effect.bind
      intro value holds
      cases value with
      | none => exact inductionHypothesis
      | some value => exact Transfers.pure (holds value rfl)

end Effects

end Rcgo.Foundation
