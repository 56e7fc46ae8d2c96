import Mathlib.Data.List.Basic
import Mathlib.Tactic.Common

/-!
# Outcomes of a run

A function of the program returns a value, stops the program with an error,
or does not return within the recursion depth it was given.
-/

namespace Rcgo.Foundation

universe u v w

/-- The result of running a function with a bounded recursion depth. -/
inductive Outcome (ε : Type u) (α : Type v) where
  | ok (value : α)
  | error (code : ε)
  | outOfFuel
  deriving DecidableEq, Repr

namespace Outcome

variable {ε : Type u} {α β : Type v}

def bind (x : Outcome ε α) (f : α → Outcome ε β) : Outcome ε β :=
  match x with
  | ok value => f value
  | error code => error code
  | outOfFuel => outOfFuel

instance : Monad (Outcome ε) where
  pure := ok
  bind := bind

instance : LawfulMonad (Outcome ε) :=
  LawfulMonad.mk' (Outcome ε)
    (fun x => by cases x <;> rfl)
    (fun _ _ => rfl)
    (fun x _ _ => by cases x <;> rfl)

@[simp]
theorem pure_eq (value : α) : (pure value : Outcome ε α) = ok value :=
  rfl

@[simp]
theorem ok_bind (value : α) (f : α → Outcome ε β) :
    (ok value >>= f) = f value :=
  rfl

@[simp]
theorem error_bind (code : ε) (f : α → Outcome ε β) :
    (error code >>= f) = error code :=
  rfl

@[simp]
theorem outOfFuel_bind (f : α → Outcome ε β) :
    ((outOfFuel : Outcome ε α) >>= f) = outOfFuel :=
  rfl

theorem bind_eq_ok {x : Outcome ε α} {f : α → Outcome ε β} {result : β} :
    (x >>= f) = ok result ↔ ∃ value, x = ok value ∧ f value = ok result := by
  cases x with
  | ok value => simp
  | error code => simp
  | outOfFuel => simp

/-- The outcome with its error translated, as when the function is called in a
larger program. -/
def mapError {δ : Type w} (translate : ε → δ) : Outcome ε α → Outcome δ α
  | ok value => ok value
  | error code => error (translate code)
  | outOfFuel => outOfFuel

theorem mapError_eq_ok {δ : Type w} {translate : ε → δ} {x : Outcome ε α} {value : α} :
    x.mapError translate = ok value ↔ x = ok value := by
  cases x <;> simp [mapError]

/-- The value, or the given one when the function has not returned. -/
def getD (default : α) : Outcome ε α → α
  | ok value => value
  | _ => default

/-- The function returned a value for which the test holds. -/
def satisfies (test : α → Bool) : Outcome ε α → Bool
  | ok value => test value
  | _ => false

theorem satisfies_iff {test : α → Bool} {x : Outcome ε α} :
    x.satisfies test = true ↔ ∃ value, x = ok value ∧ test value = true := by
  cases x <;> simp [satisfies]

/-- The function returned or stopped the program within its depth. -/
def Finished (x : Outcome ε α) : Prop :=
  x ≠ outOfFuel

theorem Finished.bind {x : Outcome ε α} {f : α → Outcome ε β}
    (first : x.Finished) (rest : ∀ value, x = ok value → (f value).Finished) :
    (x >>= f).Finished := by
  cases x with
  | ok value => exact rest value rfl
  | error code =>
      intro impossible
      cases impossible
  | outOfFuel => exact absurd rfl first

/-- With enough depth the function returns the value. -/
def Returns (run : Nat → Outcome ε α) (value : α) : Prop :=
  ∃ bound, ∀ depth, bound ≤ depth → run depth = ok value

theorem Returns.of_forall {run : Nat → Outcome ε α} {value : α}
    (returns : ∀ depth, run depth = ok value) : Returns run value :=
  ⟨0, fun depth _ => returns depth⟩

theorem Returns.unique {run : Nat → Outcome ε α} {first second : α}
    (firstReturns : Returns run first) (secondReturns : Returns run second) :
    first = second := by
  obtain ⟨firstBound, isFirst⟩ := firstReturns
  obtain ⟨secondBound, isSecond⟩ := secondReturns
  have atFirst := isFirst (max firstBound secondBound) (Nat.le_max_left _ _)
  have atSecond := isSecond (max firstBound secondBound) (Nat.le_max_right _ _)
  rw [atFirst, ok.injEq] at atSecond
  exact atSecond

theorem Returns.bind {run : Nat → Outcome ε α} {rest : Nat → α → Outcome ε β}
    {value : α} {result : β} (returns : Returns run value)
    (restReturns : Returns (fun depth => rest depth value) result) :
    Returns (fun depth => run depth >>= rest depth) result := by
  obtain ⟨bound, isValue⟩ := returns
  obtain ⟨restBound, isResult⟩ := restReturns
  refine ⟨max bound restBound, ?_⟩
  intro depth enough
  have enoughValue := Nat.le_trans (Nat.le_max_left bound restBound) enough
  have enoughResult := Nat.le_trans (Nat.le_max_right bound restBound) enough
  simp only [isValue depth enoughValue, ok_bind]
  exact isResult depth enoughResult

section Loops

variable {σ : Type v} {ι : Type w}

/-- The invariant rule for a loop over a list: what holds of no element and
is preserved by each iteration holds once the loop has run. -/
theorem foldlM_invariant
    {body : σ → ι → Outcome ε σ} (invariant : List ι → σ → Prop)
    {items : List ι}
    (preserved :
      ∀ done item rest state next,
        items = done ++ item :: rest →
        invariant done state → body state item = ok next →
          invariant (done ++ [item]) next)
    {initial final : σ}
    (start : invariant [] initial)
    (run : items.foldlM body initial = ok final) :
    invariant items final := by
  suffices general :
      ∀ (rest done : List ι) (state : σ),
        items = done ++ rest → invariant done state →
          rest.foldlM body state = ok final → invariant items final by
    exact general items [] initial rfl start run
  intro rest
  induction rest with
  | nil =>
      intro done state shape holds runRest
      rw [List.foldlM_nil, pure_eq, ok.injEq] at runRest
      rw [List.append_nil] at shape
      rw [shape, ← runRest]
      exact holds
  | cons item rest inductionHypothesis =>
      intro done state shape holds runRest
      rw [List.foldlM_cons, bind_eq_ok] at runRest
      obtain ⟨next, step, runTail⟩ := runRest
      refine inductionHypothesis (done ++ [item]) next ?_ ?_ runTail
      · rw [shape, List.append_assoc, List.singleton_append]
      · exact preserved done item rest state next shape holds step

theorem foldlM_finished_of
    {body : σ → ι → Outcome ε σ} (invariant : σ → Prop) :
    ∀ {items : List ι},
      (∀ item ∈ items, ∀ state, invariant state → (body state item).Finished) →
      (∀ item ∈ items, ∀ state next,
        invariant state → body state item = ok next → invariant next) →
        ∀ state, invariant state → (items.foldlM body state).Finished
  | [], _, _, state, _ => by
      rw [List.foldlM_nil]
      intro impossible
      cases impossible
  | item :: rest, finishes, preserved, state, holds => by
      rw [List.foldlM_cons]
      refine (finishes item List.mem_cons_self state holds).bind ?_
      intro next step
      apply
        foldlM_finished_of invariant
          (fun other member => finishes other (List.mem_cons_of_mem _ member))
          (fun other member => preserved other (List.mem_cons_of_mem _ member))
      exact preserved item List.mem_cons_self state next holds step

theorem foldlM_finished
    {body : σ → ι → Outcome ε σ} {items : List ι}
    (finishes : ∀ item ∈ items, ∀ state, (body state item).Finished) (state : σ) :
    (items.foldlM body state).Finished :=
  foldlM_finished_of (fun _ => True) (fun item member state _ => finishes item member state)
    (fun _ _ _ _ _ _ => trivial) state trivial

theorem forM_finished {body : ι → Outcome ε PUnit} :
    ∀ {items : List ι}, (∀ item ∈ items, (body item).Finished) → (items.forM body).Finished
  | [], _ => by
      intro impossible
      cases impossible
  | item :: rest, finishes => by
      rw [List.forM_eq_forM, List.forM_cons]
      apply (finishes item List.mem_cons_self).bind
      intro _ _
      exact forM_finished fun other member => finishes other (List.mem_cons_of_mem _ member)

end Loops

/-! ## Specifications -/

/-- The function does not end with a code that is not allowed, and every value
it returns has the property. -/
def Meets (allowed : ε → Prop) (property : α → Prop) : Outcome ε α → Prop
  | ok value => property value
  | error code => allowed code
  | outOfFuel => True

namespace Meets

variable {allowed other : ε → Prop} {property weaker : α → Prop} {result : β → Prop}
  {x : Outcome ε α}

theorem bind {f : α → Outcome ε β} (first : x.Meets allowed property)
    (rest : ∀ value, property value → (f value).Meets allowed result) :
    (x >>= f).Meets allowed result := by
  cases x with
  | ok value => exact rest value first
  | error code => exact first
  | outOfFuel => exact trivial

theorem mono (meets : x.Meets allowed property)
    (implies : ∀ value, property value → weaker value) :
    x.Meets allowed weaker := by
  cases x with
  | ok value => exact implies value meets
  | error code => exact meets
  | outOfFuel => exact trivial

theorem imp (meets : x.Meets allowed property)
    (implies : ∀ value, property value → weaker value)
    (allows : ∀ code, allowed code → other code) : x.Meets other weaker := by
  cases x with
  | ok value => exact implies value meets
  | error code => exact allows code meets
  | outOfFuel => exact trivial

theorem returns (meets : x.Meets allowed property) {value : α} (isValue : x = ok value) :
    property value := by
  rw [isValue] at meets
  exact meets

theorem stops (meets : x.Meets allowed property) {code : ε} (isError : x = error code) :
    allowed code := by
  rw [isError] at meets
  exact meets

theorem and (first : x.Meets allowed property) (second : x.Meets other weaker) :
    x.Meets (fun code => allowed code ∧ other code)
      (fun value => property value ∧ weaker value) := by
  cases x with
  | ok value => exact ⟨first, second⟩
  | error code => exact ⟨first, second⟩
  | outOfFuel => exact trivial

theorem foldlM {σ : Type v} {ι : Type w} {body : σ → ι → Outcome ε σ}
    (invariant : List ι → σ → Prop) {items : List ι} {initial : σ}
    (preserved :
      ∀ done item rest state, items = done ++ item :: rest → invariant done state →
        (body state item).Meets allowed (invariant (done ++ [item])))
    (start : invariant [] initial) :
    (items.foldlM body initial).Meets allowed (invariant items) := by
  suffices general :
      ∀ (rest done : List ι) (state : σ), items = done ++ rest → invariant done state →
        (rest.foldlM body state).Meets allowed (invariant items) by
    exact general items [] initial rfl start
  intro rest
  induction rest with
  | nil =>
      intro done state shape holds
      rw [List.append_nil] at shape
      exact shape ▸ holds
  | cons item rest inductionHypothesis =>
      intro done state shape holds
      rw [List.foldlM_cons]
      apply (preserved done item rest state shape holds).bind
      intro next holdsNext
      apply inductionHypothesis (done ++ [item]) next _ holdsNext
      rw [shape, List.append_assoc, List.singleton_append]

theorem forM {ι : Type w} {body : ι → Outcome ε PUnit} :
    ∀ {items : List ι},
      (∀ item ∈ items, (body item).Meets allowed fun _ => True) →
        (items.forM body).Meets allowed fun _ => True
  | [], _ => trivial
  | item :: rest, each => by
      rw [List.forM_eq_forM, List.forM_cons]
      apply (each item List.mem_cons_self).bind
      intro _ _
      exact forM fun next member => each next (List.mem_cons_of_mem _ member)

theorem forM_items {ι : Type w} {body : ι → Outcome ε PUnit} {property : ι → Prop} :
    ∀ {items : List ι},
      (∀ item ∈ items, (body item).Meets allowed fun _ => property item) →
        (items.forM body).Meets allowed fun _ => ∀ item ∈ items, property item
  | [], _ => fun _ isItem => absurd isItem List.not_mem_nil
  | item :: rest, each => by
      rw [List.forM_eq_forM, List.forM_cons]
      apply (each item List.mem_cons_self).bind
      intro _ isFirst
      apply (forM_items fun next member => each next (List.mem_cons_of_mem _ member)).mono
      exact fun _ areRest => List.forall_mem_cons.mpr ⟨isFirst, areRest⟩

end Meets

end Outcome

end Rcgo.Foundation
