import Mathlib.Logic.Function.Basic
import Mathlib.Tactic.Common

/-!
# Deferred updates

Several parties decide on updates of shared values and carry them out later, one at a
time.  Where no two of them have updates of one value, the parties might as well carry
out all of their updates at the moment they decide.
-/

namespace Rcgo.Foundation

universe u v w x y

/-- A transformation of the values at some places that looks at no other places. -/
structure LocalUpdate (ι : Type u) (κ : Type v) where
  scope : ι → Prop
  run : (ι → κ) → ι → κ
  frame : ∀ values i, ¬scope i → run values i = values i
  footprint : ∀ values other, (∀ i, scope i → values i = other i) →
    ∀ i, scope i → run values i = run other i

namespace LocalUpdate

variable {ι : Type u} {κ : Type v}

def runAll (updates : List (LocalUpdate ι κ)) (values : ι → κ) : ι → κ :=
  updates.foldl (fun values update => update.run values) values

def Touches (updates : List (LocalUpdate ι κ)) (i : ι) : Prop :=
  ∃ update ∈ updates, update.scope i

variable {updates rest : List (LocalUpdate ι κ)} {update : LocalUpdate ι κ}
  {values other : ι → κ} {i : ι}

theorem touches_cons_iff : Touches (update :: rest) i ↔ update.scope i ∨ Touches rest i := by
  simp [Touches]

theorem not_touches_nil : ¬Touches ([] : List (LocalUpdate ι κ)) i := by
  simp [Touches]

theorem runAll_frame (notTouched : ¬Touches updates i) : runAll updates values i = values i := by
  induction updates generalizing values with
  | nil => rfl
  | cons update rest inductionHypothesis =>
      rw [touches_cons_iff, not_or] at notTouched
      calc
        runAll (update :: rest) values i = runAll rest (update.run values) i := rfl
        _ = update.run values i := inductionHypothesis notTouched.2
        _ = values i := update.frame values i notTouched.1

theorem runAll_congr_of_subset {places : ι → Prop}
    (within : ∀ i, Touches updates i → places i) (same : ∀ i, places i → values i = other i) :
    ∀ i, places i → runAll updates values i = runAll updates other i := by
  induction updates generalizing values other with
  | nil => exact same
  | cons update rest inductionHypothesis =>
      have withinRest : ∀ i, Touches rest i → places i :=
        fun i isTouched => within i (touches_cons_iff.mpr (Or.inr isTouched))
      apply inductionHypothesis withinRest
      intro i isPlace
      show update.run values i = update.run other i
      by_cases inScope : update.scope i
      · apply update.footprint values other _ i inScope
        exact fun k isScope => same k (within k (touches_cons_iff.mpr (Or.inl isScope)))
      · rw [update.frame values i inScope, update.frame other i inScope]
        exact same i isPlace

theorem runAll_congr (same : ∀ i, Touches updates i → values i = other i) :
    ∀ i, Touches updates i → runAll updates values i = runAll updates other i :=
  runAll_congr_of_subset (fun _ isTouched => isTouched) same

end LocalUpdate

open LocalUpdate

variable {ι : Type u} {κ : Type v} {ε : Type w}

def Apart (pending : ε → List (LocalUpdate ι κ)) : Prop :=
  ∀ e f i, Touches (pending e) i → Touches (pending f) i → e = f

/-- The values as they will be after all pending updates. -/
structure Ahead (pending : ε → List (LocalUpdate ι κ)) (values serial : ι → κ) : Prop where
  free : ∀ i, (∀ e, ¬Touches (pending e) i) → serial i = values i
  owned : ∀ e i, Touches (pending e) i → serial i = runAll (pending e) values i

variable {pending : ε → List (LocalUpdate ι κ)} {values serial : ι → κ}
  {updates rest : List (LocalUpdate ι κ)} {update : LocalUpdate ι κ} {e : ε}

theorem apart_nil : Apart fun _ : ε => ([] : List (LocalUpdate ι κ)) :=
  fun _ _ _ isTouched => absurd isTouched not_touches_nil

theorem ahead_nil (values : ι → κ) : Ahead (fun _ : ε => []) values values where
  free _ _ := rfl
  owned _ _ isTouched := absurd isTouched not_touches_nil

variable [DecidableEq ε]

theorem touches_update_self {i : ι} :
    Touches (Function.update pending e updates e) i ↔ Touches updates i := by
  rw [Function.update_self]

theorem touches_update_other {f : ε} {i : ι} (different : f ≠ e) :
    Touches (Function.update pending e updates f) i ↔ Touches (pending f) i := by
  rw [Function.update_of_ne different]

/-! ## A party decides -/

theorem Apart.decide (apart : Apart pending)
    (exclusive : ∀ f i, f ≠ e → Touches updates i → ¬Touches (pending f) i) :
    Apart (Function.update pending e updates) := by
  intro f g i isTouched isTouchedToo
  by_cases isFirst : f = e
  · by_cases isSecond : g = e
    · rw [isFirst, isSecond]
    · rw [isFirst, touches_update_self] at isTouched
      rw [touches_update_other isSecond] at isTouchedToo
      exact absurd isTouchedToo (exclusive g i isSecond isTouched)
  · rw [touches_update_other isFirst] at isTouched
    by_cases isSecond : g = e
    · rw [isSecond, touches_update_self] at isTouchedToo
      exact absurd isTouched (exclusive f i isFirst isTouchedToo)
    · rw [touches_update_other isSecond] at isTouchedToo
      exact apart f g i isTouched isTouchedToo

theorem Ahead.eq_of_exclusive (ahead : Ahead pending values serial) (isFree : pending e = [])
    {i : ι} (exclusive : ∀ f, f ≠ e → ¬Touches (pending f) i) : serial i = values i := by
  apply ahead.free i
  intro f isTouched
  by_cases same : f = e
  · rw [same, isFree] at isTouched
    exact not_touches_nil isTouched
  · exact exclusive f same isTouched

theorem Ahead.decide (ahead : Ahead pending values serial) (isFree : pending e = [])
    (exclusive : ∀ f i, f ≠ e → Touches updates i → ¬Touches (pending f) i) :
    Ahead (Function.update pending e updates) values (runAll updates serial) where
  free i notTouched := by
    have notHere := notTouched e
    rw [touches_update_self] at notHere
    rw [runAll_frame notHere]
    apply ahead.eq_of_exclusive isFree
    intro f different isTouched
    exact notTouched f ((touches_update_other different).mpr isTouched)
  owned f i isTouched := by
    by_cases same : f = e
    · rw [same, Function.update_self]
      rw [same, touches_update_self] at isTouched
      refine runAll_congr ?_ i isTouched
      intro k isPlace
      apply ahead.eq_of_exclusive isFree
      exact fun g different => exclusive g k different isPlace
    · rw [touches_update_other same] at isTouched
      rw [Function.update_of_ne same, runAll_frame]
      · exact ahead.owned f i isTouched
      · exact fun isDecided => exclusive f i same isDecided isTouched

/-! ## A party carries out an update -/

theorem touches_of_update {f : ε} {i : ι} (isPending : pending e = update :: rest)
    (isTouched : Touches (Function.update pending e rest f) i) : Touches (pending f) i := by
  by_cases same : f = e
  · rw [same, touches_update_self] at isTouched
    rw [same, isPending, touches_cons_iff]
    exact Or.inr isTouched
  · rwa [touches_update_other same] at isTouched

theorem Apart.perform (apart : Apart pending) (isPending : pending e = update :: rest) :
    Apart (Function.update pending e rest) :=
  fun f g i isTouched isTouchedToo =>
    apart f g i (touches_of_update isPending isTouched) (touches_of_update isPending isTouchedToo)

theorem Ahead.perform (ahead : Ahead pending values serial) (apart : Apart pending)
    (isPending : pending e = update :: rest) :
    Ahead (Function.update pending e rest) (update.run values) serial where
  free i notTouched := by
    have notRest := notTouched e
    rw [touches_update_self] at notRest
    by_cases inScope : update.scope i
    · have isTouched : Touches (pending e) i := by
        rw [isPending, touches_cons_iff]
        exact Or.inl inScope
      rw [ahead.owned e i isTouched, isPending]
      exact runAll_frame notRest
    · rw [update.frame values i inScope]
      apply ahead.free i
      intro f isTouched
      by_cases same : f = e
      · rw [same, isPending, touches_cons_iff] at isTouched
        exact isTouched.elim inScope notRest
      · exact notTouched f ((touches_update_other same).mpr isTouched)
  owned f i isTouched := by
    have wasTouched := touches_of_update isPending isTouched
    by_cases same : f = e
    · rw [same] at wasTouched ⊢
      rw [ahead.owned e i wasTouched, isPending, Function.update_self]
      rfl
    · rw [ahead.owned f i wasTouched, Function.update_of_ne same]
      refine runAll_congr ?_ i wasTouched
      intro k isPlace
      refine (update.frame values k ?_).symm
      intro inScope
      have isTouchedHere : Touches (pending e) k := by
        rw [isPending, touches_cons_iff]
        exact Or.inl inScope
      exact same (apart f e k isPlace isTouchedHere)

/-! ## Serial runs -/

/-- Parties of which each decides on updates; a decision looks at some places only. -/
structure Transactions (α : Type x) (δ : Type y) (ι : Type u) (κ : Type v) where
  reads : α → ι → Prop
  decision : α → (ι → κ) → δ
  updates : δ → List (LocalUpdate ι κ)
  footprint : ∀ a values other, (∀ i, reads a i → values i = other i) →
    decision a values = decision a other

namespace Transactions

variable {α : Type x} {δ : Type y} (t : Transactions α δ ι κ)

def run (a : α) (values : ι → κ) : ι → κ :=
  runAll (t.updates (t.decision a values)) values

/-- One decision after another is made and carried out at once. -/
inductive Serial (start : ι → κ) : List (α × δ) → (ι → κ) → Prop where
  | nil : Serial start [] start
  | decide {history : List (α × δ)} {values : ι → κ} (a : α)
      (serial : Serial start history values) :
      Serial start (history ++ [(a, t.decision a values)]) (t.run a values)

/-- The decisions so far can be made one after another, each with all of its updates, and
lead to the values as they will be. -/
structure Linearized (start : ι → κ) (history : List (α × δ))
    (pending : ε → List (LocalUpdate ι κ)) (values : ι → κ) : Prop where
  apart : Apart pending
  serial : ∃ serial, t.Serial start history serial ∧ Ahead pending values serial

namespace Linearized

variable {t} {start : ι → κ} {history : List (α × δ)}

omit [DecidableEq ε] in
theorem initial (start : ι → κ) : t.Linearized start [] (fun _ : ε => []) start :=
  ⟨apart_nil, start, .nil, ahead_nil start⟩

theorem decide (linearized : t.Linearized start history pending values) (a : α)
    (isFree : pending e = [])
    (readsAlone : ∀ f i, f ≠ e → t.reads a i → ¬Touches (pending f) i)
    (updatesAlone : ∀ f i, f ≠ e → Touches (t.updates (t.decision a values)) i →
      ¬Touches (pending f) i) :
    t.Linearized start (history ++ [(a, t.decision a values)])
      (Function.update pending e (t.updates (t.decision a values))) values := by
  rcases linearized.serial with ⟨serial, isSerial, ahead⟩
  have sameDecision : t.decision a serial = t.decision a values := by
    apply t.footprint
    intro i isRead
    apply ahead.eq_of_exclusive isFree
    exact fun f different => readsAlone f i different isRead
  refine ⟨linearized.apart.decide updatesAlone, t.run a serial, ?_, ?_⟩
  · rw [← sameDecision]
    exact .decide a isSerial
  · rw [run, sameDecision]
    exact ahead.decide isFree updatesAlone

theorem perform (linearized : t.Linearized start history pending values)
    (isPending : pending e = update :: rest) :
    t.Linearized start history (Function.update pending e rest) (update.run values) := by
  rcases linearized.serial with ⟨serial, isSerial, ahead⟩
  exact ⟨linearized.apart.perform isPending, serial, isSerial,
    ahead.perform linearized.apart isPending⟩

end Linearized

end Transactions

end Rcgo.Foundation
