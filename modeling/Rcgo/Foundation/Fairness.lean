import Rcgo.Foundation.Transition

/-!
# Fair runs

An infinite run of a system, and what it leads to.  The run is fair if each agent that could
act forever acts in the end.
-/

namespace Rcgo.Foundation

universe u v w

/-- A run that never ends.  At a time without an event nothing changes. -/
structure InfiniteRun {σ : Type u} {ε : Type v} (step : σ → ε → σ → Prop) where
  state : Nat → σ
  event : Nat → Option ε
  taken : ∀ n e, event n = some e → step (state n) e (state (n + 1))
  still : ∀ n, event n = none → state (n + 1) = state n

namespace InfiniteRun

variable {σ : Type u} {ε : Type v} {α : Type w} {step : σ → ε → σ → Prop}
  (run : InfiniteRun step)

/-- Wherever the one holds in the run, the other holds there or later. -/
def LeadsTo (before after : σ → Prop) : Prop :=
  ∀ n, before (run.state n) → ∃ m, n ≤ m ∧ after (run.state m)

/-- An agent that is able to act from some time on acts in the end. -/
def IsFair (agent : ε → α) (able : σ → α → Prop) : Prop :=
  ∀ a n, (∀ m, n ≤ m → able (run.state m) a) →
    ∃ m event, n ≤ m ∧ run.event m = some event ∧ agent event = a

variable {run} {before between after : σ → Prop}

theorem holds_of_step {invariant : σ → Prop} (initially : invariant (run.state 0))
    (preserves : ∀ s event next, invariant s → step s event next → invariant next) (n : Nat) :
    invariant (run.state n) := by
  induction n with
  | zero => exact initially
  | succ n inductionHypothesis =>
      cases isEvent : run.event n with
      | none =>
          rw [run.still n isEvent]
          exact inductionHypothesis
      | some event => exact preserves _ event _ inductionHypothesis (run.taken n event isEvent)

theorem exists_of_trace {start finish : σ} {transitions : List (Transition σ ε)}
    (trace : Trace step start transitions finish) :
    ∃ run : InfiniteRun step, run.state 0 = start ∧
      (∀ n, transitions.length ≤ n → run.state n = finish) ∧
      ∀ n transition, transitions[n]? = some transition → run.state n = transition.before := by
  induction trace with
  | nil state =>
      refine ⟨⟨fun _ => state, fun _ => none, ?_, fun _ _ => rfl⟩, rfl, fun _ _ => rfl, ?_⟩
      · intro n event isEvent
        cases isEvent
      · intro n transition isTransition
        cases isTransition
  | @cons before after finish event rest first _ inductionHypothesis =>
      rcases inductionHypothesis with ⟨run, starts, ends, passes⟩
      refine ⟨⟨fun n => n.casesOn before run.state, fun n => n.casesOn (some event) run.event,
        ?_, ?_⟩, rfl, ?_, ?_⟩
      · intro n other isEvent
        cases n with
        | zero =>
            rw [← Option.some.inj isEvent]
            show step before event (run.state 0)
            rw [starts]
            exact first
        | succ n => exact run.taken n other isEvent
      · intro n isNone
        cases n with
        | zero => cases isNone
        | succ n => exact run.still n isNone
      · intro n atEnd
        cases n with
        | zero => cases atEnd
        | succ n => exact ends n (Nat.le_of_succ_le_succ atEnd)
      · intro n transition isTransition
        cases n with
        | zero => exact congrArg Transition.before (Option.some.inj isTransition)
        | succ n => exact passes n transition isTransition

theorem isFair_of_rest {agent : ε → α} {able : σ → α → Prop} {finish : σ} {time : Nat}
    (rests : ∀ n, time ≤ n → run.state n = finish) (nobody : ∀ a, ¬ able finish a) :
    run.IsFair agent able := by
  intro a n areAble
  have isAble := areAble (max n time) (Nat.le_max_left n time)
  rw [rests _ (Nat.le_max_right n time)] at isAble
  exact absurd isAble (nobody a)

namespace LeadsTo

theorem trans (first : run.LeadsTo before between) (second : run.LeadsTo between after) :
    run.LeadsTo before after := by
  intro n isBefore
  rcases first n isBefore with ⟨m, later, isBetween⟩
  rcases second m isBetween with ⟨k, latest, isAfter⟩
  exact ⟨k, Nat.le_trans later latest, isAfter⟩

theorem mono {before' after' : σ → Prop} (leads : run.LeadsTo before after)
    (strengthens : ∀ n, before' (run.state n) → before (run.state n))
    (weakens : ∀ n, after (run.state n) → after' (run.state n)) : run.LeadsTo before' after' := by
  intro n isBefore
  rcases leads n (strengthens n isBefore) with ⟨m, later, isAfter⟩
  exact ⟨m, later, weakens m isAfter⟩

theorem or (first : run.LeadsTo before after) (second : run.LeadsTo between after) :
    run.LeadsTo (fun s => before s ∨ between s) after := by
  intro n isEither
  rcases isEither with isFirst | isSecond
  · exact first n isFirst
  · exact second n isSecond

theorem of_measure (measure : σ → Nat)
    (decreases : ∀ k, run.LeadsTo (fun s => before s ∧ measure s = k)
      fun s => after s ∨ (before s ∧ measure s < k)) : run.LeadsTo before after := by
  have reaches : ∀ k n, before (run.state n) → measure (run.state n) = k →
      ∃ m, n ≤ m ∧ after (run.state m) := by
    intro k
    induction k using Nat.strongRecOn with
    | ind k inductionHypothesis =>
        intro n isBefore isMeasure
        rcases decreases k n ⟨isBefore, isMeasure⟩ with ⟨m, later, isAfter | ⟨stillBefore, isLess⟩⟩
        · exact ⟨m, later, isAfter⟩
        · rcases inductionHypothesis _ isLess m stillBefore rfl with ⟨k, latest, isAfter⟩
          exact ⟨k, Nat.le_trans later latest, isAfter⟩
  exact fun n isBefore => reaches _ n isBefore rfl

theorem of_remains
    (remains : ∀ n, before (run.state n) →
      before (run.state (n + 1)) ∨ after (run.state (n + 1)))
    (notForever : ∀ n, (∀ m, n ≤ m → before (run.state m)) →
      ∃ m, n ≤ m ∧ after (run.state m)) : run.LeadsTo before after := by
  intro n isBefore
  by_contra never
  have forever : ∀ k, before (run.state (n + k)) := by
    intro k
    induction k with
    | zero => exact isBefore
    | succ k inductionHypothesis =>
        rcases remains (n + k) inductionHypothesis with stillBefore | isAfter
        · exact stillBefore
        · exact absurd ⟨n + k + 1, by omega, isAfter⟩ never
  apply never
  apply notForever
  intro m later
  rw [← Nat.add_sub_cancel' later]
  exact forever (m - n)

theorem of_leaves
    (remains : ∀ n, before (run.state n) →
      before (run.state (n + 1)) ∨ after (run.state (n + 1)))
    (leaves : run.LeadsTo before fun s => ¬ before s) : run.LeadsTo before after := by
  apply of_remains remains
  intro n forever
  rcases leaves n (forever n (Nat.le_refl n)) with ⟨m, later, hasLeft⟩
  exact absurd (forever m later) hasLeft

theorem of_isFair {agent : ε → α} {able : σ → α → Prop} (fair : run.IsFair agent able) (a : α)
    (isAble : ∀ n, before (run.state n) → able (run.state n) a)
    (remains : ∀ n, before (run.state n) →
      before (run.state (n + 1)) ∨ after (run.state (n + 1)))
    (acts : ∀ n event, before (run.state n) → run.event n = some event → agent event = a →
      after (run.state (n + 1))) : run.LeadsTo before after := by
  apply of_remains remains
  intro n forever
  rcases fair a n fun m later => isAble m (forever m later) with
    ⟨m, event, later, isEvent, isAgent⟩
  exact ⟨m + 1, Nat.le_succ_of_le later, acts m event (forever m later) isEvent isAgent⟩

end LeadsTo

end InfiniteRun

end Rcgo.Foundation
