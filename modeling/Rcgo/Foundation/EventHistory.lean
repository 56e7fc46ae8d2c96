import Mathlib.Data.List.Induction
import Mathlib.Tactic.Common

/-!
# Histories of events

What holds in a state of a system may depend on the events that led to it, for example
on what has happened since some event occurred the last time.
-/

namespace Rcgo.Foundation

universe u v

variable {ε : Type u} {σ : Type v}

/-- An event of the one kind has happened, and none of the other kind after it. -/
def Since (happened undone : ε → Prop) (events : List ε) : Prop :=
  ∃ earlier event later, events = earlier ++ event :: later ∧ happened event ∧
    ∀ other ∈ later, ¬undone other

namespace Since

variable {happened undone : ε → Prop} {events : List ε}

theorem last {event : ε} (happens : happened event) :
    Since happened undone (events ++ [event]) :=
  ⟨events, event, [], rfl, happens, fun _ isLater => absurd isLater List.not_mem_nil⟩

theorem append_singleton (since : Since happened undone events) {next : ε}
    (notUndone : ¬undone next) : Since happened undone (events ++ [next]) := by
  rcases since with ⟨earlier, event, later, isEvents, happens, others⟩
  refine ⟨earlier, event, later ++ [next], ?_, happens, ?_⟩
  · rw [isEvents, List.append_assoc, List.cons_append]
  · intro other isLater
    rcases List.mem_append.mp isLater with isOld | isNew
    · exact others other isOld
    · rw [List.mem_singleton.mp isNew]
      exact notUndone

theorem of_append_singleton {next : ε} (since : Since happened undone (events ++ [next])) :
    happened next ∨ Since happened undone events ∧ ¬undone next := by
  rcases since with ⟨earlier, event, later, isEvents, happens, others⟩
  rcases List.eq_nil_or_concat later with rfl | ⟨between, latest, rfl⟩
  · rcases List.append_inj' isEvents rfl with ⟨_, isNext⟩
    rw [List.singleton_inj.mp isNext]
    exact Or.inl happens
  · rw [List.concat_eq_append] at isEvents others
    rw [← List.cons_append, ← List.append_assoc] at isEvents
    rcases List.append_inj' isEvents rfl with ⟨isPast, isNext⟩
    right
    refine ⟨⟨earlier, event, between, isPast, happens, ?_⟩, ?_⟩
    · exact fun other isLater => others other (List.mem_append_left _ isLater)
    · rw [List.singleton_inj.mp isNext]
      exact others latest List.mem_concat_self

theorem not_nil : ¬Since happened undone ([] : List ε) := by
  rintro ⟨earlier, event, later, isEvents, _⟩
  exact List.append_ne_nil_of_right_ne_nil earlier (List.cons_ne_nil event later) isEvents.symm

theorem exists_mem (since : Since happened undone events) : ∃ event ∈ events, happened event := by
  rcases since with ⟨earlier, event, later, isEvents, happens, _⟩
  refine ⟨event, ?_, happens⟩
  rw [isEvents]
  exact List.mem_append_right earlier List.mem_cons_self

end Since

theorem history_invariant {step : σ → ε → Option σ} {start finish : σ} {events : List ε}
    (invariant : List ε → σ → Prop) (allowed : ε → Prop)
    (preserved : ∀ past event state next, invariant past state → allowed event →
      step state event = some next → invariant (past ++ [event]) next)
    (initially : invariant [] start) (areAllowed : ∀ event ∈ events, allowed event)
    (run : events.foldlM step start = some finish) : invariant events finish := by
  induction events using List.reverseRecOn generalizing finish with
  | nil =>
      rw [List.foldlM_nil, Option.pure_def, Option.some.injEq] at run
      rw [← run]
      exact initially
  | append_singleton past event inductionHypothesis =>
      rw [List.foldlM_append] at run
      rcases Option.bind_eq_some_iff.mp run with ⟨state, runsPast, last⟩
      rw [List.foldlM_cons] at last
      rcases Option.bind_eq_some_iff.mp last with ⟨next, taken, isNext⟩
      rw [List.foldlM_nil, Option.pure_def, Option.some.injEq] at isNext
      rw [← isNext]
      refine preserved past event state next (inductionHypothesis ?_ runsPast) ?_ taken
      · exact fun other isPast => areAllowed other (List.mem_append_left [event] isPast)
      · exact areAllowed event (List.mem_append_right past (List.mem_singleton_self event))

end Rcgo.Foundation
