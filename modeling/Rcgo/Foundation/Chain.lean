import Mathlib.Data.List.Nodup
import Mathlib.Tactic.Common

/-!
# Chains of links

A linked list is described by the items that its links lead through, from the
first one to the item at which it ends.
-/

namespace Rcgo.Foundation

universe u

variable {α : Type u}

/-- The links lead from `start` through the items to `target`. -/
def Chain (next : α → Option α) : α → List α → α → Prop
  | start, [], target => start = target
  | start, item :: rest, target =>
      start = item ∧ ∃ successor, next item = some successor ∧ Chain next successor rest target

namespace Chain

variable {next other : α → Option α} {start target : α}

theorem append_iff {first second : List α} :
    Chain next start (first ++ second) target ↔
      ∃ middle, Chain next start first middle ∧ Chain next middle second target := by
  induction first generalizing start with
  | nil => simp [Chain]
  | cons item rest inductionHypothesis =>
      simp only [List.cons_append, Chain, inductionHypothesis]
      grind

theorem append_singleton {first : List α} (last : α) (chain : Chain next start first last)
    (isNext : next last = some target) : Chain next start (first ++ [last]) target :=
  append_iff.mpr ⟨last, chain, rfl, target, isNext, rfl⟩

theorem congr {list : List α} (chain : Chain next start list target)
    (same : ∀ item ∈ list, other item = next item) : Chain other start list target := by
  induction list generalizing start with
  | nil => exact chain
  | cons item rest inductionHypothesis =>
      obtain ⟨isItem, successor, isNext, tail⟩ := chain
      have here := same item List.mem_cons_self
      exact
        ⟨isItem, successor, here.trans isNext,
         inductionHypothesis tail fun later member => same later (List.mem_cons_of_mem _ member)⟩

theorem exists_next {list : List α} (chain : Chain next start list target) {item : α}
    (member : item ∈ list) : ∃ successor, next item = some successor := by
  induction list generalizing start with
  | nil => exact absurd member List.not_mem_nil
  | cons first rest inductionHypothesis =>
      obtain ⟨_, successor, isNext, tail⟩ := chain
      rcases List.mem_cons.mp member with isFirst | inRest
      · rw [isFirst]
        exact ⟨successor, isNext⟩
      · exact inductionHypothesis tail inRest

theorem unique (isEnd : next target = none) {first second : List α}
    (firstChain : Chain next start first target) (secondChain : Chain next start second target) :
    first = second := by
  induction first generalizing start second with
  | nil =>
      cases second with
      | nil => rfl
      | cons item rest =>
          obtain ⟨isItem, successor, isNext, _⟩ := secondChain
          have isTarget : start = target := firstChain
          rw [← isItem, isTarget, isEnd] at isNext
          cases isNext
  | cons item rest inductionHypothesis =>
      obtain ⟨isItem, successor, isNext, tail⟩ := firstChain
      cases second with
      | nil =>
          have isTarget : start = target := secondChain
          rw [← isItem, isTarget, isEnd] at isNext
          cases isNext
      | cons otherItem otherRest =>
          obtain ⟨isOther, otherSuccessor, otherNext, otherTail⟩ := secondChain
          have sameItem : item = otherItem := isItem.symm.trans isOther
          rw [← sameItem, isNext, Option.some.injEq] at otherNext
          rw [← otherNext] at otherTail
          rw [sameItem, inductionHypothesis tail otherTail]

theorem exists_cons {list : List α} (chain : Chain next start list target)
    (different : start ≠ target) :
    ∃ rest successor, list = start :: rest ∧ next start = some successor ∧
      Chain next successor rest target := by
  cases list with
  | nil => exact absurd chain different
  | cons item rest =>
      obtain ⟨isItem, successor, isNext, tail⟩ := chain
      rw [← isItem] at isNext ⊢
      exact ⟨rest, successor, rfl, isNext, tail⟩

end Chain

end Rcgo.Foundation
