import Mathlib.Data.List.Basic
import Mathlib.Logic.Function.Iterate
import Mathlib.Tactic.Common

/-!
# Nodes that send to their successors

Each node has a status and a queue of what it has still to receive.  A step changes
one node and may send something to its successor.
-/

namespace Rcgo.Foundation

universe u v w

/-- The nodes with their status and what each has still to receive. -/
structure MessageRing (ι : Type u) (σ : Type v) (μ : Type w) where
  status : ι → σ
  queue : ι → List μ

namespace MessageRing

variable {ι : Type u} {σ : Type v} {μ : Type w} [DecidableEq ι]

/-- One node is changed, and something is sent to its successor. -/
def after (ring : MessageRing ι σ μ) (next : ι → ι) (node : ι) (status : σ) (rest : List μ)
    (sent : Option μ) : MessageRing ι σ μ where
  status := Function.update ring.status node status
  queue :=
    let queue := Function.update ring.queue node rest
    Function.update queue (next node) (queue (next node) ++ sent.toList)

variable {ring : MessageRing ι σ μ} {next : ι → ι} {node place : ι} {status : σ} {rest : List μ}
  {sent : Option μ} {message : μ}

theorem status_after_node : (ring.after next node status rest sent).status node = status := by
  rw [after]
  simp only [Function.update_self]

theorem status_after_of_ne {other : ι} (notNode : other ≠ node) :
    (ring.after next node status rest sent).status other = ring.status other := by
  rw [after]
  simp only [Function.update_of_ne notNode]

theorem exists_queue_after (next : ι → ι) (status : σ) (kept : rest.Sublist (ring.queue node))
    (sent : Option μ) (place : ι) :
    ∃ old : List μ, old.Sublist (ring.queue place) ∧
      ((ring.after next node status rest sent).queue place = old ∨
        place = next node ∧
          (ring.after next node status rest sent).queue place = old ++ sent.toList) := by
  refine ⟨Function.update ring.queue node rest place, ?_, ?_⟩
  · by_cases isNode : place = node
    · rw [isNode, Function.update_self]
      exact kept
    · rw [Function.update_of_ne isNode]
  · by_cases isNext : place = next node
    · refine Or.inr ⟨isNext, ?_⟩
      rw [isNext]
      exact Function.update_self ..
    · exact Or.inl (Function.update_of_ne isNext ..)

theorem mem_after (kept : rest.Sublist (ring.queue node))
    (isMember : message ∈ (ring.after next node status rest sent).queue place) :
    message ∈ ring.queue place ∨ place = next node ∧ sent = some message := by
  obtain ⟨old, isOld, isQueue⟩ := exists_queue_after next status kept sent place
  cases isQueue with
  | inl isQueue => exact Or.inl (isOld.subset (isQueue ▸ isMember))
  | inr isQueue =>
      rw [isQueue.2, List.mem_append, Option.mem_toList] at isMember
      exact isMember.imp (fun wasMember => isOld.subset wasMember) fun isSent => ⟨isQueue.1, isSent⟩

theorem sublist_after {first second : μ} (kept : rest.Sublist (ring.queue node))
    (isSublist : [first, second].Sublist
      ((ring.after next node status rest sent).queue place)) :
    [first, second].Sublist (ring.queue place) ∨ place = next node ∧ sent = some second := by
  obtain ⟨old, isOld, isQueue⟩ := exists_queue_after next status kept sent place
  cases isQueue with
  | inl isQueue => exact Or.inl ((isQueue ▸ isSublist).trans isOld)
  | inr isQueue =>
      rw [isQueue.2] at isSublist
      cases sent with
      | none =>
          rw [Option.toList_none, List.append_nil] at isSublist
          exact Or.inl (isSublist.trans isOld)
      | some message =>
          have reversed : [second, first].Sublist (message :: old.reverse) := by
            simpa using isSublist.reverse
          cases reversed with
          | cons _ inOld =>
              exact Or.inl ((List.reverse_sublist.mp (by simpa using inOld)).trans isOld)
          | cons_cons _ _ => exact Or.inr ⟨isQueue.1, rfl⟩

theorem mem_after_sent (isSent : sent = some message) :
    message ∈ (ring.after next node status rest sent).queue (next node) := by
  rw [after, isSent]
  simp only [Function.update_self, Option.toList_some, List.mem_append, List.mem_singleton,
    or_true]

theorem mem_after_of_mem (isMember : message ∈ ring.queue place)
    (inRest : place = node → message ∈ rest) :
    message ∈ (ring.after next node status rest sent).queue place := by
  have updated : message ∈ Function.update ring.queue node rest place := by
    by_cases isNode : place = node
    · rw [isNode, Function.update_self]
      exact inRest isNode
    · rw [Function.update_of_ne isNode]
      exact isMember
  rw [after]
  by_cases isNext : place = next node
  · rw [isNext] at updated ⊢
    simp only [Function.update_self, List.mem_append]
    exact Or.inl updated
  · simp only [Function.update_of_ne isNext]
    exact updated

end MessageRing

end Rcgo.Foundation
