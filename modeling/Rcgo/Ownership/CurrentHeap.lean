import Rcgo.Ownership.Bracketing

/-!
# Allocations go to the current heap

The heap in which code allocates is that of the innermost change statement in
whose body it is written, or the own heap of its instance.  Two readers of one
instance can restore the wrong heap.
-/

namespace Rcgo.Ownership

open Rcgo.Composition Foundation Storage

variable {ι κ : Type}

/-- The heap in which the code that runs is to allocate. -/
def codeHeap (own : ι → Nat) (links : Nat → Option HeapLink) : List (Frame ι) → Option Nat
  | .instance info _ none :: _ => some (own info)
  | .instance _ _ (some hl) :: _ => some (heapOf links hl)
  | .change hl (.inBody _) :: _ => some (heapOf links hl)
  | _ => none

namespace System

/-- All code finds its heap as the current one, and an instance for which no body
of a change statement runs records the heap it was created with. -/
structure RightHeaps (own : ι → Nat) (s : System ι κ) : Prop where
  allocates : ∀ e h, codeHeap own s.heaps.links (s.frames e) = some h → s.currentHeap e = some h
  between : ∀ i, (∀ e, ¬ BodyRuns i (s.frames e)) → s.heap i = own i

variable [DecidableEq ι]

theorem Bracketed.rightHeaps {own : ι → Nat} {s : System ι κ} (bracketed : Bracketed own s)
    (tracks : Tracks s) : RightHeaps own s where
  allocates e h isCode := by
    have calls := tracks e
    have nested := bracketed.nested e
    cases isFrames : s.frames e with
    | nil =>
        rw [isFrames] at isCode
        cases isCode
    | cons frame rest =>
        rw [isFrames] at isCode calls nested
        cases frame with
        | «instance» info oldInfo within =>
            rcases nested with ⟨rfl, notEngaged, _⟩
            cases isCode
            have isInfo : s.infoOf e = some info := calls.1
            refine Option.map_eq_some_iff.mpr ⟨info, isInfo, ?_⟩
            apply bracketed.free
            intro other engaged
            by_cases same : other = e
            · rw [same, isFrames] at engaged
              exact notEngaged engaged
            · apply bracketed.alone info other e engaged (Ne.symm same)
              rw [isFrames]
              exact List.mem_cons_self
        | change hl stage =>
            cases stage with
            | inBody oldHeap =>
                cases isCode
                rcases calls.2.exists_owner calls.1 with ⟨info, isOwner⟩
                have isInfo : s.infoOf e = some info :=
                  (calls.2.owner_eq calls.1).symm.trans isOwner
                refine Option.map_eq_some_iff.mpr ⟨info, isInfo, ?_⟩
                have engaged : Engaged info (s.frames e) := by
                  rw [isFrames]
                  exact Or.inl ⟨isOwner, Option.some_ne_none oldHeap⟩
                rw [bracketed.recorded info e engaged, isFrames, heapUnder, if_pos isOwner]
            | counted => cases isCode
            | saved oldHeap => cases isCode
            | restored => cases isCode
  between i notRuns := by
    by_cases someone : ∃ e, Engaged i (s.frames e)
    · rcases someone with ⟨e, engaged⟩
      rw [bracketed.recorded i e engaged, heapUnder_of_not_bodyRuns (notRuns e)]
    · exact bracketed.free i fun e engaged => someone ⟨e, engaged⟩

/-- What all steps under the condition preserve. -/
structure Kept [DecidableEq κ] [Fintype κ] (own : ι → Nat) (s : System ι κ) : Prop where
  tracks : Tracks s
  counted : Counted s
  plain : Plain s
  bracketed : Bracketed own s

section Run

variable [DecidableEq κ] [Fintype κ] {own : ι → Nat}

theorem Initial.kept {s : System ι κ} (initial : Initial own s) : Kept own s := by
  have noFrames : ∀ e, s.frames e = [] := fun e => by rw [frames, initial.idle]
  refine ⟨?_, ?_, ?_, ?_, ?_, ?_, ?_⟩
  · intro e
    rw [noFrames]
    trivial
  · intro hl
    simp [changeCount, initial.noLinks, noFrames, countOf]
  · intro e
    rw [deferred, initial.idle]
    exact fun body isBody => absurd isBody List.not_mem_nil
  · intro e
    rw [noFrames]
    trivial
  · intro i e other engaged
    rw [noFrames] at engaged
    exact engaged.elim
  · intro i e engaged
    rw [noFrames] at engaged
    exact engaged.elim
  · exact fun i _ => congrFun initial.heap_eq i

theorem Kept.step {s s' : System ι κ} {x : κ × Event ι} (kept : Kept own s) (step : Step s x s')
    (exclusive : Exclusive ⟨s, x, s'⟩) : Kept own s' where
  tracks := kept.tracks.effect step.effect
  counted := kept.counted.effect step.effect
  plain := kept.plain.step step exclusive
  bracketed := kept.bracketed.step kept.tracks kept.counted kept.plain step exclusive

end Run

/-! ## Two readers of one instance -/

def oneInstance : System Unit (Fin 2) where
  heaps := { family := (Family.empty fun _ => 0).make 16 (Heap.external 0 0), links := fun _ => none }
  heap := fun _ => 16
  executors := fun _ =>
    { instanceSet := fun _ => none, currentInfo := none, frames := [], deferred := [] }

theorem oneInstance_initial : Initial (fun _ => 16) oneInstance where
  heap_eq := rfl
  ownRoot _ := rfl
  childless := by
    have empty : Family.Linked (Family.empty fun _ => 0) fun _ => [] :=
      { null := rfl
        lists := fun _ _ isNode => by cases isNode
        live := fun _ _ member => absurd member List.not_mem_nil
        nodup := fun _ => List.nodup_nil
        single := fun _ _ _ member => absurd member List.not_mem_nil
        parented := fun _ _ member => absurd member List.not_mem_nil
        ranked := ⟨fun _ => 0, fun _ _ member => absurd member List.not_mem_nil⟩ }
    exact empty.make _ (by decide) fun isLive => by
      rcases isLive with ⟨node, isNode⟩
      cases isNode
  noLinks _ := rfl
  idle _ := rfl

theorem compatible_none (instanceSet : Unit → Option ReceiverAccess) :
    Compatible instanceSet fun _ => none := by
  intro i
  simp

end System

end Rcgo.Ownership
