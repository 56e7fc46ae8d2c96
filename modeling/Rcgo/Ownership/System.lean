import Mathlib.Algebra.BigOperators.Group.Finset.Basic
import Rcgo.Composition.InstanceSet
import Rcgo.Foundation.Transition
import Rcgo.Storage.Kinship

/-!
# Heap links and current heaps

A heap other than that of a component is reached through a link.  `new` makes a
heap with its link, `move` and `merge` take the heap of a link away, and a
change statement makes it the current heap of the instance while its body runs.
The operations of `operation.cpp` on links, and the executors that carry them out
in any interleaving.
-/

namespace Rcgo.Ownership

open Rcgo.Composition Foundation Storage

/-- `heap_link_t`.  A link whose heap has been taken away has the heap `NULL`. -/
structure HeapLink where
  heap : Nat
  changeCount : Nat
  deriving DecidableEq, Repr

/-- The heaps, and the links the program has made, by their addresses. -/
structure LinkedHeaps where
  family : Family
  links : Nat → Option HeapLink

namespace LinkedHeaps

def setLink (s : LinkedHeaps) (hl : Nat) (link : HeapLink) : LinkedHeaps :=
  { s with links := Function.update s.links hl (some link) }

/-- `make_heap_link`, with the address that the allocator returns. -/
def makeHeapLink (s : LinkedHeaps) (heap hl : Nat) : LinkedHeaps :=
  s.setLink hl { heap := heap, changeCount := 0 }

/-- `NewOp::execute` for a heap type, in the current heap, with the addresses of
the new heap and of its link. -/
def newOp (current h hl : Nat) (storage : Heap) (s : LinkedHeaps) :
    Outcome FamilyFault LinkedHeaps := do
  let family ← (s.family.make h storage).insertChild current h
  pure ({ s with family := family }.makeHeapLink h hl)

/-- `MoveOp::execute`, and whether the new link is returned instead of `NULL`.
An argument at which there is no link is `NULL`. -/
def moveOp (depth current hl new : Nat) (s : LinkedHeaps) :
    Outcome FamilyFault (LinkedHeaps × Bool) :=
  match s.links hl with
  | none => pure (s, false)
  | some link =>
      if link.heap ≠ 0 ∧ link.changeCount = 0 then do
        let s := s.setLink hl { link with heap := 0 }
        let family ← s.family.removeFromParent depth link.heap
        let family ← family.insertChild current link.heap
        pure ({ s with family := family }.makeHeapLink link.heap new, true)
      else pure (s, false)

/-- `MergeOp::execute`, and whether the root is returned instead of `NULL`. -/
def mergeOp (depth current hl : Nat) (s : LinkedHeaps) :
    Outcome FamilyFault (LinkedHeaps × Bool) :=
  match s.links hl with
  | none => pure (s, false)
  | some link =>
      if link.heap ≠ 0 ∧ link.changeCount = 0 then do
        let s := s.setLink hl { link with heap := 0 }
        let family ← s.family.removeFromParent depth link.heap
        let family ← family.merge depth current link.heap
        pure ({ s with family := family }, true)
      else pure (s, false)

end LinkedHeaps

/-- How far `Change::execute` is: the count has been incremented, the old heap has
been saved, the heap of the link has been set, the old heap has been restored. -/
inductive Stage where
  | counted
  | saved (oldHeap : Nat)
  | inBody (oldHeap : Nat)
  | restored
  deriving DecidableEq, Repr

variable {ι κ : Type}

/-- A call that has not returned: `SetRestoreCurrentInstance::execute`, with the
link of the change statement in which its code is written, or `Change::execute`. -/
inductive Frame (ι : Type) where
  | instance (info : ι) (oldInfo : Option ι) (within : Option Nat)
  | change (hl : Nat) (stage : Stage)
  deriving DecidableEq, Repr

/-- An executor: the instance set it has locked, `current_info_`, the calls, the
last one first, and the bodies in the list of deferred ones. -/
structure Executor (ι : Type) where
  instanceSet : ι → Option ReceiverAccess
  currentInfo : Option ι
  frames : List (Frame ι)
  deferred : List (ι × Option Nat)

/-- The heaps, the heap that each `ComponentInfoBase` records, and the executors. -/
structure System (ι κ : Type) where
  heaps : LinkedHeaps
  heap : ι → Nat
  executors : κ → Executor ι

/-- What an executor does next. -/
inductive Event (ι : Type) where
  | begin (instanceSet : ι → Option ReceiverAccess)
  | finish
  | enter (info : ι)
  | leave
  | activate
  | runDeferred
  | use
  | countChange (hl : Nat)
  | saveHeap
  | setHeap
  | restoreHeap
  | uncountChange
  | new (h hl : Nat)
  | move (hl new : Nat) (succeeds : Bool)
  | merge (hl : Nat) (succeeds : Bool)

/-- The locks for two instance sets can be held at the same time. -/
def Compatible (left right : ι → Option ReceiverAccess) : Prop :=
  ∀ i, ¬ (left i = some .accessWrite ∧ ∃ access ∈ right i, .accessRead ≤ access) ∧
    ¬ (right i = some .accessWrite ∧ ∃ access ∈ left i, .accessRead ≤ access)

/-- The link of the change statement in which the code that runs is written. -/
def withinChange : List (Frame ι) → Option Nat
  | [] => none
  | .instance _ _ within :: _ => within
  | .change hl _ :: _ => some hl

/-- Code of a callable or of the body of a change statement runs. -/
def Running : List (Frame ι) → Prop
  | .instance _ _ _ :: _ => True
  | .change _ (.inBody _) :: _ => True
  | _ => False

namespace System

def frames (s : System ι κ) (e : κ) : List (Frame ι) :=
  (s.executors e).frames

/-- `ExecutorBase::heap`. -/
def currentHeap (s : System ι κ) (e : κ) : Option Nat :=
  (s.executors e).currentInfo.map s.heap

/-- `ComponentInfoBase::heap (Heap*)`. -/
def setHeap [DecidableEq ι] (s : System ι κ) (info : ι) (heap : Nat) : System ι κ :=
  { s with heap := Function.update s.heap info heap }

variable [DecidableEq κ]

def setExecutor (s : System ι κ) (e : κ) (executor : Executor ι) : System ι κ :=
  { s with executors := Function.update s.executors e executor }

def setFrames (s : System ι κ) (e : κ) (frames : List (Frame ι)) : System ι κ :=
  s.setExecutor e { s.executors e with frames := frames }

/-- The entry of `SetRestoreCurrentInstance::execute`. -/
def enter (s : System ι κ) (e : κ) (info : ι) (within : Option Nat) : System ι κ :=
  s.setExecutor e
    { s.executors e with
      currentInfo := some info
      frames := .instance info (s.executors e).currentInfo within :: s.frames e }

/-- The steps of the executors.  Code of an instance runs only in a transaction
that has the instance in its instance set, and transactions run at the same time
only where their locks allow it. -/
inductive Step [DecidableEq ι] : System ι κ → κ × Event ι → System ι κ → Prop where
  | begin {s : System ι κ} {e : κ} {instanceSet : ι → Option ReceiverAccess}
      (idle : s.frames e = []) (noneLocked : (s.executors e).instanceSet = fun _ => none)
      (compatible : ∀ other, other ≠ e → Compatible instanceSet (s.executors other).instanceSet) :
      Step s (e, .begin instanceSet)
        (s.setExecutor e { s.executors e with instanceSet := instanceSet })
  | finish {s : System ι κ} {e : κ} (idle : s.frames e = [])
      (noneDeferred : (s.executors e).deferred = []) :
      Step s (e, .finish) (s.setExecutor e { s.executors e with instanceSet := fun _ => none })
  | enter {s : System ι κ} {e : κ} {info : ι} (running : s.frames e = [] ∨ Running (s.frames e))
      (locked : (s.executors e).instanceSet info ≠ none) :
      Step s (e, .enter info) (s.enter e info none)
  | leave {s : System ι κ} {e : κ} {info : ι} {oldInfo : Option ι} {within : Option Nat}
      {rest : List (Frame ι)} (isTop : s.frames e = .instance info oldInfo within :: rest) :
      Step s (e, .leave)
        (s.setExecutor e { s.executors e with currentInfo := oldInfo, frames := rest })
  | activate {s : System ι κ} {e : κ} {info : ι} (running : Running (s.frames e))
      (isCurrent : (s.executors e).currentInfo = some info) :
      Step s (e, .activate)
        (s.setExecutor e
          { s.executors e with
            deferred := (info, withinChange (s.frames e)) :: (s.executors e).deferred })
  | runDeferred {s : System ι κ} {e : κ} {info : ι} {within : Option Nat}
      {rest : List (ι × Option Nat)} (idle : s.frames e = [])
      (isDeferred : (s.executors e).deferred = (info, within) :: rest) :
      Step s (e, .runDeferred)
        ((s.setExecutor e { s.executors e with deferred := rest }).enter e info within)
  | use {s : System ι κ} {e : κ} {family : Family} (running : Running (s.frames e))
      (same : Family.SameLinks s.heaps.family family) :
      Step s (e, .use) { s with heaps := { s.heaps with family := family } }
  | countChange {s : System ι κ} {e : κ} {hl : Nat} {link : HeapLink}
      (running : Running (s.frames e)) (isLink : s.heaps.links hl = some link) :
      Step s (e, .countChange hl)
        { s.setFrames e (.change hl .counted :: s.frames e) with
          heaps := s.heaps.setLink hl { link with changeCount := link.changeCount + 1 } }
  | saveHeap {s : System ι κ} {e : κ} {hl oldHeap : Nat} {rest : List (Frame ι)}
      (isTop : s.frames e = .change hl .counted :: rest)
      (isHeap : s.currentHeap e = some oldHeap) :
      Step s (e, .saveHeap) (s.setFrames e (.change hl (.saved oldHeap) :: rest))
  | setHeap {s : System ι κ} {e : κ} {hl oldHeap : Nat} {rest : List (Frame ι)} {info : ι}
      {link : HeapLink} (isTop : s.frames e = .change hl (.saved oldHeap) :: rest)
      (isCurrent : (s.executors e).currentInfo = some info)
      (isLink : s.heaps.links hl = some link) (rootRead : s.heaps.family.Live link.heap) :
      Step s (e, .setHeap)
        ((s.setFrames e (.change hl (.inBody oldHeap) :: rest)).setHeap info link.heap)
  | restoreHeap {s : System ι κ} {e : κ} {hl oldHeap : Nat} {rest : List (Frame ι)} {info : ι}
      (isTop : s.frames e = .change hl (.inBody oldHeap) :: rest)
      (isCurrent : (s.executors e).currentInfo = some info) :
      Step s (e, .restoreHeap)
        ((s.setFrames e (.change hl .restored :: rest)).setHeap info oldHeap)
  | uncountChange {s : System ι κ} {e : κ} {hl : Nat} {rest : List (Frame ι)} {link : HeapLink}
      (isTop : s.frames e = .change hl .restored :: rest)
      (isLink : s.heaps.links hl = some link) :
      Step s (e, .uncountChange)
        { s.setFrames e rest with
          heaps := s.heaps.setLink hl { link with changeCount := link.changeCount - 1 } }
  | new {s : System ι κ} {e : κ} {current h hl : Nat} {storage : Heap} {heaps : LinkedHeaps}
      (running : Running (s.frames e)) (isHeap : s.currentHeap e = some current)
      (heapFresh : h ≠ 0 ∧ ¬ s.heaps.family.Live h)
      (linkFresh : hl ≠ 0 ∧ s.heaps.links hl = none)
      (executes : s.heaps.newOp current h hl storage = .ok heaps) :
      Step s (e, .new h hl) { s with heaps := heaps }
  | move {s : System ι κ} {e : κ} {current hl new : Nat} {result : LinkedHeaps × Bool}
      (running : Running (s.frames e)) (isHeap : s.currentHeap e = some current)
      (linkFresh : new ≠ 0 ∧ s.heaps.links new = none)
      (executes : Outcome.Returns (fun depth => s.heaps.moveOp depth current hl new) result) :
      Step s (e, .move hl new result.2) { s with heaps := result.1 }
  | merge {s : System ι κ} {e : κ} {current hl : Nat} {result : LinkedHeaps × Bool}
      (running : Running (s.frames e)) (isHeap : s.currentHeap e = some current)
      (executes : Outcome.Returns (fun depth => s.heaps.mergeOp depth current hl) result) :
      Step s (e, .merge hl result.2) { s with heaps := result.1 }

/-- At the start each instance records its own heap, which has no parent, there
are no links, and the executors have done nothing. -/
structure Initial (own : ι → Nat) (s : System ι κ) : Prop where
  heap_eq : s.heap = own
  ownRoot : ∀ i, s.heaps.family.parentOf (own i) = some 0
  childless : Family.Linked s.heaps.family fun _ => []
  noLinks : ∀ hl, s.heaps.links hl = none
  idle : ∀ e, s.executors e =
    { instanceSet := fun _ => none, currentInfo := none, frames := [], deferred := [] }

def Run [DecidableEq ι] (own : ι → Nat)
    (transitions : List (Transition (System ι κ) (κ × Event ι))) : Prop :=
  ∃ start finish, Initial own start ∧ Trace Step start transitions finish

end System

end Rcgo.Ownership
