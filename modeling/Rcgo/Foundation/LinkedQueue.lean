import Rcgo.Foundation.Chain
import Mathlib.Logic.Function.Basic

/-!
# Queues linked through their items

The link of an item says where the next item is, and also whether the item is on the
queue at all: it is null for an item that is not, and the last item has a sentinel.
A pointer to the link behind the last item lets an item be appended.
-/

namespace Rcgo.Foundation

universe u

inductive Link (α : Type u) where
  | null
  | last
  | item (value : α)
  deriving DecidableEq, Repr

/-- The member in which a link is stored. -/
inductive Slot (α : Type u) where
  | head
  | next (value : α)
  deriving DecidableEq, Repr

/-- The first link, the slot behind the last item and the links of all items. -/
structure LinkedQueue (α : Type u) where
  head : Link α
  tail : Slot α
  next : α → Link α

namespace LinkedQueue

variable {α : Type u}

def empty : LinkedQueue α :=
  ⟨.null, .head, fun _ => .null⟩

section Operations

variable [DecidableEq α]

def setNext (q : LinkedQueue α) (value : α) (link : Link α) : LinkedQueue α :=
  { q with next := Function.update q.next value link }

def write (q : LinkedQueue α) (link : Link α) : Slot α → LinkedQueue α
  | .head => { q with head := link }
  | .next value => q.setNext value link

/-- Append an item that is not on the queue. -/
def push (q : LinkedQueue α) (value : α) : LinkedQueue α :=
  if q.next value = .null then
    let q := q.write (.item value) q.tail
    let q := { q with tail := .next value }
    q.setNext value .last
  else
    q

def pop (q : LinkedQueue α) (value : α) : LinkedQueue α :=
  let q := { q with head := q.next value }
  let q := if q.head = .last then { q with head := .null, tail := .head } else q
  q.setNext value .null

end Operations

/-! ## What the links represent -/

def follow (q : LinkedQueue α) : Link α → Option (Link α)
  | .item value => some (q.next value)
  | _ => none

/-- An empty queue has a null link in front and no sentinel. -/
def start (q : LinkedQueue α) : Link α :=
  match q.head with
  | .null => .last
  | link => link

def slotBehind (items : List α) : Slot α :=
  match items.getLast? with
  | none => .head
  | some value => .next value

/-- The links lead through these items, and no other item has a link. -/
structure Represents (q : LinkedQueue α) (items : List α) : Prop where
  chain : Chain q.follow q.start (items.map .item) .last
  head : q.head ≠ .last
  tail : q.tail = slotBehind items
  nodup : items.Nodup
  linked : ∀ value, q.next value = .null ↔ value ∉ items

variable {q : LinkedQueue α} {items : List α} {value : α}

theorem empty_represents : (empty : LinkedQueue α).Represents [] where
  chain := rfl
  head := by
    intro isLast
    cases isLast
  tail := rfl
  nodup := List.nodup_nil
  linked _ := iff_of_true rfl List.not_mem_nil

theorem slotBehind_append_singleton (items : List α) (value : α) :
    slotBehind (items ++ [value]) = .next value := by
  rw [slotBehind, List.getLast?_concat]

theorem start_of_ne (notNull : q.head ≠ .null) : q.start = q.head := by
  unfold start
  split
  · next isNull => exact absurd isNull notNull
  · rfl

theorem start_of_item (isHead : q.head = .item value) : q.start = .item value := by
  rw [start, isHead]

theorem Represents.head_eq_null_iff (represents : q.Represents items) :
    q.head = .null ↔ items = [] := by
  have chain := represents.chain
  cases items with
  | nil =>
      refine iff_of_true ?_ rfl
      by_contra notNull
      have isLast : q.start = .last := chain
      exact represents.head ((start_of_ne notNull).symm.trans isLast)
  | cons first rest =>
      refine iff_of_false ?_ (List.cons_ne_nil first rest)
      intro isNull
      have isStart : q.start = .last := by rw [start, isNull]
      have isItem : q.start = .item first := chain.1
      rw [isStart] at isItem
      cases isItem

theorem Represents.head_eq_item (represents : q.Represents (value :: items)) :
    q.head = .item value := by
  have notNull : q.head ≠ .null := by
    rw [Ne, represents.head_eq_null_iff]
    exact List.cons_ne_nil value items
  have isItem : q.start = .item value := represents.chain.1
  exact (start_of_ne notNull).symm.trans isItem

theorem Represents.exists_cons (represents : q.Represents items) (isHead : q.head = .item value) :
    ∃ rest, items = value :: rest := by
  cases items with
  | nil =>
      rw [represents.head_eq_null_iff.mpr rfl] at isHead
      cases isHead
  | cons first rest =>
      rw [represents.head_eq_item, Link.item.injEq] at isHead
      exact ⟨rest, by rw [isHead]⟩

theorem follow_congr {other : LinkedQueue α} (same : other.next value = q.next value) :
    other.follow (.item value) = q.follow (.item value) :=
  congrArg some same

private theorem chain_congr {other : LinkedQueue α} {start target : Link α}
    (chain : Chain q.follow start (items.map .item) target)
    (same : ∀ value ∈ items, other.next value = q.next value) :
    Chain other.follow start (items.map .item) target := by
  apply chain.congr
  intro link isLink
  rcases List.mem_map.mp isLink with ⟨value, isItem, rfl⟩
  exact follow_congr (same value isItem)

variable [DecidableEq α]

theorem next_setNext_self (link : Link α) : (q.setNext value link).next value = link := by
  simp [setNext]

theorem next_setNext_other {other : α} (link : Link α) (different : other ≠ value) :
    (q.setNext value link).next other = q.next other := by
  simp [setNext, different]

theorem push_of_linked (isLinked : q.next value ≠ .null) : q.push value = q :=
  if_neg isLinked

section Push

variable (unlinked : q.next value = .null)

include unlinked

theorem tail_push : (q.push value).tail = .next value := by
  rw [push, if_pos unlinked]
  rfl

theorem next_push_self : (q.push value).next value = .last := by
  rw [push, if_pos unlinked]
  exact next_setNext_self .last

theorem head_push_of_head (isTail : q.tail = .head) : (q.push value).head = .item value := by
  rw [push, if_pos unlinked, isTail]
  rfl

theorem head_push_of_next {behind : α} (isTail : q.tail = .next behind) :
    (q.push value).head = q.head := by
  rw [push, if_pos unlinked, isTail]
  rfl

theorem next_push_behind {behind : α} (isTail : q.tail = .next behind)
    (different : behind ≠ value) : (q.push value).next behind = .item value := by
  rw [push, if_pos unlinked, isTail, next_setNext_other _ different]
  exact next_setNext_self (.item value)

theorem next_push_other {other : α} (different : other ≠ value)
    (notBehind : q.tail ≠ .next other) : (q.push value).next other = q.next other := by
  rw [push, if_pos unlinked, next_setNext_other _ different]
  cases isTail : q.tail with
  | head => rfl
  | next behind =>
      apply next_setNext_other
      intro same
      rw [same] at notBehind
      exact notBehind isTail

end Push

omit [DecidableEq α] in
theorem mem_of_slotBehind (isSlot : slotBehind items = .next value) : value ∈ items := by
  unfold slotBehind at isSlot
  split at isSlot
  · cases isSlot
  · next last isLast =>
    injection isSlot with same
    exact same ▸ List.mem_of_getLast? isLast

private theorem linked_push (represents : q.Represents items) (unlinked : q.next value = .null)
    (other : α) : (q.push value).next other = .null ↔ other ∉ items ++ [value] := by
  rw [List.mem_append, List.mem_singleton, not_or]
  by_cases same : other = value
  · rw [same, next_push_self unlinked]
    exact iff_of_false nofun fun absent => absent.2 rfl
  · by_cases isBehind : q.tail = .next other
    · rw [next_push_behind unlinked isBehind same]
      have isItem := mem_of_slotBehind (represents.tail.symm.trans isBehind)
      exact iff_of_false nofun fun absent => absent.1 isItem
    · rw [next_push_other unlinked same isBehind, represents.linked other]
      exact (and_iff_left same).symm

private theorem chain_push (represents : q.Represents items) (absent : value ∉ items) :
    Chain (q.push value).follow (q.push value).start ((items ++ [value]).map .item) .last := by
  have unlinked : q.next value = .null := (represents.linked value).mpr absent
  have followLast : (q.push value).follow (.item value) = some .last :=
    congrArg some (next_push_self unlinked)
  have isTail := represents.tail
  rw [List.map_append, List.map_singleton]
  rcases List.eq_nil_or_concat items with isEmpty | ⟨before, behind, isList⟩
  · rw [isEmpty] at isTail ⊢
    rw [start_of_item (head_push_of_head unlinked isTail)]
    exact ⟨rfl, .last, followLast, rfl⟩
  · rw [List.concat_eq_append] at isList
    have nodup := represents.nodup
    have chain := represents.chain
    rw [isList] at isTail chain nodup absent ⊢
    rw [slotBehind_append_singleton] at isTail
    rw [List.map_append, List.map_singleton] at chain ⊢
    have isNotValue : ∀ other ∈ before ++ [behind], other ≠ value :=
      fun other isOther same => absent (same ▸ isOther)
    have different := isNotValue behind (List.mem_append_right _ List.mem_cons_self)
    rcases Chain.append_iff.mp chain with ⟨middle, chainBefore, isMiddle, _⟩
    have unchanged : ∀ other ∈ before, (q.push value).next other = q.next other := by
      intro other isBefore
      apply next_push_other unlinked (isNotValue other (List.mem_append_left _ isBefore))
      intro isBehind
      rw [isTail, Slot.next.injEq] at isBehind
      rw [isBehind] at nodup
      exact (List.nodup_append.mp nodup).2.2 other isBefore other (List.mem_singleton_self other) rfl
    have sameStart : (q.push value).start = q.start := by
      rw [start, start, head_push_of_next unlinked isTail]
    have throughBehind :
        Chain (q.push value).follow (q.push value).start (before.map Link.item ++ [Link.item behind])
          (.item value) := by
      rw [sameStart]
      apply (isMiddle ▸ chain_congr chainBefore unchanged).append_singleton
      exact congrArg some (next_push_behind unlinked isTail different)
    exact throughBehind.append_singleton (Link.item value) followLast

theorem Represents.push_of_not_mem (represents : q.Represents items) (absent : value ∉ items) :
    (q.push value).Represents (items ++ [value]) := by
  have unlinked : q.next value = .null := (represents.linked value).mpr absent
  refine ⟨chain_push represents absent, ?_, ?_, ?_, linked_push represents unlinked⟩
  · cases isTail : q.tail with
    | head =>
        rw [head_push_of_head unlinked isTail]
        exact nofun
    | next behind =>
        rw [head_push_of_next unlinked isTail]
        exact represents.head
  · rw [tail_push unlinked, slotBehind_append_singleton]
  · rw [← List.concat_eq_append]
    exact represents.nodup.concat absent

theorem next_pop_self (q : LinkedQueue α) (value : α) : (q.pop value).next value = .null := by
  rw [pop]
  exact next_setNext_self .null

theorem next_pop_other {other : α} (different : other ≠ value) :
    (q.pop value).next other = q.next other := by
  rw [pop]
  apply (next_setNext_other .null different).trans
  split <;> rfl

theorem head_pop_of_last (isNext : q.next value = .last) :
    (q.pop value).head = .null ∧ (q.pop value).tail = .head := by
  rw [pop]
  simp [isNext, setNext]

theorem head_pop_of_item {second : α} (isNext : q.next value = .item second) :
    (q.pop value).head = .item second ∧ (q.pop value).tail = q.tail := by
  rw [pop]
  simp [isNext, setNext]

private theorem linked_pop (represents : q.Represents (value :: items)) (other : α) :
    (q.pop value).next other = .null ↔ other ∉ items := by
  by_cases same : other = value
  · rw [same]
    exact iff_of_true (next_pop_self q value) (List.nodup_cons.mp represents.nodup).1
  · rw [next_pop_other same, represents.linked other, List.mem_cons, not_or]
    exact and_iff_right same

theorem Represents.pop (represents : q.Represents (value :: items)) :
    (q.pop value).Represents items := by
  have nodup := List.nodup_cons.mp represents.nodup
  have linked := linked_pop represents
  rcases represents.chain with ⟨_, successor, isNext, chain⟩
  have isSuccessor : q.next value = successor := Option.some.inj isNext
  cases items with
  | nil =>
      have isLast : successor = .last := chain
      rcases head_pop_of_last (isSuccessor.trans isLast) with ⟨isHead, isTail⟩
      refine ⟨?_, ?_, isTail, nodup.2, linked⟩
      · show (q.pop value).start = .last
        rw [start, isHead]
      · rw [isHead]
        exact nofun
  | cons second rest =>
      have isSecond : successor = .item second := chain.1
      rcases head_pop_of_item (isSuccessor.trans isSecond) with ⟨isHead, isTail⟩
      refine ⟨?_, ?_, ?_, nodup.2, linked⟩
      · rw [start_of_item isHead, ← isSecond]
        apply chain_congr chain
        intro other isOther
        exact next_pop_other fun same => nodup.1 (same ▸ isOther)
      · rw [isHead]
        exact nofun
      · rw [isTail, represents.tail]
        rfl

theorem Represents.push (represents : q.Represents items) (value : α) :
    (q.push value).Represents (if value ∈ items then items else items ++ [value]) := by
  split
  · next isItem =>
    have isLinked : q.next value ≠ .null :=
      fun unlinked => (represents.linked value).mp unlinked isItem
    rw [push_of_linked isLinked]
    exact represents
  · next absent => exact represents.push_of_not_mem absent

theorem Represents.foldl_push (represents : q.Represents items) (values : List α) :
    ∃ queue, (values.foldl LinkedQueue.push q).Represents queue ∧
      ∀ value, value ∈ items ∨ value ∈ values → value ∈ queue := by
  induction values generalizing q items with
  | nil => exact ⟨items, represents, fun _ isMember => isMember.resolve_right List.not_mem_nil⟩
  | cons first rest inductionHypothesis =>
      rcases inductionHypothesis (represents.push first) with ⟨queue, isQueue, arePushed⟩
      refine ⟨queue, isQueue, ?_⟩
      intro value isMember
      apply arePushed
      grind

end LinkedQueue

end Rcgo.Foundation
