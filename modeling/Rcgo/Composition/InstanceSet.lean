import Mathlib.Order.Basic
import Mathlib.Order.Lattice
import Mathlib.Data.List.Basic
import Mathlib.Tactic.Common

/-!
# Instance sets

A transaction locks the instances it may touch.  The set of them is a
`std::map` from instances to the strongest access that was requested, so it
is modelled by an association list whose keys increase strictly.
-/

namespace Rcgo.Composition

/-- How a phase of a transition uses the state of its receiver. -/
inductive ReceiverAccess where
  | accessNone
  | accessRead
  | accessWrite
  deriving DecidableEq, Repr

namespace ReceiverAccess

/-- The position of the enumerator in its declaration. -/
def rank : ReceiverAccess → Nat
  | accessNone => 0
  | accessRead => 1
  | accessWrite => 2

theorem rank_injective : Function.Injective rank := by
  intro left right same
  cases left <;> cases right <;> simp_all [rank]

instance : LinearOrder ReceiverAccess :=
  LinearOrder.lift' rank rank_injective

theorem le_iff_rank {left right : ReceiverAccess} :
    left ≤ right ↔ left.rank ≤ right.rank :=
  Iff.rfl

@[simp]
theorem accessWrite_le_iff {access : ReceiverAccess} :
    accessWrite ≤ access ↔ access = accessWrite := by
  cases access <;> simp [le_iff_rank, rank]

end ReceiverAccess

/-- Instances are compared by address, as `std::map` compares its keys. -/
abbrev InstanceId := Nat

/-- An element of the map: `InstanceSet::value_type`. -/
abbrev InstanceEntry := InstanceId × ReceiverAccess

/-- `InstanceSet::insert` on the sorted entries: a new key is inserted in
order, a present key keeps the larger of the two accesses. -/
def insertEntry (v : InstanceEntry) : List InstanceEntry → List InstanceEntry
  | [] => [v]
  | entry :: rest =>
      if v.1 < entry.1 then
        v :: entry :: rest
      else if v.1 = entry.1 then
        (entry.1, max entry.2 v.2) :: rest
      else
        entry :: insertEntry v rest

private theorem key_of_mem_insertEntry
    {v entry : InstanceEntry} :
    ∀ {entries : List InstanceEntry},
      entry ∈ insertEntry v entries →
        entry.1 = v.1 ∨ ∃ old ∈ entries, old.1 = entry.1
  | [], member => by
      simp only [insertEntry, List.mem_singleton] at member
      exact Or.inl (by rw [member])
  | head :: rest, member => by
      unfold insertEntry at member
      split at member
      · rcases List.mem_cons.mp member with isNew | old
        · exact Or.inl (by rw [isNew])
        · exact Or.inr ⟨entry, old, rfl⟩
      · split at member
        · rcases List.mem_cons.mp member with merged | old
          · exact Or.inr ⟨head, List.mem_cons_self, by rw [merged]⟩
          · exact Or.inr ⟨entry, List.mem_cons_of_mem _ old, rfl⟩
        · rcases List.mem_cons.mp member with isHead | later
          · exact Or.inr ⟨head, List.mem_cons_self, by rw [isHead]⟩
          · rcases key_of_mem_insertEntry later with isNew | ⟨old, inRest, same⟩
            · exact Or.inl isNew
            · exact Or.inr ⟨old, List.mem_cons_of_mem _ inRest, same⟩

theorem insertEntry_sorted
    (v : InstanceEntry) {entries : List InstanceEntry}
    (sorted : entries.Pairwise fun left right => left.1 < right.1) :
    (insertEntry v entries).Pairwise fun left right => left.1 < right.1 := by
  induction entries with
  | nil =>
      exact List.pairwise_singleton _ _
  | cons head rest inductionHypothesis =>
      have headBelow := (List.pairwise_cons.mp sorted).1
      have restSorted := (List.pairwise_cons.mp sorted).2
      unfold insertEntry
      split
      · next below =>
        refine List.pairwise_cons.mpr ⟨?_, sorted⟩
        intro entry member
        rcases List.mem_cons.mp member with isHead | inRest
        · rw [isHead]
          exact below
        · exact Nat.lt_trans below (headBelow entry inRest)
      · next notBelow =>
        split
        · exact List.pairwise_cons.mpr ⟨headBelow, restSorted⟩
        · next different =>
          refine List.pairwise_cons.mpr ⟨?_, inductionHypothesis restSorted⟩
          intro entry member
          show head.1 < entry.1
          rcases key_of_mem_insertEntry member with isNew | ⟨old, inRest, same⟩
          · rw [isNew]
            exact lt_of_le_of_ne (not_lt.mp notBelow) (Ne.symm different)
          · rw [← same]
            exact headBelow old inRest

/-- `InstanceSet`: the strongest access requested for each instance. -/
structure InstanceSet where
  entries : List InstanceEntry
  sorted : entries.Pairwise fun left right => left.1 < right.1
  deriving DecidableEq

namespace InstanceSet

def empty : InstanceSet :=
  ⟨[], List.Pairwise.nil⟩

/-- `InstanceSet::insert`. -/
def insert (s : InstanceSet) (v : InstanceEntry) : InstanceSet :=
  ⟨insertEntry v s.entries, insertEntry_sorted v s.sorted⟩

/-- `InstanceSet::add_union`. -/
def addUnion (s other : InstanceSet) : InstanceSet :=
  other.entries.foldl insert s

/-- One pass of the loop of `is_compatible` over the second map while the
first iterator rests on `p1`; `next` is the rest of the walk once the first
iterator advances. -/
def advance (p1 : InstanceEntry) (next : List InstanceEntry → Bool) :
    List InstanceEntry → Bool
  | [] => true
  | p2 :: rest2 =>
      if p1 = p2 ∧ p1.2 = .accessWrite then
        false
      else if p1.1 < p2.1 then
        next (p2 :: rest2)
      else if p1.1 > p2.1 then
        advance p1 next rest2
      else
        next rest2

/-- The simultaneous walk of `InstanceSet::is_compatible`. -/
def isCompatibleEntries : List InstanceEntry → List InstanceEntry → Bool
  | [] => fun _ => true
  | p1 :: rest1 => advance p1 (isCompatibleEntries rest1)

/-- `InstanceSet::is_compatible`. -/
def isCompatible (s other : InstanceSet) : Bool :=
  isCompatibleEntries s.entries other.entries

/-- The set grants at least `access` to the instance. -/
def Covers (s : InstanceSet) (inst : InstanceId) (access : ReceiverAccess) : Prop :=
  ∃ granted, (inst, granted) ∈ s.entries ∧ access ≤ granted

end InstanceSet

private theorem insertEntry_covers_new (v : InstanceEntry) :
    ∀ entries : List InstanceEntry,
      ∃ granted, (v.1, granted) ∈ insertEntry v entries ∧ v.2 ≤ granted
  | [] => ⟨v.2, by simp [insertEntry], le_rfl⟩
  | head :: rest => by
      unfold insertEntry
      split
      · exact ⟨v.2, List.mem_cons_self, le_rfl⟩
      · split
        · next same =>
          exact ⟨max head.2 v.2, by rw [same]; exact List.mem_cons_self,
            le_max_right _ _⟩
        · obtain ⟨granted, member, enough⟩ := insertEntry_covers_new v rest
          exact ⟨granted, List.mem_cons_of_mem _ member, enough⟩

private theorem insertEntry_covers_old
    (v : InstanceEntry) {inst : InstanceId} {granted : ReceiverAccess} :
    ∀ {entries : List InstanceEntry},
      (inst, granted) ∈ entries →
        ∃ larger, (inst, larger) ∈ insertEntry v entries ∧ granted ≤ larger
  | [], member => absurd member List.not_mem_nil
  | head :: rest, member => by
      unfold insertEntry
      split
      · exact ⟨granted, List.mem_cons_of_mem _ member, le_rfl⟩
      · split
        · rcases List.mem_cons.mp member with isHead | inRest
          · subst isHead
            exact ⟨max granted v.2, List.mem_cons_self, le_max_left _ _⟩
          · exact ⟨granted, List.mem_cons_of_mem _ inRest, le_rfl⟩
        · rcases List.mem_cons.mp member with isHead | inRest
          · subst isHead
            exact ⟨granted, List.mem_cons_self, le_rfl⟩
          · obtain ⟨larger, found, enough⟩ := insertEntry_covers_old v inRest
            exact ⟨larger, List.mem_cons_of_mem _ found, enough⟩

namespace InstanceSet

theorem covers_insert_self (s : InstanceSet) (v : InstanceEntry) :
    (s.insert v).Covers v.1 v.2 :=
  insertEntry_covers_new v s.entries

theorem Covers.insert
    {s : InstanceSet} {inst : InstanceId} {access : ReceiverAccess}
    (covered : s.Covers inst access) (v : InstanceEntry) :
    (s.insert v).Covers inst access := by
  obtain ⟨granted, member, enough⟩ := covered
  obtain ⟨larger, found, grown⟩ := insertEntry_covers_old v member
  exact ⟨larger, found, enough.trans grown⟩

theorem Covers.foldl_insert
    {s : InstanceSet} {inst : InstanceId} {access : ReceiverAccess}
    (covered : s.Covers inst access) :
    ∀ entries : List InstanceEntry,
      (entries.foldl InstanceSet.insert s).Covers inst access
  | [] => covered
  | v :: rest => (covered.insert v).foldl_insert rest

theorem Covers.addUnion_left
    {s : InstanceSet} {inst : InstanceId} {access : ReceiverAccess}
    (covered : s.Covers inst access) (other : InstanceSet) :
    (s.addUnion other).Covers inst access :=
  covered.foldl_insert other.entries

theorem covers_foldl_insert_of_mem
    {inst : InstanceId} {granted : ReceiverAccess} :
    ∀ (entries : List InstanceEntry) (s : InstanceSet),
      (inst, granted) ∈ entries →
        (entries.foldl InstanceSet.insert s).Covers inst granted
  | [], _, member => absurd member List.not_mem_nil
  | v :: rest, s, member => by
      rcases List.mem_cons.mp member with isHead | inRest
      · subst isHead
        exact (covers_insert_self s (inst, granted)).foldl_insert rest
      · exact covers_foldl_insert_of_mem rest (s.insert v) inRest

theorem Covers.mono
    {s : InstanceSet} {inst : InstanceId} {access weaker : ReceiverAccess}
    (covered : s.Covers inst access) (below : weaker ≤ access) :
    s.Covers inst weaker := by
  obtain ⟨granted, member, enough⟩ := covered
  exact ⟨granted, member, below.trans enough⟩

theorem Covers.addUnion_right
    {other : InstanceSet} {inst : InstanceId} {access : ReceiverAccess}
    (covered : other.Covers inst access) (s : InstanceSet) :
    (s.addUnion other).Covers inst access := by
  obtain ⟨granted, member, enough⟩ := covered
  exact (covers_foldl_insert_of_mem other.entries s member).mono enough

theorem covers_write_iff {s : InstanceSet} {inst : InstanceId} :
    s.Covers inst .accessWrite ↔ (inst, ReceiverAccess.accessWrite) ∈ s.entries := by
  constructor
  · rintro ⟨granted, member, enough⟩
    rwa [ReceiverAccess.accessWrite_le_iff.mp enough] at member
  · intro member
    exact ⟨_, member, le_rfl⟩

private theorem advance_false_of_mem
    {inst : InstanceId} {next : List InstanceEntry → Bool} :
    ∀ {entries : List InstanceEntry},
      (entries.Pairwise fun left right => left.1 < right.1) →
      (inst, ReceiverAccess.accessWrite) ∈ entries →
        advance (inst, .accessWrite) next entries = false
  | [], _, member => absurd member List.not_mem_nil
  | head :: rest, sorted, member => by
      unfold advance
      rcases List.mem_cons.mp member with isHead | inRest
      · simp [isHead]
      · have below : head.1 < inst :=
          (List.pairwise_cons.mp sorted).1 _ inRest
        have different : (inst, ReceiverAccess.accessWrite) ≠ head := by
          intro same
          rw [← same] at below
          exact Nat.lt_irrefl _ below
        have notAbove : ¬ inst < head.1 := Nat.lt_asymm below
        simp only [different, false_and, if_false, notAbove, below, if_true]
        exact advance_false_of_mem (List.pairwise_cons.mp sorted).2 inRest

private theorem advance_false_of_next
    {p1 : InstanceEntry} {next : List InstanceEntry → Bool}
    {inst : InstanceId} (later : p1.1 < inst)
    (nextFalse :
      ∀ entries : List InstanceEntry,
        (entries.Pairwise fun left right => left.1 < right.1) →
        (inst, ReceiverAccess.accessWrite) ∈ entries → next entries = false) :
    ∀ {entries : List InstanceEntry},
      (entries.Pairwise fun left right => left.1 < right.1) →
      (inst, ReceiverAccess.accessWrite) ∈ entries →
        advance p1 next entries = false
  | [], _, member => absurd member List.not_mem_nil
  | head :: rest, sorted, member => by
      unfold advance
      split
      · rfl
      · split
        · exact nextFalse _ sorted member
        · next notBelow =>
          have inRest : (inst, ReceiverAccess.accessWrite) ∈ rest := by
            rcases List.mem_cons.mp member with isHead | inRest
            · rw [← isHead] at notBelow
              exact absurd later notBelow
            · exact inRest
          have restSorted := (List.pairwise_cons.mp sorted).2
          split
          · exact advance_false_of_next later nextFalse restSorted inRest
          · exact nextFalse _ restSorted inRest

private theorem isCompatibleEntries_false
    {inst : InstanceId} :
    ∀ {left right : List InstanceEntry},
      (left.Pairwise fun l r => l.1 < r.1) →
      (right.Pairwise fun l r => l.1 < r.1) →
      (inst, ReceiverAccess.accessWrite) ∈ left →
      (inst, ReceiverAccess.accessWrite) ∈ right →
        isCompatibleEntries left right = false
  | [], _, _, _, member, _ => absurd member List.not_mem_nil
  | p1 :: rest1, _, leftSorted, rightSorted, leftMember, rightMember => by
      rw [isCompatibleEntries]
      rcases List.mem_cons.mp leftMember with isHead | inRest
      · rw [← isHead]
        exact advance_false_of_mem rightSorted rightMember
      · have later := (List.pairwise_cons.mp leftSorted).1 _ inRest
        refine advance_false_of_next later ?_ rightSorted rightMember
        intro entries sorted member
        exact
          isCompatibleEntries_false
            (List.pairwise_cons.mp leftSorted).2 sorted inRest member

theorem isCompatible_eq_false
    {s other : InstanceSet} {inst : InstanceId}
    (left : s.Covers inst .accessWrite)
    (right : other.Covers inst .accessWrite) :
    s.isCompatible other = false :=
  isCompatibleEntries_false s.sorted other.sorted
    (covers_write_iff.mp left) (covers_write_iff.mp right)

/-! ## Positions in an instance set -/

theorem mem_take_succ
    {entries : List InstanceEntry} {pos : Nat} {entry other : InstanceEntry}
    (found : entries[pos]? = some entry) :
    other ∈ entries.take (pos + 1) ↔ other ∈ entries.take pos ∨ other = entry := by
  rw [List.take_add_one, found, List.mem_append, Option.toList_some, List.mem_singleton]

theorem mem_drop
    {entries : List InstanceEntry} {pos : Nat} {entry other : InstanceEntry}
    (found : entries[pos]? = some entry) :
    other ∈ entries.drop pos ↔ other = entry ∨ other ∈ entries.drop (pos + 1) := by
  obtain ⟨inRange, rfl⟩ := List.getElem?_eq_some_iff.mp found
  rw [List.drop_eq_getElem_cons inRange, List.mem_cons]

theorem not_mem_take
    (set : InstanceSet) {pos : Nat} {inst : InstanceId} {access other : ReceiverAccess}
    (found : set.entries[pos]? = some (inst, access)) :
    (inst, other) ∉ set.entries.take pos := by
  intro member
  obtain ⟨inRange, isEntry⟩ := List.getElem?_eq_some_iff.mp found
  obtain ⟨k, below, earlier⟩ := List.mem_take_iff_getElem.mp member
  have sorted := List.pairwise_iff_getElem.mp set.sorted k pos (by omega) inRange (by omega)
  rw [isEntry, earlier] at sorted
  exact Nat.lt_irrefl _ sorted

theorem lt_of_mem_take
    (set : InstanceSet) {pos : Nat} {entry earlier : InstanceEntry}
    (found : set.entries[pos]? = some entry) (member : earlier ∈ set.entries.take pos) :
    earlier.1 < entry.1 := by
  obtain ⟨inRange, isEntry⟩ := List.getElem?_eq_some_iff.mp found
  obtain ⟨k, below, isEarlier⟩ := List.mem_take_iff_getElem.mp member
  have sorted := List.pairwise_iff_getElem.mp set.sorted k pos (by omega) inRange (by omega)
  rw [isEntry, isEarlier] at sorted
  exact sorted

theorem not_mem_drop
    (set : InstanceSet) {pos : Nat} {inst : InstanceId} {access other : ReceiverAccess}
    (found : set.entries[pos]? = some (inst, access)) :
    (inst, other) ∉ set.entries.drop (pos + 1) := by
  intro member
  obtain ⟨inRange, isEntry⟩ := List.getElem?_eq_some_iff.mp found
  obtain ⟨k, inDrop, later⟩ := List.mem_drop_iff_getElem.mp member
  have sorted :=
    List.pairwise_iff_getElem.mp set.sorted pos (pos + 1 + k) inRange (by omega) (by omega)
  rw [isEntry, later] at sorted
  exact Nat.lt_irrefl _ sorted

end InstanceSet

end Rcgo.Composition
