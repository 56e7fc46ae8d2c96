import Mathlib.Data.List.Pairwise
import Mathlib.Data.Set.Function
import Mathlib.Tactic.Common

/-!
# Maps in the order of their keys

A map as the list of its entries, with the keys in increasing order, as it is
iterated over.
-/

namespace Rcgo.Foundation

universe u v

/-- A map whose entries are in the order of their keys. -/
structure OrderedMap (κ : Type u) (α : Type v) [LT κ] where
  entries : List (κ × α)
  sorted : entries.Pairwise fun first second => first.1 < second.1

namespace OrderedMap

variable {κ : Type u} {α : Type v} [LT κ]

def empty : OrderedMap κ α where
  entries := []
  sorted := List.Pairwise.nil

def keys (map : OrderedMap κ α) : Set κ :=
  {key | ∃ value, (key, value) ∈ map.entries}

theorem not_mem_keys_empty (key : κ) : key ∉ (empty : OrderedMap κ α).keys := by
  rintro ⟨_, isEntry⟩
  exact absurd isEntry List.not_mem_nil

variable [LE κ] [DecidableLT κ] [Std.IsLinearOrder κ] [Std.LawfulOrderLT κ]

/-- The map with a value at a key, in place of what was there. -/
def insert (map : OrderedMap κ α) (key : κ) (value : α) : OrderedMap κ α where
  entries := map.entries.filter (fun entry => entry.1 < key) ++
    (key, value) :: map.entries.filter (fun entry => key < entry.1)
  sorted := by
    rw [List.pairwise_append, List.pairwise_cons]
    refine ⟨map.sorted.filter _, ⟨?_, map.sorted.filter _⟩, ?_⟩
    · intro entry isAbove
      exact of_decide_eq_true (List.mem_filter.mp isAbove).2
    · intro entry isBelow other isOther
      have below : entry.1 < key := of_decide_eq_true (List.mem_filter.mp isBelow).2
      rcases List.mem_cons.mp isOther with isNew | isAbove
      · rw [isNew]
        exact below
      · exact Std.lt_trans below (of_decide_eq_true (List.mem_filter.mp isAbove).2)

omit [DecidableLT κ] [Std.IsLinearOrder κ] in
theorem nodup_keys (map : OrderedMap κ α) : (map.entries.map Prod.fst).Nodup := by
  rw [List.Nodup, List.pairwise_map]
  refine map.sorted.imp ?_
  intro first second less same
  rw [same] at less
  exact Std.lt_irrefl less

variable {map : OrderedMap κ α} {key other : κ} {value : α}

theorem mem_insert {entry : κ × α} :
    entry ∈ (map.insert key value).entries ↔
      entry = (key, value) ∨ entry.1 ≠ key ∧ entry ∈ map.entries := by
  rw [insert, List.mem_append, List.mem_cons, List.mem_filter, List.mem_filter,
    decide_eq_true_eq, decide_eq_true_eq]
  constructor
  · rintro (⟨isEntry, below⟩ | isNew | ⟨isEntry, above⟩)
    · exact Or.inr ⟨Std.ne_of_lt below, isEntry⟩
    · exact Or.inl isNew
    · exact Or.inr ⟨(Std.ne_of_lt above).symm, isEntry⟩
  · rintro (isNew | ⟨different, isEntry⟩)
    · exact Or.inr (Or.inl isNew)
    · rcases Std.lt_trichotomy entry.1 key with below | same | above
      · exact Or.inl ⟨isEntry, below⟩
      · exact absurd same different
      · exact Or.inr (Or.inr ⟨isEntry, above⟩)

theorem mem_insert_of_new (isNew : key ∉ map.keys) {entry : κ × α} :
    entry ∈ (map.insert key value).entries ↔ entry = (key, value) ∨ entry ∈ map.entries := by
  rw [mem_insert]
  constructor
  · exact Or.imp_right And.right
  · rintro (isLast | isEntry)
    · exact Or.inl isLast
    · refine Or.inr ⟨fun same => isNew ⟨entry.2, ?_⟩, isEntry⟩
      rw [← same]
      exact isEntry

def insertAll (map : OrderedMap κ α) (entries : List (κ × α)) : OrderedMap κ α :=
  entries.foldl (fun map entry => map.insert entry.1 entry.2) map

theorem mem_insertAll {entries : List (κ × α)} (nodup : (entries.map Prod.fst).Nodup)
    (areNew : ∀ entry ∈ entries, entry.1 ∉ map.keys) {entry : κ × α} :
    entry ∈ (map.insertAll entries).entries ↔ entry ∈ map.entries ∨ entry ∈ entries := by
  induction entries generalizing map with
  | nil => simp [insertAll]
  | cons first rest inductionHypothesis =>
      rw [List.map_cons, List.nodup_cons] at nodup
      have isNew := areNew first List.mem_cons_self
      rw [insertAll, List.foldl_cons]
      change entry ∈ ((map.insert first.1 first.2).insertAll rest).entries ↔ _
      rw [inductionHypothesis nodup.2, mem_insert_of_new isNew, List.mem_cons]
      · constructor
        · rintro ((isFirst | isOld) | isRest)
          · exact Or.inr (Or.inl isFirst)
          · exact Or.inl isOld
          · exact Or.inr (Or.inr isRest)
        · rintro (isOld | isFirst | isRest)
          · exact Or.inl (Or.inr isOld)
          · exact Or.inl (Or.inl isFirst)
          · exact Or.inr isRest
      · rintro other isOther ⟨value, isEntry⟩
        rcases (mem_insert_of_new isNew).mp isEntry with isFirst | isOld
        · exact nodup.1 (List.mem_map.mpr ⟨other, isOther, (Prod.mk.inj isFirst).1⟩)
        · exact areNew other (List.mem_cons_of_mem _ isOther) ⟨value, isOld⟩

def find [DecidableEq κ] (map : OrderedMap κ α) (key : κ) : Option α :=
  (map.entries.find? fun entry => entry.1 = key).map Prod.snd

omit [LE κ] [DecidableLT κ] [Std.IsLinearOrder κ] [Std.LawfulOrderLT κ] in
theorem mem_of_find_eq_some [DecidableEq κ] (isFound : map.find key = some value) :
    (key, value) ∈ map.entries := by
  rcases Option.map_eq_some_iff.mp isFound with ⟨entry, isEntry, isValue⟩
  have isKey : entry.1 = key := by simpa using List.find?_some isEntry
  rw [← isKey, ← isValue]
  exact List.mem_of_find?_eq_some isEntry

omit [DecidableLT κ] [Std.IsLinearOrder κ] in
theorem find_eq_some [DecidableEq κ] (isEntry : (key, value) ∈ map.entries) :
    map.find key = some value := by
  rcases List.append_of_mem isEntry with ⟨front, back, isSplit⟩
  have sorted := map.sorted
  rw [isSplit] at sorted
  have notInFront : ∀ entry ∈ front, entry.1 ≠ key := fun entry isFront =>
    Std.ne_of_lt ((List.pairwise_append.mp sorted).2.2 entry isFront _ List.mem_cons_self)
  have notFound : front.find? (fun entry => entry.1 = key) = none := by
    simpa [List.find?_eq_none] using fun first second isFront => notInFront (first, second) isFront
  rw [find, isSplit, List.find?_append, notFound]
  simp

theorem find_insert [DecidableEq κ] (map : OrderedMap κ α) (key : κ) (value : α) (other : κ) :
    (map.insert key value).find other = if other = key then some value else map.find other := by
  by_cases isKey : other = key
  · rw [if_pos isKey, isKey]
    exact find_eq_some (mem_insert.mpr (Or.inl rfl))
  · rw [if_neg isKey]
    apply Option.ext
    intro found
    constructor
    · intro isFound
      rcases mem_insert.mp (mem_of_find_eq_some isFound) with isNew | isOld
      · exact absurd (Prod.mk.inj isNew).1 isKey
      · exact find_eq_some isOld.2
    · intro isFound
      exact find_eq_some (mem_insert.mpr (Or.inr ⟨isKey, mem_of_find_eq_some isFound⟩))

omit [DecidableLT κ] in
theorem mem_front {entry before : κ × α} {front back : List (κ × α)}
    (isSplit : map.entries = front ++ entry :: back) (isBefore : before ∈ map.entries)
    (less : before.1 < entry.1) : before ∈ front := by
  have sorted := map.sorted
  rw [isSplit] at isBefore sorted
  rcases List.mem_append.mp isBefore with isFront | isRest
  · exact isFront
  · rcases List.mem_cons.mp isRest with isSame | isBack
    · exact absurd (isSame ▸ less) Std.lt_irrefl
    · have above := (List.pairwise_cons.mp (List.pairwise_append.mp sorted).2.1).1 before isBack
      exact absurd (Std.lt_trans less above) Std.lt_irrefl

end OrderedMap

end Rcgo.Foundation
