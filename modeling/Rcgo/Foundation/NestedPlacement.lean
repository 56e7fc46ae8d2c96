import Rcgo.Foundation.Placement
import Mathlib.Algebra.BigOperators.Fin
import Mathlib.Algebra.BigOperators.Group.Finset.Basic
import Mathlib.Order.Interval.Finset.Nat

/-!
# Parts inside of parts

A whole has parts at offsets, each of them is a whole with parts again, and a path of
keys leads to a part inside.  Where each whole holds its parts apart and inside, so
it does with all parts inside, and what is marked has an address of its own.
-/

namespace Rcgo.Foundation

universe u v

variable {w : Nat} {τ : Type u} {κ : Type v}

/-- The part at the end of a path, with its offset in the whole. -/
def descend (parts : τ → κ → Option (BitVec w × τ)) : τ → List κ → Option (BitVec w × τ)
  | whole, [] => some (0#w, whole)
  | whole, key :: rest => do
      let (offset, part) ← parts whole key
      let (inner, last) ← descend parts part rest
      some (offset + inner, last)

section Paths

variable {parts : τ → κ → Option (BitVec w × τ)} {whole part last : τ} {offset inner : BitVec w}
  {key : κ} {path rest : List κ}

theorem descend_cons (isPart : parts whole key = some (offset, part))
    (isLast : descend parts part rest = some (inner, last)) :
    descend parts whole (key :: rest) = some (offset + inner, last) := by
  simp [descend, isPart, isLast]

theorem exists_of_descend_cons (isLast : descend parts whole (key :: rest) = some (inner, last)) :
    ∃ offset part below, parts whole key = some (offset, part) ∧
      descend parts part rest = some (below, last) ∧ inner = offset + below := by
  simp only [descend, Option.bind_eq_bind, Option.bind_eq_some_iff, Option.some.injEq,
    Prod.mk.injEq, Prod.exists] at isLast
  obtain ⟨offset, part, isPart, below, _, isBelow, isSum, rfl⟩ := isLast
  exact ⟨offset, part, below, isPart, isBelow, isSum.symm⟩

theorem descend_append (isPart : descend parts whole path = some (offset, part))
    (isLast : descend parts part rest = some (inner, last)) :
    descend parts whole (path ++ rest) = some (offset + inner, last) := by
  induction path generalizing whole offset with
  | nil =>
      rw [descend, Option.some.injEq, Prod.mk.injEq] at isPart
      rw [← isPart.1, BitVec.zero_add, isPart.2]
      exact isLast
  | cons key path inductionHypothesis =>
      obtain ⟨first, between, below, isBetween, isBelow, isSum⟩ := exists_of_descend_cons isPart
      rw [isSum, BitVec.add_assoc]
      exact descend_cons isBetween (inductionHypothesis isBelow)

theorem exists_of_descend_append
    (isLast : descend parts whole (path ++ rest) = some (inner, last)) :
    ∃ offset part below, descend parts whole path = some (offset, part) ∧
      descend parts part rest = some (below, last) ∧ inner = offset + below := by
  induction path generalizing whole inner with
  | nil => exact ⟨0#w, whole, inner, rfl, isLast, (BitVec.zero_add inner).symm⟩
  | cons key path inductionHypothesis =>
      obtain ⟨first, between, below, isBetween, isBelow, isSum⟩ := exists_of_descend_cons isLast
      obtain ⟨offset, part, above, isPart, isAbove, isRest⟩ := inductionHypothesis isBelow
      refine ⟨first + offset, part, above, descend_cons isBetween isPart, isAbove, ?_⟩
      rw [isSum, isRest, BitVec.add_assoc]

theorem not_prefix_of_leaf {other : List κ}
    (isPart : descend parts whole path = some (offset, part)) (isLeaf : ∀ key, parts part key = none)
    (isOther : descend parts whole other = some (inner, last)) (different : path ≠ other) :
    ¬path <+: other := by
  rintro ⟨below, rfl⟩
  cases below with
  | nil => exact different (List.append_nil path).symm
  | cons key rest =>
      rcases exists_of_descend_append isOther with ⟨_, between, _, isBetween, isBelow, _⟩
      rw [isPart, Option.some.injEq, Prod.mk.injEq] at isBetween
      rcases exists_of_descend_cons isBelow with ⟨_, _, _, isFirst, _, _⟩
      rw [← isBetween.2, isLeaf key] at isFirst
      cases isFirst

end Paths

/-! ## Parts that are held apart -/

theorem disjoint_bytesAt_add {first size second otherSize : Nat} (distance : Nat)
    (apart : Disjoint (bytesAt first size) (bytesAt second otherSize)) :
    Disjoint (bytesAt (distance + first) size) (bytesAt (distance + second) otherSize) := by
  rw [Set.disjoint_left] at apart ⊢
  intro byte isFirst isSecond
  refine apart (a := byte - distance) ?_ ?_
  · exact ⟨by have := isFirst.1; omega, by have := isFirst.1; have := isFirst.2; omega⟩
  · exact ⟨by have := isSecond.1; omega, by have := isSecond.1; have := isSecond.2; omega⟩

theorem sum_le_of_apart {sizes : List Nat} {starts : Nat → Nat} {whole : Nat}
    (inside : ∀ (i : Nat) (isItem : i < sizes.length), starts i + sizes[i] ≤ whole)
    (apart : ∀ (i j : Nat) (isItem : i < sizes.length) (isOther : j < sizes.length), i ≠ j →
      Disjoint (bytesAt (starts i) sizes[i]) (bytesAt (starts j) sizes[j])) :
    sizes.sum ≤ whole := by
  let taken : Fin sizes.length → Finset Nat := fun i => Finset.Ico (starts i) (starts i + sizes[i])
  have areApart : (↑(Finset.univ : Finset (Fin sizes.length)) : Set _).PairwiseDisjoint taken := by
    intro i _ j _ different
    rw [Function.onFun, Finset.disjoint_left]
    intro byte isFirst isSecond
    have disjoint := apart i j i.isLt j.isLt (Fin.val_ne_of_ne different)
    exact Set.disjoint_left.mp disjoint (Finset.mem_Ico.mp isFirst) (Finset.mem_Ico.mp isSecond)
  have areInside : Finset.univ.biUnion taken ⊆ Finset.range whole := by
    intro byte isTaken
    obtain ⟨i, _, isByte⟩ := Finset.mem_biUnion.mp isTaken
    have isInside : starts i + sizes[i] ≤ whole := inside i i.isLt
    have isBelow : byte < starts i + sizes[i] := (Finset.mem_Ico.mp isByte).2
    exact Finset.mem_range.mpr (by omega)
  calc sizes.sum = ∑ i : Fin sizes.length, sizes[i] := (Fin.sum_univ_getElem sizes).symm
    _ = ∑ i, (taken i).card := by simp [taken]
    _ = (Finset.univ.biUnion taken).card := (Finset.card_biUnion areApart).symm
    _ ≤ (Finset.range whole).card := Finset.card_le_card areInside
    _ = whole := Finset.card_range whole

/-- The parts of a whole lie apart and inside. -/
structure HoldsApart (parts : τ → κ → Option (BitVec w × τ)) (size : τ → Nat) (whole : τ) :
    Prop where
  inside : ∀ key offset part, parts whole key = some (offset, part) →
    offset.toNat + size part ≤ size whole
  apart : ∀ key other offset otherOffset part otherPart,
    parts whole key = some (offset, part) → parts whole other = some (otherOffset, otherPart) →
    key ≠ other →
    Disjoint (bytesAt offset.toNat (size part)) (bytesAt otherOffset.toNat (size otherPart))

/-- So do the parts of each part inside, and the whole fits into the address space. -/
structure Nests (parts : τ → κ → Option (BitVec w × τ)) (size : τ → Nat) (whole : τ) : Prop where
  fits : size whole ≤ 2 ^ w
  holds : ∀ path offset part, descend parts whole path = some (offset, part) →
    HoldsApart parts size part

namespace Nests

variable {parts : τ → κ → Option (BitVec w × τ)} {size : τ → Nat} {whole part last : τ}
  {offset inner : BitVec w} {key : κ} {path rest : List κ}

theorem holdsApart (nests : Nests parts size whole) : HoldsApart parts size whole :=
  nests.holds [] _ _ rfl

theorem of_inherited (inherited : τ → Prop)
    (inherits : ∀ whole key offset part, inherited whole →
      parts whole key = some (offset, part) → inherited part)
    (holds : ∀ whole, inherited whole → HoldsApart parts size whole) (has : inherited whole)
    (fits : size whole ≤ 2 ^ w) : Nests parts size whole where
  fits := fits
  holds path := by
    induction path generalizing whole with
    | nil =>
        intro offset part isPart
        cases isPart
        exact holds whole has
    | cons key rest inductionHypothesis =>
        intro offset last isLast
        obtain ⟨_, part, _, isPart, isBelow, _⟩ := exists_of_descend_cons isLast
        exact inductionHypothesis (inherits _ _ _ _ has isPart)
          (by have := (holds whole has).inside _ _ _ isPart; omega) _ _ isBelow

theorem of_part (nests : Nests parts size whole) (isPart : parts whole key = some (offset, part)) :
    Nests parts size part where
  fits := by
    have := nests.holdsApart.inside key offset part isPart
    have := nests.fits
    omega
  holds path _ last isLast := nests.holds (key :: path) _ last (descend_cons isPart isLast)

theorem inside (nests : Nests parts size whole) (isLast : descend parts whole path = some (inner, last))
    (takes : 0 < size last) : inner.toNat + size last ≤ size whole := by
  induction path generalizing whole inner with
  | nil =>
      rw [descend, Option.some.injEq, Prod.mk.injEq] at isLast
      rw [← isLast.1, isLast.2, BitVec.toNat_ofNat, Nat.zero_mod, Nat.zero_add]
  | cons key path inductionHypothesis =>
      obtain ⟨offset, part, below, isPart, isBelow, isSum⟩ := exists_of_descend_cons isLast
      have isInside := nests.holdsApart.inside key offset part isPart
      have isDeeper := inductionHypothesis (nests.of_part isPart) isBelow
      have := nests.fits
      rw [isSum, BitVec.toNat_add, Nat.mod_eq_of_lt (by omega)]
      omega

theorem of_descend (nests : Nests parts size whole)
    (isPart : descend parts whole path = some (offset, part)) : Nests parts size part where
  fits := by
    rcases Nat.eq_zero_or_pos (size part) with isEmpty | takes
    · rw [isEmpty]
      exact Nat.zero_le _
    · have := nests.inside isPart takes
      have := nests.fits
      omega
  holds rest _ last isLast := nests.holds (path ++ rest) _ last (descend_append isPart isLast)

theorem toNat_add (nests : Nests parts size whole)
    (isPart : descend parts whole path = some (offset, part))
    (isLast : descend parts part rest = some (inner, last)) (takes : 0 < size last) :
    (offset + inner).toNat = offset.toNat + inner.toNat := by
  have isDeeper := (nests.of_descend isPart).inside isLast takes
  have isInside := nests.inside isPart (by omega)
  have := nests.fits
  rw [BitVec.toNat_add, Nat.mod_eq_of_lt (by omega)]

theorem toNat_cons (nests : Nests parts size whole) (isPart : parts whole key = some (offset, part))
    (isLast : descend parts part rest = some (inner, last)) (takes : 0 < size last) :
    (offset + inner).toNat = offset.toNat + inner.toNat := by
  have isFirst : descend parts whole [key] = some (offset, part) := by
    rw [descend_cons isPart rfl, BitVec.add_zero]
  exact nests.toNat_add isFirst isLast takes

theorem bytesAt_subset (nests : Nests parts size whole)
    (isPart : parts whole key = some (offset, part))
    (isLast : descend parts part rest = some (inner, last)) (takes : 0 < size last) :
    bytesAt (offset + inner).toNat (size last) ⊆ bytesAt offset.toNat (size part) := by
  have isInside := (nests.of_part isPart).inside isLast takes
  rw [nests.toNat_cons isPart isLast takes]
  exact Set.Ico_subset_Ico (Nat.le_add_right _ _) (by omega)

theorem apart (nests : Nests parts size whole) {other : List κ} {otherInner : BitVec w}
    {otherLast : τ} (isLast : descend parts whole path = some (inner, last))
    (isOther : descend parts whole other = some (otherInner, otherLast)) (takes : 0 < size last)
    (otherTakes : 0 < size otherLast) (notAbove : ¬ path <+: other) (notBelow : ¬ other <+: path) :
    Disjoint (bytesAt inner.toNat (size last)) (bytesAt otherInner.toNat (size otherLast)) := by
  induction path generalizing whole inner other otherInner with
  | nil => exact absurd (List.nil_prefix) notAbove
  | cons key path inductionHypothesis =>
      cases other with
      | nil => exact absurd (List.nil_prefix) notBelow
      | cons otherKey other =>
          obtain ⟨offset, part, below, isPart, isBelow, isSum⟩ := exists_of_descend_cons isLast
          obtain ⟨otherOffset, otherPart, otherBelow, isOtherPart, isOtherBelow, isOtherSum⟩ :=
            exists_of_descend_cons isOther
          rw [isSum, isOtherSum]
          by_cases same : key = otherKey
          · cases same
            rw [isPart] at isOtherPart
            cases isOtherPart
            have apart := inductionHypothesis (nests.of_part isPart) isBelow isOtherBelow
              (fun isPrefix => notAbove (List.cons_prefix_cons.mpr ⟨rfl, isPrefix⟩))
              (fun isPrefix => notBelow (List.cons_prefix_cons.mpr ⟨rfl, isPrefix⟩))
            rw [nests.toNat_cons isPart isBelow takes,
              nests.toNat_cons isPart isOtherBelow otherTakes]
            exact disjoint_bytesAt_add _ apart
          · exact (nests.holdsApart.apart key otherKey _ _ _ _ isPart isOtherPart same).mono
              (nests.bytesAt_subset isPart isBelow takes)
              (nests.bytesAt_subset isOtherPart isOtherBelow otherTakes)

end Nests

/-! ## Marked parts -/

/-- A marked part takes bytes, and no marked part inside of it starts where it starts. -/
structure StartsApart (parts : τ → κ → Option (BitVec w × τ)) (size : τ → Nat)
    (marked : τ → Prop) (whole : τ) : Prop where
  takes : ∀ path offset part, descend parts whole path = some (offset, part) → marked part →
    0 < size part
  deeper : ∀ path offset part key rest inner last,
    descend parts whole path = some (offset, part) → marked part →
    descend parts part (key :: rest) = some (inner, last) → marked last → 0 < inner.toNat

namespace StartsApart

variable {parts : τ → κ → Option (BitVec w × τ)} {size : τ → Nat} {marked : τ → Prop}
  {whole part last : τ} {offset inner : BitVec w} {key : κ} {path rest : List κ}

theorem lt_of_above (starts : StartsApart parts size marked whole)
    (nests : Nests parts size whole) (isPart : descend parts whole path = some (offset, part))
    (isMarked : marked part)
    (isLast : descend parts whole (path ++ key :: rest) = some (inner, last))
    (isMarkedLast : marked last) : offset.toNat < inner.toNat := by
  obtain ⟨above, between, below, isBetween, isBelow, isSum⟩ := exists_of_descend_append isLast
  rw [isPart] at isBetween
  cases isBetween
  have isDeeper := starts.deeper path offset part key rest below last isPart isMarked isBelow
    isMarkedLast
  rw [isSum, nests.toNat_add isPart isBelow (starts.takes _ _ _ isLast isMarkedLast)]
  omega

theorem offset_injective (starts : StartsApart parts size marked whole)
    (nests : Nests parts size whole) {other : List κ}
    (isPart : descend parts whole path = some (offset, part)) (isMarked : marked part)
    (isLast : descend parts whole other = some (offset, last)) (isMarkedLast : marked last) :
    path = other := by
  by_cases isAbove : path <+: other
  · obtain ⟨rest, isOther⟩ := isAbove
    cases rest with
    | nil => rw [← isOther, List.append_nil]
    | cons key rest =>
        rw [← isOther] at isLast
        have := starts.lt_of_above nests isPart isMarked isLast isMarkedLast
        omega
  · by_cases isBelow : other <+: path
    · obtain ⟨rest, isPath⟩ := isBelow
      cases rest with
      | nil => rw [← isPath, List.append_nil]
      | cons key rest =>
          rw [← isPath] at isPart
          have := starts.lt_of_above nests isLast isMarkedLast isPart isMarked
          omega
    · have takes := starts.takes _ _ _ isPart isMarked
      have otherTakes := starts.takes _ _ _ isLast isMarkedLast
      have apart := nests.apart isPart isLast takes otherTakes isAbove isBelow
      have isFirst : offset.toNat ∈ bytesAt offset.toNat (size part) := ⟨le_rfl, by omega⟩
      have isOther : offset.toNat ∈ bytesAt offset.toNat (size last) := ⟨le_rfl, by omega⟩
      exact absurd isOther (Set.disjoint_left.mp apart isFirst)

end StartsApart

end Rcgo.Foundation
