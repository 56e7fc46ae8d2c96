import Mathlib.Data.Nat.ModEq
import Mathlib.Data.Set.Lattice
import Mathlib.Order.CompletePartialOrder
import Mathlib.Order.Interval.Set.Basic
import Mathlib.Tactic.Common

/-!
# Placing items one behind the other

Rounding to a multiple of an alignment, over the natural numbers and with the
mask of machine words, and items that are laid out in order.  In an address
space of `w` bits the items keep apart exactly if their end is below `2 ^ w`.
-/

namespace Rcgo.Foundation

/-- The least multiple of `unit` that is no less than `value`. -/
def roundUp (value unit : Nat) : Nat :=
  (value + (unit - 1)) / unit * unit

section RoundUp

variable {value unit : Nat}

theorem roundUp_zero_unit (value : Nat) : roundUp value 0 = 0 :=
  Nat.mul_zero _

theorem zero_roundUp (unit : Nat) : roundUp 0 unit = 0 := by
  unfold roundUp
  rcases Nat.eq_zero_or_pos unit with isZero | positive
  · rw [isZero, Nat.mul_zero]
  · rw [Nat.div_eq_of_lt (by omega), Nat.zero_mul]

theorem dvd_roundUp (value unit : Nat) : unit ∣ roundUp value unit :=
  Nat.dvd_mul_left unit _

theorem le_roundUp (value : Nat) (positive : 0 < unit) : value ≤ roundUp value unit := by
  have := Nat.div_add_mod (value + (unit - 1)) unit
  have := Nat.mod_lt (value + (unit - 1)) positive
  unfold roundUp
  rw [Nat.mul_comm]
  omega

theorem roundUp_le {multiple : Nat} (isMultiple : unit ∣ multiple) (le : value ≤ multiple) :
    roundUp value unit ≤ multiple := by
  obtain ⟨n, rfl⟩ := isMultiple
  rcases Nat.eq_zero_or_pos unit with rfl | positive
  · rw [roundUp_zero_unit]
    exact Nat.zero_le _
  · have : (value + (unit - 1)) / unit ≤ n := by
      rw [Nat.div_le_iff_le_mul_add_pred positive]
      omega
    rw [roundUp, Nat.mul_comm]
    exact Nat.mul_le_mul_left unit this

theorem roundUp_mul_add (positive : 0 < unit) (n value : Nat) :
    roundUp (n * unit + value) unit = n * unit + roundUp value unit := by
  unfold roundUp
  rw [Nat.add_assoc, Nat.add_comm (n * unit), Nat.add_mul_div_right _ _ positive, Nat.add_mul,
    Nat.add_comm]

end RoundUp

section Mask

variable {w : Nat}

/-- Clearing the lowest `k` bits of a word. -/
theorem toNat_and_not_mask (word : BitVec w) (k : Nat) :
    (word &&& ~~~BitVec.ofNat w (2 ^ k - 1)).toNat = word.toNat / 2 ^ k * 2 ^ k := by
  have isShift : word &&& ~~~BitVec.ofNat w (2 ^ k - 1) = word >>> k <<< k := by
    apply BitVec.eq_of_getLsbD_eq
    intro i isBit
    by_cases low : i < k
    · simp [isBit, low, BitVec.getLsbD_ofNat, -BitVec.getLsbD_eq_getElem]
    · simp [isBit, low, BitVec.getLsbD_ofNat, -BitVec.getLsbD_eq_getElem,
        Nat.add_sub_cancel' (Nat.le_of_not_lt low)]
  rw [isShift, BitVec.toNat_shiftLeft, BitVec.toNat_ushiftRight, Nat.shiftLeft_eq,
    Nat.shiftRight_eq_div_pow]
  exact Nat.mod_eq_of_lt (Nat.lt_of_le_of_lt (Nat.div_mul_le_self _ _) word.isLt)

/-- Rounding by adding and clearing the bits below the unit is rounding modulo `2 ^ w`. -/
theorem roundUp_ofNat {k : Nat} (isBit : k < w) (value : Nat) :
    (BitVec.ofNat w value + (BitVec.ofNat w (2 ^ k) - 1#w)) &&& ~~~(BitVec.ofNat w (2 ^ k) - 1#w) =
      BitVec.ofNat w (roundUp value (2 ^ k)) := by
  have positive := Nat.two_pow_pos k
  have isMask : BitVec.ofNat w (2 ^ k) - 1#w = BitVec.ofNat w (2 ^ k - 1) := by
    rw [BitVec.sub_eq_iff_eq_add, ← BitVec.ofNat_add, Nat.sub_add_cancel positive]
  have divides : 2 ^ k ∣ 2 ^ w := Nat.pow_dvd_pow 2 (Nat.le_of_lt isBit)
  apply BitVec.eq_of_toNat_eq
  rw [isMask, toNat_and_not_mask, ← BitVec.ofNat_add, BitVec.toNat_ofNat, BitVec.toNat_ofNat,
    roundUp]
  obtain ⟨c, isProduct⟩ := divides
  rw [isProduct, Nat.mod_mul_right_div_self, Nat.mul_comm, Nat.mul_comm _ (2 ^ k),
    Nat.mul_mod_mul_left]

theorem roundUp_ofNat_zero (word : BitVec w) :
    (word + (BitVec.ofNat w 0 - 1#w)) &&& ~~~(BitVec.ofNat w 0 - 1#w) = BitVec.ofNat w 0 := by
  simp [BitVec.neg_one_eq_allOnes]

end Mask

/-- The bytes of an item of the given size at the offset. -/
def bytesAt (offset size : Nat) : Set Nat :=
  Set.Ico offset (offset + size)

theorem disjoint_bytesAt {offset size other otherSize : Nat} (before : offset + size ≤ other) :
    Disjoint (bytesAt offset size) (bytesAt other otherSize) :=
  Set.disjoint_left.mpr fun _ first second =>
    Nat.lt_irrefl _ (Nat.lt_of_lt_of_le first.2 (Nat.le_trans before second.1))

theorem not_disjoint_bytesAt_zero {size otherSize : Nat} (positive : 0 < size)
    (otherPositive : 0 < otherSize) : ¬ Disjoint (bytesAt 0 size) (bytesAt 0 otherSize) := by
  intro apart
  have first : 0 ∈ bytesAt 0 size := ⟨Nat.le_refl 0, by omega⟩
  have second : 0 ∈ bytesAt 0 otherSize := ⟨Nat.le_refl 0, by omega⟩
  exact Set.disjoint_left.mp apart first second

/-- The bytes an item takes, and the unit its place is a multiple of. -/
structure Item where
  size : Nat
  alignment : Nat

/-- The end of the items when the first of them is placed behind `start`. -/
def endFrom : List Item → Nat → Nat
  | [], start => start
  | item :: rest, start => endFrom rest (roundUp start item.alignment + item.size)

/-- How far the first `i` items reach. -/
def reach (items : List Item) (i : Nat) : Nat :=
  endFrom (items.take i) 0

/-- The place of an item behind the first `i` items. -/
def place (items : List Item) (i : Nat) (item : Item) : Nat :=
  roundUp (reach items i) item.alignment

section Placement

variable {items : List Item} {item : Item} {i j : Nat}

theorem endFrom_append (items others : List Item) (start : Nat) :
    endFrom (items ++ others) start = endFrom others (endFrom items start) := by
  induction items generalizing start with
  | nil => rfl
  | cons item rest inductionHypothesis => exact inductionHypothesis _

theorem reach_zero (items : List Item) : reach items 0 = 0 :=
  rfl

theorem reach_succ (isItem : items[i]? = some item) :
    reach items (i + 1) = place items i item + item.size := by
  rw [reach, List.take_add_one, isItem, endFrom_append]
  rfl

theorem reach_length (items : List Item) : reach items items.length = endFrom items 0 := by
  rw [reach, List.take_length]

variable (positive : ∀ item ∈ items, 0 < item.alignment)
include positive

theorem reach_le_place (isItem : items[i]? = some item) : reach items i ≤ place items i item :=
  le_roundUp _ (positive item (List.mem_of_getElem? isItem))

theorem reach_mono (le : i ≤ j) (inside : j ≤ items.length) : reach items i ≤ reach items j := by
  induction j, le using Nat.le_induction with
  | base => exact Nat.le_refl _
  | succ j le inductionHypothesis =>
      have isItem := List.getElem?_eq_getElem (Nat.lt_of_succ_le inside)
      have := reach_le_place positive isItem
      have := inductionHypothesis (Nat.le_of_succ_le inside)
      rw [reach_succ isItem]
      omega

theorem place_add_size_le (isItem : items[i]? = some item) {other : Item}
    (isOther : items[j]? = some other) (before : i < j) :
    place items i item + item.size ≤ place items j other := by
  have inside := (List.getElem?_eq_some_iff.mp isOther).1
  rw [← reach_succ isItem]
  exact Nat.le_trans (reach_mono positive before (Nat.le_of_lt inside))
    (reach_le_place positive isOther)

theorem place_add_size_le_end (isItem : items[i]? = some item) :
    place items i item + item.size ≤ endFrom items 0 := by
  have inside := (List.getElem?_eq_some_iff.mp isItem).1
  rw [← reach_succ isItem, ← reach_length]
  exact reach_mono positive inside (Nat.le_refl _)

end Placement

/-- The items keep apart, inside the bytes up to their end, when places and end
are taken modulo `2 ^ w`. -/
structure KeptApart (w : Nat) (items : List Item) : Prop where
  inside : ∀ i item, items[i]? = some item →
    place items i item % 2 ^ w + item.size ≤ endFrom items 0 % 2 ^ w
  apart : ∀ i j item other, items[i]? = some item → items[j]? = some other → i ≠ j →
    Disjoint (bytesAt (place items i item % 2 ^ w) item.size)
      (bytesAt (place items j other % 2 ^ w) other.size)

section KeptApart

variable {w : Nat} {items : List Item}

theorem exists_at_zero (taken : 0 < endFrom items 0) :
    ∃ i item, items[i]? = some item ∧ place items i item = 0 ∧ 0 < item.size := by
  induction items with
  | nil => exact absurd taken (Nat.lt_irrefl 0)
  | cons item rest inductionHypothesis =>
      rcases Nat.eq_zero_or_pos item.size with isEmpty | positive
      · have skipped : roundUp 0 item.alignment + item.size = 0 := by
          rw [zero_roundUp, isEmpty]
        rw [endFrom, skipped] at taken
        obtain ⟨i, other, isOther, atZero, positive⟩ := inductionHypothesis taken
        refine ⟨i + 1, other, isOther, ?_, positive⟩
        rw [place, reach, List.take_succ_cons, endFrom, skipped]
        exact atZero
      · exact ⟨0, item, rfl, zero_roundUp _, positive⟩

theorem KeptApart.end_lt (kept : KeptApart w items)
    (divides : ∀ item ∈ items, item.alignment ∣ 2 ^ w) : endFrom items 0 < 2 ^ w := by
  rcases Nat.eq_zero_or_pos (endFrom items 0) with isZero | taken
  · rw [isZero]
    exact Nat.two_pow_pos w
  obtain ⟨first, firstItem, isFirst, atZero, firstTakes⟩ := exists_at_zero taken
  have firstInside := kept.inside first firstItem isFirst
  -- an item whose place is rounded up to `2 ^ w` meets the first byte, so it is empty
  have bounded : ∀ i ≤ items.length, reach items i ≤ 2 ^ w := by
    intro i
    induction i with
    | zero =>
        intro _
        rw [reach_zero]
        exact Nat.zero_le _
    | succ i inductionHypothesis =>
        intro inside
        have isItem := List.getElem?_eq_getElem (Nat.lt_of_succ_le inside)
        have itemInside := kept.inside i _ isItem
        have belowEnd := Nat.mod_lt (endFrom items 0) (Nat.two_pow_pos w)
        have atMost : place items i items[i] ≤ 2 ^ w :=
          roundUp_le (divides _ (List.getElem_mem _))
            (inductionHypothesis (Nat.le_of_succ_le inside))
        rw [reach_succ isItem]
        rcases Nat.lt_or_eq_of_le atMost with below | isTop
        · rw [Nat.mod_eq_of_lt below] at itemInside
          omega
        · have isEmpty : items[i].size = 0 := by
            by_contra notEmpty
            have differ : first ≠ i := by
              rintro rfl
              rw [Option.some.inj (isItem.symm.trans isFirst), atZero] at isTop
              have := Nat.two_pow_pos w
              omega
            have apart := kept.apart first i _ _ isFirst isItem differ
            rw [atZero, isTop, Nat.mod_self, Nat.zero_mod] at apart
            exact not_disjoint_bytesAt_zero firstTakes (Nat.pos_of_ne_zero notEmpty) apart
          omega
  have atMost := bounded items.length (Nat.le_refl _)
  rw [reach_length] at atMost
  rcases Nat.lt_or_eq_of_le atMost with below | isTop
  · exact below
  · rw [isTop, Nat.mod_self] at firstInside
    omega

theorem KeptApart.of_end_lt (positive : ∀ item ∈ items, 0 < item.alignment)
    (below : endFrom items 0 < 2 ^ w) : KeptApart w items := by
  have isPlace : ∀ {i item}, items[i]? = some item →
      place items i item % 2 ^ w = place items i item := by
    intro i item isItem
    have := place_add_size_le_end positive isItem
    exact Nat.mod_eq_of_lt (by omega)
  constructor
  · intro i item isItem
    rw [isPlace isItem, Nat.mod_eq_of_lt below]
    exact place_add_size_le_end positive isItem
  · intro i j item other isItem isOther differ
    rw [isPlace isItem, isPlace isOther]
    rcases Nat.lt_or_gt_of_ne differ with before | after
    · exact disjoint_bytesAt (place_add_size_le positive isItem isOther before)
    · exact (disjoint_bytesAt (place_add_size_le positive isOther isItem after)).symm

end KeptApart

/-- The elements keep apart, inside the bytes of all of them, when multiples of
the unit are taken modulo `2 ^ w`. -/
structure ElementsKeptApart (w dimension unit size : Nat) : Prop where
  inside : ∀ i < dimension, i * unit % 2 ^ w + size ≤ dimension * unit % 2 ^ w
  apart : ∀ i < dimension, ∀ j < dimension, i ≠ j →
    Disjoint (bytesAt (i * unit % 2 ^ w) size) (bytesAt (j * unit % 2 ^ w) size)

section ElementsKeptApart

variable {w dimension size alignment : Nat}

theorem element_add_size_le (positive : 0 < alignment) (size : Nat) {i j : Nat} (before : i < j) :
    i * roundUp size alignment + size ≤ j * roundUp size alignment := by
  have := le_roundUp size positive
  have := Nat.mul_le_mul_right (roundUp size alignment) (Nat.succ_le_of_lt before)
  rw [Nat.succ_mul] at this
  omega

theorem ElementsKeptApart.end_lt
    (kept : ElementsKeptApart w dimension (roundUp size alignment) size)
    (divides : alignment ∣ 2 ^ w) :
    dimension * roundUp size alignment < 2 ^ w := by
  rcases Nat.eq_zero_or_pos size with rfl | takes
  · rw [zero_roundUp, Nat.mul_zero]
    exact Nat.two_pow_pos w
  have positive : 0 < alignment := Nat.pos_of_dvd_of_pos divides (Nat.two_pow_pos w)
  have bounded : ∀ i ≤ dimension, i * roundUp size alignment < 2 ^ w := by
    intro i
    induction i with
    | zero =>
        intro _
        rw [Nat.zero_mul]
        exact Nat.two_pow_pos w
    | succ i inductionHypothesis =>
        intro inside
        have below := inductionHypothesis (Nat.le_of_succ_le inside)
        have itemInside := kept.inside i inside
        have belowEnd := Nat.mod_lt (dimension * roundUp size alignment) (Nat.two_pow_pos w)
        rw [Nat.mod_eq_of_lt below] at itemInside
        have isMultiple : i * roundUp size alignment = i * (roundUp size alignment / alignment) *
            alignment := by
          rw [Nat.mul_assoc, Nat.div_mul_cancel (dvd_roundUp size alignment)]
        have atMost : (i + 1) * roundUp size alignment ≤ 2 ^ w := by
          rw [Nat.succ_mul, isMultiple, ← roundUp_mul_add positive, ← isMultiple]
          exact roundUp_le divides (by omega)
        rcases Nat.lt_or_eq_of_le atMost with less | isTop
        · exact less
        -- the next element, or the end, is back at the first byte
        rcases Nat.lt_or_eq_of_le inside with more | isLast
        · have apart := kept.apart 0 (by omega) (i + 1) more (by omega)
          rw [isTop, Nat.mod_self, Nat.zero_mul, Nat.zero_mod] at apart
          exact absurd apart (not_disjoint_bytesAt_zero takes takes)
        · rw [← isLast, isTop, Nat.mod_self] at itemInside
          omega
  exact bounded dimension (Nat.le_refl _)

theorem ElementsKeptApart.of_end_lt (positive : 0 < alignment)
    (below : dimension * roundUp size alignment < 2 ^ w) :
    ElementsKeptApart w dimension (roundUp size alignment) size := by
  have isPlace : ∀ {i}, i < dimension →
      i * roundUp size alignment % 2 ^ w = i * roundUp size alignment := by
    intro i isElement
    have := element_add_size_le positive size isElement
    exact Nat.mod_eq_of_lt (by omega)
  constructor
  · intro i isElement
    rw [isPlace isElement, Nat.mod_eq_of_lt below]
    exact element_add_size_le positive size isElement
  · intro i isElement j isOther differ
    rw [isPlace isElement, isPlace isOther]
    rcases Nat.lt_or_gt_of_ne differ with before | after
    · exact disjoint_bytesAt (element_add_size_le positive size before)
    · exact (disjoint_bytesAt (element_add_size_le positive size after)).symm

end ElementsKeptApart

end Rcgo.Foundation
