import Rcgo.Code.Conversion

/-!
# Slices of arrays

What the checker and the run time ask of the bounds in `a[low:high]` and
`a[low:high:max]` when they are constant: `check_array_index` and
`visit (IndexSlice)` on one side, `SliceArray::execute` on the other.
-/

namespace Rcgo.Checker

open Rcgo.Code

/-- `type::Int::instance ()`. -/
def intType : DataType :=
  .basic .int

/-- `Value::to_int`; a `long`. -/
def toInt (type : DataType) : Value → Option Int
  | .bits word =>
      if type.underlyingKind.isTypedInteger then
        some (Cxx.readInteger true 64 (Cxx.writeInteger 64 (type.underlyingKind.integer word)))
      else none
  | .text _ => none

/-- An index `idx` is not too large for the array; there is no bound without an array. -/
def isBelow (dimension : Option Nat) (allowEqual : Bool) (idx : Int) : Bool :=
  match dimension with
  | none => true
  | some dimension => if allowEqual then idx ≤ dimension else idx < dimension

/-- `check_array_index`: the index as it is afterwards, none where an error is
reported or an assertion fails.  Only an untyped index may be equal to the bound. -/
def checkArrayIndex (floating : Floating) (dimension : Option Nat) (allowEqual : Bool)
    (index : ExpressionValue) : Option ExpressionValue :=
  if index.type.underlyingKind.isUntypedNumeric then do
    let representable ← Value.representable floating index.type intType index.value
    guard representable
    let value ← index.value.bind (Value.convert floating index.type intType)
    let idx ← toInt intType value
    guard (0 ≤ idx)
    guard (isBelow dimension allowEqual idx)
    guard index.isValueOrVariable
    some { index with type := intType, value := some value }
  else if index.type.underlyingKind.isTypedInteger then
    match index.value with
    | none => do
        guard index.isValueOrVariable
        some index
    | some value => do
        let idx ← toInt index.type value
        guard (0 ≤ idx)
        guard (isBelow dimension false idx)
        guard index.isValueOrVariable
        some index
  else none

/-- `low_value.to_int (low_type) <= high_value.to_int (high_type)`, asked only
of two bounds that are constant. -/
def checkOrder (first second : Option ExpressionValue) : Option Unit :=
  match first, second with
  | some first, some second =>
      match first.value, second.value with
      | some x, some y => do
          let x ← toInt first.type x
          let y ← toInt second.type y
          guard (x ≤ y)
      | _, _ => some ()
  | _, _ => some ()

/-- The bounds of a slice expression.  The grammar has no `max` without a `high`. -/
structure Bounds (α : Type) where
  low : Option α
  high : Option α
  max : Option α
  highOfMax : max.isSome = true → high.isSome = true

/-- `check_array_index` of a bound that may be absent. -/
def checkBound (floating : Floating) (dimension : Option Nat) :
    Option ExpressionValue → Option (Option ExpressionValue)
  | none => some none
  | some bound => (checkArrayIndex floating dimension true bound).map some

/-- The bounds in `visit (IndexSlice)`: `check_array_index` for each and then their order. -/
def checkBounds (floating : Floating) (dimension : Option Nat)
    (low high max : Option ExpressionValue) : Option Unit := do
  let low ← checkBound floating dimension low
  let high ← checkBound floating dimension high
  let max ← checkBound floating dimension max
  checkOrder low high
  checkOrder low max
  checkOrder high max

/-- `visit (IndexSlice)` for an array. -/
def checkSlice (floating : Floating) (dimension : Nat) (bounds : Bounds ExpressionValue) :
    Option Unit :=
  checkBounds floating (some dimension) bounds.low bounds.high bounds.max

/-- The bounds check of `SliceArray::execute`. -/
def sliceArrayInBounds (dimension : Int) (low high max : Option Int) : Bool :=
  let lowValue := low.getD 0
  let highValue := high.getD dimension
  let maxValue := max.getD dimension
  0 ≤ lowValue && lowValue ≤ highValue && highValue ≤ maxValue && maxValue ≤ dimension

/-- A constant of an integer type, typed or untyped. -/
structure IntegerConstant where
  type : DataType
  word : Nat
  isInteger : type.IsUntypedInteger ∨ type.underlyingKind.isTypedInteger = true

namespace IntegerConstant

def expression (constant : IntegerConstant) : ExpressionValue :=
  ⟨.value, constant.type, some (.bits constant.word)⟩

def IsTyped (constant : IntegerConstant) : Prop :=
  constant.type.underlyingKind.isTypedInteger = true

/-- The `long` that the operation of the bound leaves on the stack: an untyped
constant has been converted to `int`, and `MakeConvertToInt` converts the rest. -/
def atRunTime (floating : Floating) (constant : IntegerConstant) : Option Int :=
  if constant.type.underlyingKind.isUntypedNumeric then
    (Value.convert floating constant.type intType (.bits constant.word)).bind (toInt intType)
  else toInt constant.type (.bits constant.word)

end IntegerConstant

namespace Bounds

/-- The bounds as the checker meets them. -/
def expressions (bounds : Bounds IntegerConstant) : Bounds ExpressionValue where
  low := bounds.low.map IntegerConstant.expression
  high := bounds.high.map IntegerConstant.expression
  max := bounds.max.map IntegerConstant.expression
  highOfMax := by
    rw [Option.isSome_map, Option.isSome_map]
    exact bounds.highOfMax

def Has (bounds : Bounds IntegerConstant) (constant : IntegerConstant) : Prop :=
  bounds.low = some constant ∨ bounds.high = some constant ∨ bounds.max = some constant

/-- The bounds check of the run time passes for the constants. -/
def InBounds (floating : Floating) (dimension : Nat) (bounds : Bounds IntegerConstant) : Prop :=
  sliceArrayInBounds dimension (bounds.low.bind (IntegerConstant.atRunTime floating))
    (bounds.high.bind (IntegerConstant.atRunTime floating))
    (bounds.max.bind (IntegerConstant.atRunTime floating)) = true

end Bounds

section Checks

variable {floating : Floating} {dimension : Nat} {constant : IntegerConstant}
  {index first second : Option ExpressionValue} {x y : Option Int}

/-- The constant is less than the length, or equal to it and untyped. -/
def IntegerConstant.Fits (constant : IntegerConstant) (dimension : Nat) (x : Int) : Prop :=
  0 ≤ x ∧ x ≤ dimension ∧ ¬(constant.IsTyped ∧ x = dimension)

/-- The checker reads the same integer from a checked bound. -/
def Reads : Option ExpressionValue → Option Int → Prop
  | none, none => True
  | some index, some x => ∃ value, index.value = some value ∧ toInt index.type value = some x
  | _, _ => False

theorem isUntypedNumeric_of_isUntypedInteger {type : DataType} (isUntyped : type.IsUntypedInteger) :
    type.underlyingKind.isUntypedNumeric = true := by
  rcases isUntyped with isRune | isInteger
  · rw [isRune]
    rfl
  · rw [isInteger]
    rfl

theorem isUntypedNumeric_of_isTypedInteger {kind : Kind} (isTyped : kind.isTypedInteger = true) :
    kind.isUntypedNumeric = false := by
  cases kind <;> first | rfl | cases isTyped

theorem representable_int {type : DataType} (word : Nat) (isUntyped : type.IsUntypedInteger) :
    Value.representable floating.withIntegers type intType (some (.bits word)) = some true := by
  rcases isUntyped.integerType with ⟨width, isSource, positive⟩
  rw [representable_withIntegers floating isUntyped rfl isSource rfl, Option.some.injEq,
    Cxx.toAndBackHelper_iff positive (by decide)]
  left
  rcases isUntyped with isRune | isInteger
  · rw [isRune] at isSource
    cases isSource
    decide
  · rw [isInteger] at isSource
    cases isSource
    decide

/-- The checker reads from the constant what the run time gets, and takes it
if it fits. -/
theorem checkArrayIndex_spec (floating : Floating) (dimension : Nat) (constant : IntegerConstant) :
    ∃ x checked, constant.atRunTime floating.withIntegers = some x ∧
      Reads (some checked) (some x) ∧
        ∀ result, checkArrayIndex floating.withIntegers (some dimension) true constant.expression =
          some result ↔ constant.Fits dimension x ∧ result = checked := by
  rcases constant with ⟨type, word, isInteger⟩
  unfold IntegerConstant.atRunTime IntegerConstant.Fits IntegerConstant.IsTyped checkArrayIndex
    IntegerConstant.expression
  dsimp only
  rcases isInteger with isUntyped | isTyped
  · have untyped := isUntypedNumeric_of_isUntypedInteger isUntyped
    have notTyped : type.underlyingKind.isTypedInteger = false := by
      rcases isUntyped with isRune | isInteger
      · rw [isRune]
        rfl
      · rw [isInteger]
        rfl
    have isConverted : Value.convert floating.withIntegers type intType (.bits word) =
        some (.bits (floating.withIntegers.convertNumeric type.underlyingKind .int word)) := by
      have notComplex : type.underlyingKind ≠ .untypedComplex := by
        rcases isUntyped with isRune | isInteger
        · rw [isRune]
          decide
        · rw [isInteger]
          decide
      unfold Value.convert
      dsimp only
      rw [if_pos ⟨isNumeric_of_isUntypedInteger isUntyped, notComplex⟩]
      rfl
    generalize floating.withIntegers.convertNumeric type.underlyingKind .int word = converted
      at isConverted
    rcases (⟨_, rfl⟩ : ∃ x, toInt intType (.bits converted) = some x) with ⟨x, isInt⟩
    rw [if_pos untyped, if_pos untyped, isConverted, representable_int word isUntyped,
      Option.bind_some, Option.bind_some, isConverted]
    refine ⟨x, ⟨.value, intType, some (.bits converted)⟩, isInt, ⟨.bits converted, rfl, isInt⟩,
      fun result => ?_⟩
    simp only [Option.bind_eq_bind, Option.bind_eq_some_iff, Option.bind_some, Option.guard_eq_some',
      isInt, isBelow, ExpressionValue.isValueOrVariable, Option.some.injEq, notTyped]
    rw [eq_comm (a := result)]
    simp
    tauto
  · have notUntyped := isUntypedNumeric_of_isTypedInteger isTyped
    rcases (⟨_, rfl⟩ : ∃ x, Cxx.readInteger true 64 (Cxx.writeInteger 64
      (type.underlyingKind.integer word)) = x) with ⟨x, isLong⟩
    have isInt : toInt type (.bits word) = some x := by
      rw [toInt, if_pos isTyped, isLong]
    rw [notUntyped, if_neg Bool.false_ne_true, if_neg Bool.false_ne_true, if_pos isTyped]
    refine ⟨x, ⟨.value, type, some (.bits word)⟩, isInt, ⟨.bits word, rfl, isInt⟩,
      fun result => ?_⟩
    simp only [Option.bind_eq_bind, Option.bind_eq_some_iff, Option.guard_eq_some', isInt, isBelow,
      ExpressionValue.isValueOrVariable, Option.some.injEq, isTyped]
    rw [eq_comm (a := result)]
    simp
    constructor
    · rintro ⟨nonneg, below, same⟩
      exact ⟨⟨nonneg, by omega, by omega⟩, same⟩
    · rintro ⟨⟨nonneg, below, different⟩, same⟩
      exact ⟨nonneg, by omega, same⟩

theorem checkOrder_iff (firstReads : Reads first x) (secondReads : Reads second y) :
    checkOrder first second = some () ↔ ∀ i ∈ x, ∀ j ∈ y, i ≤ j := by
  cases first with
  | none =>
      cases x with
      | none => simp [checkOrder]
      | some i => cases firstReads
  | some first =>
      cases x with
      | none => cases firstReads
      | some i =>
          cases second with
          | none =>
              cases y with
              | none => simp [checkOrder]
              | some j => cases secondReads
          | some second =>
              cases y with
              | none => cases secondReads
              | some j =>
                  rcases firstReads with ⟨firstValue, isFirst, firstInt⟩
                  rcases secondReads with ⟨secondValue, isSecond, secondInt⟩
                  simp [checkOrder, isFirst, isSecond, firstInt, secondInt, Option.guard_eq_some']

theorem checkBound_spec (floating : Floating) (dimension : Nat) (bound : Option IntegerConstant) :
    ∃ checked, Reads checked (bound.bind (IntegerConstant.atRunTime floating.withIntegers)) ∧
      ∀ result, checkBound floating.withIntegers (some dimension) (bound.map IntegerConstant.expression) =
        some result ↔
          (∀ constant ∈ bound, ∀ x ∈ constant.atRunTime floating.withIntegers,
            constant.Fits dimension x) ∧ result = checked := by
  cases bound with
  | none => exact ⟨none, trivial, fun result => by simp [checkBound, eq_comm]⟩
  | some constant =>
      rcases checkArrayIndex_spec floating dimension constant with ⟨x, checked, isRead, reads, isChecked⟩
      refine ⟨some checked, by rw [Option.bind_some, isRead]; exact reads, fun result => ?_⟩
      simp only [checkBound, Option.map_some, Option.map_eq_some_iff, isChecked, Option.mem_def,
        Option.some.injEq, forall_eq', isRead]
      exact ⟨fun ⟨_, ⟨fits, same⟩, isResult⟩ => ⟨fits, by rw [← isResult, same]⟩,
        fun ⟨fits, isResult⟩ => ⟨checked, ⟨fits, rfl⟩, isResult.symm⟩⟩

theorem checkSlice_iff (floating : Floating) (dimension : Nat) (bounds : Bounds IntegerConstant) :
    checkSlice floating.withIntegers dimension bounds.expressions = some () ↔
      (∀ constant, bounds.Has constant → ∀ x ∈ constant.atRunTime floating.withIntegers,
        constant.Fits dimension x) ∧
        (∀ i ∈ bounds.low.bind (IntegerConstant.atRunTime floating.withIntegers),
          ∀ j ∈ bounds.high.bind (IntegerConstant.atRunTime floating.withIntegers), i ≤ j) ∧
        (∀ i ∈ bounds.low.bind (IntegerConstant.atRunTime floating.withIntegers),
          ∀ j ∈ bounds.max.bind (IntegerConstant.atRunTime floating.withIntegers), i ≤ j) ∧
        (∀ i ∈ bounds.high.bind (IntegerConstant.atRunTime floating.withIntegers),
          ∀ j ∈ bounds.max.bind (IntegerConstant.atRunTime floating.withIntegers), i ≤ j) := by
  rcases checkBound_spec floating dimension bounds.low with ⟨low, lowReads, lowChecked⟩
  rcases checkBound_spec floating dimension bounds.high with ⟨high, highReads, highChecked⟩
  rcases checkBound_spec floating dimension bounds.max with ⟨max, maxReads, maxChecked⟩
  have fits_iff : (∀ constant, bounds.Has constant →
      ∀ x ∈ constant.atRunTime floating.withIntegers, constant.Fits dimension x) ↔
      (∀ constant ∈ bounds.low, ∀ x ∈ constant.atRunTime floating.withIntegers,
        constant.Fits dimension x) ∧
      (∀ constant ∈ bounds.high, ∀ x ∈ constant.atRunTime floating.withIntegers,
        constant.Fits dimension x) ∧
      (∀ constant ∈ bounds.max, ∀ x ∈ constant.atRunTime floating.withIntegers,
        constant.Fits dimension x) := by
    simp only [Bounds.Has, or_imp, forall_and, Option.mem_def]
  rw [fits_iff, ← checkOrder_iff lowReads highReads, ← checkOrder_iff lowReads maxReads,
    ← checkOrder_iff highReads maxReads]
  simp only [checkSlice, checkBounds, Bounds.expressions, Option.bind_eq_bind, Option.bind_eq_some_iff,
    lowChecked, highChecked, maxChecked]
  constructor
  · rintro ⟨_, ⟨lowFits, rfl⟩, _, ⟨highFits, rfl⟩, _, ⟨maxFits, rfl⟩, _, lowHigh, _, lowMax, highMax⟩
    exact ⟨⟨lowFits, highFits, maxFits⟩, lowHigh, lowMax, highMax⟩
  · rintro ⟨⟨lowFits, highFits, maxFits⟩, lowHigh, lowMax, highMax⟩
    exact ⟨low, ⟨lowFits, rfl⟩, high, ⟨highFits, rfl⟩, max, ⟨maxFits, rfl⟩, (), lowHigh, (), lowMax,
      highMax⟩

/-- The run time takes bounds between zero and the length that are in order. -/
theorem inBounds_iff (floating : Floating) (dimension : Nat) (bounds : Bounds IntegerConstant) :
    bounds.InBounds floating.withIntegers dimension ↔
      (∀ constant, bounds.Has constant → ∀ x ∈ constant.atRunTime floating.withIntegers,
        0 ≤ x ∧ x ≤ dimension) ∧
        (∀ i ∈ bounds.low.bind (IntegerConstant.atRunTime floating.withIntegers),
          ∀ j ∈ bounds.high.bind (IntegerConstant.atRunTime floating.withIntegers), i ≤ j) ∧
        (∀ i ∈ bounds.low.bind (IntegerConstant.atRunTime floating.withIntegers),
          ∀ j ∈ bounds.max.bind (IntegerConstant.atRunTime floating.withIntegers), i ≤ j) ∧
        (∀ i ∈ bounds.high.bind (IntegerConstant.atRunTime floating.withIntegers),
          ∀ j ∈ bounds.max.bind (IntegerConstant.atRunTime floating.withIntegers), i ≤ j) := by
  have has : ∀ constant : IntegerConstant,
      ∃ x, constant.atRunTime floating.withIntegers = some x :=
    fun constant => (checkArrayIndex_spec floating dimension constant).imp fun _ found =>
      found.choose_spec.1
  rcases bounds with ⟨low, high, max, highOfMax⟩
  simp only [Bounds.InBounds, sliceArrayInBounds, Bounds.Has, Bool.and_eq_true, decide_eq_true_eq]
  cases low with
  | none =>
      cases high with
      | none =>
          cases max with
          | none => simp
          | some max => cases highOfMax rfl
      | some high =>
          rcases has high with ⟨h, isHigh⟩
          cases max with
          | none => simp [isHigh]
          | some max =>
              rcases has max with ⟨m, isMax⟩
              simp [or_imp, forall_and, isHigh, isMax]
              omega
  | some low =>
      rcases has low with ⟨l, isLow⟩
      cases high with
      | none =>
          cases max with
          | none => simp [isLow]
          | some max => cases highOfMax rfl
      | some high =>
          rcases has high with ⟨h, isHigh⟩
          cases max with
          | none =>
              simp [or_imp, forall_and, isLow, isHigh]
              omega
          | some max =>
              rcases has max with ⟨m, isMax⟩
              simp [or_imp, forall_and, isLow, isHigh, isMax]
              omega

end Checks

/-- The checker and the run time agree on constant bounds except where the run
time takes them and one that is equal to the length has a type. -/
theorem slice_agrees_iff (floating : Floating) (dimension : Nat) (bounds : Bounds IntegerConstant) :
    (checkSlice floating.withIntegers dimension bounds.expressions = some () ↔
        bounds.InBounds floating.withIntegers dimension) ↔
      ¬(bounds.InBounds floating.withIntegers dimension ∧
        ∃ constant, bounds.Has constant ∧ constant.IsTyped ∧
          constant.atRunTime floating.withIntegers = some (dimension : Int)) := by
  have accepted_iff : checkSlice floating.withIntegers dimension bounds.expressions = some () ↔
      bounds.InBounds floating.withIntegers dimension ∧
        ¬∃ constant, bounds.Has constant ∧ constant.IsTyped ∧
          constant.atRunTime floating.withIntegers = some (dimension : Int) := by
    rw [checkSlice_iff, inBounds_iff]
    constructor
    · rintro ⟨fits, ordered⟩
      refine ⟨⟨fun constant has x isValue => ⟨(fits constant has x isValue).1,
        (fits constant has x isValue).2.1⟩, ordered⟩, ?_⟩
      rintro ⟨constant, has, isTyped, isValue⟩
      exact (fits constant has dimension isValue).2.2 ⟨isTyped, rfl⟩
    · rintro ⟨⟨inside, ordered⟩, untyped⟩
      refine ⟨fun constant has x isValue => ⟨(inside constant has x isValue).1,
        (inside constant has x isValue).2, ?_⟩, ordered⟩
      rintro ⟨isTyped, rfl⟩
      exact untyped ⟨constant, has, isTyped, isValue⟩
  rw [accepted_iff, and_iff_left_iff_imp, not_and]

section TypedLength

/-- The constant `3` of type `int`. -/
def typedThree : IntegerConstant :=
  ⟨.named 0 (.basic .int), 3, Or.inr rfl⟩

/-- `a[:n]`, where `n` is the constant. -/
def upToThree : Bounds IntegerConstant :=
  ⟨none, some typedThree, none, fun absent => absurd absent Bool.false_ne_true⟩

/-- For an array of length three the checker rejects `a[:n]`, and the run time
takes it. -/
theorem upToThree_not_agrees :
    ¬∀ (floating : Floating) (dimension : Nat) (bounds : Bounds IntegerConstant),
      checkSlice floating.withIntegers dimension bounds.expressions = some () ↔
        bounds.InBounds floating.withIntegers dimension := by
  intro agrees
  have accepted := (agrees ⟨fun _ _ _ _ => 0, fun _ _ _ _ => false, fun _ _ _ => 0,
    fun _ _ _ => false⟩ 3 upToThree).mpr (by rw [Bounds.InBounds]; decide)
  exact absurd accepted (by decide)

end TypedLength

end Rcgo.Checker
