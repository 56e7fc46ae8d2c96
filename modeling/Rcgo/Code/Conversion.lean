import Rcgo.Code.Folding
import Rcgo.Foundation.Rounding
import Mathlib.Algebra.Order.Group.Int
import Mathlib.Tactic.Positivity

/-!
# Conversion of integer constants

`Value::representable` and `Value::convert` for integers.  The first converts to
the C++ type of the target and back, the second goes through a `double`, which
keeps 53 significant bits.
-/

namespace Rcgo.Code

open Rcgo.Foundation

/-- The C++ integer type of the member of `Value` for a kind. -/
def Kind.integerType (kind : Kind) : Option (Bool × Nat) :=
  match kind.cType with
  | some (.integer signed width) => some (signed, width)
  | _ => none

namespace Cxx

def InRange (signed : Bool) (width : Nat) (x : Int) : Prop :=
  if signed then -2 ^ (width - 1) ≤ x ∧ x < 2 ^ (width - 1) else 0 ≤ x ∧ x < 2 ^ width

instance (signed : Bool) (width : Nat) (x : Int) : Decidable (InRange signed width x) := by
  unfold InRange
  cases signed <;> infer_instance

/-- The conversion of an integer to `double`. -/
def toDouble (x : Int) : Int :=
  roundInt 53 x

/-- The conversion of a `double` that is an integer to an integer type; out of
the range of the type it is undefined. -/
def fromDouble (signed : Bool) (width : Nat) (x : Int) : Option Nat :=
  if InRange signed width x then some (writeInteger width x) else none

/-- `to_and_back_helper<S> (x)` for integer types: `x` is converted to `S` and
back to its own type. -/
def toAndBackHelper (source target : Bool × Nat) (word : Nat) : Bool :=
  let x := readInteger source.1 source.2 word
  let y := writeInteger target.2 x
  let z := writeInteger source.2 (readInteger target.1 target.2 y)
  readInteger source.1 source.2 z == x

end Cxx

/-- Conversions of integers to integers as the code has them.  Conversions that
involve other kinds, and what an undefined conversion gives, are left open. -/
def Floating.withIntegers (floating : Floating) : Floating where
  arithmetic := floating.arithmetic
  comparison := floating.comparison
  convertNumeric := fun source target word =>
    match source.integerType, target.integerType with
    | some (signed, width), some (targetSigned, targetWidth) =>
        (Cxx.fromDouble targetSigned targetWidth
          (Cxx.toDouble (Cxx.readInteger signed width word))).getD
            (floating.convertNumeric source target word)
    | _, _ => floating.convertNumeric source target word
  toAndBack := fun source target word =>
    match source.integerType, target.integerType with
    | some sourceType, some targetType => Cxx.toAndBackHelper sourceType targetType word
    | _, _ => floating.toAndBack source target word

/-- The integer in the member of `Value` for a kind. -/
def Kind.integer (kind : Kind) (word : Nat) : Int :=
  match kind.integerType with
  | some (signed, width) => Cxx.readInteger signed width word
  | none => 0

def Kind.InRange (kind : Kind) (x : Int) : Prop :=
  match kind.integerType with
  | some (signed, width) => Cxx.InRange signed width x
  | none => False

/-- The converted constant is the same integer in the member of the target. -/
def Converts (floating : Floating) (source target : DataType) (word : Nat) : Prop :=
  ∃ result, Value.convert floating source target (.bits word) = some (.bits result) ∧
    target.underlyingKind.integer result = source.underlyingKind.integer word

def DataType.IsUntypedInteger (type : DataType) : Prop :=
  type = .basic .untypedRune ∨ type = .basic .untypedInteger

/-- The constant is representable exactly where its value is in the range of the
target, and then it is converted to that value. -/
structure UntypedExact (floating : Floating) (source target : DataType) (word : Nat) : Prop where
  representable :
    Value.representable floating source target (some (.bits word)) = some true ↔
      target.underlyingKind.InRange (source.underlyingKind.integer word)
  converts :
    Value.representable floating source target (some (.bits word)) = some true →
      Converts floating source target word

/-- The conversion of a constant with an integer type is exact, whatever an
undefined conversion gives. -/
structure ConversionExact (source target : DataType) (word : Nat) : Prop where
  untyped : source.IsUntypedInteger → target.underlyingKind.isTypedInteger = true →
    ∀ floating : Floating, UntypedExact floating.withIntegers source target word
  typed : source.underlyingKind.isTypedInteger = true →
    source.underlyingType = target.underlyingType →
      ∀ floating : Floating, Converts floating.withIntegers source target word

/-- A negative constant and an unsigned type at least as wide as the member that
the constant is in. -/
def WrapsAround (source target : DataType) (word : Nat) : Prop :=
  source.underlyingKind.integer word < 0 ∧
    ∃ sourceWidth targetWidth signed,
      source.underlyingKind.integerType = some (signed, sourceWidth) ∧
        target.underlyingKind.integerType = some (false, targetWidth) ∧ sourceWidth ≤ targetWidth

/-- The value has more significant bits than a `double`. -/
def LosesBits (source : DataType) (word : Nat) : Prop :=
  ¬SignificantIn 53 (source.underlyingKind.integer word)

section Ranges

variable {signed targetSigned : Bool} {width targetWidth word : Nat} {x y : Int}

namespace Cxx

theorem readInteger_inRange (signed : Bool) (width word : Nat) :
    InRange signed width (readInteger signed width word) := by
  unfold InRange readInteger
  cases signed with
  | true =>
      rw [if_pos rfl, if_pos rfl]
      exact ⟨BitVec.le_toInt _, BitVec.toInt_lt⟩
  | false =>
      rw [if_neg Bool.false_ne_true, if_neg Bool.false_ne_true]
      have bound := (BitVec.ofNat width word).isLt
      have casted : ((2 ^ width : Nat) : Int) = 2 ^ width := by norm_cast
      omega

theorem readInteger_writeInteger_emod :
    readInteger signed width (writeInteger width x) % 2 ^ width = x % 2 ^ width := by
  unfold readInteger writeInteger
  rw [BitVec.ofNat_toNat, BitVec.setWidth_eq]
  cases signed with
  | true =>
      rw [if_pos rfl, BitVec.toInt_ofInt]
      exact Int.bmod_emod
  | false =>
      rw [if_neg Bool.false_ne_true, BitVec.toNat_ofInt]
      have nonneg := Int.emod_nonneg x (b := 2 ^ width) (by positivity)
      have casted : ((2 ^ width : Nat) : Int) = 2 ^ width := by norm_cast
      rw [casted, Int.toNat_of_nonneg nonneg, Int.emod_emod_of_dvd x (dvd_refl _)]

theorem eq_of_emod_eq (positive : 0 < width) (inRange : InRange signed width x)
    (otherInRange : InRange signed width y) (same : x % 2 ^ width = y % 2 ^ width) : x = y := by
  have isMultiple : (2 ^ width : Int) ∣ x - y :=
    Int.dvd_of_emod_eq_zero (Int.emod_eq_emod_iff_emod_sub_eq_zero.mp same)
  have half : (2 ^ width : Int) = 2 * 2 ^ (width - 1) := by
    rw [← pow_succ', Nat.sub_add_cancel positive]
  have close : |x - y| < 2 ^ width := by
    unfold InRange at inRange otherInRange
    rw [abs_lt]
    cases signed with
    | true =>
        rw [if_pos rfl] at inRange otherInRange
        omega
    | false =>
        rw [if_neg Bool.false_ne_true] at inRange otherInRange
        omega
  have same := Int.eq_zero_of_abs_lt_dvd isMultiple close
  omega

theorem readInteger_writeInteger (positive : 0 < width) (inRange : InRange signed width x) :
    readInteger signed width (writeInteger width x) = x :=
  eq_of_emod_eq positive (readInteger_inRange signed width _) inRange readInteger_writeInteger_emod

theorem inRange_of_lt (narrow : width < targetWidth) (inRange : InRange signed width x) :
    InRange true targetWidth x := by
  have double : (2 ^ width : Int) ≤ 2 ^ (targetWidth - 1) :=
    pow_le_pow_right₀ (by decide) (by omega)
  have half : (2 ^ (width - 1) : Int) ≤ 2 ^ width := pow_le_pow_right₀ (by decide) (by omega)
  unfold InRange at inRange ⊢
  rw [if_pos rfl]
  cases signed with
  | true =>
      rw [if_pos rfl] at inRange
      omega
  | false =>
      rw [if_neg Bool.false_ne_true] at inRange
      omega

theorem inRange_iff_of_le (positive : 0 < width) (wide : width ≤ targetWidth)
    (inRange : InRange true width x) :
    InRange targetSigned targetWidth x ↔ targetSigned = true ∨ 0 ≤ x := by
  have half : (2 ^ (width - 1) : Int) ≤ 2 ^ (targetWidth - 1) :=
    pow_le_pow_right₀ (by decide) (by omega)
  have double : (2 ^ (width - 1) : Int) ≤ 2 ^ targetWidth := pow_le_pow_right₀ (by decide) (by omega)
  unfold InRange at inRange ⊢
  rw [if_pos rfl] at inRange
  cases targetSigned with
  | true =>
      rw [if_pos rfl]
      exact iff_of_true ⟨by omega, by omega⟩ (Or.inl rfl)
  | false =>
      rw [if_neg Bool.false_ne_true]
      constructor
      · exact fun bounds => Or.inr bounds.1
      · rintro (isSigned | nonneg)
        · cases isSigned
        · exact ⟨nonneg, by omega⟩

/-- Converting there and back keeps the integers in the range of the target, and
all integers when the target is at least as wide. -/
theorem toAndBackHelper_iff (positive : 0 < width) (targetPositive : 0 < targetWidth) :
    toAndBackHelper (true, width) (targetSigned, targetWidth) word = true ↔
      width ≤ targetWidth ∨ InRange targetSigned targetWidth (readInteger true width word) := by
  have inRange := readInteger_inRange true width word
  have middle := readInteger_inRange targetSigned targetWidth
    (writeInteger targetWidth (readInteger true width word))
  rw [toAndBackHelper, beq_iff_eq]
  dsimp only
  generalize readInteger true width word = x at inRange middle ⊢
  by_cases inTarget : InRange targetSigned targetWidth x
  · rw [readInteger_writeInteger targetPositive inTarget, readInteger_writeInteger positive inRange]
    exact iff_of_true rfl (Or.inr inTarget)
  · simp only [inTarget, or_false]
    constructor
    · intro same
      by_contra narrow
      rw [not_le] at narrow
      rw [readInteger_writeInteger positive (inRange_of_lt narrow middle)] at same
      rw [same] at middle
      exact inTarget middle
    · intro wide
      refine eq_of_emod_eq positive (readInteger_inRange true width _) inRange ?_
      have divides : (2 ^ width : Int) ∣ 2 ^ targetWidth := pow_dvd_pow 2 wide
      rw [readInteger_writeInteger_emod, ← Int.emod_emod_of_dvd _ divides,
        readInteger_writeInteger_emod, Int.emod_emod_of_dvd _ divides]

/-- Through `double` an integer in the range stays what it is exactly when it
has no more than 53 significant bits; otherwise it may become another. -/
theorem fromDouble_iff (positive : 0 < width) (inRange : InRange signed width x) :
    (∀ undefined : Nat, readInteger signed width
      ((fromDouble signed width (toDouble x)).getD undefined) = x) ↔ SignificantIn 53 x := by
  rw [← roundInt_eq_self_iff]
  unfold fromDouble toDouble
  constructor
  · intro converts
    by_cases rounded : InRange signed width (roundInt 53 x)
    · have result := converts 0
      rw [if_pos rounded, Option.getD_some, readInteger_writeInteger positive rounded] at result
      exact result
    · have result := converts (writeInteger width (x + 1))
      rw [if_neg rounded, Option.getD_none] at result
      have same : (x + 1) % 2 ^ width = x % 2 ^ width := by
        rw [← readInteger_writeInteger_emod, result]
      have isMultiple := Int.dvd_of_emod_eq_zero (Int.emod_eq_emod_iff_emod_sub_eq_zero.mp same)
      have even : (2 : Int) ∣ 2 ^ width := dvd_pow_self 2 (by omega)
      have divides := even.trans isMultiple
      omega
  · intro isExact undefined
    rw [isExact, if_pos inRange, Option.getD_some, readInteger_writeInteger positive inRange]

end Cxx

end Ranges

section Exactness

variable {source target : DataType} {word : Nat}

theorem Kind.integerType_of_isTypedInteger {kind : Kind} (isTyped : kind.isTypedInteger = true) :
    ∃ signed width, kind.integerType = some (signed, width) ∧ 0 < width := by
  cases kind with
  | uint8 | uint16 | uint32 | uint64 | int8 | int16 | int32 | int64 | uint | int | uintptr =>
      exact ⟨_, _, rfl, by decide⟩
  | _ => cases isTyped

theorem DataType.IsUntypedInteger.integerType (isUntyped : source.IsUntypedInteger) :
    ∃ width, source.underlyingKind.integerType = some (true, width) ∧ 0 < width := by
  rcases isUntyped with isRune | isInteger
  · rw [isRune]
    exact ⟨_, rfl, by decide⟩
  · rw [isInteger]
    exact ⟨_, rfl, by decide⟩

theorem DataType.isUntyped_of_isTypedInteger (isTyped : target.underlyingKind.isTypedInteger = true) :
    target.isUntyped = false := by
  cases target with
  | basic kind => cases kind <;> first | rfl | cases isTyped
  | callable kind signature => cases kind <;> first | rfl | cases isTyped
  | _ => rfl

theorem Kind.isNumeric_of_isTypedInteger {kind : Kind} (isTyped : kind.isTypedInteger = true) :
    kind.isNumeric = true ∧ kind ≠ .untypedRune ∧ kind ≠ .untypedComplex := by
  cases kind with
  | uint8 | uint16 | uint32 | uint64 | int8 | int16 | int32 | int64 | uint | int | uintptr =>
      exact ⟨rfl, Kind.noConfusion, Kind.noConfusion⟩
  | _ => cases isTyped

theorem representable_withIntegers (floating : Floating) (isUntyped : source.IsUntypedInteger)
    (isTyped : target.underlyingKind.isTypedInteger = true) {sourceType targetType : Bool × Nat}
    (isSource : source.underlyingKind.integerType = some sourceType)
    (isTarget : target.underlyingKind.integerType = some targetType) :
    Value.representable floating.withIntegers source target (some (.bits word)) =
      some (Cxx.toAndBackHelper sourceType targetType word) := by
  have untyped : (source.isUntyped && !target.isUntyped) = true := by
    rw [DataType.isUntyped_of_isTypedInteger isTyped]
    rcases isUntyped with isRune | isInteger
    · rw [isRune]
      rfl
    · rw [isInteger]
      rfl
  have isNumeric := (Kind.isNumeric_of_isTypedInteger isTyped).1
  have helper : floating.withIntegers.toAndBack source.underlyingKind target.underlyingKind word =
      Cxx.toAndBackHelper sourceType targetType word := by
    simp only [Floating.withIntegers, isSource, isTarget]
  unfold Value.representable
  rw [if_pos untyped, ← helper, isNumeric]
  rcases isUntyped with isRune | isInteger
  · rw [isRune]
    rfl
  · rw [isInteger]
    rfl

theorem converts_withIntegers_iff (floating : Floating)
    (isNumeric : source.underlyingKind.isNumeric = true)
    (isTyped : target.underlyingKind.isTypedInteger = true)
    {signed targetSigned : Bool} {width targetWidth : Nat}
    (isSource : source.underlyingKind.integerType = some (signed, width))
    (isTarget : target.underlyingKind.integerType = some (targetSigned, targetWidth)) :
    Converts floating.withIntegers source target word ↔
      Cxx.readInteger targetSigned targetWidth
        ((Cxx.fromDouble targetSigned targetWidth (Cxx.toDouble (Cxx.readInteger signed width word))).getD
          (floating.convertNumeric source.underlyingKind target.underlyingKind word)) =
        Cxx.readInteger signed width word := by
  rcases Kind.isNumeric_of_isTypedInteger isTyped with ⟨targetNumeric, notRune, notComplex⟩
  have isConverted : Value.convert floating.withIntegers source target (.bits word) =
      some (.bits ((Cxx.fromDouble targetSigned targetWidth
        (Cxx.toDouble (Cxx.readInteger signed width word))).getD
          (floating.convertNumeric source.underlyingKind target.underlyingKind word))) := by
    have sourceNotComplex : source.underlyingKind ≠ .untypedComplex := by
      intro isComplex
      rw [isComplex] at isSource
      cases isSource
    unfold Value.convert
    dsimp only
    rw [if_pos ⟨isNumeric, sourceNotComplex⟩, if_pos targetNumeric, if_neg (not_or.mpr ⟨notRune, notComplex⟩)]
    simp only [Floating.withIntegers, isSource, isTarget]
  unfold Converts Kind.integer
  rw [isConverted, isSource, isTarget]
  simp only [Option.some.injEq, Value.bits.injEq, exists_eq_left']

theorem converts_iff (isNumeric : source.underlyingKind.isNumeric = true)
    (isTyped : target.underlyingKind.isTypedInteger = true)
    {signed : Bool} {width : Nat}
    (isSource : source.underlyingKind.integerType = some (signed, width))
    (inRange : target.underlyingKind.InRange (source.underlyingKind.integer word)) :
    (∀ floating : Floating, Converts floating.withIntegers source target word) ↔
      ¬LosesBits source word := by
  rcases Kind.integerType_of_isTypedInteger isTyped with
    ⟨targetSigned, targetWidth, isTarget, targetPositive⟩
  unfold LosesBits Kind.InRange Kind.integer at *
  rw [isSource, isTarget] at inRange
  rw [isSource, not_not, ← Cxx.fromDouble_iff targetPositive inRange]
  constructor
  · intro converts undefined
    exact (converts_withIntegers_iff
      ⟨fun _ _ _ _ => 0, fun _ _ _ _ => false, fun _ _ _ => undefined, fun _ _ _ => false⟩
      isNumeric isTyped isSource isTarget).mp (converts _)
  · intro reads floating
    exact (converts_withIntegers_iff floating isNumeric isTyped isSource isTarget).mpr (reads _)

theorem wrapsAround_iff {width targetWidth : Nat} {targetSigned : Bool}
    (isSource : source.underlyingKind.integerType = some (true, width)) (positive : 0 < width)
    (isTarget : target.underlyingKind.integerType = some (targetSigned, targetWidth)) :
    WrapsAround source target word ↔
      width ≤ targetWidth ∧ ¬target.underlyingKind.InRange (source.underlyingKind.integer word) := by
  unfold WrapsAround Kind.InRange Kind.integer
  simp only [isSource, isTarget, Option.some.injEq, Prod.mk.injEq]
  have inSource := Cxx.readInteger_inRange true width word
  constructor
  · rintro ⟨negative, _, _, _, ⟨_, rfl⟩, ⟨rfl, rfl⟩, wide⟩
    refine ⟨wide, ?_⟩
    rw [Cxx.inRange_iff_of_le positive wide inSource]
    rintro (isSigned | nonneg)
    · cases isSigned
    · omega
  · rintro ⟨wide, outside⟩
    rw [Cxx.inRange_iff_of_le positive wide inSource, not_or] at outside
    exact ⟨by omega, width, targetWidth, true, ⟨rfl, rfl⟩,
      ⟨Bool.eq_false_of_not_eq_true outside.1, rfl⟩, wide⟩

theorem isNumeric_of_isUntypedInteger (isUntyped : source.IsUntypedInteger) :
    source.underlyingKind.isNumeric = true := by
  rcases isUntyped with isRune | isInteger
  · rw [isRune]
    rfl
  · rw [isInteger]
    rfl

theorem untypedExact_iff (isUntyped : source.IsUntypedInteger)
    (isTyped : target.underlyingKind.isTypedInteger = true) :
    (∀ floating : Floating, UntypedExact floating.withIntegers source target word) ↔
      ¬WrapsAround source target word ∧
        ¬(target.underlyingKind.InRange (source.underlyingKind.integer word) ∧
          LosesBits source word) := by
  rcases isUntyped.integerType with ⟨width, isSource, positive⟩
  rcases Kind.integerType_of_isTypedInteger isTyped with
    ⟨targetSigned, targetWidth, isTarget, targetPositive⟩
  have isNumeric := isNumeric_of_isUntypedInteger isUntyped
  have accepts : ∀ floating : Floating,
      Value.representable floating.withIntegers source target (some (.bits word)) = some true ↔
        width ≤ targetWidth ∨
          target.underlyingKind.InRange (source.underlyingKind.integer word) := by
    intro floating
    rw [representable_withIntegers floating isUntyped isTyped isSource isTarget, Option.some.injEq,
      Cxx.toAndBackHelper_iff positive targetPositive]
    simp only [Kind.InRange, Kind.integer, isSource, isTarget]
  rw [wrapsAround_iff isSource positive isTarget]
  constructor
  · intro isExact
    constructor
    · rintro ⟨wide, outside⟩
      have floating : Floating :=
        ⟨fun _ _ _ _ => 0, fun _ _ _ _ => false, fun _ _ _ => 0, fun _ _ _ => false⟩
      exact outside
        ((isExact floating).representable.mp ((accepts floating).mpr (Or.inl wide)))
    · rintro ⟨inside, loses⟩
      exact (converts_iff isNumeric isTyped isSource inside).mp
        (fun floating =>
          (isExact floating).converts ((accepts floating).mpr (Or.inr inside))) loses
  · rintro ⟨noWrap, noLoss⟩ floating
    have inRange_iff :
        Value.representable floating.withIntegers source target (some (.bits word)) = some true ↔
          target.underlyingKind.InRange (source.underlyingKind.integer word) := by
      rw [accepts]
      constructor
      · rintro (wide | inside)
        · by_contra outside
          exact noWrap ⟨wide, outside⟩
        · exact inside
      · exact Or.inr
    refine ⟨inRange_iff, fun accepted => ?_⟩
    have inside := inRange_iff.mp accepted
    exact (converts_iff isNumeric isTyped isSource inside).mpr (fun loses => noLoss ⟨inside, loses⟩)
      floating

theorem Kind.integer_inRange {kind : Kind} {signed : Bool} {width : Nat}
    (isType : kind.integerType = some (signed, width)) : kind.InRange (kind.integer word) := by
  simp only [Kind.InRange, Kind.integer, isType]
  exact Cxx.readInteger_inRange signed width word

end Exactness

/-- The conversion of an integer constant to an integer type is exact unless it
is untyped and negative and the type unsigned and no narrower, or its value has
more than 53 significant bits and is kept. -/
theorem conversionExact_iff (source target : DataType) (word : Nat) :
    ConversionExact source target word ↔
      ¬(source.IsUntypedInteger ∧ target.underlyingKind.isTypedInteger = true ∧
          WrapsAround source target word) ∧
        ¬(source.IsUntypedInteger ∧ target.underlyingKind.isTypedInteger = true ∧
            target.underlyingKind.InRange (source.underlyingKind.integer word) ∧
              LosesBits source word) ∧
          ¬(source.underlyingKind.isTypedInteger = true ∧
            source.underlyingType = target.underlyingType ∧ LosesBits source word) := by
  have typed_iff : source.underlyingKind.isTypedInteger = true →
      source.underlyingType = target.underlyingType →
        ((∀ floating : Floating, Converts floating.withIntegers source target word) ↔
          ¬LosesBits source word) := by
    intro isTyped same
    have sameKind : target.underlyingKind = source.underlyingKind := congrArg DataType.kind same.symm
    rcases Kind.integerType_of_isTypedInteger isTyped with ⟨signed, width, isSource, _⟩
    refine converts_iff (Kind.isNumeric_of_isTypedInteger isTyped).1 (sameKind ▸ isTyped) isSource ?_
    rw [sameKind]
    exact Kind.integer_inRange isSource
  constructor
  · intro isExact
    refine ⟨fun ⟨isUntyped, isTyped, wraps⟩ => ?_, fun ⟨isUntyped, isTyped, loses⟩ => ?_,
      fun ⟨isTyped, same, loses⟩ => ?_⟩
    · exact ((untypedExact_iff isUntyped isTyped).mp (isExact.untyped isUntyped isTyped)).1 wraps
    · exact ((untypedExact_iff isUntyped isTyped).mp (isExact.untyped isUntyped isTyped)).2 loses
    · exact (typed_iff isTyped same).mp (isExact.typed isTyped same) loses
  · rintro ⟨noWrap, noLoss, noTypedLoss⟩
    constructor
    · intro isUntyped isTyped
      exact (untypedExact_iff isUntyped isTyped).mpr
        ⟨fun wraps => noWrap ⟨isUntyped, isTyped, wraps⟩,
          fun loses => noLoss ⟨isUntyped, isTyped, loses⟩⟩
    · intro isTyped same
      exact (typed_iff isTyped same).mpr fun loses => noTypedLoss ⟨isTyped, same, loses⟩

/-- `-1` is representable as a `uint64`. -/
theorem minusOne_not_conversionExact :
    ¬∀ (source target : DataType) (word : Nat), ConversionExact source target word := by
  intro isExact
  have atMinusOne := (isExact (.basic .untypedInteger) (.named 0 (.basic .uint64)) (2 ^ 64 - 1)).untyped
    (Or.inr rfl) rfl ⟨fun _ _ _ _ => 0, fun _ _ _ _ => false, fun _ _ _ => 0, fun _ _ _ => false⟩
  have inRange : Cxx.InRange false 64 (Cxx.readInteger true 64 (2 ^ 64 - 1)) :=
    atMinusOne.representable.mp (by decide)
  have isMinusOne : Cxx.readInteger true 64 (2 ^ 64 - 1) = -1 := by decide
  rw [isMinusOne] at inRange
  exact absurd inRange (by decide)

end Rcgo.Code
