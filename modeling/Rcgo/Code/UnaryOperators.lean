import Rcgo.Code.Conversion
import Mathlib.Data.BitVec

/-!
# Unary operators on constants

`Posate::check`, `Negate::check` and `Complement::check` for constants of integer
types.  A node of the syntax tree has a union of its own for the result, and the
operators write one member of it.
-/

namespace Rcgo.Code

/-- The unary operators that apply to numbers. -/
inductive UnaryArithmetic where
  | posate
  | negate
  | complement
  deriving DecidableEq, Repr

namespace Cxx

/-- A union after a member with so many bits has been written; the other bits
are what they were. -/
def storeMember (width leftover word : Nat) : Nat :=
  leftover / 2 ^ width * 2 ^ width + word % 2 ^ width

/-- `-x`, converted to the type of `x`; an overflow of a signed type is undefined. -/
def negateInteger (signed : Bool) (width word : Nat) : Option Nat :=
  let promoted := promote signed width
  (settle promoted.1 promoted.2 (-readInteger signed width word)).map (writeInteger width)

/-- `~x`, converted to the type of `x`. -/
def complementInteger (signed : Bool) (width word : Nat) : Option Nat :=
  let promoted := promote signed width
  (settle promoted.1 promoted.2 (-readInteger signed width word - 1)).map (writeInteger width)

end Cxx

/-- The member that `Negate::check` and `Complement::check` read and write. -/
def Kind.unaryMember : Kind → Option (Bool × Nat)
  | uint8 => some (false, 8)
  | uint16 => some (false, 16)
  | uint32 => some (false, 32)
  -- `result.value.uint32_value = -arg.value.uint32_value`
  | uint64 => some (false, 32)
  | int8 => some (true, 8)
  | int16 => some (true, 16)
  | int32 => some (true, 32)
  | int64 => some (true, 64)
  | uint => some (false, 64)
  | int => some (true, 64)
  | uintptr => some (false, 64)
  | untypedRune => some (true, 32)
  | untypedInteger => some (true, 64)
  | _ => none

namespace UnaryArithmetic

/-- The value of the result.  `leftover` is what the union of the result holds
before. -/
def fold (operator : UnaryArithmetic) (kind : Kind) (leftover word : Nat) : Option Nat :=
  match operator with
  | posate => some word
  | negate =>
      kind.unaryMember.bind fun member =>
        (Cxx.negateInteger member.1 member.2 word).map (Cxx.storeMember member.2 leftover)
  | complement =>
      kind.unaryMember.bind fun member =>
        (Cxx.complementInteger member.1 member.2 word).map (Cxx.storeMember member.2 leftover)

/-- The check of an operator with an argument of an integer type. -/
def check (operator : UnaryArithmetic) (leftover : Nat) (argument : ExpressionValue) :
    Option ExpressionValue :=
  if argument.isValueOrVariable && argument.type.underlyingKind.isIntegral then
    match argument.value with
    | some (.bits word) =>
        (operator.fold argument.type.underlyingKind leftover word).map fun result =>
          ⟨.value, argument.type, some (.bits result)⟩
    | some (.text _) => none
    | none => some ⟨.value, argument.type, none⟩
  else none

end UnaryArithmetic

/-- A constant under any number of unary operators. -/
inductive UnaryExpression where
  | constant (word : Nat)
  | apply (operator : UnaryArithmetic) (argument : UnaryExpression)

namespace UnaryExpression

/-- What the checker makes of the expression, given what the unions of its
nodes hold before. -/
def check (leftover : UnaryExpression → Nat) (type : DataType) :
    UnaryExpression → Option ExpressionValue
  | constant word => some ⟨.value, type, some (.bits word)⟩
  | apply operator argument =>
      (argument.check leftover type).bind (operator.check (leftover (apply operator argument)))

/-- The operations modulo `2 ^ width`. -/
def meaning (width : Nat) : UnaryExpression → BitVec width
  | constant word => BitVec.ofNat width word
  | apply .posate argument => argument.meaning width
  | apply .negate argument => -argument.meaning width
  | apply .complement argument => ~~~argument.meaning width

def value (signed : Bool) (width : Nat) (expression : UnaryExpression) : Int :=
  if signed then (expression.meaning width).toInt else (expression.meaning width).toNat

/-- Whatever the unions held, the constant that later readers of the type find
is the value that the source means. -/
def FoldsTo (expression : UnaryExpression) (type : DataType) : Prop :=
  ∀ leftover, ∃ result, expression.check leftover type = some ⟨.value, type, some (.bits result)⟩ ∧
    ∀ signed width, type.underlyingKind.integerType = some (signed, width) →
      type.underlyingKind.integer result = expression.value signed width

def Computes : UnaryExpression → Prop
  | constant _ => False
  | apply .posate argument => argument.Computes
  | apply _ _ => True

/-- The least integer of a type with `width` bits is negated. -/
def NegatesLeast (width : Nat) : UnaryExpression → Prop
  | constant _ => False
  | apply .negate argument =>
      argument.meaning width = BitVec.intMin width ∨ argument.NegatesLeast width
  | apply _ argument => argument.NegatesLeast width

/-- Where folding goes wrong: an operator is applied to a `uint64`, or the least
integer of a signed type that is not promoted is negated. -/
def Misfolds (expression : UnaryExpression) (type : DataType) : Prop :=
  (type.underlyingKind = .uint64 ∧ expression.Computes) ∨
    ∃ width, type.underlyingKind.integerType = some (true, width) ∧ 32 ≤ width ∧
      expression.NegatesLeast width

end UnaryExpression

section Members

variable {signed : Bool} {width leftover word : Nat} {x : Int}

namespace Cxx

theorem ofNat_storeMember :
    BitVec.ofNat width (storeMember width leftover word) = BitVec.ofNat width word := by
  apply BitVec.eq_of_toNat_eq
  simp [storeMember]

theorem ofInt_readInteger : BitVec.ofInt width (readInteger signed width word) = BitVec.ofNat width word := by
  unfold readInteger
  cases signed with
  | true => rw [if_pos rfl, BitVec.ofInt_toInt]
  | false => rw [if_neg Bool.false_ne_true, BitVec.ofInt_natCast, BitVec.ofNat_toNat, BitVec.setWidth_eq]

theorem ofNat_writeInteger : BitVec.ofNat width (writeInteger width x) = BitVec.ofInt width x := by
  rw [writeInteger, BitVec.ofNat_toNat, BitVec.setWidth_eq]

theorem ofInt_settle {promotedSigned : Bool} {promotedWidth : Nat} (wide : width ≤ promotedWidth)
    {y : Int} (settled : settle promotedSigned promotedWidth x = some y) :
    BitVec.ofInt width y = BitVec.ofInt width x := by
  unfold settle at settled
  cases promotedSigned with
  | true =>
      rw [if_pos rfl] at settled
      split at settled
      · rw [Option.some.injEq] at settled
        rw [settled]
      · cases settled
  | false =>
      rw [if_neg Bool.false_ne_true, Option.some.injEq] at settled
      have divides : (2 ^ width : Int) ∣ 2 ^ promotedWidth := pow_dvd_pow 2 wide
      apply BitVec.eq_of_toNat_eq
      rw [BitVec.toNat_ofInt, BitVec.toNat_ofInt, ← settled]
      push_cast
      rw [Int.emod_emod_of_dvd x divides]

theorem width_le_promote : width ≤ (promote signed width).2 := by
  unfold promote
  split
  · dsimp only
    omega
  · exact le_rfl

theorem ofNat_negateInteger {result : Nat} (negated : negateInteger signed width word = some result) :
    BitVec.ofNat width result = -BitVec.ofNat width word := by
  rw [negateInteger, Option.map_eq_some_iff] at negated
  rcases negated with ⟨y, settled, rfl⟩
  rw [ofNat_writeInteger, ofInt_settle width_le_promote settled, BitVec.ofInt_neg, ofInt_readInteger]

theorem ofNat_complementInteger {result : Nat}
    (complemented : complementInteger signed width word = some result) :
    BitVec.ofNat width result = ~~~BitVec.ofNat width word := by
  rw [complementInteger, Option.map_eq_some_iff] at complemented
  rcases complemented with ⟨y, settled, rfl⟩
  rw [ofNat_writeInteger, ofInt_settle width_le_promote settled, Int.sub_eq_add_neg, BitVec.ofInt_add,
    BitVec.ofInt_neg, ofInt_readInteger, BitVec.neg_eq_not_add, BitVec.add_assoc]
  have cancels : BitVec.ofNat width 1 + BitVec.ofInt width (-1) = BitVec.ofNat width 0 := by
    rw [BitVec.ofInt_neg]
    exact BitVec.add_right_neg _
  rw [cancels, BitVec.add_zero]

theorem small_of_narrow (narrow : width < 32) (inRange : InRange signed width x) :
    -2 ^ 30 ≤ x ∧ x < 2 ^ 31 := by
  have half : (2 ^ (width - 1) : Int) ≤ 2 ^ 30 := pow_le_pow_right₀ (by decide) (by omega)
  have double : (2 ^ width : Int) ≤ 2 ^ 31 := pow_le_pow_right₀ (by decide) (by omega)
  unfold InRange at inRange
  cases signed with
  | true =>
      rw [if_pos rfl] at inRange
      omega
  | false =>
      rw [if_neg Bool.false_ne_true] at inRange
      omega

theorem negateInteger_eq_none_iff (positive : 0 < width) :
    negateInteger signed width word = none ↔
      signed = true ∧ 32 ≤ width ∧ BitVec.ofNat width word = BitVec.intMin width := by
  have inRange := readInteger_inRange signed width word
  rw [negateInteger, Option.map_eq_none_iff]
  unfold promote settle
  by_cases narrow : width < 32
  · have small := small_of_narrow narrow inRange
    rw [if_pos narrow, if_pos rfl, if_pos (by dsimp only; omega)]
    exact iff_of_false (Option.some_ne_none _) fun least => by omega
  · rw [if_neg narrow]
    dsimp only
    cases signed with
    | false =>
        rw [if_neg Bool.false_ne_true]
        exact iff_of_false (Option.some_ne_none _) fun least => Bool.false_ne_true least.1
    | true =>
        have least_iff : BitVec.ofNat width word = BitVec.intMin width ↔
            readInteger true width word = -2 ^ (width - 1) := by
          rw [← BitVec.toInt_inj, BitVec.toInt_intMin_of_pos positive]
          rfl
        rw [if_pos rfl, least_iff]
        unfold InRange at inRange
        rw [if_pos rfl] at inRange
        simp only [true_and, ite_eq_right_iff, reduceCtorEq, imp_false]
        omega

theorem complementInteger_ne_none : complementInteger signed width word ≠ none := by
  have inRange := readInteger_inRange signed width word
  rw [complementInteger, ne_eq, Option.map_eq_none_iff]
  unfold promote settle
  by_cases narrow : width < 32
  · have small := small_of_narrow narrow inRange
    rw [if_pos narrow, if_pos rfl, if_pos (by dsimp only; omega)]
    exact Option.some_ne_none _
  · rw [if_neg narrow]
    dsimp only
    cases signed with
    | false =>
        rw [if_neg Bool.false_ne_true]
        exact Option.some_ne_none _
    | true =>
        unfold InRange at inRange
        rw [if_pos rfl] at inRange
        rw [if_pos rfl, if_pos (by omega)]
        exact Option.some_ne_none _

end Cxx

end Members

section Folding

variable {kind : Kind} {type : DataType} {width leftover word : Nat} {signed : Bool}
  {operator : UnaryArithmetic} {expression : UnaryExpression}

/-- The member is the one of the kind, except for `uint64`. -/
theorem Kind.unaryMember_eq (notUint64 : kind ≠ .uint64)
    (isType : kind.integerType = some (signed, width)) :
    kind.unaryMember = some (signed, width) := by
  cases kind <;> first | exact isType | exact absurd rfl notUint64

theorem Kind.integerType_of_isIntegral (integral : kind.isIntegral = true) :
    ∃ signed width, kind.integerType = some (signed, width) ∧ 0 < width := by
  cases kind <;> first | exact ⟨_, _, rfl, by decide⟩ | cases integral

theorem Kind.integer_eq_value_iff (isType : kind.integerType = some (signed, width)) :
    kind.integer word = expression.value signed width ↔
      BitVec.ofNat width word = expression.meaning width := by
  unfold Kind.integer UnaryExpression.value Cxx.readInteger
  rw [isType]
  cases signed with
  | true =>
      dsimp only
      rw [if_pos rfl, if_pos rfl, BitVec.toInt_inj]
  | false =>
      dsimp only
      rw [if_neg Bool.false_ne_true, if_neg Bool.false_ne_true, Int.ofNat_inj, BitVec.toNat_inj]

theorem UnaryArithmetic.check_constant (integral : type.underlyingKind.isIntegral = true) :
    operator.check leftover ⟨.value, type, some (.bits word)⟩ =
      (operator.fold type.underlyingKind leftover word).map fun result =>
        ⟨.value, type, some (.bits result)⟩ := by
  unfold UnaryArithmetic.check
  rw [if_pos]
  rw [Bool.and_eq_true]
  exact ⟨rfl, integral⟩

theorem UnaryExpression.check_apply {leftovers : UnaryExpression → Nat}
    (integral : type.underlyingKind.isIntegral = true)
    (argument : expression.check leftovers type = some ⟨.value, type, some (.bits word)⟩) :
    (apply operator expression).check leftovers type =
      (operator.fold type.underlyingKind (leftovers (apply operator expression)) word).map
        fun result => ⟨.value, type, some (.bits result)⟩ := by
  rw [UnaryExpression.check, argument, Option.bind_some, UnaryArithmetic.check_constant integral]

theorem UnaryExpression.check_apply_none {leftovers : UnaryExpression → Nat}
    (argument : expression.check leftovers type = none) :
    (apply operator expression).check leftovers type = none := by
  rw [UnaryExpression.check, argument, Option.bind_none]

/-- A type whose own member is written folds to the meaning, unless an operation
overflows. -/
theorem UnaryExpression.check_spec (leftovers : UnaryExpression → Nat)
    (integral : type.underlyingKind.isIntegral = true) (notUint64 : type.underlyingKind ≠ .uint64)
    (isType : type.underlyingKind.integerType = some (signed, width)) (positive : 0 < width)
    (expression : UnaryExpression) :
    (¬(signed = true ∧ 32 ≤ width ∧ expression.NegatesLeast width) →
      ∃ result, expression.check leftovers type = some ⟨.value, type, some (.bits result)⟩ ∧
        BitVec.ofNat width result = expression.meaning width) ∧
    (signed = true ∧ 32 ≤ width ∧ expression.NegatesLeast width →
      expression.check leftovers type = none) := by
  have isMember := Kind.unaryMember_eq notUint64 isType
  induction expression with
  | constant word => exact ⟨fun _ => ⟨word, rfl, rfl⟩, fun least => least.2.2.elim⟩
  | apply operator argument induction =>
      by_cases inner : signed = true ∧ 32 ≤ width ∧ argument.NegatesLeast width
      · have overflows : (apply operator argument).NegatesLeast width := by
          cases operator with
          | negate => exact Or.inr inner.2.2
          | _ => exact inner.2.2
        exact ⟨fun fine => absurd ⟨inner.1, inner.2.1, overflows⟩ fine,
          fun _ => check_apply_none (induction.2 inner)⟩
      · rcases induction.1 inner with ⟨word, checked, isMeaning⟩
        rw [check_apply integral checked]
        cases operator with
        | posate => exact ⟨fun _ => ⟨word, rfl, isMeaning⟩, fun least => absurd least inner⟩
        | complement =>
            refine ⟨fun _ => ?_, fun least => absurd least inner⟩
            have isDefined : Cxx.complementInteger signed width word ≠ none :=
              Cxx.complementInteger_ne_none
            rcases Option.ne_none_iff_exists'.mp isDefined with ⟨result, isResult⟩
            refine ⟨Cxx.storeMember width (leftovers (apply .complement argument)) result, ?_, ?_⟩
            · rw [UnaryArithmetic.fold, isMember, Option.bind_some, isResult]
              rfl
            · rw [Cxx.ofNat_storeMember, Cxx.ofNat_complementInteger isResult, isMeaning]
              rfl
        | negate =>
            have isUndefined : Cxx.negateInteger signed width word = none ↔
                signed = true ∧ 32 ≤ width ∧ argument.meaning width = BitVec.intMin width := by
              rw [Cxx.negateInteger_eq_none_iff positive, isMeaning]
            constructor
            · intro fine
              have isDefined : Cxx.negateInteger signed width word ≠ none := by
                rw [ne_eq, isUndefined]
                exact fun least => fine ⟨least.1, least.2.1, Or.inl least.2.2⟩
              rcases Option.ne_none_iff_exists'.mp isDefined with ⟨result, isResult⟩
              refine ⟨Cxx.storeMember width (leftovers (apply .negate argument)) result, ?_, ?_⟩
              · rw [UnaryArithmetic.fold, isMember, Option.bind_some, isResult]
                rfl
              · rw [Cxx.ofNat_storeMember, Cxx.ofNat_negateInteger isResult, isMeaning]
                rfl
            · rintro ⟨isSigned, wide, isLeast | inArgument⟩
              · rw [UnaryArithmetic.fold, isMember, Option.bind_some,
                  isUndefined.mpr ⟨isSigned, wide, isLeast⟩]
                rfl
              · exact absurd ⟨isSigned, wide, inArgument⟩ inner

/-- For a `uint64` the upper half of the result is what its union held. -/
theorem UnaryExpression.check_uint64 (isUint64 : type.underlyingKind = .uint64)
    (leftovers : UnaryExpression → Nat) (expression : UnaryExpression) :
    ∃ result, expression.check leftovers type = some ⟨.value, type, some (.bits result)⟩ ∧
      (expression.Computes → ∃ leftover, result / 2 ^ 32 = leftovers leftover / 2 ^ 32) ∧
        (¬expression.Computes → BitVec.ofNat 64 result = expression.meaning 64) := by
  have integral : type.underlyingKind.isIntegral = true := by
    rw [isUint64]
    rfl
  have stored : ∀ leftover word, Cxx.storeMember 32 leftover word / 2 ^ 32 = leftover / 2 ^ 32 := by
    intro leftover word
    rw [Cxx.storeMember]
    omega
  induction expression with
  | constant word => exact ⟨word, rfl, fun computes => computes.elim, fun _ => rfl⟩
  | apply operator argument induction =>
      rcases induction with ⟨word, checked, upper, isMeaning⟩
      rw [check_apply integral checked]
      cases operator with
      | posate => exact ⟨word, rfl, upper, isMeaning⟩
      | negate =>
          have isDefined : Cxx.negateInteger false 32 word ≠ none := by
            rw [ne_eq, Cxx.negateInteger_eq_none_iff (by decide)]
            exact fun least => Bool.false_ne_true least.1
          rcases Option.ne_none_iff_exists'.mp isDefined with ⟨result, isResult⟩
          refine ⟨Cxx.storeMember 32 (leftovers (apply .negate argument)) result, ?_,
            fun _ => ⟨apply .negate argument, stored _ result⟩,
            fun notComputes => absurd trivial notComputes⟩
          rw [UnaryArithmetic.fold, isUint64, Kind.unaryMember, Option.bind_some, isResult]
          rfl
      | complement =>
          have isDefined : Cxx.complementInteger false 32 word ≠ none :=
            Cxx.complementInteger_ne_none
          rcases Option.ne_none_iff_exists'.mp isDefined with ⟨result, isResult⟩
          refine ⟨Cxx.storeMember 32 (leftovers (apply .complement argument)) result, ?_,
            fun _ => ⟨apply .complement argument, stored _ result⟩,
            fun notComputes => absurd trivial notComputes⟩
          rw [UnaryArithmetic.fold, isUint64, Kind.unaryMember, Option.bind_some, isResult]
          rfl

/-- An operator on a `uint64` does not fold to its meaning for all unions. -/
theorem UnaryExpression.not_foldsTo_uint64 (isUint64 : type.underlyingKind = .uint64)
    (computes : expression.Computes) : ¬expression.FoldsTo type := by
  intro folds
  have isType : type.underlyingKind.integerType = some (false, 64) := by
    rw [isUint64]
    rfl
  -- The meaning would have one upper half for unions with zeros and another for unions with a one.
  have upperHalf : ∀ leftover, (expression.meaning 64).toNat / 2 ^ 32 = leftover / 2 ^ 32 % 2 ^ 32 := by
    intro leftover
    rcases check_uint64 isUint64 (fun _ => leftover) expression with ⟨result, checked, upper, _⟩
    rcases folds fun _ => leftover with ⟨found, again, reads⟩
    rw [checked, Option.some.injEq, ExpressionValue.mk.injEq, Option.some.injEq,
      Value.bits.injEq] at again
    rcases upper computes with ⟨_, isUpper⟩
    have isMeaning := (Kind.integer_eq_value_iff isType).mp (reads false 64 isType)
    rw [← isMeaning, BitVec.toNat_ofNat, ← again.2.2]
    omega
  have zeros := upperHalf 0
  have ones := upperHalf (2 ^ 32)
  rw [zeros] at ones
  cases ones

end Folding

/-- A nest of unary operators on a constant of an integer type folds to what it
means, unless an operator is applied to a `uint64` or an operation overflows. -/
theorem UnaryExpression.foldsTo_iff (type : DataType)
    (integral : type.underlyingKind.isIntegral = true) (expression : UnaryExpression) :
    expression.FoldsTo type ↔ ¬expression.Misfolds type := by
  rcases Kind.integerType_of_isIntegral integral with ⟨signed, width, isType, positive⟩
  have reads : ∀ {result : Nat}, BitVec.ofNat width result = expression.meaning width →
      ∀ otherSigned otherWidth, type.underlyingKind.integerType = some (otherSigned, otherWidth) →
        type.underlyingKind.integer result = expression.value otherSigned otherWidth := by
    intro result isMeaning otherSigned otherWidth isOther
    rw [isType, Option.some.injEq, Prod.mk.injEq] at isOther
    rw [← isOther.1, ← isOther.2]
    exact (Kind.integer_eq_value_iff isType).mpr isMeaning
  by_cases isUint64 : type.underlyingKind = .uint64
  · constructor
    · rintro folds (⟨_, computes⟩ | ⟨_, isSigned, _, _⟩)
      · exact not_foldsTo_uint64 isUint64 computes folds
      · rw [isUint64] at isSigned
        cases isSigned
    · intro fine leftovers
      have notComputes : ¬expression.Computes := fun computes => fine (Or.inl ⟨isUint64, computes⟩)
      rcases check_uint64 isUint64 leftovers expression with ⟨result, checked, _, isMeaning⟩
      have width64 : width = 64 := by
        rw [isUint64] at isType
        cases isType
        rfl
      subst width64
      exact ⟨result, checked, reads (isMeaning notComputes)⟩
  · constructor
    · rintro folds (⟨isUint64', _⟩ | ⟨otherWidth, isSigned, wide, least⟩)
      · exact isUint64 isUint64'
      · rcases folds fun _ => 0 with ⟨result, checked, _⟩
        rw [isType, Option.some.injEq, Prod.mk.injEq] at isSigned
        rw [← isSigned.2] at wide least
        rw [(check_spec (fun _ => 0) integral isUint64 isType positive expression).2
          ⟨isSigned.1, wide, least⟩] at checked
        cases checked
    · intro fine leftovers
      have noOverflow : ¬(signed = true ∧ 32 ≤ width ∧ expression.NegatesLeast width) := by
        rintro ⟨rfl, wide, least⟩
        exact fine (Or.inr ⟨width, isType, wide, least⟩)
      rcases (check_spec leftovers integral isUint64 isType positive expression).1 noOverflow with
        ⟨result, checked, isMeaning⟩
      exact ⟨result, checked, reads isMeaning⟩

section Constants

/-- `-^c`. -/
def negatedComplement (word : Nat) : UnaryExpression :=
  .apply .negate (.apply .complement (.constant word))

/-- `-^(-3)` for an `int8` folds to `-2`. -/
theorem UnaryExpression.foldsTo_iff_int8 :
    (negatedComplement 253).FoldsTo (.named 0 (.basic .int8)) ↔
      ¬(negatedComplement 253).Misfolds (.named 0 (.basic .int8)) :=
  UnaryExpression.foldsTo_iff (.named 0 (.basic .int8)) rfl (negatedComplement 253)

/-- `-1` for a `uint64` whose union held zeros folds to `4294967295`. -/
theorem UnaryExpression.minusOne_not_foldsTo :
    ¬∀ (type : DataType) (expression : UnaryExpression), type.underlyingKind.isIntegral = true →
      expression.FoldsTo type := by
  intro folds
  rcases folds (.named 0 (.basic .uint64)) (.apply .negate (.constant 1)) rfl fun _ => 0 with
    ⟨result, checked, reads⟩
  have isFolded : (UnaryExpression.apply .negate (.constant 1)).check (fun _ => 0)
      (.named 0 (.basic .uint64)) = some ⟨.value, .named 0 (.basic .uint64), some (.bits 4294967295)⟩ := by
    decide
  rw [isFolded, Option.some.injEq, ExpressionValue.mk.injEq, Option.some.injEq,
    Value.bits.injEq] at checked
  have read := reads false 64 rfl
  rw [← checked.2.2] at read
  exact absurd read (by decide)

end Constants

end Rcgo.Code
