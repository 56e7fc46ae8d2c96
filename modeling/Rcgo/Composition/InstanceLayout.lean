import Rcgo.Composition.InstanceTable
import Rcgo.Foundation.NestedPlacement

/-!
# The parts of a program and where they lie

A program has its declared instances one behind the other, a component has its fields,
and an array its elements.  A part inside a plain struct is none of these.
-/

namespace Rcgo.Composition

open Code Foundation

/-- The tables in which parts are registered. -/
inductive Table where
  | instances
  | pushPorts
  | pullPorts
  deriving DecidableEq

/-- The table in which a part of the type is registered. -/
def tableOf (type : DataType) : Option Table :=
  match type.underlyingType with
  | .component _ => some .instances
  | .callable .pushPort _ => some .pushPorts
  | .callable .pullPort _ => some .pullPorts
  | _ => none

/-- What has parts. -/
inductive Whole where
  | program (declarations : List InstanceDecl)
  | stored (type : DataType)

/-- The declared instances one behind the other. -/
def declared : List InstanceDecl → Nat → Option (Arch.Word × DataType)
  | [], _ => none
  | declaration :: _, 0 => some (0, declaration.type)
  | declaration :: rest, i + 1 => do
      let size ← Arch.size declaration.type
      let (address, type) ← declared rest i
      some (size + address, type)

/-- The part that a selector denotes, with its offset. -/
def parts : Whole → Selector → Option (Arch.Word × Whole)
  | .program declarations, .declared i => (declared declarations i).map (Prod.map id .stored)
  | .stored type, .field i =>
      match type.underlyingType with
      | .component fields => do
          let part ← fields.toList[i]?
          let offset ← Arch.offset fields i
          some (offset, .stored part)
      | _ => none
  | .stored type, .element i =>
      match type.underlyingType with
      | .array dimension base => do
          let unit ← Arch.unitSize base
          if i < dimension then some (Arch.elementOffset unit i, .stored base) else none
      | _ => none
  | _, _ => none

def bytes (type : DataType) : Nat :=
  ((Arch.size type).getD 0).toNat

def programBytes (declarations : List InstanceDecl) : Nat :=
  (declarations.map fun declaration => bytes declaration.type).sum

def Whole.size : Whole → Nat
  | .program declarations => programBytes declarations
  | .stored type => bytes type

/-- The types of the declared instances are given and laid out, and the instances fit into
the address space. -/
def Whole.IsLaidOut : Whole → Prop
  | .program declarations => programBytes declarations ≤ 2 ^ 64 ∧
      ∀ declaration ∈ declarations,
        declaration.type.IsGiven ∧ declaration.type.Everywhere Arch.LaidOut
  | .stored type => type.IsGiven ∧ type.Everywhere Arch.LaidOut

def Whole.IsIn (table : Table) : Whole → Prop
  | .program _ => False
  | .stored type => tableOf type = some table

/-! ## The underlying type -/

theorem size_underlyingType (type : DataType) :
    Arch.size type.underlyingType = Arch.size type := by
  rw [Arch.size_eq, Arch.size_eq, DataType.size_underlyingType]

theorem bytes_underlyingType (type : DataType) : bytes type.underlyingType = bytes type := by
  rw [bytes, bytes, size_underlyingType]

theorem isGiven_underlyingType {type : DataType} (given : type.IsGiven) :
    type.underlyingType.IsGiven := by
  induction type using DataType.underlyingType.induct with
  | case1 name definition inductionHypothesis => exact inductionHypothesis given
  | case2 type notNamed =>
      rw [DataType.underlyingType]
      · exact given
      · exact notNamed

theorem everywhere_underlyingType {property : DataType → Prop} {type : DataType}
    (everywhere : type.Everywhere property) : type.underlyingType.Everywhere property := by
  induction type using DataType.underlyingType.induct with
  | case1 name definition inductionHypothesis => exact inductionHypothesis everywhere
  | case2 type notNamed =>
      rw [DataType.underlyingType]
      · exact everywhere
      · exact notNamed

theorem isGiven_field {fields : Fields} (given : fields.AreGiven) {i : Nat} {type : DataType}
    (isField : fields.toList[i]? = some type) : type.IsGiven := by
  induction i generalizing fields with
  | zero =>
      cases fields with
      | nil => cases isField
      | cons first rest =>
          cases isField
          exact given.1
  | succ i inductionHypothesis =>
      cases fields with
      | nil => cases isField
      | cons first rest => exact inductionHypothesis given.2 isField

theorem everywhere_field {property : DataType → Prop} {fields : Fields}
    (everywhere : fields.Everywhere property) {i : Nat} {type : DataType}
    (isField : fields.toList[i]? = some type) : type.Everywhere property := by
  induction i generalizing fields with
  | zero =>
      cases fields with
      | nil => cases isField
      | cons first rest =>
          cases isField
          exact everywhere.1
  | succ i inductionHypothesis =>
      cases fields with
      | nil => cases isField
      | cons first rest => exact inductionHypothesis everywhere.2 isField

/-! ## The parts of one whole -/

/-- The parts of a whole, by their selectors. -/
inductive IsPart : Whole → Selector → Arch.Word → Whole → Prop where
  | declared {declarations : List InstanceDecl} {i : Nat} {offset : Arch.Word} {type : DataType}
      (isDeclared : Composition.declared declarations i = some (offset, type)) :
      IsPart (.program declarations) (.declared i) offset (.stored type)
  | field {type part : DataType} {fields : Fields} {i : Nat} {offset : Arch.Word}
      (isComponent : type.underlyingType = .component fields)
      (isField : fields.toList[i]? = some part) (isOffset : Arch.offset fields i = some offset) :
      IsPart (.stored type) (.field i) offset (.stored part)
  | element {type base : DataType} {dimension i : Nat} {unit : Arch.Word}
      (isArray : type.underlyingType = .array dimension base) (isElement : i < dimension)
      (isUnit : Arch.unitSize base = some unit) :
      IsPart (.stored type) (.element i) (Arch.elementOffset unit i) (.stored base)

variable {whole part : Whole} {key : Selector} {offset : Arch.Word}

theorem isPart_of_parts (isPart : parts whole key = some (offset, part)) :
    IsPart whole key offset part := by
  unfold parts at isPart
  split at isPart
  · obtain ⟨⟨address, type⟩, isDeclared, isPair⟩ := Option.map_eq_some_iff.mp isPart
    cases isPair
    exact .declared isDeclared
  · split at isPart
    · next isComponent =>
        simp only [Option.bind_eq_bind, Option.bind_eq_some_iff, Option.some.injEq,
          Prod.mk.injEq] at isPart
        obtain ⟨type, isField, _, isOffset, rfl, rfl⟩ := isPart
        exact .field isComponent isField isOffset
    · cases isPart
  · split at isPart
    · next isArray =>
        simp only [Option.bind_eq_bind, Option.bind_eq_some_iff] at isPart
        obtain ⟨unit, isUnit, isPart⟩ := isPart
        split at isPart
        · next isElement =>
            cases isPart
            exact .element isArray isElement isUnit
        · cases isPart
    · cases isPart
  · cases isPart

theorem parts_of_isPart (isPart : IsPart whole key offset part) :
    parts whole key = some (offset, part) := by
  cases isPart with
  | declared isDeclared => simp [parts, isDeclared]
  | field isComponent isField isOffset => simp [parts, isComponent, isField, isOffset]
  | element isArray isElement isUnit => simp [parts, isArray, isElement, isUnit]

theorem exists_declaration {declarations : List InstanceDecl} {i : Nat} {type : DataType}
    (isDeclared : declared declarations i = some (offset, type)) :
    ∃ declaration, declarations[i]? = some declaration ∧ declaration.type = type := by
  induction declarations generalizing i offset with
  | nil => cases isDeclared
  | cons first rest inductionHypothesis =>
      cases i with
      | zero =>
          cases isDeclared
          exact ⟨first, rfl, rfl⟩
      | succ i =>
          simp only [declared, Option.bind_eq_bind, Option.bind_eq_some_iff, Prod.exists,
            Option.some.injEq, Prod.mk.injEq] at isDeclared
          obtain ⟨_, _, _, _, isRest, _, rfl⟩ := isDeclared
          exact inductionHypothesis isRest

theorem IsPart.isLaidOut (isPart : IsPart whole key offset part) (laidOut : whole.IsLaidOut) :
    part.IsLaidOut := by
  cases isPart with
  | declared isDeclared =>
      obtain ⟨declaration, isDeclaration, isType⟩ := exists_declaration isDeclared
      exact isType ▸ laidOut.2 declaration (List.mem_of_getElem? isDeclaration)
  | @field type _ fields _ _ isComponent isField _ =>
      have given := isGiven_underlyingType laidOut.1
      have everywhere := everywhere_underlyingType laidOut.2
      rw [isComponent] at given everywhere
      exact ⟨isGiven_field given.2 isField, everywhere_field everywhere.2 isField⟩
  | element isArray _ _ =>
      have given := isGiven_underlyingType laidOut.1
      have everywhere := everywhere_underlyingType laidOut.2
      rw [isArray] at given everywhere
      exact ⟨given, everywhere.2⟩

theorem exists_slot {fields : Fields} {i : Nat} {slot : Arch.Slot}
    (isSlot : Arch.slot fields i = some slot) :
    ∃ type, fields.toList[i]? = some type ∧ Arch.offset fields i = some slot.offset ∧
      bytes type = slot.size.toNat := by
  simp only [Arch.slot, Option.bind_eq_bind, Option.bind_eq_some_iff, Option.some.injEq] at isSlot
  obtain ⟨type, isField, offset, isOffset, size, isSize, _, _, rfl⟩ := isSlot
  exact ⟨type, isField, isOffset, by rw [bytes, isSize, Option.getD_some]⟩

theorem slot_of_field {fields : Fields} {whole : Arch.Word}
    (laidOut : Arch.FieldsLaidOut fields whole) {i : Nat} {type : DataType}
    (isField : fields.toList[i]? = some type) (isOffset : Arch.offset fields i = some offset) :
    ∃ slot, Arch.slot fields i = some slot ∧ slot.offset = offset ∧
      slot.size.toNat = bytes type ∧ offset.toNat + bytes type ≤ whole.toNat := by
  obtain ⟨slot, isSlot, _, isInside⟩ :=
    laidOut.placed i (List.getElem?_eq_some_iff.mp isField).1
  obtain ⟨other, isOther, isSlotOffset, isSize⟩ := exists_slot isSlot
  rw [isField, Option.some.injEq] at isOther
  rw [isOffset, Option.some.injEq] at isSlotOffset
  rw [← isOther] at isSize
  refine ⟨slot, isSlot, isSlotOffset.symm, isSize.symm, ?_⟩
  rw [isSlotOffset, isSize]
  exact isInside

theorem fieldsLaidOut {type : DataType} (everywhere : type.Everywhere Arch.LaidOut) {fields : Fields}
    (isComponent : type.underlyingType = .component fields) :
    ∃ size, size.toNat = bytes type ∧ Arch.FieldsLaidOut fields size := by
  have laidOut := everywhere_underlyingType everywhere
  rw [isComponent] at laidOut
  obtain ⟨size, isSize, areLaidOut⟩ := laidOut.1.parts
  refine ⟨size, ?_, areLaidOut⟩
  rw [← bytes_underlyingType, isComponent, bytes, isSize, Option.getD_some]

theorem elementsLaidOut {type base : DataType} (everywhere : type.Everywhere Arch.LaidOut)
    {dimension : Nat} (isArray : type.underlyingType = .array dimension base) {unit : Arch.Word}
    (isUnit : Arch.unitSize base = some unit) :
    ∃ whole size alignment, whole.toNat = bytes type ∧ size.toNat = bytes base ∧
      Arch.ElementsLaidOut dimension unit size alignment whole := by
  have laidOut := everywhere_underlyingType everywhere
  rw [isArray] at laidOut
  obtain ⟨whole, isWhole, otherUnit, size, alignment, isOtherUnit, isSize, _, areLaidOut⟩ :=
    laidOut.1.parts
  rw [isUnit, Option.some.injEq] at isOtherUnit
  refine ⟨whole, size, alignment, ?_, ?_, isOtherUnit ▸ areLaidOut⟩
  · rw [← bytes_underlyingType, isArray, bytes, isWhole, Option.getD_some]
  · rw [bytes, isSize, Option.getD_some]

theorem holdsApart_stored {type : DataType} (everywhere : type.Everywhere Arch.LaidOut) :
    HoldsApart parts Whole.size (.stored type) := by
  constructor
  · intro key offset part isPart
    cases isPart_of_parts isPart with
    | field isComponent isField isOffset =>
        obtain ⟨size, isSize, areLaidOut⟩ := fieldsLaidOut everywhere isComponent
        obtain ⟨_, _, _, _, isInside⟩ := slot_of_field areLaidOut isField isOffset
        rw [isSize] at isInside
        exact isInside
    | element isArray isElement isUnit =>
        obtain ⟨whole, size, _, isWhole, isSize, areLaidOut⟩ :=
          elementsLaidOut everywhere isArray isUnit
        have := (areLaidOut.placed _ isElement).2
        rwa [isWhole, isSize] at this
  · intro key other offset otherOffset part otherPart isPart isOther different
    cases isPart_of_parts isPart with
    | field isComponent isField isOffset =>
        cases isPart_of_parts isOther with
        | field isOtherComponent isOtherField isOtherOffset =>
            rw [isComponent] at isOtherComponent
            cases isOtherComponent
            obtain ⟨size, _, areLaidOut⟩ := fieldsLaidOut everywhere isComponent
            obtain ⟨slot, isSlot, isStart, isSize, _⟩ := slot_of_field areLaidOut isField isOffset
            obtain ⟨otherSlot, isOtherSlot, isOtherStart, isOtherSize, _⟩ :=
              slot_of_field areLaidOut isOtherField isOtherOffset
            have apart := areLaidOut.apart _ _ _ _ isSlot isOtherSlot
              (fun same => different (congrArg Selector.field same))
            rwa [Arch.Slot.bytes, Arch.Slot.bytes, isStart, isOtherStart, isSize, isOtherSize]
              at apart
        | element isArray _ _ =>
            rw [isComponent] at isArray
            cases isArray
    | element isArray isElement isUnit =>
        cases isPart_of_parts isOther with
        | field isComponent _ _ =>
            rw [isArray] at isComponent
            cases isComponent
        | element isOtherArray isOtherElement isOtherUnit =>
            rw [isArray] at isOtherArray
            cases isOtherArray
            rw [isUnit] at isOtherUnit
            cases isOtherUnit
            obtain ⟨_, size, _, _, isSize, areLaidOut⟩ := elementsLaidOut everywhere isArray isUnit
            have apart := areLaidOut.apart _ isElement _ isOtherElement
              (fun same => different (congrArg Selector.element same))
            rwa [isSize] at apart

/-! ## The declared instances -/

section Declared

variable {declarations : List InstanceDecl} {first : InstanceDecl} {i j : Nat}
  {otherOffset : Arch.Word} {type other : DataType}

theorem programBytes_cons (first : InstanceDecl) (declarations : List InstanceDecl) :
    programBytes (first :: declarations) = bytes first.type + programBytes declarations := by
  rw [programBytes, List.map_cons, List.sum_cons, programBytes]

theorem declared_succ (isDeclared : declared (first :: declarations) (i + 1) = some (offset, type)) :
    ∃ size address, size.toNat = bytes first.type ∧ declared declarations i = some (address, type) ∧
      offset = size + address := by
  simp only [declared, Option.bind_eq_bind, Option.bind_eq_some_iff, Prod.exists,
    Option.some.injEq, Prod.mk.injEq] at isDeclared
  obtain ⟨size, isSize, address, _, isRest, isSum, rfl⟩ := isDeclared
  exact ⟨size, address, by rw [bytes, isSize, Option.getD_some], isRest, isSum.symm⟩

theorem declared_inside (fits : programBytes declarations ≤ 2 ^ 64)
    (isDeclared : declared declarations i = some (offset, type)) (takes : 0 < bytes type) :
    offset.toNat + bytes type ≤ programBytes declarations := by
  induction declarations generalizing i offset with
  | nil => cases isDeclared
  | cons first rest inductionHypothesis =>
      rw [programBytes_cons] at fits ⊢
      cases i with
      | zero =>
          cases isDeclared
          rw [show (0 : Arch.Word).toNat = 0 from rfl, Nat.zero_add]
          exact Nat.le_add_right _ _
      | succ i =>
          obtain ⟨size, address, isSize, isRest, isSum⟩ := declared_succ isDeclared
          have isInside := inductionHypothesis (by omega) isRest
          rw [isSum, BitVec.toNat_add, isSize, Nat.mod_eq_of_lt (by omega)]
          omega

theorem toNat_declared_succ (fits : programBytes (first :: declarations) ≤ 2 ^ 64)
    (isDeclared : declared (first :: declarations) (i + 1) = some (offset, type))
    (takes : 0 < bytes type) :
    ∃ address, declared declarations i = some (address, type) ∧
      offset.toNat = bytes first.type + address.toNat := by
  obtain ⟨size, address, isSize, isRest, isSum⟩ := declared_succ isDeclared
  rw [programBytes_cons] at fits
  have isInside := declared_inside (by omega) isRest takes
  refine ⟨address, isRest, ?_⟩
  rw [isSum, BitVec.toNat_add, isSize, Nat.mod_eq_of_lt (by omega)]

theorem declared_apart (fits : programBytes declarations ≤ 2 ^ 64)
    (isDeclared : declared declarations i = some (offset, type))
    (isOther : declared declarations j = some (otherOffset, other)) (takes : 0 < bytes type)
    (otherTakes : 0 < bytes other) (before : i < j) :
    offset.toNat + bytes type ≤ otherOffset.toNat := by
  induction declarations generalizing i j offset otherOffset with
  | nil => cases isDeclared
  | cons first rest inductionHypothesis =>
      cases j with
      | zero => exact absurd before (Nat.not_lt_zero i)
      | succ j =>
          obtain ⟨otherAddress, isOtherRest, isOtherSum⟩ :=
            toNat_declared_succ fits isOther otherTakes
          rw [isOtherSum]
          cases i with
          | zero =>
              cases isDeclared
              rw [show (0 : Arch.Word).toNat = 0 from rfl, Nat.zero_add]
              exact Nat.le_add_right _ _
          | succ i =>
              obtain ⟨address, isRest, isSum⟩ := toNat_declared_succ fits isDeclared takes
              rw [programBytes_cons] at fits
              have := inductionHypothesis (by omega) isRest isOtherRest (Nat.lt_of_succ_lt_succ before)
              omega

end Declared

/-! ## Everything lies apart -/

theorem runtimeField_slot {type : DataType} (given : type.IsGiven) {fields : Fields}
    (isComponent : type.underlyingType = .component fields) :
    fields.toList[0]? = some runtimeField ∧
      parts (.stored type) (.field 0) = some (0, .stored runtimeField) := by
  have isFirst := isGiven_underlyingType given
  rw [isComponent] at isFirst
  have isField : fields.toList[0]? = some runtimeField := by
    rw [← List.head?_eq_getElem?]
    exact isFirst.1
  refine ⟨isField, parts_of_isPart (.field isComponent isField ?_)⟩
  cases fields with
  | nil => cases isField
  | cons first rest =>
      cases isField
      rfl

theorem bytes_runtimeField : bytes runtimeField = 8 := by
  decide

theorem tableOf_eq_instances {type : DataType} (isIn : tableOf type = some .instances) :
    ∃ fields, type.underlyingType = .component fields := by
  unfold tableOf at isIn
  split at isIn
  · next fields isComponent => exact ⟨fields, isComponent⟩
  · cases isIn
  · cases isIn
  · cases isIn

theorem tableOf_eq_ports {table : Table} {type : DataType} (isIn : tableOf type = some table)
    (notInstances : table ≠ .instances) :
    (∃ signature, type.underlyingType = .callable .pushPort signature) ∨
      ∃ signature, type.underlyingType = .callable .pullPort signature := by
  unfold tableOf at isIn
  split at isIn
  · cases isIn
    exact absurd rfl notInstances
  · next signature isPort => exact Or.inl ⟨signature, isPort⟩
  · next signature isPort => exact Or.inr ⟨signature, isPort⟩
  · cases isIn

theorem takes_of_isIn {table : Table} (laidOut : whole.IsLaidOut) (isIn : whole.IsIn table) :
    0 < whole.size := by
  cases whole with
  | program declarations => exact isIn.elim
  | stored type =>
      by_cases isInstances : table = .instances
      · cases isInstances
        obtain ⟨fields, isComponent⟩ := tableOf_eq_instances isIn
        have isFirst := (runtimeField_slot laidOut.1 isComponent).2
        have isInside := (holdsApart_stored laidOut.2).inside _ _ _ isFirst
        rw [Whole.size, bytes_runtimeField] at isInside
        omega
      · rw [Whole.size, ← bytes_underlyingType]
        rcases tableOf_eq_ports isIn isInstances with ⟨signature, isPort⟩ | ⟨signature, isPort⟩
        · rw [isPort]
          exact Nat.zero_lt_succ 7
        · rw [isPort]
          exact Nat.zero_lt_succ 15

theorem tableOf_declaration (declaration : InstanceDecl) :
    tableOf declaration.type = some .instances := by
  obtain ⟨fields, isComponent⟩ := declaration.isComponent
  have isUnderlying : declaration.type.underlyingType = .component fields := isComponent
  rw [tableOf, isUnderlying]

theorem takes_of_declared {declarations : List InstanceDecl}
    (laidOut : (Whole.program declarations).IsLaidOut) {i : Nat} {type : DataType}
    (isDeclared : declared declarations i = some (offset, type)) : 0 < bytes type := by
  obtain ⟨declaration, isDeclaration, isType⟩ := exists_declaration isDeclared
  rw [← isType]
  have isLaidOut : (Whole.stored declaration.type).IsLaidOut :=
    laidOut.2 declaration (List.mem_of_getElem? isDeclaration)
  have isIn : (Whole.stored declaration.type).IsIn .instances := tableOf_declaration declaration
  exact takes_of_isIn isLaidOut isIn

theorem holdsApart_program {declarations : List InstanceDecl}
    (laidOut : (Whole.program declarations).IsLaidOut) :
    HoldsApart parts Whole.size (.program declarations) := by
  constructor
  · intro key offset part isPart
    cases isPart_of_parts isPart with
    | declared isDeclared =>
        exact declared_inside laidOut.1 isDeclared (takes_of_declared laidOut isDeclared)
  · intro key other offset otherOffset part otherPart isPart isOther different
    cases isPart_of_parts isPart with
    | @declared _ i _ _ isDeclared =>
        cases isPart_of_parts isOther with
        | @declared _ j _ _ isOtherDeclared =>
            have takes := takes_of_declared laidOut isDeclared
            have otherTakes := takes_of_declared laidOut isOtherDeclared
            rcases Nat.lt_trichotomy i j with before | same | after
            · exact disjoint_bytesAt
                (declared_apart laidOut.1 isDeclared isOtherDeclared takes otherTakes before)
            · exact absurd (congrArg Selector.declared same) different
            · exact (disjoint_bytesAt
                (declared_apart laidOut.1 isOtherDeclared isDeclared otherTakes takes after)).symm

theorem holdsApart_of_isLaidOut (laidOut : whole.IsLaidOut) : HoldsApart parts Whole.size whole := by
  cases whole with
  | program declarations => exact holdsApart_program laidOut
  | stored type => exact holdsApart_stored laidOut.2

theorem nests_of_isLaidOut (laidOut : whole.IsLaidOut) : Nests parts Whole.size whole := by
  refine .of_inherited Whole.IsLaidOut ?_ (fun _ => holdsApart_of_isLaidOut) laidOut ?_
  · exact fun _ _ _ _ laidOut isPart => (isPart_of_parts isPart).isLaidOut laidOut
  · cases whole with
    | program declarations => exact laidOut.1
    | stored type => exact Nat.le_of_lt (BitVec.isLt _)

theorem isLaidOut_of_descend {path : List Selector} (laidOut : whole.IsLaidOut)
    (isPart : descend parts whole path = some (offset, part)) : part.IsLaidOut := by
  induction path generalizing whole offset with
  | nil =>
      cases isPart
      exact laidOut
  | cons key rest inductionHypothesis =>
      obtain ⟨_, between, _, isBetween, isBelow, _⟩ := exists_of_descend_cons isPart
      exact inductionHypothesis ((isPart_of_parts isBetween).isLaidOut laidOut) isBelow

theorem parts_eq_none {type : DataType} (notComponent : ∀ fields, type.underlyingType ≠ .component fields)
    (notArray : ∀ dimension base, type.underlyingType ≠ .array dimension base) (key : Selector) :
    parts (.stored type) key = none := by
  cases isPart : parts (.stored type) key with
  | none => rfl
  | some found =>
      obtain ⟨offset, part⟩ := found
      cases isPart_of_parts isPart with
      | field isComponent _ _ => exact absurd isComponent (notComponent _)
      | element isArray _ _ => exact absurd isArray (notArray _ _)

theorem not_isIn_of_runtimeField {rest : List Selector} {table : Table}
    (isLast : descend parts (.stored runtimeField) rest = some (offset, part)) :
    ¬part.IsIn table := by
  cases rest with
  | nil =>
      cases isLast
      rintro ⟨⟩
  | cons key rest =>
      obtain ⟨_, _, _, isPart, _, _⟩ := exists_of_descend_cons isLast
      rw [parts_eq_none (by rintro _ ⟨⟩) (by rintro _ _ ⟨⟩)] at isPart
      cases isPart

theorem startsApart (table : Table) (laidOut : whole.IsLaidOut) :
    StartsApart parts Whole.size (Whole.IsIn table) whole := by
  constructor
  · exact fun path offset part isPart isIn => takes_of_isIn (isLaidOut_of_descend laidOut isPart) isIn
  · intro path offset part key rest inner last isPart isIn isLast isLastIn
    have partLaidOut := isLaidOut_of_descend laidOut isPart
    have nests := nests_of_isLaidOut partLaidOut
    have takes := takes_of_isIn (isLaidOut_of_descend partLaidOut isLast) isLastIn
    obtain ⟨first, between, below, isBetween, isBelow, isSum⟩ := exists_of_descend_cons isLast
    rw [isSum, nests.toNat_cons isBetween isBelow takes]
    cases part with
    | program declarations => exact isIn.elim
    | stored type =>
        by_cases isInstances : table = .instances
        · cases isInstances
          obtain ⟨fields, isComponent⟩ := tableOf_eq_instances isIn
          have isFirst := (runtimeField_slot partLaidOut.1 isComponent).2
          have isDeeper := (nests.of_part isBetween).inside isBelow takes
          by_cases isRuntime : Selector.field 0 = key
          · rw [← isRuntime, isFirst] at isBetween
            cases isBetween
            exact absurd isLastIn (not_isIn_of_runtimeField isBelow)
          · have apart := nests.holdsApart.apart _ _ _ _ _ _ isFirst isBetween isRuntime
            have notFirst : first.toNat ≠ 0 := by
              intro isZero
              rw [isZero, Whole.size, bytes_runtimeField] at apart
              exact not_disjoint_bytesAt_zero (Nat.zero_lt_succ 7) (by omega) apart
            omega
        · have notComponent : ∀ fields, type.underlyingType ≠ .component fields := by
            intro fields isComponent
            rcases tableOf_eq_ports isIn isInstances with ⟨_, isPort⟩ | ⟨_, isPort⟩ <;>
              rw [isPort] at isComponent <;> cases isComponent
          have notArray : ∀ dimension base, type.underlyingType ≠ .array dimension base := by
            intro dimension base isArray
            rcases tableOf_eq_ports isIn isInstances with ⟨_, isPort⟩ | ⟨_, isPort⟩ <;>
              rw [isPort] at isArray <;> cases isArray
          rw [parts_eq_none notComponent notArray] at isBetween
          cases isBetween

end Rcgo.Composition
