import Rcgo.Checker.TypeObjects

/-!
# Type identity

What `are_identical` compares is the form of a type object.  Two types of a
program are identical where their forms are equal, and the layout of a type is a
function of its form.
-/

namespace Rcgo.Checker

open Rcgo.Code

mutual

/-- What identical types have in common. -/
inductive TypeForm where
  | basic (kind : Kind)
  | named (address : Address)
  | pointer (base : TypeForm)
  | slice (base : TypeForm)
  | heap (base : TypeForm)
  | array (base : TypeForm) (dimension : Nat)
  | map (key value : TypeForm)
  | struct (fields : FieldForms)
  | component (fields : FieldForms)
  | function (kind : Kind) (parameters results : ParameterForms) (isVariadic : Bool)
  | method (kind : Kind) (address : Address)
  | interface (methods : MethodForms)

/-- The name of a field counts unless it is anonymous, and the package unless the
name begins with a capital letter. -/
inductive FieldForms where
  | nil
  | cons (name : Option (String × Option Address)) (tags : Finset String) (type : TypeForm)
      (rest : FieldForms)

inductive ParameterForms where
  | nil
  | cons (type : TypeForm) (rest : ParameterForms)

inductive MethodForms where
  | nil
  | cons (name : String) (package : Option Address) (type : TypeForm) (rest : MethodForms)

end

deriving instance DecidableEq for TypeForm, FieldForms, ParameterForms, MethodForms

def significantPackage (name : String) (package : Address) : Option Address :=
  if isLowercase name then some package else none

def FieldLabel.significantName (label : FieldLabel) : Option (String × Option Address) :=
  if label.isAnonymous then none
  else some (label.name, significantPackage label.name label.package)

mutual

/-- The form of a type object; `byte` and `uint8` are one type. -/
def TypeObject.form : TypeObject → TypeForm
  | .basic kind _ => .basic kind
  | .named address => .named (if address = namedByte then namedUint8 else address)
  | .pointer _ base => .pointer base.form
  | .slice _ base => .slice base.form
  | .heap _ base => .heap base.form
  | .array _ base dimension => .array base.form dimension
  | .map _ key value => .map key.form value.form
  | .struct _ fields => .struct fields.form
  | .component _ fields => .component fields.form
  | .function kind _ _ parameters results isVariadic =>
      .function kind parameters.form results.form isVariadic
  | .method kind _ address => .method kind address
  | .interface _ package methods => .interface (methods.form package)

def FieldObjects.form : FieldObjects → FieldForms
  | .nil => .nil
  | .cons label type rest => .cons label.significantName label.tags type.form rest.form

def ParameterObjects.form : ParameterObjects → ParameterForms
  | .nil => .nil
  | .cons type rest => .cons type.form rest.form

def MethodObjects.form (package : Address) : MethodObjects → MethodForms
  | .nil => .nil
  | .cons name type rest =>
      .cons name (significantPackage name package) type.form (rest.form package)

end

/-! ## Identical types have the same form -/

namespace TypeForm

/-- The kind of the types that have the form. -/
def kind : TypeForm → Kind
  | basic kind => kind
  | named _ => .named
  | pointer _ => .pointer
  | slice _ => .slice
  | heap _ => .heap
  | array _ _ => .array
  | map _ _ => .map
  | struct _ => .struct
  | component _ => .component
  | function kind _ _ _ => kind
  | method kind _ => kind
  | interface _ => .interface

end TypeForm

theorem TypeObject.kind_form (x : TypeObject) : x.form.kind = x.kind := by
  cases x <;> rfl

/-- Type objects of the same class and kind. -/
inductive SameClass : TypeObject → TypeObject → Prop where
  | basic (kind : Kind) (isSingleton : kind.isSingleton = true) :
      SameClass (.basic kind isSingleton) (.basic kind isSingleton)
  | named (a b : Address) : SameClass (.named a) (.named b)
  | pointer (a b : Address) (base other : TypeObject) :
      SameClass (.pointer a base) (.pointer b other)
  | slice (a b : Address) (base other : TypeObject) : SameClass (.slice a base) (.slice b other)
  | heap (a b : Address) (base other : TypeObject) : SameClass (.heap a base) (.heap b other)
  | array (a b : Address) (base other : TypeObject) (n m : Nat) :
      SameClass (.array a base n) (.array b other m)
  | map (a b : Address) (key value otherKey otherValue : TypeObject) :
      SameClass (.map a key value) (.map b otherKey otherValue)
  | struct (a b : Address) (fields others : FieldObjects) :
      SameClass (.struct a fields) (.struct b others)
  | component (a b : Address) (fields others : FieldObjects) :
      SameClass (.component a fields) (.component b others)
  | function (kind : Kind) (isFunctionBase : kind.isFunctionBase = true) (a b : Address)
      (parameters results otherParameters otherResults : ParameterObjects)
      (isVariadic otherVariadic : Bool) :
      SameClass (.function kind isFunctionBase a parameters results isVariadic)
        (.function kind isFunctionBase b otherParameters otherResults otherVariadic)
  | interface (a b package otherPackage : Address) (methods others : MethodObjects) :
      SameClass (.interface a package methods) (.interface b otherPackage others)

theorem isFunctionBase_of_isSingleton {kind : Kind} (isSingleton : kind.isSingleton = true) :
    kind.isFunctionBase = false := by
  cases kind <;> first | rfl | cases isSingleton

theorem sameClass_of_kind {x y : TypeObject} (noMethod : x.kind.isMethodBase = false)
    (sameKind : x.kind = y.kind) : SameClass x y := by
  cases x with
  | basic kind isSingleton =>
      cases y with
      | basic other isSingleton =>
          rw [TypeObject.kind, TypeObject.kind] at sameKind
          subst sameKind
          exact .basic _ _
      | _ => grind [TypeObject.kind, Kind.isSingleton, Kind.isFunctionBase, Kind.isMethodBase,
          isFunctionBase_of_isSingleton]
  | function kind isFunctionBase =>
      cases y with
      | function other isFunctionBase =>
          rw [TypeObject.kind, TypeObject.kind] at sameKind
          subst sameKind
          exact .function _ _ _ _ _ _ _ _ _ _
      | _ => grind [TypeObject.kind, Kind.isSingleton, Kind.isFunctionBase, Kind.isMethodBase,
          isFunctionBase_of_isSingleton]
  | method kind isMethodBase => rw [TypeObject.kind, isMethodBase] at noMethod; cases noMethod
  | _ =>
      cases y
      all_goals first
        | constructor
        | grind [TypeObject.kind, Kind.isSingleton, Kind.isFunctionBase, Kind.isMethodBase]

abbrev IsBytePair (x y : TypeObject) : Prop :=
  (x.identity = .address namedUint8 ∧ y.identity = .address namedByte) ∨
    (x.identity = .address namedByte ∧ y.identity = .address namedUint8)

theorem form_ne_of_isNamed {x y : TypeObject} (notBytes : ¬IsBytePair x y)
    (different : x.identity ≠ y.identity) (isNamed : x.isNamed = true ∨ y.isNamed = true) :
    x.form ≠ y.form := by
  intro same
  have sameKind := congrArg TypeForm.kind same
  rw [x.kind_form, y.kind_form] at sameKind
  have noMethod : x.kind.isMethodBase = false := by
    rcases isNamed with isNamed | isNamed
    · cases x <;> first | rfl | cases isNamed
    · rw [sameKind]
      cases y <;> first | rfl | cases isNamed
  cases sameClass_of_kind noMethod sameKind with
  | named a b =>
      rw [TypeObject.form, TypeObject.form, TypeForm.named.injEq] at same
      rw [IsBytePair, TypeObject.identity, TypeObject.identity] at notBytes
      rw [TypeObject.identity, TypeObject.identity, Ne, Identity.address.injEq] at different
      rw [Identity.address.injEq, Identity.address.injEq, Identity.address.injEq,
        Identity.address.injEq] at notBytes
      grind
  | _ => rcases isNamed with isNamed | isNamed <;> cases isNamed

namespace TypeUniverse

variable (types : TypeUniverse)

theorem form_eq_of_isBytePair {x y : TypeObject} (isX : x ∈ types.objects)
    (isY : y ∈ types.objects) (isBytes : IsBytePair x y) : x.form = y.form := by
  have isUint8 : ∀ z ∈ types.objects, z.identity = .address namedUint8 → z = .named namedUint8 :=
    fun z isZ same => types.coherent z isZ _ types.uint8 same
  have isByte : ∀ z ∈ types.objects, z.identity = .address namedByte → z = .named namedByte :=
    fun z isZ same => types.coherent z isZ _ types.byte same
  rcases isBytes with ⟨first, second⟩ | ⟨first, second⟩
  · rw [isUint8 x isX first, isByte y isY second]
    rfl
  · rw [isByte x isX first, isUint8 y isY second]
    rfl

theorem FieldObjects.length_eq_of_form {fields others : FieldObjects}
    (same : fields.form = others.form) : fields.length = others.length := by
  induction fields using FieldObjects.length.induct generalizing others with
  | case1 =>
      cases others with
      | nil => rfl
      | cons _ _ _ => cases same
  | case2 _ _ rest inductionHypothesis =>
      cases others with
      | nil => cases same
      | cons _ _ others =>
          rw [FieldObjects.form, FieldObjects.form, FieldForms.cons.injEq] at same
          rw [FieldObjects.length, FieldObjects.length, inductionHypothesis same.2.2.2]

theorem ParameterObjects.length_eq_of_form {parameters others : ParameterObjects}
    (same : parameters.form = others.form) : parameters.length = others.length := by
  induction parameters using ParameterObjects.length.induct generalizing others with
  | case1 =>
      cases others with
      | nil => rfl
      | cons _ _ => cases same
  | case2 _ rest inductionHypothesis =>
      cases others with
      | nil => cases same
      | cons _ others =>
          rw [ParameterObjects.form, ParameterObjects.form, ParameterForms.cons.injEq] at same
          rw [ParameterObjects.length, ParameterObjects.length, inductionHypothesis same.2]

theorem MethodObjects.length_eq_of_form {methods others : MethodObjects}
    {package otherPackage : Address} (same : methods.form package = others.form otherPackage) :
    methods.length = others.length := by
  induction methods using MethodObjects.length.induct generalizing others with
  | case1 =>
      cases others with
      | nil => rfl
      | cons _ _ _ => cases same
  | case2 _ _ rest inductionHypothesis =>
      cases others with
      | nil => cases same
      | cons _ _ others =>
          rw [MethodObjects.form, MethodObjects.form, MethodForms.cons.injEq] at same
          rw [MethodObjects.length, MethodObjects.length, inductionHypothesis same.2.2.2]

theorem unless_eq {p r : Prop} [Decidable p] [Decidable r] {rest : Option Bool} (follows : r → p)
    (isRest : p → rest = some (decide r)) :
    (if ¬p then some false else rest) = some (decide r) := by
  by_cases holds : p
  · rw [if_neg (not_not_intro holds), isRest holds]
  · rw [if_pos holds, decide_eq_false fun isResult => holds (follows isResult)]

theorem label_eq (label other : FieldLabel) (rest : Option Bool) :
    (if label.isAnonymous ≠ other.isAnonymous then some false
      else if label.isAnonymous = false ∧ label.name ≠ other.name then some false
      else if label.isAnonymous = false ∧ isLowercase label.name ∧ label.package ≠ other.package then
        some false
      else rest) =
      if label.significantName = other.significantName then rest else some false := by
  unfold FieldLabel.significantName significantPackage
  grind

theorem method_eq (name otherName : String) (package otherPackage : Address) (rest : Option Bool) :
    (if name ≠ otherName then some false
      else if isLowercase name ∧ package ≠ otherPackage then some false
      else rest) =
      if name = otherName ∧
          significantPackage name package = significantPackage otherName otherPackage then rest
      else some false := by
  unfold significantPackage
  grind

theorem both_eq {p q r : Prop} [Decidable p] [Decidable q] [Decidable r] (isBoth : r ↔ p ∧ q) :
    (do let same ← some (decide p)
        if same = true then some (decide q) else some false) = some (decide r) := by
  by_cases first : p
  · simp [first, isBoth]
  · simp [first, isBoth]

mutual

/-- Types are identical where they have the same form. -/
theorem areIdentical_eq (x y : TypeObject) (isX : x ∈ types.objects) (isY : y ∈ types.objects) :
    areIdentical x y = some (decide (x.form = y.form)) := by
  have inX := types.closed x isX
  have inY := types.closed y isY
  unfold areIdentical
  by_cases isBytes : IsBytePair x y
  · rw [if_pos isBytes, decide_eq_true (types.form_eq_of_isBytePair isX isY isBytes)]
  rw [if_neg isBytes]
  by_cases same : x.identity = y.identity
  · rw [if_pos same, types.coherent x isX y isY same, decide_eq_true rfl]
  rw [if_neg same]
  by_cases isNamed : x.isNamed = true ∨ y.isNamed = true
  · rw [if_pos isNamed, decide_eq_false (form_ne_of_isNamed isBytes same isNamed)]
  rw [if_neg isNamed]
  by_cases sameKind : x.kind = y.kind
  case neg =>
    rw [if_pos sameKind, decide_eq_false]
    intro sameForm
    have kinds := congrArg TypeForm.kind sameForm
    rw [x.kind_form, y.kind_form] at kinds
    exact sameKind kinds
  rw [if_neg (not_not_intro sameKind)]
  have sameClass := sameClass_of_kind (types.noMethods x isX) sameKind
  cases x with
  | basic kind isSingleton =>
      cases sameClass
      exact absurd rfl same
  | named a => exact absurd (Or.inl rfl) isNamed
  | pointer a base =>
      cases sameClass with
      | pointer _ b _ other =>
          dsimp only
          rw [areIdentical_eq base other (inX base (by simp [TypeObject.components]))
            (inY other (by simp [TypeObject.components]))]
          simp only [TypeObject.form, TypeForm.pointer.injEq]
  | slice a base =>
      cases sameClass with
      | slice _ b _ other =>
          dsimp only
          rw [areIdentical_eq base other (inX base (by simp [TypeObject.components]))
            (inY other (by simp [TypeObject.components]))]
          simp only [TypeObject.form, TypeForm.slice.injEq]
  | heap a base =>
      cases sameClass with
      | heap _ b _ other =>
          dsimp only
          rw [areIdentical_eq base other (inX base (by simp [TypeObject.components]))
            (inY other (by simp [TypeObject.components]))]
          simp only [TypeObject.form, TypeForm.heap.injEq]
  | array a base dimension =>
      cases sameClass with
      | array _ b _ other _ otherDimension =>
          dsimp only
          rw [areIdentical_eq base other (inX base (by simp [TypeObject.components]))
            (inY other (by simp [TypeObject.components]))]
          simp only [TypeObject.form, TypeForm.array.injEq, Option.bind_eq_bind, Option.bind_some,
            Bool.decide_and]
          rfl
  | map a key value =>
      cases sameClass with
      | map _ b _ _ otherKey otherValue =>
          dsimp only
          rw [areIdentical_eq key otherKey (inX key (by simp [TypeObject.components]))
            (inY otherKey (by simp [TypeObject.components])),
            areIdentical_eq value otherValue (inX value (by simp [TypeObject.components]))
            (inY otherValue (by simp [TypeObject.components]))]
          exact both_eq (by rw [TypeObject.form, TypeObject.form, TypeForm.map.injEq])
  | struct a fields =>
      cases sameClass with
      | struct _ b _ others =>
          dsimp only
          simp only [TypeObject.form, TypeForm.struct.injEq]
          exact unless_eq FieldObjects.length_eq_of_form
            (areIdenticalFields_eq fields others inX inY)
  | component a fields =>
      cases sameClass with
      | component _ b _ others =>
          dsimp only
          simp only [TypeObject.form, TypeForm.component.injEq]
          exact unless_eq FieldObjects.length_eq_of_form
            (areIdenticalFields_eq fields others inX inY)
  | function kind isFunctionBase a parameters results isVariadic =>
      cases sameClass with
      | function _ _ _ b _ _ otherParameters otherResults _ otherVariadic =>
          rw [TypeObject.components, List.forall_mem_append] at inX inY
          dsimp only
          simp only [TypeObject.form, TypeForm.function.injEq, true_and]
          refine unless_eq (fun same => ParameterObjects.length_eq_of_form same.1) fun asMany => ?_
          refine unless_eq (fun same => ParameterObjects.length_eq_of_form same.2.1) fun asManyResults => ?_
          refine unless_eq (fun same => same.2.2) fun sameVariadic => ?_
          rw [areIdenticalParameters_eq parameters otherParameters inX.1 inY.1 asMany,
            areIdenticalParameters_eq results otherResults inX.2 inY.2 asManyResults]
          exact both_eq (by simp only [sameVariadic, and_true])
  | method kind isMethodBase a =>
      have noMethod := types.noMethods _ isX
      rw [TypeObject.kind, isMethodBase] at noMethod
      cases noMethod
  | interface a package methods =>
      cases sameClass with
      | interface _ b _ otherPackage _ others =>
          dsimp only
          simp only [TypeObject.form, TypeForm.interface.injEq]
          exact unless_eq MethodObjects.length_eq_of_form
            (areIdenticalMethods_eq package otherPackage methods others inX inY)
termination_by structural x

theorem areIdenticalFields_eq (fields others : FieldObjects)
    (inX : ∀ x ∈ fields.types, x ∈ types.objects) (inY : ∀ y ∈ others.types, y ∈ types.objects)
    (sameLength : fields.length = others.length) :
    areIdenticalFields fields others = some (decide (fields.form = others.form)) := by
  cases fields with
  | nil =>
      cases others with
      | nil => rfl
      | cons otherLabel other others => cases sameLength
  | cons label type rest =>
      cases others with
      | nil => cases sameLength
      | cons otherLabel other others =>
          rw [FieldObjects.types, List.forall_mem_cons] at inX inY
          rw [areIdenticalFields, label_eq, areIdentical_eq type other inX.1 inY.1,
            areIdenticalFields_eq rest others inX.2 inY.2 (Nat.succ.inj sameLength)]
          simp only [FieldObjects.form, FieldForms.cons.injEq]
          by_cases sameName : label.significantName = otherLabel.significantName
          · by_cases sameType : type.form = other.form <;>
              by_cases sameTags : label.tags = otherLabel.tags <;>
                simp [sameName, sameType, sameTags]
          · simp [sameName]
termination_by structural fields

theorem areIdenticalParameters_eq (parameters others : ParameterObjects)
    (inX : ∀ x ∈ parameters.types, x ∈ types.objects)
    (inY : ∀ y ∈ others.types, y ∈ types.objects) (sameLength : parameters.length = others.length) :
    areIdenticalParameters parameters others = some (decide (parameters.form = others.form)) := by
  cases parameters with
  | nil =>
      cases others with
      | nil => rfl
      | cons other others => cases sameLength
  | cons type rest =>
      cases others with
      | nil => cases sameLength
      | cons other others =>
          rw [ParameterObjects.types, List.forall_mem_cons] at inX inY
          rw [areIdenticalParameters, areIdentical_eq type other inX.1 inY.1,
            areIdenticalParameters_eq rest others inX.2 inY.2 (Nat.succ.inj sameLength)]
          exact both_eq (by rw [ParameterObjects.form, ParameterObjects.form,
            ParameterForms.cons.injEq])
termination_by structural parameters

theorem areIdenticalMethods_eq (package otherPackage : Address) (methods others : MethodObjects)
    (inX : ∀ x ∈ methods.types, x ∈ types.objects) (inY : ∀ y ∈ others.types, y ∈ types.objects)
    (sameLength : methods.length = others.length) :
    areIdenticalMethods package otherPackage methods others =
      some (decide (methods.form package = others.form otherPackage)) := by
  cases methods with
  | nil =>
      cases others with
      | nil => rfl
      | cons otherName other others => cases sameLength
  | cons name type rest =>
      cases others with
      | nil => cases sameLength
      | cons otherName other others =>
          rw [MethodObjects.types, List.forall_mem_cons] at inX inY
          rw [areIdenticalMethods, areIdentical_eq type other inX.1 inY.1,
            areIdenticalMethods_eq package otherPackage rest others inX.2 inY.2
              (Nat.succ.inj sameLength), method_eq]
          simp only [MethodObjects.form, MethodForms.cons.injEq]
          by_cases sameName : name = otherName ∧
              significantPackage name package = significantPackage otherName otherPackage
          · rw [if_pos sameName]
            exact both_eq (by tauto)
          · rw [if_neg sameName, decide_eq_false]
            intro same
            exact sameName ⟨same.1, same.2.1⟩
termination_by structural methods

end

end TypeUniverse

/-! ## The layout is a function of the form -/

mutual

/-- A type with the form. -/
def TypeForm.resolveWith (named : Address → DataType) : TypeForm → DataType
  | .basic kind => .basic kind
  | .named address => named address
  | .pointer base => .pointer (base.resolveWith named)
  | .slice base => .slice (base.resolveWith named)
  | .heap base => .heap (base.resolveWith named)
  | .array base dimension => .array dimension (base.resolveWith named)
  | .map _ _ => .basic .map
  | .struct fields => .struct (fields.resolveWith named)
  | .component fields => .component (fields.resolveWith named)
  | .function kind _ _ _ => .callable kind 0
  | .method kind address => .callable kind address
  | .interface _ => .basic .interface

def FieldForms.resolveWith (named : Address → DataType) : FieldForms → Fields
  | .nil => .nil
  | .cons _ _ type rest => .cons (type.resolveWith named) (rest.resolveWith named)

end

/-- The layout functions do not tell the types apart. -/
structure Alike (type other : DataType) : Prop where
  alignment : Arch.alignment type = Arch.alignment other
  size : Arch.size type = Arch.size other
  containsPointer : type.containsPointer = other.containsPointer

/-- The loops over the fields do not tell them apart. -/
structure AlikeFields (fields others : Fields) : Prop where
  alignment : ∀ sz, Arch.alignmentOfFields fields sz = Arch.alignmentOfFields others sz
  size : ∀ sz, Arch.sizeOfFields fields sz = Arch.sizeOfFields others sz
  offset : ∀ i sz, Arch.offsetFrom fields i sz = Arch.offsetFrom others i sz
  containsPointer : fields.containsPointer = others.containsPointer

theorem Alike.refl (type : DataType) : Alike type type :=
  ⟨rfl, rfl, rfl⟩

theorem AlikeFields.cons {type other : DataType} {fields others : Fields}
    (first : Alike type other) (rest : AlikeFields fields others) :
    AlikeFields (.cons type fields) (.cons other others) where
  alignment sz := by
    simp only [Arch.alignmentOfFields, first.alignment, rest.alignment]
  size sz := by
    simp only [Arch.sizeOfFields, first.alignment, first.size, rest.size]
  offset i sz := by
    cases i with
    | zero => simp only [Arch.offsetFrom, first.alignment]
    | succ i => simp only [Arch.offsetFrom, first.alignment, first.size, rest.offset]
  containsPointer := by
    rw [Fields.containsPointer, Fields.containsPointer, first.containsPointer,
      rest.containsPointer]

section Layout

variable {named : Address → DataType}

mutual

theorem alike_form (bytes : Alike (named namedByte) (named namedUint8)) (x : TypeObject) :
    Alike (x.resolveWith named) (x.form.resolveWith named) := by
  cases x with
  | named address =>
      rw [TypeObject.resolveWith, TypeObject.form, TypeForm.resolveWith]
      split
      · next isByte =>
        rw [isByte]
        exact bytes
      · exact Alike.refl _
  | heap a base =>
      have same := alike_form bytes base
      exact ⟨rfl, rfl, same.containsPointer⟩
  | array a base dimension =>
      have same := alike_form bytes base
      refine ⟨same.alignment, ?_, same.containsPointer⟩
      simp only [TypeObject.resolveWith, TypeObject.form, TypeForm.resolveWith, Arch.size,
        same.size, same.alignment]
  | struct a fields =>
      have same := alikeFields_form bytes fields
      exact ⟨same.alignment _, same.size _, same.containsPointer⟩
  | component a fields =>
      have same := alikeFields_form bytes fields
      exact ⟨same.alignment _, same.size _, same.containsPointer⟩
  | _ => exact ⟨rfl, rfl, rfl⟩

theorem alikeFields_form (bytes : Alike (named namedByte) (named namedUint8))
    (fields : FieldObjects) :
    AlikeFields (fields.resolveWith named) (fields.form.resolveWith named) := by
  cases fields with
  | nil => exact ⟨fun _ => rfl, fun _ => rfl, fun _ _ => rfl, rfl⟩
  | cons label type rest => exact AlikeFields.cons (alike_form bytes type) (alikeFields_form bytes rest)

end

end Layout

namespace TypeUniverse

variable (types : TypeUniverse)

theorem alike_bytes (depth : Nat) :
    Alike (namedType types.definition depth namedByte)
      (namedType types.definition depth namedUint8) := by
  cases depth with
  | zero => exact ⟨rfl, rfl, rfl⟩
  | succ depth =>
      rw [namedType, namedType, types.isByte, types.isUint8]
      exact ⟨rfl, rfl, rfl⟩

theorem sameLayout_of_form {x y : TypeObject} (same : x.form = y.form) :
    types.SameLayout x y := by
  have alike := fun depth => alike_form (types.alike_bytes depth) x
  rw [same] at alike
  have others := fun depth => alike_form (types.alike_bytes depth) y
  refine ⟨?_, ?_, ?_, ?_⟩
  · exact fun depth => (alike depth).size.trans (others depth).size.symm
  · exact fun depth => (alike depth).alignment.trans (others depth).alignment.symm
  · exact fun depth => (alike depth).containsPointer.trans (others depth).containsPointer.symm
  · intro depth fields others areFields areOthers i
    have sameFields : fields.form = others.form := by
      cases x <;> cases areFields <;> cases y <;> cases areOthers <;> first
        | exact TypeForm.struct.inj same
        | exact TypeForm.component.inj same
        | cases same
    have alikeFields := alikeFields_form (types.alike_bytes depth) fields
    rw [sameFields] at alikeFields
    exact (alikeFields.offset i _).trans
      ((alikeFields_form (types.alike_bytes depth) others).offset i _).symm

/-- `are_identical` is defined for the types of a program and an equivalence, and
identical types have one layout. -/
theorem areIdentical_equivalence :
    (∀ x y : types.objects, (areIdentical x.1 y.1).isSome) ∧
      Equivalence types.Identical ∧
      ∀ x y : types.objects, types.Identical x y → types.SameLayout x.1 y.1 := by
  have identical_iff : ∀ x y : types.objects, types.Identical x y ↔ x.1.form = y.1.form := by
    intro x y
    rw [Identical, types.areIdentical_eq x.1 y.1 x.2 y.2, Option.some.injEq, decide_eq_true_eq]
  refine ⟨?_, ⟨?_, ?_, ?_⟩, ?_⟩
  · intro x y
    rw [types.areIdentical_eq x.1 y.1 x.2 y.2]
    rfl
  · exact fun x => (identical_iff x x).2 rfl
  · exact fun {x y} same => (identical_iff y x).2 ((identical_iff x y).1 same).symm
  · exact fun {x y z} first second =>
      (identical_iff x z).2 (((identical_iff x y).1 first).trans ((identical_iff y z).1 second))
  · exact fun x y same => types.sameLayout_of_form ((identical_iff x y).1 same)

end TypeUniverse

end Rcgo.Checker
