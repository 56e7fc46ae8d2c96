import Rcgo.Composition.InstanceLayout
import Mathlib.Data.List.Nodup

/-!
# The registrations of a program

The calls that enter a part into a table, each with the path to the part: there is
one for each contained component and port, with its address and its parent.
-/

namespace Rcgo.Composition

open Code Foundation

/-- A call of `add_instance`, `add_push_port` or `add_pull_port`. -/
inductive Registration where
  | component (inst : Instance)
  | pushPort (port : Port)
  | pullPort (port : Port)

namespace Registration

def table : Registration → Table
  | component _ => .instances
  | pushPort _ => .pushPorts
  | pullPort _ => .pullPorts

def address : Registration → Arch.Word
  | component inst => inst.address
  | pushPort port => port.address
  | pullPort port => port.address

def parent : Registration → Option Instance
  | component inst => inst.parent
  | pushPort port => port.owner
  | pullPort port => port.owner

end Registration

abbrev Call := List Selector × Registration

def Composer.register (composer : Composer) (call : Call) : Composer :=
  match call.2 with
  | .component inst => composer.addInstance inst
  | .pushPort port => composer.addPushPort port
  | .pullPort port => composer.addPullPort port

def Composer.registerAll (composer : Composer) (calls : List Call) : Composer :=
  calls.foldl Composer.register composer

def Whole.isComponent : Whole → Bool
  | .program _ => false
  | .stored type => tableOf type = some .instances

/-- The path to the innermost component around a part. -/
def enclosing : Whole → List Selector → Option (List Selector)
  | _, [] => none
  | whole, key :: rest =>
      match parts whole key with
      | none => none
      | some (_, part) =>
          match enclosing part rest with
          | some path => some (key :: path)
          | none => if whole.isComponent then some [] else none

/-- The parent of a registered part is the innermost component around it. -/
def HasParent (whole : Whole) (parent : Option Instance) (calls : List Call) (call : Call) : Prop :=
  match enclosing whole call.1 with
  | none => call.2.parent = parent
  | some path => ∃ inst, (path, .component inst) ∈ calls ∧ call.2.parent = some inst

def Describes (whole : Whole) (base : Arch.Word) (call : Call) : Prop :=
  ∃ offset part, descend parts whole call.1 = some (offset, part) ∧ part.IsIn call.2.table ∧
    call.2.address = base + offset ∧
    ∀ inst, call.2 = .component inst → part = .stored inst.type ∧ inst.type.isNamed = true

/-- The calls register the parts of a whole at these paths, once each. -/
structure Registers (covers : List Selector → Prop) (whole : Whole) (parent : Option Instance)
    (base : Arch.Word) (before after : Nat) (calls : List Call) : Prop where
  nodup : (calls.map Prod.fst).Nodup
  covered : ∀ call ∈ calls, covers call.1
  complete : ∀ path offset part table, covers path →
    descend parts whole path = some (offset, part) → part.IsIn table → path ∈ calls.map Prod.fst
  describes : ∀ call ∈ calls, Describes whole base call
  parents : ∀ call ∈ calls, HasParent whole parent calls call
  grows : before ≤ after
  numbered : ∀ path inst, (path, .component inst) ∈ calls → before ≤ inst.id ∧ inst.id < after
  numbers : ∀ path other inst otherInst, (path, .component inst) ∈ calls →
    (other, .component otherInst) ∈ calls → inst.id = otherInst.id → path = other

def Call.under (key : Selector) (call : Call) : Call :=
  (key :: call.1, call.2)

section Extension

variable {covers : List Selector → Prop} {whole part : Whole} {parent childParent : Option Instance}
  {base offset : Arch.Word} {before between after : Nat} {calls childCalls : List Call}
  {key : Selector}

theorem describes_under (isPart : parts whole key = some (offset, part)) {call : Call}
    (describes : Describes part (base + offset) call) : Describes whole base (call.under key) := by
  obtain ⟨inner, last, isLast, isIn, isAddress, isType⟩ := describes
  refine ⟨offset + inner, last, descend_cons isPart isLast, isIn, ?_, isType⟩
  rw [Call.under, isAddress, BitVec.add_assoc]

theorem mem_under {path : List Selector} {registration : Registration} :
    (path, registration) ∈ childCalls.map (Call.under key) ↔
      ∃ rest, path = key :: rest ∧ (rest, registration) ∈ childCalls := by
  rw [List.mem_map]
  constructor
  · rintro ⟨⟨rest, other⟩, isCall, isUnder⟩
    cases isUnder
    exact ⟨rest, rfl, isCall⟩
  · rintro ⟨rest, isPath, isCall⟩
    exact ⟨(rest, registration), isCall, by rw [isPath, Call.under]⟩

theorem map_fst_under (childCalls : List Call) :
    (childCalls.map (Call.under key)).map Prod.fst = (childCalls.map Prod.fst).map (key :: ·) := by
  rw [List.map_map, List.map_map]
  rfl

theorem HasParent.mono {call : Call} (hasParent : HasParent whole parent calls call)
    {more : List Call} (included : calls ⊆ more) : HasParent whole parent more call := by
  rw [HasParent] at hasParent ⊢
  split at hasParent
  · exact hasParent
  · obtain ⟨inst, isCall, isParent⟩ := hasParent
    exact ⟨inst, included isCall, isParent⟩

theorem hasParent_under {call : Call} (isPart : parts whole key = some (offset, part))
    (hasParent : HasParent part childParent childCalls call)
    (isParent : if whole.isComponent then
      ∃ inst, ([], .component inst) ∈ calls ∧ childParent = some inst else childParent = parent) :
    HasParent whole parent (calls ++ childCalls.map (Call.under key)) (call.under key) := by
  rw [HasParent] at hasParent ⊢
  rw [Call.under, enclosing, isPart]
  dsimp only
  cases isEnclosing : enclosing part call.1 with
  | some path =>
      rw [isEnclosing] at hasParent
      obtain ⟨inst, isCall, isInst⟩ := hasParent
      exact ⟨inst, List.mem_append_right _ (mem_under.mpr ⟨path, rfl, isCall⟩), isInst⟩
  | none =>
      rw [isEnclosing] at hasParent
      dsimp only at hasParent
      cases isComponent : whole.isComponent with
      | true =>
          rw [isComponent, if_pos rfl] at isParent
          obtain ⟨inst, isCall, isInst⟩ := isParent
          exact ⟨inst, List.mem_append_left _ isCall, hasParent.trans isInst⟩
      | false =>
          rw [isComponent, if_neg Bool.false_ne_true] at isParent
          exact hasParent.trans isParent

/-- The calls for one more part. -/
theorem Registers.extend (done : Registers covers whole parent base before between calls)
    (isPart : parts whole key = some (offset, part))
    (child : Registers (fun _ => True) part childParent (base + offset) between after childCalls)
    (isFresh : ∀ rest, ¬covers (key :: rest))
    (isParent : if whole.isComponent then
      ∃ inst, ([], .component inst) ∈ calls ∧ childParent = some inst else childParent = parent) :
    Registers (fun path => covers path ∨ ∃ rest, path = key :: rest) whole parent base before after
      (calls ++ childCalls.map (Call.under key)) := by
  constructor
  · rw [List.map_append, map_fst_under, List.nodup_append]
    refine ⟨done.nodup, List.Nodup.map (List.cons_injective) child.nodup, ?_⟩
    intro path isDone other isUnder same
    obtain ⟨rest, _, isPath⟩ := List.mem_map.mp isUnder
    obtain ⟨call, isCall, isFirst⟩ := List.mem_map.mp isDone
    refine isFresh rest ?_
    rw [isPath, ← same, ← isFirst]
    exact done.covered call isCall
  · intro call isCall
    rcases List.mem_append.mp isCall with isDone | isUnder
    · exact Or.inl (done.covered call isDone)
    · obtain ⟨rest, isPath, _⟩ := mem_under.mp isUnder
      exact Or.inr ⟨rest, isPath⟩
  · intro path offset last table isCovered isLast isIn
    rw [List.map_append, map_fst_under, List.mem_append]
    rcases isCovered with isCovered | ⟨rest, isPath⟩
    · exact Or.inl (done.complete path offset last table isCovered isLast isIn)
    · rw [isPath] at isLast ⊢
      obtain ⟨_, other, inner, isOther, isBelow, _⟩ := exists_of_descend_cons isLast
      rw [isPart] at isOther
      cases isOther
      exact Or.inr (List.mem_map.mpr
        ⟨rest, child.complete rest inner last table trivial isBelow isIn, rfl⟩)
  · intro call isCall
    rcases List.mem_append.mp isCall with isDone | isUnder
    · exact done.describes call isDone
    · obtain ⟨childCall, isChild, isCall⟩ := List.mem_map.mp isUnder
      exact isCall ▸ describes_under isPart (child.describes childCall isChild)
  · intro call isCall
    rcases List.mem_append.mp isCall with isDone | isUnder
    · exact (done.parents call isDone).mono (List.subset_append_left _ _)
    · obtain ⟨childCall, isChild, isCall⟩ := List.mem_map.mp isUnder
      rw [← isCall]
      exact hasParent_under isPart (child.parents childCall isChild) isParent
  · exact done.grows.trans child.grows
  · intro path inst isCall
    rcases List.mem_append.mp isCall with isDone | isUnder
    · have := done.numbered path inst isDone
      exact ⟨this.1, this.2.trans_le child.grows⟩
    · obtain ⟨rest, _, isChild⟩ := mem_under.mp isUnder
      have := child.numbered rest inst isChild
      exact ⟨done.grows.trans this.1, this.2⟩
  · intro path other inst otherInst isCall isOther same
    rcases List.mem_append.mp isCall with isDone | isUnder
    · rcases List.mem_append.mp isOther with isOtherDone | isOtherUnder
      · exact done.numbers path other inst otherInst isDone isOtherDone same
      · obtain ⟨rest, _, isChild⟩ := mem_under.mp isOtherUnder
        have := (done.numbered path inst isDone).2
        have := (child.numbered rest otherInst isChild).1
        omega
    · obtain ⟨rest, isPath, isChild⟩ := mem_under.mp isUnder
      rcases List.mem_append.mp isOther with isOtherDone | isOtherUnder
      · have := (done.numbered other otherInst isOtherDone).2
        have := (child.numbered rest inst isChild).1
        omega
      · obtain ⟨otherRest, isOtherPath, isOtherChild⟩ := mem_under.mp isOtherUnder
        rw [isPath, isOtherPath,
          child.numbers rest otherRest inst otherInst isChild isOtherChild same]

theorem Registers.eq_of_path (done : Registers covers whole parent base before after calls)
    {path : List Selector} {registration other : Registration}
    (isCall : (path, registration) ∈ calls) (isOther : (path, other) ∈ calls) :
    registration = other := by
  have same := List.inj_on_of_nodup_map done.nodup isCall isOther rfl
  exact (Prod.mk.inj same).2

theorem Registers.congr (done : Registers covers whole parent base before after calls)
    {others : List Selector → Prop} (same : ∀ path, covers path ↔ others path) :
    Registers others whole parent base before after calls := by
  have isSame : covers = others := funext fun path => propext (same path)
  exact isSame ▸ done

theorem Registers.nil (whole : Whole) (parent : Option Instance) (base : Arch.Word) (created : Nat) :
    Registers (fun _ => False) whole parent base created created [] where
  nodup := List.nodup_nil
  covered _ isCall := absurd isCall List.not_mem_nil
  complete _ _ _ _ isCovered := isCovered.elim
  describes _ isCall := absurd isCall List.not_mem_nil
  parents _ isCall := absurd isCall List.not_mem_nil
  grows := le_rfl
  numbered _ _ isCall := absurd isCall List.not_mem_nil
  numbers _ _ _ _ isCall := absurd isCall List.not_mem_nil

theorem Registers.all (done : Registers covers whole parent base before after calls)
    (isAll : ∀ path offset part table, descend parts whole path = some (offset, part) →
      part.IsIn table → covers path) :
    Registers (fun _ => True) whole parent base before after calls where
  nodup := done.nodup
  covered _ _ := trivial
  complete path offset part table _ isPart isIn :=
    done.complete path offset part table (isAll path offset part table isPart isIn) isPart isIn
  describes := done.describes
  parents := done.parents
  grows := done.grows
  numbered := done.numbered
  numbers := done.numbers

theorem Registers.self {type : DataType} {registration : Registration}
    (isIn : tableOf type = some registration.table) (isAddress : registration.address = base)
    (isParent : registration.parent = parent) (grows : before ≤ after)
    (isComponent : ∀ inst, registration = .component inst →
      type = inst.type ∧ inst.type.isNamed = true ∧ before ≤ inst.id ∧ inst.id < after) :
    Registers (fun path => path = []) (.stored type) parent base before after
      [([], registration)] where
  nodup := List.nodup_singleton _
  covered call isCall := by rw [List.mem_singleton.mp isCall]
  complete path _ _ _ isCovered _ _ := by
    rw [isCovered]
    exact List.mem_singleton_self []
  describes call isCall := by
    rw [List.mem_singleton.mp isCall]
    refine ⟨0#64, .stored type, rfl, isIn, ?_, ?_⟩
    · rw [isAddress, BitVec.add_zero]
    · intro inst isInst
      have := isComponent inst isInst
      exact ⟨congrArg Whole.stored this.1, this.2.1⟩
  parents call isCall := by
    rw [List.mem_singleton.mp isCall]
    exact isParent
  grows := grows
  numbered path inst isCall := by
    cases List.mem_singleton.mp isCall
    exact (isComponent inst rfl).2.2
  numbers path other inst otherInst isCall isOther _ := by
    cases List.mem_singleton.mp isCall
    cases List.mem_singleton.mp isOther
    rfl

end Extension

/-! ## The instantiation -/

theorem registerAll_append (composer : Composer) (calls more : List Call) :
    composer.registerAll (calls ++ more) = (composer.registerAll calls).registerAll more :=
  List.foldl_append

theorem registerAll_under (composer : Composer) (key : Selector) (calls : List Call) :
    composer.registerAll (calls.map (Call.under key)) = composer.registerAll calls := by
  induction calls generalizing composer with
  | nil => rfl
  | cons call rest inductionHypothesis => exact inductionHypothesis (composer.register call)

def InstantiatedAs (type : DataType) (namedType : Option DataType) (named : DataType) : Prop :=
  namedType = none ∧ named = type ∨
    namedType = some named ∧ named.isNamed = true ∧ named.underlyingType = type.underlyingType

/-- The instantiation of a type registers what it contains. -/
def Sound (type : DataType) : Prop :=
  ∀ parent declaration address namedType field composer result next named,
    Composer.instantiateContainedInstances type parent declaration address namedType field
      composer = some (result, next) → InstantiatedAs type namedType named →
    ∃ calls, next = composer.registerAll calls ∧
      Registers (fun _ => True) (.stored named) parent address composer.created next.created calls ∧
      ∀ inst, ([], .component inst) ∈ calls → result = some inst

theorem InstantiatedAs.underlyingType {type named : DataType} {namedType : Option DataType}
    (isAs : InstantiatedAs type namedType named) : named.underlyingType = type.underlyingType := by
  rcases isAs with ⟨_, isType⟩ | ⟨_, _, same⟩
  · rw [isType]
  · exact same

theorem tableOf_congr {type other : DataType} (same : type.underlyingType = other.underlyingType) :
    tableOf type = tableOf other := by
  rw [tableOf, tableOf, same]

theorem not_isComponent {type : DataType} (notIn : tableOf type ≠ some .instances) :
    (Whole.stored type).isComponent = false := by
  rw [Whole.isComponent, decide_eq_false_iff_not]
  exact notIn

/-- The elements of an array, up to one of them. -/
theorem registers_elements {base named : DataType} (sound : Sound base) {parent : Option Instance}
    {address : Arch.Word} {field : Option Nat} {composer : Composer} {dimension : Nat}
    (isArray : named.underlyingType = .array dimension base) (n : Nat) :
    n ≤ dimension → ∀ next,
    (List.range n).foldlM (fun composer idx => do
      let unit ← Arch.unitSize base
      let result ← Composer.instantiateContainedInstances base parent none
        (address + Arch.elementOffset unit idx) none field composer
      some result.2) composer = some next →
    ∃ calls, next = composer.registerAll calls ∧
      Registers (fun path => ∃ i < n, ∃ rest, path = .element i :: rest) (.stored named) parent
        address composer.created next.created calls := by
  induction n with
  | zero =>
      intro _ next runs
      cases runs
      exact ⟨[], rfl, (Registers.nil _ _ _ _).congr (by simp)⟩
  | succ n inductionHypothesis =>
      intro inside next runs
      rw [List.range_succ, List.foldlM_append, Option.bind_eq_bind, Option.bind_eq_some_iff] at runs
      obtain ⟨between, isBetween, runs⟩ := runs
      simp only [List.foldlM_cons, List.foldlM_nil, Option.bind_eq_bind, Option.bind_eq_some_iff,
        Option.pure_def, Option.some.injEq] at runs
      obtain ⟨_, ⟨unit, isUnit, ⟨result, last⟩, runs, isLast⟩, isNext⟩ := runs
      cases isLast
      cases isNext
      obtain ⟨calls, isCalls, done⟩ := inductionHypothesis (Nat.le_of_succ_le inside) _ isBetween
      obtain ⟨childCalls, areChildCalls, child, _⟩ :=
        sound _ _ _ _ _ _ _ _ base runs (Or.inl ⟨rfl, rfl⟩)
      have notIn : tableOf named ≠ some .instances := by
        rw [tableOf, isArray]
        rintro ⟨⟩
      refine ⟨calls ++ childCalls.map (Call.under (.element n)), ?_, ?_⟩
      · rw [registerAll_append, registerAll_under, ← isCalls]
        exact areChildCalls
      · refine (done.extend (parts_of_isPart (.element isArray inside isUnit)) child ?_ ?_).congr ?_
        · rintro rest ⟨i, before, _, isPath⟩
          cases isPath
          exact Nat.lt_irrefl _ before
        · rw [not_isComponent notIn, if_neg Bool.false_ne_true]
        · intro path
          constructor
          · rintro (⟨i, before, isPath⟩ | isPath)
            · exact ⟨i, Nat.lt_succ_of_lt before, isPath⟩
            · exact ⟨n, Nat.lt_succ_self n, isPath⟩
          · rintro ⟨i, before, isPath⟩
            rcases Nat.lt_succ_iff_lt_or_eq.mp before with before | isLast
            · exact Or.inl ⟨i, before, isPath⟩
            · exact Or.inr (isLast ▸ isPath)

theorem sound_array {base : DataType} (sound : Sound base) (dimension : Nat) :
    Sound (.array dimension base) := by
  intro parent declaration address namedType field composer result next named runs isAs
  have isArray := isAs.underlyingType
  rw [Composer.instantiateContainedInstances, Option.bind_eq_bind, Option.bind_eq_some_iff] at runs
  obtain ⟨last, runs, isLast⟩ := runs
  cases isLast
  obtain ⟨calls, isCalls, done⟩ := registers_elements sound isArray dimension le_rfl _ runs
  refine ⟨calls, isCalls, done.all ?_, ?_⟩
  · intro path offset part table isPart isIn
    cases path with
    | nil =>
        cases isPart
        rw [Whole.IsIn, tableOf, isArray] at isIn
        cases isIn
    | cons key rest =>
        obtain ⟨_, _, _, isFirst, _, _⟩ := exists_of_descend_cons isPart
        cases isPart_of_parts isFirst with
        | field isComponent _ _ =>
            rw [isArray] at isComponent
            cases isComponent
        | element isOther isElement _ =>
            rw [isArray] at isOther
            cases isOther
            exact ⟨_, isElement, rest, rfl⟩
  · intro inst isCall
    obtain ⟨_, _, _, isPath⟩ := done.covered _ isCall
    cases isPath

/-- The paths to a component itself and into its first fields. -/
def IntoFields (n : Nat) (path : List Selector) : Prop :=
  path = [] ∨ ∃ i < n, ∃ rest, path = .field i :: rest

theorem intoFields_succ (n : Nat) (path : List Selector) :
    (IntoFields n path ∨ ∃ rest, path = .field n :: rest) ↔ IntoFields (n + 1) path := by
  constructor
  · rintro ((isRoot | ⟨i, before, isPath⟩) | isPath)
    · exact Or.inl isRoot
    · exact Or.inr ⟨i, Nat.lt_succ_of_lt before, isPath⟩
    · exact Or.inr ⟨n, Nat.lt_succ_self n, isPath⟩
  · rintro (isRoot | ⟨i, before, isPath⟩)
    · exact Or.inl (Or.inl isRoot)
    · rcases Nat.lt_succ_iff_lt_or_eq.mp before with before | isLast
      · exact Or.inl (Or.inr ⟨i, before, isPath⟩)
      · exact Or.inr (isLast ▸ isPath)

/-- The fields of a component, from one of them on. -/
theorem registers_fields {fields : Fields} {named : DataType} {parent : Option Instance}
    {inst : Instance} (before : Composer) (isComponent : named.underlyingType = .component fields)
    (types : List DataType) : ∀ (rest : Fields) (i : Nat) (composer next : Composer)
    (calls : List Call), rest.toList = types → fields.toList.drop i = types →
    (∀ part ∈ types, Sound part) →
    Composer.instantiateFields fields rest i inst composer = some next →
    composer = before.registerAll calls → ([], .component inst) ∈ calls →
    Registers (IntoFields i) (.stored named) parent inst.address before.created composer.created
      calls →
    ∃ all, next = before.registerAll all ∧ ([], .component inst) ∈ all ∧
      Registers (IntoFields (i + types.length)) (.stored named) parent inst.address before.created
        next.created all := by
  induction types with
  | nil =>
      intro rest i composer next calls isRest _ _ runs isComposer isSelf done
      cases rest with
      | nil =>
          cases runs
          exact ⟨calls, isComposer, isSelf, done⟩
      | cons type rest => cases isRest
  | cons type types inductionHypothesis =>
      intro rest i composer next calls isRest isDrop sound runs isComposer isSelf done
      cases rest with
      | nil => cases isRest
      | cons first rest =>
          cases isRest
          rw [Composer.instantiateFields] at runs
          simp only [Option.bind_eq_bind, Option.bind_eq_some_iff] at runs
          obtain ⟨offset, isOffset, ⟨result, between⟩, isBetween, runs⟩ := runs
          have isField : fields.toList[i]? = some type := by
            rw [← List.head?_drop, isDrop]
            rfl
          have isNextDrop : fields.toList.drop (i + 1) = rest.toList := by
            rw [← List.tail_drop, isDrop]
            rfl
          obtain ⟨childCalls, areChildCalls, child, _⟩ :=
            sound type List.mem_cons_self _ _ _ _ _ _ _ _ type isBetween (Or.inl ⟨rfl, rfl⟩)
          have isPart := parts_of_isPart (.field isComponent isField isOffset)
          have isIn : tableOf named = some .instances := by rw [tableOf, isComponent]
          have isFresh : ∀ rest, ¬IntoFields i (.field i :: rest) := by
            rintro rest (isRoot | ⟨j, before, _, isPath⟩)
            · cases isRoot
            · cases isPath
              exact Nat.lt_irrefl _ before
          have extended := (done.extend isPart child isFresh (by
            rw [Whole.isComponent, if_pos (decide_eq_true isIn)]
            exact ⟨inst, isSelf, rfl⟩)).congr (intoFields_succ i)
          have isBetween : between =
              before.registerAll (calls ++ childCalls.map (Call.under (.field i))) := by
            rw [registerAll_append, registerAll_under, ← isComposer]
            exact areChildCalls
          obtain ⟨all, areAll, isSelfToo, finished⟩ := inductionHypothesis rest (i + 1) between next
            _ rfl isNextDrop (fun part isPart => sound part (List.mem_cons_of_mem _ isPart)) runs
            isBetween (List.mem_append_left _ isSelf) extended
          refine ⟨all, areAll, isSelfToo, ?_⟩
          rw [List.length_cons, Nat.add_comm rest.toList.length, ← Nat.add_assoc]
          exact finished

theorem sound_component {fields : Fields} (sound : ∀ part ∈ fields.toList, Sound part) :
    Sound (.component fields) := by
  intro parent declaration address namedType field composer result next named runs isAs
  have isComponent : named.underlyingType = .component fields := isAs.underlyingType
  rw [Composer.instantiateContainedInstances] at runs
  simp only [Option.bind_eq_bind, Option.bind_eq_some_iff, Option.some.injEq,
    Prod.mk.injEq] at runs
  obtain ⟨type, isType, last, runs, isResult, rfl⟩ := runs
  have isNamed : type = named ∧ named.isNamed = true := by
    rcases isAs with ⟨isNone, _⟩ | ⟨isSome, isNamed, _⟩
    · rw [isNone] at isType
      cases isType
    · rw [isSome, Option.some.injEq] at isType
      exact ⟨isType.symm, isNamed⟩
  cases isNamed.1
  have isIn : tableOf named = some .instances := by rw [tableOf, isComponent]
  generalize isInst : ({
    id := composer.created
    parent
    address
    type := named
    initializer := declaration.map InstanceDecl.initializer
    operation := declaration.map InstanceDecl.operation } : Instance) = inst at runs isResult
  have isAddress : inst.address = address := by rw [← isInst]
  have isParent : (Registration.component inst).parent = parent := by
    rw [← isInst]
    rfl
  have self : Registers (fun path => path = []) (.stored named) parent inst.address
      composer.created (composer.addInstance inst).created [([], .component inst)] := by
    refine Registers.self isIn rfl isParent (Nat.le_succ _) ?_
    intro other isOther
    cases isOther
    rw [← isInst]
    exact ⟨rfl, isNamed.2, le_rfl, Nat.lt_succ_self _⟩
  obtain ⟨all, areAll, isSelf, finished⟩ := registers_fields composer isComponent
    fields.toList fields 0 _ last [([], .component inst)] rfl rfl sound runs rfl
    (List.mem_singleton_self _) (self.congr (by simp [IntoFields]))
  rw [isAddress] at finished
  refine ⟨all, areAll, finished.all ?_, ?_⟩
  · intro path offset part table isPart isIn
    cases path with
    | nil => exact Or.inl rfl
    | cons key rest =>
        obtain ⟨_, _, _, isFirst, _, _⟩ := exists_of_descend_cons isPart
        cases isPart_of_parts isFirst with
        | field isOther isField _ =>
            rw [isComponent] at isOther
            cases isOther
            refine Or.inr ⟨_, ?_, rest, rfl⟩
            rw [Nat.zero_add]
            exact (List.getElem?_eq_some_iff.mp isField).1
        | element isArray _ _ =>
            rw [isComponent] at isArray
            cases isArray
  · intro other isCall
    cases finished.eq_of_path isCall isSelf
    exact isResult.symm

theorem sound_named {definition : DataType} (sound : Sound definition) (name : Nat) :
    Sound (.named name definition) := by
  intro parent declaration address namedType field composer result next named runs isAs
  rw [Composer.instantiateContainedInstances] at runs
  apply sound _ _ _ _ _ _ _ _ named runs
  rcases isAs with ⟨isNone, isType⟩ | ⟨isSome, isNamed, same⟩
  · rw [isNone, isType]
    exact Or.inr ⟨rfl, rfl, rfl⟩
  · rw [isSome]
    exact Or.inr ⟨rfl, isNamed, same⟩

theorem path_eq_nil {named : DataType} (notComponent : ∀ fields, named.underlyingType ≠ .component fields)
    (notArray : ∀ dimension base, named.underlyingType ≠ .array dimension base)
    {path : List Selector} {offset : Arch.Word} {part : Whole}
    (isPart : descend parts (.stored named) path = some (offset, part)) :
    path = [] ∧ part = .stored named := by
  cases path with
  | nil =>
      cases isPart
      exact ⟨rfl, rfl⟩
  | cons key rest =>
      obtain ⟨_, _, _, isFirst, _, _⟩ := exists_of_descend_cons isPart
      rw [parts_eq_none notComponent notArray] at isFirst
      cases isFirst

theorem sound_of_nothing {type : DataType} (isUnderlying : type.underlyingType = type)
    (notComponent : ∀ fields, type ≠ .component fields)
    (notArray : ∀ dimension base, type ≠ .array dimension base) (notIn : tableOf type = none)
    (nothing : ∀ parent declaration address namedType field composer,
      Composer.instantiateContainedInstances type parent declaration address namedType field
        composer = some (none, composer)) : Sound type := by
  intro parent declaration address namedType field composer result next named runs isAs
  rw [nothing] at runs
  cases runs
  have same := isAs.underlyingType
  rw [isUnderlying] at same
  refine ⟨[], rfl, (Registers.nil _ _ _ _).all ?_, fun _ isCall => absurd isCall List.not_mem_nil⟩
  intro path offset part table isPart isIn
  obtain ⟨_, isPart⟩ := path_eq_nil (same ▸ notComponent) (same ▸ notArray) isPart
  rw [isPart, Whole.IsIn, tableOf_congr (isAs.underlyingType), notIn] at isIn
  cases isIn

theorem sound_of_port {type : DataType}
    (registration : Arch.Word → Option Instance → Option Nat → Registration) (isUnderlying : type.underlyingType = type)
    (notComponent : ∀ fields, type ≠ .component fields)
    (notArray : ∀ dimension base, type ≠ .array dimension base)
    (isIn : ∀ address owner field, tableOf type = some (registration address owner field).table)
    (isPort : ∀ address owner field, (registration address owner field).address = address ∧
      (registration address owner field).parent = owner ∧
      ∀ inst, registration address owner field ≠ .component inst)
    (runs : ∀ parent declaration address namedType field (composer : Composer),
      Composer.instantiateContainedInstances type parent declaration address namedType field
        composer = some (none, composer.registerAll [([], registration address parent field)])) :
    Sound type := by
  intro parent declaration address namedType field composer result next named instantiates isAs
  rw [runs] at instantiates
  cases instantiates
  obtain ⟨isAddress, isParent, notInstance⟩ := isPort address parent field
  have same := isAs.underlyingType
  have isIn : tableOf named = some (registration address parent field).table :=
    (tableOf_congr same).trans (isIn address parent field)
  rw [isUnderlying] at same
  have isCreated : (composer.registerAll [([], registration address parent field)]).created =
      composer.created := by
    rw [Composer.registerAll, List.foldl_cons, List.foldl_nil, Composer.register]
    cases isRegistration : registration address parent field with
    | component inst => exact absurd isRegistration (notInstance inst)
    | pushPort port => rfl
    | pullPort port => rfl
  refine ⟨_, rfl, (Registers.self isIn isAddress isParent (Nat.le_of_eq isCreated.symm) ?_).all ?_, ?_⟩
  · exact fun inst isInst => absurd isInst (notInstance inst)
  · exact fun path _ _ _ isPart _ => (path_eq_nil (same ▸ notComponent) (same ▸ notArray) isPart).1
  · intro inst isCall
    exact absurd (Prod.mk.inj (List.mem_singleton.mp isCall)).2.symm (notInstance inst)

theorem instantiate_callable {kind : Kind} {signature : Nat} {parent : Option Instance}
    {declaration : Option InstanceDecl} {address : Arch.Word} {namedType : Option DataType}
    {field : Option Nat} {composer : Composer} (notPush : kind ≠ .pushPort)
    (notPull : kind ≠ .pullPort) :
    Composer.instantiateContainedInstances (.callable kind signature) parent declaration address
      namedType field composer = some (none, composer) := by
  rw [Composer.instantiateContainedInstances] <;> grind

theorem sound_callable {kind : Kind} (signature : Nat) (notPush : kind ≠ .pushPort)
    (notPull : kind ≠ .pullPort) : Sound (.callable kind signature) := by
  refine sound_of_nothing rfl (by rintro _ ⟨⟩) (by rintro _ _ ⟨⟩) ?_
    fun _ _ _ _ _ _ => instantiate_callable notPush notPull
  unfold tableOf
  split
  · next isComponent => cases isComponent
  · next isPush =>
      cases isPush
      exact absurd rfl notPush
  · next isPull =>
      cases isPull
      exact absurd rfl notPull
  · rfl

mutual

theorem sound_of_type (type : DataType) : Sound type := by
  cases type with
  | component fields => exact sound_component fun part isPart => sound_of_fields fields part isPart
  | array dimension base => exact sound_array (sound_of_type base) dimension
  | named name definition => exact sound_named (sound_of_type definition) name
  | callable kind signature =>
      by_cases isPush : kind = .pushPort
      · rw [isPush]
        exact sound_of_port (fun address owner field => .pushPort ⟨address, owner, field⟩) rfl
          (by rintro _ ⟨⟩) (by rintro _ _ ⟨⟩) (fun _ _ _ => rfl)
          (fun _ _ _ => ⟨rfl, rfl, (by rintro _ ⟨⟩)⟩) (fun _ _ _ _ _ _ => rfl)
      · by_cases isPull : kind = .pullPort
        · rw [isPull]
          exact sound_of_port (fun address owner field => .pullPort ⟨address, owner, field⟩) rfl
            (by rintro _ ⟨⟩) (by rintro _ _ ⟨⟩) (fun _ _ _ => rfl)
            (fun _ _ _ => ⟨rfl, rfl, (by rintro _ ⟨⟩)⟩) (fun _ _ _ _ _ _ => rfl)
        · exact sound_callable signature isPush isPull
  | _ => exact sound_of_nothing rfl (by rintro _ ⟨⟩) (by rintro _ _ ⟨⟩) rfl fun _ _ _ _ _ _ => rfl

theorem sound_of_fields (fields : Fields) : ∀ part ∈ fields.toList, Sound part := by
  cases fields with
  | nil => exact fun part isPart => absurd isPart List.not_mem_nil
  | cons type rest =>
      intro part isPart
      rcases List.mem_cons.mp isPart with isFirst | isRest
      · exact isFirst ▸ sound_of_type type
      · exact sound_of_fields rest part isRest

end

/-! ## The assertion -/

def ComponentsNamed (whole : Whole) : Prop :=
  ∀ path offset type, descend parts whole path = some (offset, .stored type) →
    tableOf type = some .instances → type.isNamed = true

theorem ComponentsNamed.of_part {whole part : Whole} {key : Selector} {offset : Arch.Word}
    (named : ComponentsNamed whole) (isPart : parts whole key = some (offset, part)) :
    ComponentsNamed part :=
  fun path _ type isType isIn => named (key :: path) _ type (descend_cons isPart isType) isIn

/-- The assertion holds for a type whose components all have names. -/
def Total (type : DataType) : Prop :=
  ∀ parent declaration address namedType field composer named,
    InstantiatedAs type namedType named → (Whole.stored named).IsLaidOut →
    ComponentsNamed (.stored named) →
    ∃ result, Composer.instantiateContainedInstances type parent declaration address namedType field
      composer = some result

theorem total_elements {base named : DataType} (total : Total base) (parent : Option Instance)
    (address : Arch.Word) (field : Option Nat) (composer : Composer) {dimension : Nat}
    {unit : Arch.Word} (isUnit : Arch.unitSize base = some unit)
    (isArray : named.underlyingType = .array dimension base)
    (laidOut : (Whole.stored named).IsLaidOut) (areNamed : ComponentsNamed (.stored named))
    (n : Nat) : n ≤ dimension → ∃ next,
    (List.range n).foldlM (fun composer idx => do
      let unit ← Arch.unitSize base
      let result ← Composer.instantiateContainedInstances base parent none
        (address + Arch.elementOffset unit idx) none field composer
      some result.2) composer = some next := by
  induction n with
  | zero => exact fun _ => ⟨composer, rfl⟩
  | succ n inductionHypothesis =>
      intro inside
      obtain ⟨between, isBetween⟩ := inductionHypothesis (Nat.le_of_succ_le inside)
      have isPart := IsPart.element isArray inside isUnit
      obtain ⟨⟨result, next⟩, runs⟩ := total parent none (address + Arch.elementOffset unit n) none
        field between base (Or.inl ⟨rfl, rfl⟩) (isPart.isLaidOut laidOut)
        (areNamed.of_part (parts_of_isPart isPart))
      refine ⟨next, ?_⟩
      rw [List.range_succ, List.foldlM_append, isBetween]
      simp [isUnit, runs]

theorem total_array {base : DataType} (total : Total base) (dimension : Nat) :
    Total (.array dimension base) := by
  intro parent declaration address namedType field composer named isAs laidOut areNamed
  have isArray : named.underlyingType = .array dimension base := isAs.underlyingType
  have everywhere := everywhere_underlyingType laidOut.2
  rw [isArray] at everywhere
  obtain ⟨_, _, unit, _, _, isUnit, _, _, _⟩ := everywhere.1.parts
  obtain ⟨next, runs⟩ := total_elements total parent address field composer isUnit isArray laidOut
    areNamed dimension le_rfl
  refine ⟨(none, next), ?_⟩
  rw [Composer.instantiateContainedInstances, Option.bind_eq_bind, runs]
  rfl

theorem total_fields {fields : Fields} {named : DataType} (inst : Instance)
    (isComponent : named.underlyingType = .component fields)
    (laidOut : (Whole.stored named).IsLaidOut) (areNamed : ComponentsNamed (.stored named))
    (types : List DataType) : ∀ (rest : Fields) (i : Nat) (composer : Composer),
    rest.toList = types → fields.toList.drop i = types → (∀ part ∈ types, Total part) →
    ∃ next, Composer.instantiateFields fields rest i inst composer = some next := by
  induction types with
  | nil =>
      intro rest i composer isRest _ _
      cases rest with
      | nil => exact ⟨composer, rfl⟩
      | cons type rest => cases isRest
  | cons type types inductionHypothesis =>
      intro rest i composer isRest isDrop total
      cases rest with
      | nil => cases isRest
      | cons first rest =>
          cases isRest
          have isField : fields.toList[i]? = some type := by
            rw [← List.head?_drop, isDrop]
            rfl
          have isNextDrop : fields.toList.drop (i + 1) = rest.toList := by
            rw [← List.tail_drop, isDrop]
            rfl
          obtain ⟨_, _, areLaidOut⟩ := fieldsLaidOut laidOut.2 isComponent
          obtain ⟨slot, isSlot, _⟩ := areLaidOut.placed i (List.getElem?_eq_some_iff.mp isField).1
          obtain ⟨_, _, isOffset, _⟩ := exists_slot isSlot
          have isPart := IsPart.field isComponent isField isOffset
          obtain ⟨⟨result, between⟩, runs⟩ := total type List.mem_cons_self (some inst) none
            (inst.address + slot.offset) none (some i) composer type (Or.inl ⟨rfl, rfl⟩)
            (isPart.isLaidOut laidOut) (areNamed.of_part (parts_of_isPart isPart))
          obtain ⟨next, finishes⟩ := inductionHypothesis rest (i + 1) between rfl isNextDrop
            fun part isPart => total part (List.mem_cons_of_mem _ isPart)
          refine ⟨next, ?_⟩
          rw [Composer.instantiateFields]
          simp [isOffset, runs, finishes]

theorem total_component {fields : Fields} (total : ∀ part ∈ fields.toList, Total part) :
    Total (.component fields) := by
  intro parent declaration address namedType field composer named isAs laidOut areNamed
  have isComponent : named.underlyingType = .component fields := isAs.underlyingType
  have isIn : tableOf named = some .instances := by rw [tableOf, isComponent]
  have isNamed : namedType = some named := by
    rcases isAs with ⟨_, isType⟩ | ⟨isSome, _, _⟩
    · have := areNamed [] _ named rfl isIn
      rw [isType] at this
      cases this
    · exact isSome
  rw [Composer.instantiateContainedInstances, isNamed]
  simp only [Option.bind_eq_bind, Option.bind_some]
  generalize ({
    id := composer.created
    parent
    address
    type := named
    initializer := declaration.map InstanceDecl.initializer
    operation := declaration.map InstanceDecl.operation } : Instance) = inst
  obtain ⟨next, runs⟩ := total_fields inst isComponent laidOut areNamed fields.toList fields 0
    (composer.addInstance inst) rfl rfl total
  exact ⟨(some inst, next), by rw [runs]; rfl⟩

theorem total_named {definition : DataType} (total : Total definition) (name : Nat) :
    Total (.named name definition) := by
  intro parent declaration address namedType field composer named isAs laidOut areNamed
  rw [Composer.instantiateContainedInstances]
  apply total _ _ _ _ _ _ named ?_ laidOut areNamed
  rcases isAs with ⟨isNone, isType⟩ | ⟨isSome, isNamed, same⟩
  · rw [isNone, isType]
    exact Or.inr ⟨rfl, rfl, rfl⟩
  · rw [isSome]
    exact Or.inr ⟨rfl, isNamed, same⟩

mutual

theorem total_of_type (type : DataType) : Total type := by
  cases type with
  | component fields => exact total_component fun part isPart => total_of_fields fields part isPart
  | array dimension base => exact total_array (total_of_type base) dimension
  | named name definition => exact total_named (total_of_type definition) name
  | callable kind signature =>
      intro parent declaration address namedType field composer named _ _ _
      by_cases isPush : kind = .pushPort
      · rw [isPush]
        exact ⟨_, rfl⟩
      · by_cases isPull : kind = .pullPort
        · rw [isPull]
          exact ⟨_, rfl⟩
        · exact ⟨_, instantiate_callable isPush isPull⟩
  | _ => exact fun _ _ _ _ _ _ _ _ _ _ => ⟨_, rfl⟩

theorem total_of_fields (fields : Fields) : ∀ part ∈ fields.toList, Total part := by
  cases fields with
  | nil => exact fun part isPart => absurd isPart List.not_mem_nil
  | cons type rest =>
      intro part isPart
      rcases List.mem_cons.mp isPart with isFirst | isRest
      · exact isFirst ▸ total_of_type type
      · exact total_of_fields rest part isRest

end

end Rcgo.Composition
