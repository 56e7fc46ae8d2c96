import Rcgo.Composition.InstanceEnumeration

/-!
# The addresses of the instances and ports

The tables are keyed by address.  Since the registered parts start apart, each of them
keeps an entry of its own, and a parent comes before what it contains.
-/

namespace Rcgo.Composition

open Code Foundation

/-- The places of the parts that are registered in a table. -/
def sites (declarations : List InstanceDecl) (table : Table) : Set (List Selector) :=
  {path | ∃ offset part,
    descend parts (.program declarations) path = some (offset, part) ∧ part.IsIn table}

def addressOf (declarations : List InstanceDecl) (path : List Selector) : Arch.Word :=
  ((descend parts (.program declarations) path).map Prod.fst).getD 0

def Registration.instance? : Registration → Option Instance
  | component inst => some inst
  | _ => none

def Registration.pushPort? : Registration → Option Port
  | pushPort port => some port
  | _ => none

def Registration.pullPort? : Registration → Option Port
  | pullPort port => some port
  | _ => none

/-! ## One table -/

section OneTable

variable {α : Type} {table : Table} {entriesOf : Composer → OrderedMap Arch.Word α}
  {value : Registration → Option α}

/-- A table of the composer is filled with the values of registrations. -/
structure Fills (table : Table) (entriesOf : Composer → OrderedMap Arch.Word α)
    (value : Registration → Option α) : Prop where
  initial : entriesOf .initial = .empty
  step : ∀ composer call, entriesOf (composer.register call) =
    match value call.2 with
    | none => entriesOf composer
    | some entered => (entriesOf composer).insert call.2.address entered
  isSome : ∀ registration, (∃ entered, value registration = some entered) ↔
    registration.table = table

theorem fills_instances : Fills .instances Composer.instances Registration.instance? where
  initial := rfl
  step composer call := by
    obtain ⟨path, registration⟩ := call
    cases registration <;> rfl
  isSome registration := by
    cases registration <;> simp [Registration.instance?, Registration.table]

theorem fills_pushPorts : Fills .pushPorts Composer.pushPorts Registration.pushPort? where
  initial := rfl
  step composer call := by
    obtain ⟨path, registration⟩ := call
    cases registration <;> rfl
  isSome registration := by
    cases registration <;> simp [Registration.pushPort?, Registration.table]

theorem fills_pullPorts : Fills .pullPorts Composer.pullPorts Registration.pullPort? where
  initial := rfl
  step composer call := by
    obtain ⟨path, registration⟩ := call
    cases registration <;> rfl
  isSome registration := by
    cases registration <;> simp [Registration.pullPort?, Registration.table]

def entryOf (value : Registration → Option α) (call : Call) : Option (Arch.Word × α) :=
  (value call.2).map fun entered => (call.2.address, entered)

theorem entryOf_eq_some {call : Call} {entry : Arch.Word × α} :
    entryOf value call = some entry ↔ value call.2 = some entry.2 ∧ call.2.address = entry.1 := by
  obtain ⟨address, entered⟩ := entry
  rw [entryOf, Option.map_eq_some_iff]
  constructor
  · rintro ⟨other, isValue, isEntry⟩
    cases isEntry
    exact ⟨isValue, rfl⟩
  · rintro ⟨isValue, isAddress⟩
    exact ⟨entered, isValue, congrArg (·, entered) isAddress⟩

theorem Fills.registerAll (fills : Fills table entriesOf value) (composer : Composer)
    (calls : List Call) : entriesOf (composer.registerAll calls) =
      (entriesOf composer).insertAll (calls.filterMap (entryOf value)) := by
  induction calls generalizing composer with
  | nil => rfl
  | cons call rest inductionHypothesis =>
      rw [Composer.registerAll, List.foldl_cons]
      change entriesOf ((composer.register call).registerAll rest) = _
      rw [inductionHypothesis, fills.step, List.filterMap_cons, entryOf]
      cases value call.2 with
      | none => rfl
      | some entered => rfl

section Calls

variable {declarations : List InstanceDecl} {before after : Nat} {calls : List Call}

theorem Describes.address_eq {call : Call} (describes : Describes (.program declarations) 0 call) :
    call.2.address = addressOf declarations call.1 := by
  obtain ⟨offset, part, isPart, _, isAddress, _⟩ := describes
  rw [isAddress, addressOf, isPart]
  exact BitVec.zero_add offset

theorem Describes.mem_sites {call : Call} (describes : Describes (.program declarations) 0 call) :
    call.1 ∈ sites declarations call.2.table := by
  obtain ⟨offset, part, isPart, isIn, _, _⟩ := describes
  exact ⟨offset, part, isPart, isIn⟩

theorem table_unique {whole : Whole} {table other : Table} (isIn : whole.IsIn table)
    (isOtherIn : whole.IsIn other) : table = other := by
  cases whole with
  | program declarations => exact isIn.elim
  | stored type => exact Option.some.inj (isIn.symm.trans isOtherIn)

theorem addressOf_injOn (laidOut : (Whole.program declarations).IsLaidOut) (table : Table) :
    Set.InjOn (addressOf declarations) (sites declarations table) := by
  rintro path ⟨offset, part, isPart, isIn⟩ other ⟨otherOffset, otherPart, isOther, isOtherIn⟩ same
  rw [addressOf, addressOf, isPart, isOther] at same
  have isSame : offset = otherOffset := same
  rw [← isSame] at isOther
  exact (startsApart table laidOut).offset_injective (nests_of_isLaidOut laidOut) isPart isIn
    isOther isOtherIn

variable (fills : Fills table entriesOf value) (laidOut : (Whole.program declarations).IsLaidOut)
  (registers : Registers (fun _ => True) (.program declarations) none 0 before after calls)
include fills laidOut registers

theorem nodup_entries : ((calls.filterMap (entryOf value)).map Prod.fst).Nodup := by
  rw [List.Nodup, List.pairwise_map, List.pairwise_filterMap]
  have distinct := List.pairwise_map.mp registers.nodup
  refine distinct.imp_of_mem ?_
  intro call other isCall isOther different entry isEntry otherEntry isOtherEntry same
  obtain ⟨isValue, isAddress⟩ := entryOf_eq_some.mp isEntry
  obtain ⟨isOtherValue, isOtherAddress⟩ := entryOf_eq_some.mp isOtherEntry
  have isIn := (registers.describes call isCall).mem_sites
  have isOtherIn := (registers.describes other isOther).mem_sites
  rw [(fills.isSome call.2).mp ⟨_, isValue⟩] at isIn
  rw [(fills.isSome other.2).mp ⟨_, isOtherValue⟩] at isOtherIn
  refine different (addressOf_injOn laidOut table isIn isOtherIn ?_)
  rw [← (registers.describes call isCall).address_eq,
    ← (registers.describes other isOther).address_eq, isAddress, isOtherAddress, same]

theorem mem_entries {entry : Arch.Word × α} :
    entry ∈ (entriesOf (Composer.initial.registerAll calls)).entries ↔
      ∃ call ∈ calls, value call.2 = some entry.2 ∧ call.2.address = entry.1 := by
  rw [fills.registerAll, fills.initial, OrderedMap.mem_insertAll]
  · rw [List.mem_filterMap]
    constructor
    · rintro (isOld | ⟨call, isCall, isEntry⟩)
      · exact absurd isOld List.not_mem_nil
      · exact ⟨call, isCall, entryOf_eq_some.mp isEntry⟩
    · rintro ⟨call, isCall, isEntry⟩
      exact Or.inr ⟨call, isCall, entryOf_eq_some.mpr isEntry⟩
  · exact nodup_entries fills laidOut registers
  · exact fun entry _ => OrderedMap.not_mem_keys_empty entry.1

theorem bijOn_keys : Set.BijOn (addressOf declarations) (sites declarations table)
    (entriesOf (Composer.initial.registerAll calls)).keys := by
  refine ⟨?_, addressOf_injOn laidOut table, ?_⟩
  · rintro path ⟨offset, part, isPart, isIn⟩
    have isPath := registers.complete path offset part table trivial isPart isIn
    obtain ⟨call, isCall, isFirst⟩ := List.mem_map.mp isPath
    have describes := registers.describes call isCall
    have isTable : call.2.table = table := by
      obtain ⟨_, other, isOther, isOtherIn, _, _⟩ := describes
      rw [isFirst, isPart, Option.some.injEq, Prod.mk.injEq] at isOther
      rw [← isOther.2] at isOtherIn
      exact table_unique isOtherIn isIn
    obtain ⟨entered, isValue⟩ := (fills.isSome call.2).mpr isTable
    refine ⟨entered, (mem_entries fills laidOut registers).mpr ⟨call, isCall, isValue, ?_⟩⟩
    rw [describes.address_eq, isFirst]
  · rintro address ⟨entered, isEntry⟩
    obtain ⟨call, isCall, isValue, isAddress⟩ := (mem_entries fills laidOut registers).mp isEntry
    have describes := registers.describes call isCall
    refine ⟨call.1, ?_, describes.address_eq.symm.trans isAddress⟩
    rw [← (fills.isSome call.2).mp ⟨_, isValue⟩]
    exact describes.mem_sites

end Calls

end OneTable

/-! ## Parents -/

section Parents

variable {whole part : Whole} {path above : List Selector} {offset : Arch.Word}

theorem enclosing_ne_none {key : Selector} {rest : List Selector} (isComponent : whole.isComponent)
    (isPart : descend parts whole (key :: rest) = some (offset, part)) :
    enclosing whole (key :: rest) ≠ none := by
  obtain ⟨_, between, _, isBetween, _, _⟩ := exists_of_descend_cons isPart
  rw [enclosing, isBetween]
  dsimp only
  cases enclosing between rest with
  | none =>
      rw [if_pos isComponent]
      exact Option.some_ne_none _
  | some inner => exact Option.some_ne_none _

theorem exists_of_enclosing (isPart : descend parts whole path = some (offset, part))
    (isEnclosing : enclosing whole path = some above) :
    ∃ key rest, path = above ++ key :: rest := by
  induction path generalizing whole offset above with
  | nil => cases isEnclosing
  | cons key rest inductionHypothesis =>
      obtain ⟨_, between, _, isBetween, isBelow, _⟩ := exists_of_descend_cons isPart
      rw [enclosing, isBetween] at isEnclosing
      dsimp only at isEnclosing
      cases isInner : enclosing between rest with
      | none =>
          rw [isInner] at isEnclosing
          dsimp only at isEnclosing
          split at isEnclosing
          · cases isEnclosing
            exact ⟨key, rest, rfl⟩
          · cases isEnclosing
      | some inner =>
          rw [isInner] at isEnclosing
          cases isEnclosing
          obtain ⟨innerKey, innerRest, isRest⟩ := inductionHypothesis isBelow isInner
          exact ⟨innerKey, innerRest, by rw [isRest, List.cons_append]⟩

variable {declarations : List InstanceDecl} {before after : Nat} {calls : List Call} {call : Call}

theorem eq_declared_of_enclosing {table : Table}
    (isPart : descend parts (.program declarations) path = some (offset, part))
    (isIn : part.IsIn table) (isEnclosing : enclosing (.program declarations) path = none) :
    ∃ i, path = [.declared i] ∧ table = .instances := by
  cases path with
  | nil =>
      cases isPart
      exact isIn.elim
  | cons key rest =>
      obtain ⟨_, between, _, isBetween, isBelow, _⟩ := exists_of_descend_cons isPart
      have isFirst := isPart_of_parts isBetween
      cases isFirst with
      | @declared _ i _ type isDeclared =>
          obtain ⟨declaration, _, isType⟩ := exists_declaration isDeclared
          have isComponent : tableOf type = some .instances := isType ▸ tableOf_declaration declaration
          cases rest with
          | nil =>
              cases isBelow
              exact ⟨i, rfl, table_unique isIn isComponent⟩
          | cons next rest =>
              have isAround : (Whole.stored type).isComponent = true := decide_eq_true isComponent
              have isInner := enclosing_ne_none isAround isBelow
              rw [enclosing, isBetween] at isEnclosing
              dsimp only at isEnclosing
              cases isSome : enclosing (.stored type) (next :: rest) with
              | none => exact absurd isSome isInner
              | some inner =>
                  rw [isSome] at isEnclosing
                  cases isEnclosing

variable (registers : Registers (fun _ => True) (.program declarations) none 0 before after calls)
include registers

theorem descend_of_instance {inst : Instance} (isCall : (path, .component inst) ∈ calls) :
    descend parts (.program declarations) path = some (inst.address, .stored inst.type) := by
  obtain ⟨start, outer, isOuter, _, isAddress, isType⟩ := registers.describes _ isCall
  have isStart : inst.address = 0 + start := isAddress
  rw [isStart, ← (isType inst rfl).1]
  exact isOuter.trans (congrArg (fun start => some (start, outer)) (BitVec.zero_add start).symm)

theorem isIn_of_instance {inst : Instance} (isCall : (path, .component inst) ∈ calls) :
    (Whole.stored inst.type).IsIn .instances := by
  obtain ⟨_, _, _, isIn, _, isType⟩ := registers.describes _ isCall
  exact (isType inst rfl).1 ▸ isIn

theorem parent_cases (isCall : call ∈ calls) :
    (∃ i, call.1 = [.declared i] ∧ call.2.table = .instances ∧ call.2.parent = none) ∨
      ∃ above key rest inst, call.1 = above ++ key :: rest ∧ (above, .component inst) ∈ calls ∧
        call.2.parent = some inst := by
  obtain ⟨offset, part, isPart, isIn, _, _⟩ := registers.describes call isCall
  have hasParent := registers.parents call isCall
  rw [HasParent] at hasParent
  cases isEnclosing : enclosing (.program declarations) call.1 with
  | none =>
      rw [isEnclosing] at hasParent
      obtain ⟨i, isPath, isTable⟩ := eq_declared_of_enclosing isPart isIn isEnclosing
      exact Or.inl ⟨i, isPath, isTable, hasParent⟩
  | some above =>
      rw [isEnclosing] at hasParent
      obtain ⟨inst, isAbove, isParent⟩ := hasParent
      obtain ⟨key, rest, isPath⟩ := exists_of_enclosing isPart isEnclosing
      exact Or.inr ⟨above, key, rest, inst, isPath, isAbove, isParent⟩

theorem exists_parent {inst : Instance} (isCall : call ∈ calls)
    (isParent : call.2.parent = some inst) :
    ∃ above key rest, call.1 = above ++ key :: rest ∧ (above, .component inst) ∈ calls := by
  rcases parent_cases registers isCall with ⟨_, _, _, isNone⟩ | ⟨above, key, rest, other, isPath, isAbove, isOther⟩
  · rw [isParent] at isNone
    cases isNone
  · rw [isParent] at isOther
    cases isOther
    exact ⟨above, key, rest, isPath, isAbove⟩

variable (laidOut : (Whole.program declarations).IsLaidOut)
include laidOut

theorem bytesAt_subset_parent {inst : Instance} {table : Table} (isCall : call ∈ calls)
    (isPart : descend parts (.program declarations) call.1 = some (offset, part))
    (isIn : part.IsIn table) (isParent : call.2.parent = some inst) :
    bytesAt call.2.address.toNat part.size ⊆ bytesAt inst.address.toNat (bytes inst.type) := by
  obtain ⟨above, key, rest, isPath, isAbove⟩ := exists_parent registers isCall isParent
  have isOuter := descend_of_instance registers isAbove
  have isAddress : call.2.address = offset := by
    rw [(registers.describes call isCall).address_eq, addressOf, isPart]
    rfl
  have takes := takes_of_isIn (isLaidOut_of_descend laidOut isPart) isIn
  rw [isPath] at isPart
  obtain ⟨start, outer, inner, isStart, isInner, isSum⟩ := exists_of_descend_append isPart
  rw [isOuter] at isStart
  cases isStart
  have nests := nests_of_isLaidOut laidOut
  have isInside : inner.toNat + part.size ≤ bytes inst.type :=
    (nests.of_descend isOuter).inside isInner takes
  rw [isAddress, isSum, nests.toNat_add isOuter isInner takes]
  exact Set.Ico_subset_Ico (Nat.le_add_right _ _) (by omega)

theorem lt_of_parent {inst parent : Instance} (isCall : (path, .component inst) ∈ calls)
    (isParent : inst.parent = some parent) : parent.address < inst.address := by
  obtain ⟨above, key, rest, isPath, isAbove⟩ := exists_parent registers isCall isParent
  have isPart := descend_of_instance registers isCall
  have isOuter := descend_of_instance registers isAbove
  have isPathOf : path = above ++ key :: rest := isPath
  rw [isPathOf] at isPart
  exact (startsApart .instances laidOut).lt_of_above (nests_of_isLaidOut laidOut) isOuter
    (isIn_of_instance registers isAbove) isPart (isIn_of_instance registers isCall)

end Parents

/-! ## The tables of an enumeration -/

/-- What the enumeration of the declarations leaves in the tables.  Each contained component
and port is registered by one call, under an address of its own and in the range of its
parent, and no instance comes before its parent. -/
structure Enumerated (declarations : List InstanceDecl) (composer : Composer) : Prop where
  registered : ∃ calls, composer = Composer.initial.registerAll calls ∧
    Registers (fun _ => True) (.program declarations) none 0 0 composer.created calls
  instances : Set.BijOn (addressOf declarations) (sites declarations .instances)
    composer.instances.keys
  pushPorts : Set.BijOn (addressOf declarations) (sites declarations .pushPorts)
    composer.pushPorts.keys
  pullPorts : Set.BijOn (addressOf declarations) (sites declarations .pullPorts)
    composer.pullPorts.keys
  inParent : ∀ address inst parent, (address, inst) ∈ composer.instances.entries →
    inst.parent = some parent → (parent.address, parent) ∈ composer.instances.entries ∧
      bytesAt address.toNat (bytes inst.type) ⊆ bytesAt parent.address.toNat (bytes parent.type)
  pushPortInOwner : ∀ address port, (address, port) ∈ composer.pushPorts.entries →
    ∃ owner, port.owner = some owner ∧ (owner.address, owner) ∈ composer.instances.entries ∧
      bytesAt address.toNat 8 ⊆ bytesAt owner.address.toNat (bytes owner.type)
  pullPortInOwner : ∀ address port, (address, port) ∈ composer.pullPorts.entries →
    ∃ owner, port.owner = some owner ∧ (owner.address, owner) ∈ composer.instances.entries ∧
      bytesAt address.toNat 16 ⊆ bytesAt owner.address.toNat (bytes owner.type)
  parentsFirst : ∀ front address inst back parent,
    composer.instances.entries = front ++ (address, inst) :: back → inst.parent = some parent →
    (parent.address, parent) ∈ front

section Tables

variable {declarations : List InstanceDecl} {before after : Nat} {calls : List Call}
  (registers : Registers (fun _ => True) (.program declarations) none 0 before after calls)
  (laidOut : (Whole.program declarations).IsLaidOut)
include registers laidOut

theorem mem_instances {address : Arch.Word} {inst : Instance} :
    (address, inst) ∈ (Composer.initial.registerAll calls).instances.entries ↔
      inst.address = address ∧ ∃ path, (path, .component inst) ∈ calls := by
  rw [mem_entries fills_instances laidOut registers]
  constructor
  · rintro ⟨⟨path, registration⟩, isCall, isInst, isAddress⟩
    cases registration <;> cases isInst
    exact ⟨isAddress, path, isCall⟩
  · rintro ⟨isAddress, path, isCall⟩
    exact ⟨(path, .component inst), isCall, rfl, isAddress⟩

theorem mem_pushPorts {address : Arch.Word} {port : Port} :
    (address, port) ∈ (Composer.initial.registerAll calls).pushPorts.entries ↔
      port.address = address ∧ ∃ path, (path, .pushPort port) ∈ calls := by
  rw [mem_entries fills_pushPorts laidOut registers]
  constructor
  · rintro ⟨⟨path, registration⟩, isCall, isPort, isAddress⟩
    cases registration <;> cases isPort
    exact ⟨isAddress, path, isCall⟩
  · rintro ⟨isAddress, path, isCall⟩
    exact ⟨(path, .pushPort port), isCall, rfl, isAddress⟩

theorem mem_pullPorts {address : Arch.Word} {port : Port} :
    (address, port) ∈ (Composer.initial.registerAll calls).pullPorts.entries ↔
      port.address = address ∧ ∃ path, (path, .pullPort port) ∈ calls := by
  rw [mem_entries fills_pullPorts laidOut registers]
  constructor
  · rintro ⟨⟨path, registration⟩, isCall, isPort, isAddress⟩
    cases registration <;> cases isPort
    exact ⟨isAddress, path, isCall⟩
  · rintro ⟨isAddress, path, isCall⟩
    exact ⟨(path, .pullPort port), isCall, rfl, isAddress⟩

theorem instance_in_parent {address : Arch.Word} {inst parent : Instance}
    (isEntry : (address, inst) ∈ (Composer.initial.registerAll calls).instances.entries)
    (isParent : inst.parent = some parent) :
    (parent.address, parent) ∈ (Composer.initial.registerAll calls).instances.entries ∧
      parent.address < address ∧
      bytesAt address.toNat (bytes inst.type) ⊆ bytesAt parent.address.toNat (bytes parent.type) := by
  obtain ⟨isAddress, path, isCall⟩ := (mem_instances registers laidOut).mp isEntry
  obtain ⟨above, _, _, _, isAbove⟩ := exists_parent registers isCall isParent
  rw [← isAddress]
  refine ⟨(mem_instances registers laidOut).mpr ⟨rfl, above, isAbove⟩, ?_, ?_⟩
  · exact lt_of_parent registers laidOut isCall isParent
  · exact bytesAt_subset_parent registers laidOut isCall (descend_of_instance registers isCall)
      (isIn_of_instance registers isCall) isParent

theorem port_in_owner {table : Table} {path : List Selector} {registration : Registration}
    {size : Nat} (isCall : (path, registration) ∈ calls) (isTable : registration.table = table)
    (notInstances : table ≠ .instances)
    (isSize : ∀ whole : Whole, whole.IsIn table → whole.size = size) :
    ∃ owner, registration.parent = some owner ∧
      (owner.address, owner) ∈ (Composer.initial.registerAll calls).instances.entries ∧
      bytesAt registration.address.toNat size ⊆
        bytesAt owner.address.toNat (bytes owner.type) := by
  obtain ⟨offset, part, isPart, isIn, _, _⟩ := registers.describes _ isCall
  rcases parent_cases registers isCall with
    ⟨_, _, isInstances, _⟩ | ⟨above, _, _, owner, _, isAbove, isOwner⟩
  · exact absurd (isTable.symm.trans isInstances) notInstances
  · refine ⟨owner, isOwner, (mem_instances registers laidOut).mpr ⟨rfl, above, isAbove⟩, ?_⟩
    have isInside := bytesAt_subset_parent registers laidOut isCall isPart isIn isOwner
    rw [isSize part (isTable ▸ isIn)] at isInside
    exact isInside

end Tables

theorem size_of_isIn_pushPorts (whole : Whole) (isIn : whole.IsIn .pushPorts) : whole.size = 8 := by
  cases whole with
  | program declarations => exact isIn.elim
  | stored type =>
      rw [Whole.size, ← bytes_underlyingType]
      rcases tableOf_eq_ports isIn (by rintro ⟨⟩) with ⟨_, isPort⟩ | ⟨_, isPort⟩
      · rw [isPort]
        rfl
      · rw [Whole.IsIn, tableOf, isPort] at isIn
        cases isIn

theorem size_of_isIn_pullPorts (whole : Whole) (isIn : whole.IsIn .pullPorts) :
    whole.size = 16 := by
  cases whole with
  | program declarations => exact isIn.elim
  | stored type =>
      rw [Whole.size, ← bytes_underlyingType]
      rcases tableOf_eq_ports isIn (by rintro ⟨⟩) with ⟨_, isPort⟩ | ⟨_, isPort⟩
      · rw [Whole.IsIn, tableOf, isPort] at isIn
        cases isIn
      · rw [isPort]
        rfl

theorem enumerated_of_registers {declarations : List InstanceDecl} {composer : Composer}
    {calls : List Call} (isComposer : composer = Composer.initial.registerAll calls)
    (registers : Registers (fun _ => True) (.program declarations) none 0 0 composer.created calls)
    (laidOut : (Whole.program declarations).IsLaidOut) : Enumerated declarations composer := by
  constructor
  · exact ⟨calls, isComposer, registers⟩
  · exact isComposer ▸ bijOn_keys fills_instances laidOut registers
  · exact isComposer ▸ bijOn_keys fills_pushPorts laidOut registers
  · exact isComposer ▸ bijOn_keys fills_pullPorts laidOut registers
  · intro address inst parent isEntry isParent
    rw [isComposer] at isEntry ⊢
    obtain ⟨isMember, _, isInside⟩ := instance_in_parent registers laidOut isEntry isParent
    exact ⟨isMember, isInside⟩
  · intro address port isEntry
    rw [isComposer] at isEntry ⊢
    obtain ⟨isAddress, path, isCall⟩ := (mem_pushPorts registers laidOut).mp isEntry
    rw [← isAddress]
    exact port_in_owner registers laidOut isCall rfl (by rintro ⟨⟩) size_of_isIn_pushPorts
  · intro address port isEntry
    rw [isComposer] at isEntry ⊢
    obtain ⟨isAddress, path, isCall⟩ := (mem_pullPorts registers laidOut).mp isEntry
    rw [← isAddress]
    exact port_in_owner registers laidOut isCall rfl (by rintro ⟨⟩) size_of_isIn_pullPorts
  · intro front address inst back parent isSplit isParent
    have isEntry : (address, inst) ∈ composer.instances.entries :=
      isSplit ▸ List.mem_append_right _ List.mem_cons_self
    have isMember := isEntry
    rw [isComposer] at isMember
    obtain ⟨isBefore, less, _⟩ := instance_in_parent registers laidOut isMember isParent
    rw [← isComposer] at isBefore
    exact OrderedMap.mem_front isSplit isBefore less

end Rcgo.Composition
