import Rcgo.Composition.InstanceAddresses

/-!
# The memory of the instances and ports

Declared instances get blocks from `malloc`, all others lie in the memory of their
parents.  The generated code, which selects fields and elements, finds them there.
-/

namespace Rcgo.Composition

open Code Foundation

/-- `malloc` gives each of the instances a block that lies apart from the others. -/
structure GivesBlocks (malloc : Instance → Arch.Word) (instances : List (Option Instance)) :
    Prop where
  inside : ∀ inst, some inst ∈ instances → (malloc inst).toNat + bytes inst.type ≤ 2 ^ 64
  apart : ∀ inst other, some inst ∈ instances → some other ∈ instances → inst.id ≠ other.id →
    Disjoint (bytesAt (malloc inst).toNat (bytes inst.type))
      (bytesAt (malloc other).toNat (bytes other.type))

/-- The address that the generated code computes for a part, from that of the instance of
its declaration. -/
def generatedAddress (declarations : List InstanceDecl) (enumeration : Enumeration)
    (component : Nat → Arch.Word) : List Selector → Option Arch.Word
  | .declared i :: rest => do
      let declaration ← declarations[i]?
      let inst ← enumeration.symbolInstances[i]?
      let inst ← inst
      selectAddress declaration.type rest (component inst.id)
  | _ => none

/-- Every part is in memory where the generated code takes it to be. -/
structure Allocated (declarations : List InstanceDecl) (malloc : Instance → Arch.Word)
    (enumeration : Enumeration) : Prop where
  declared : ∀ inst, some inst ∈ enumeration.symbolInstances →
    allocateInstances malloc enumeration.composer inst.id = malloc inst
  instances : ∀ path ∈ sites declarations .instances, ∃ inst,
    (addressOf declarations path, inst) ∈ enumeration.composer.instances.entries ∧
      generatedAddress declarations enumeration
        (allocateInstances malloc enumeration.composer) path =
          some (allocateInstances malloc enumeration.composer inst.id)
  pushPorts : ∀ path ∈ sites declarations .pushPorts, ∃ port address,
    (addressOf declarations path, port) ∈ enumeration.composer.pushPorts.entries ∧
      port.place (allocateInstances malloc enumeration.composer) = some address ∧
      generatedAddress declarations enumeration
        (allocateInstances malloc enumeration.composer) path = some address
  pullPorts : ∀ path ∈ sites declarations .pullPorts, ∃ port address,
    (addressOf declarations path, port) ∈ enumeration.composer.pullPorts.entries ∧
      port.place (allocateInstances malloc enumeration.composer) = some address ∧
      generatedAddress declarations enumeration
        (allocateInstances malloc enumeration.composer) path = some address

/-! ## The loop -/

section Loop

variable {malloc : Instance → Arch.Word}

theorem foldl_allocateInstance_of_ne {id : Nat} (entries : List (Arch.Word × Instance))
    (component : Nat → Arch.Word) (areOthers : ∀ entry ∈ entries, entry.2.id ≠ id) :
    entries.foldl (fun component entry => allocateInstance malloc component entry.2) component id =
      component id := by
  induction entries generalizing component with
  | nil => rfl
  | cons entry rest inductionHypothesis =>
      have isOther := areOthers entry List.mem_cons_self
      rw [List.foldl_cons, inductionHypothesis _ fun other isRest =>
        areOthers other (List.mem_cons_of_mem _ isRest), allocateInstance,
        Function.update_of_ne isOther.symm]

/-- Where parents come first, each instance lies in the memory of its parent in the end. -/
theorem allocateInstances_eq {composer : Composer}
    (numbers : ∀ entry ∈ composer.instances.entries, ∀ other ∈ composer.instances.entries,
      entry.2.id = other.2.id → entry = other)
    (parentsFirst : ∀ front address inst back parent,
      composer.instances.entries = front ++ (address, inst) :: back → inst.parent = some parent →
      (parent.address, parent) ∈ front)
    {address : Arch.Word} {inst : Instance} (isEntry : (address, inst) ∈ composer.instances.entries) :
    allocateInstances malloc composer inst.id =
      match inst.parent with
      | none => malloc inst
      | some parent => allocateInstances malloc composer parent.id + inst.offset := by
  obtain ⟨front, back, isSplit⟩ := List.append_of_mem isEntry
  have sorted := composer.instances.sorted
  rw [isSplit, List.pairwise_append, List.pairwise_cons] at sorted
  obtain ⟨_, ⟨isBelowBack, _⟩, isBelowRest⟩ := sorted
  let between := front.foldl (fun component entry => allocateInstance malloc component entry.2)
    fun _ => 0
  have runs : allocateInstances malloc composer = back.foldl
      (fun component entry => allocateInstance malloc component entry.2)
      (allocateInstance malloc between inst) := by
    rw [allocateInstances, isSplit, List.foldl_append, List.foldl_cons]
  have keeps : ∀ entry ∈ composer.instances.entries, (∀ other ∈ back, entry.1 < other.1) →
      allocateInstances malloc composer entry.2.id =
        allocateInstance malloc between inst entry.2.id := by
    intro entry isMember isBelow
    rw [runs]
    refine foldl_allocateInstance_of_ne back _ fun other isBack same => ?_
    have isOther : other ∈ composer.instances.entries :=
      isSplit ▸ List.mem_append_right _ (List.mem_cons_of_mem _ isBack)
    have less := isBelow other isBack
    rw [numbers other isOther entry isMember same] at less
    exact Std.lt_irrefl less
  rw [keeps (address, inst) isEntry isBelowBack, allocateInstance, Function.update_self]
  cases isParent : inst.parent with
  | none => rfl
  | some parent =>
      have isBefore := parentsFirst front address inst back parent isSplit isParent
      have isMember : (parent.address, parent) ∈ composer.instances.entries :=
        isSplit ▸ List.mem_append_left _ isBefore
      have isBelow := isBelowRest _ isBefore
      have different : parent.id ≠ inst.id := by
        intro same
        have less := isBelow _ List.mem_cons_self
        rw [numbers _ isMember _ isEntry same] at less
        exact Std.lt_irrefl less
      dsimp only
      rw [keeps _ isMember fun other isBack => isBelow other (List.mem_cons_of_mem _ isBack),
        allocateInstance, Function.update_of_ne different]

end Loop

/-! ## The generated code -/

theorem selectAddress_eq {type : DataType} {rest : List Selector} {inner : Arch.Word} {part : Whole}
    (isPart : descend parts (.stored type) rest = some (inner, part)) (pointer : Arch.Word) :
    selectAddress type rest pointer = some (pointer + inner) := by
  induction rest generalizing type inner pointer with
  | nil =>
      cases isPart
      exact congrArg some (BitVec.add_zero pointer).symm
  | cons key rest inductionHypothesis =>
      obtain ⟨offset, between, below, isBetween, isBelow, isSum⟩ := exists_of_descend_cons isPart
      rw [isSum, ← BitVec.add_assoc]
      cases isPart_of_parts isBetween with
      | field isComponent isField isOffset =>
          simp [selectAddress, isComponent, isField, isOffset, inductionHypothesis isBelow]
      | element isArray isElement isUnit =>
          simp [selectAddress, isArray, isElement, isUnit, inductionHypothesis isBelow]

/-! ## Places in memory -/

section Places

variable {declarations : List InstanceDecl} {before after : Nat} {calls : List Call}
  {component : Nat → Arch.Word} {i : Nat} {top : Instance}

/-- The memory of each instance is that of its parent, moved by its offset. -/
def IsPlaced (component : Nat → Arch.Word) (calls : List Call) : Prop :=
  ∀ path inst parent, (path, .component inst) ∈ calls → inst.parent = some parent →
    component inst.id = component parent.id + inst.offset

variable (registers : Registers (fun _ => True) (.program declarations) none 0 before after calls)
include registers

theorem not_mem_root (inst : Instance) : ([], .component inst) ∉ calls := by
  intro isCall
  have isRoot := descend_of_instance registers isCall
  cases (Prod.mk.inj (Option.some.inj isRoot)).2

theorem exists_parent_of_declared {rest : List Selector} {registration : Registration}
    {parent : Instance} (isCall : (.declared i :: rest, registration) ∈ calls)
    (isParent : registration.parent = some parent) :
    ∃ above key below, rest = above ++ key :: below ∧
      (.declared i :: above, .component parent) ∈ calls := by
  obtain ⟨above, key, below, isPath, isAbove⟩ := exists_parent registers isCall isParent
  cases above with
  | nil => exact absurd isAbove (not_mem_root registers parent)
  | cons first above =>
      cases isPath
      exact ⟨above, key, below, rfl, isAbove⟩

variable (isTop : ([.declared i], .component top) ∈ calls)
include isTop

theorem parent_of_declared : top.parent = none := by
  cases isParent : top.parent with
  | none => rfl
  | some parent =>
      obtain ⟨above, key, rest, isPath, isAbove⟩ := exists_parent registers isTop isParent
      cases above with
      | nil => exact absurd isAbove (not_mem_root registers parent)
      | cons first above => simp at isPath

theorem address_eq_add {rest : List Selector} {registration : Registration} {inner : Arch.Word}
    {part : Whole} (isCall : (.declared i :: rest, registration) ∈ calls)
    (isPart : descend parts (.stored top.type) rest = some (inner, part)) :
    registration.address = top.address + inner := by
  have isLast := descend_append (descend_of_instance registers isTop) isPart
  rw [List.singleton_append] at isLast
  have isAddress := (registers.describes _ isCall).address_eq
  rw [addressOf, isLast] at isAddress
  exact isAddress

theorem moved_eq_add {above below : List Selector} {key : Selector} {registration : Registration}
    {parent : Instance} {inner : Arch.Word} {part : Whole}
    (isCall : (.declared i :: (above ++ key :: below), registration) ∈ calls)
    (isAbove : (.declared i :: above, .component parent) ∈ calls)
    (isPart : descend parts (.stored top.type) (above ++ key :: below) = some (inner, part))
    (isPlaced : ∀ offset outer, descend parts (.stored top.type) above = some (offset, outer) →
      component parent.id = component top.id + offset) :
    component parent.id + (registration.address - parent.address) = component top.id + inner := by
  have isAddress := address_eq_add registers isTop isCall isPart
  obtain ⟨offset, outer, _, isOuter, _, _⟩ := exists_of_descend_append isPart
  have isParentAddress : parent.address = top.address + offset :=
    address_eq_add registers isTop isAbove isOuter
  rw [isPlaced offset outer isOuter, isAddress, isParentAddress]
  grind

theorem component_eq_add (isPlaced : IsPlaced component calls) (n : Nat) :
    ∀ (rest : List Selector) (inst : Instance) (inner : Arch.Word) (part : Whole),
    rest.length = n → (.declared i :: rest, .component inst) ∈ calls →
    descend parts (.stored top.type) rest = some (inner, part) →
    component inst.id = component top.id + inner := by
  induction n using Nat.strong_induction_on with
  | _ n inductionHypothesis =>
      intro rest inst inner part isLength isCall isPart
      cases isParent : inst.parent with
      | none =>
          rcases parent_cases registers isCall with
            ⟨_, isPath, _, _⟩ | ⟨_, _, _, _, _, _, isSome⟩
          · cases isPath
            cases isPart
            cases registers.eq_of_path isCall isTop
            exact (BitVec.add_zero _).symm
          · have isOther : inst.parent = some _ := isSome
            rw [isParent] at isOther
            cases isOther
      | some parent =>
          obtain ⟨above, key, below, isRest, isAbove⟩ :=
            exists_parent_of_declared registers isCall isParent
          have shorter : above.length < n := by
            rw [← isLength, isRest, List.length_append, List.length_cons]
            omega
          rw [isRest] at isCall isPart
          rw [isPlaced _ inst parent isCall isParent, Instance.offset, isParent]
          exact moved_eq_add registers isTop isCall isAbove isPart fun offset outer isOuter =>
            inductionHypothesis above.length shorter above parent offset outer rfl isAbove isOuter

theorem place_eq_add (isPlaced : IsPlaced component calls) {rest : List Selector}
    {registration : Registration} {owner : Instance} {inner : Arch.Word} {part : Whole}
    (isCall : (.declared i :: rest, registration) ∈ calls)
    (isOwner : registration.parent = some owner)
    (isPart : descend parts (.stored top.type) rest = some (inner, part)) :
    component owner.id + (registration.address - owner.address) = component top.id + inner := by
  obtain ⟨above, key, below, isRest, isAbove⟩ :=
    exists_parent_of_declared registers isCall isOwner
  rw [isRest] at isCall isPart
  exact moved_eq_add registers isTop isCall isAbove isPart fun offset outer isOuter =>
    component_eq_add registers isTop isPlaced above.length above owner offset outer rfl isAbove isOuter

end Places

/-! ## The allocation -/

section Allocation

variable {declarations : List InstanceDecl} {enumeration : Enumeration} {calls : List Call}
  {malloc : Instance → Arch.Word}

theorem Progress.exists_top (progress : Progress declarations declarations.length enumeration calls)
    {i : Nat} {declaration : InstanceDecl} (isDeclaration : declarations[i]? = some declaration) :
    ∃ top, enumeration.symbolInstances[i]? = some (some top) ∧
      ([.declared i], .component top) ∈ calls ∧ top.type = declaration.type := by
  have inside := (List.getElem?_eq_some_iff.mp isDeclaration).1
  obtain ⟨top, isSymbol, isTop⟩ := progress.symbols i inside
  refine ⟨top, isSymbol, isTop, ?_⟩
  obtain ⟨_, _, _, isFirst, isRest, _⟩ :=
    exists_of_descend_cons (descend_of_instance progress.all isTop)
  cases isRest
  cases isPart_of_parts isFirst with
  | declared isDeclared =>
      obtain ⟨other, isOther, isType⟩ := exists_declaration isDeclared
      rw [isDeclaration, Option.some.injEq] at isOther
      rw [isOther]
      exact isType.symm

/-- Where `malloc` gives blocks, the declared instances fit into the address space. -/
theorem programBytes_le (progress : Progress declarations declarations.length enumeration calls)
    (gives : GivesBlocks malloc enumeration.symbolInstances) :
    programBytes declarations ≤ 2 ^ 64 := by
  let starts : Nat → Nat := fun i =>
    (enumeration.symbolInstances[i]?.join.map fun top => (malloc top).toNat).getD 0
  have exists_top : ∀ i (isItem : i < declarations.length), ∃ top,
      some top ∈ enumeration.symbolInstances ∧ ([.declared i], .component top) ∈ calls ∧
        starts i = (malloc top).toNat ∧ bytes declarations[i].type = bytes top.type := by
    intro i isItem
    obtain ⟨top, isSymbol, isTop, isType⟩ :=
      progress.exists_top (List.getElem?_eq_getElem isItem)
    refine ⟨top, List.mem_of_getElem? isSymbol, isTop, ?_, by rw [isType]⟩
    dsimp only [starts]
    rw [isSymbol]
    rfl
  refine @sum_le_of_apart _ starts _ ?_ ?_
  · intro i isItem
    rw [List.length_map] at isItem
    obtain ⟨top, isSymbol, _, isStart, isSize⟩ := exists_top i isItem
    rw [List.getElem_map, isStart, isSize]
    exact gives.inside top isSymbol
  · intro i j isItem isOther different
    rw [List.length_map] at isItem isOther
    obtain ⟨top, isSymbol, isTop, isStart, isSize⟩ := exists_top i isItem
    obtain ⟨other, isOtherSymbol, isOtherTop, isOtherStart, isOtherSize⟩ := exists_top j isOther
    rw [List.getElem_map, List.getElem_map, isStart, isSize, isOtherStart, isOtherSize]
    refine gives.apart top other isSymbol isOtherSymbol fun same => different ?_
    have isPath := progress.all.numbers _ _ top other isTop isOtherTop same
    exact Selector.declared.inj (List.cons.inj isPath).1

theorem component_of_call (laidOut : (Whole.program declarations).IsLaidOut)
    (progress : Progress declarations declarations.length enumeration calls)
    {path : List Selector} {inst : Instance} (isCall : (path, .component inst) ∈ calls) :
    allocateInstances malloc enumeration.composer inst.id =
      match inst.parent with
      | none => malloc inst
      | some parent => allocateInstances malloc enumeration.composer parent.id + inst.offset := by
  have enumerated := enumerated_of_registers progress.composer progress.all laidOut
  have isEntry : (inst.address, inst) ∈ enumeration.composer.instances.entries := by
    rw [progress.composer]
    exact (mem_instances progress.all laidOut).mpr ⟨rfl, path, isCall⟩
  refine allocateInstances_eq ?_ enumerated.parentsFirst isEntry
  intro entry isEntry other isOther same
  rw [progress.composer] at isEntry isOther
  obtain ⟨isAddress, path, isCall⟩ := (mem_instances progress.all laidOut).mp isEntry
  obtain ⟨isOtherAddress, otherPath, isOtherCall⟩ := (mem_instances progress.all laidOut).mp isOther
  have isPath := progress.all.numbers path otherPath entry.2 other.2 isCall isOtherCall same
  rw [isPath] at isCall
  have isSame := Registration.component.inj (progress.all.eq_of_path isCall isOtherCall)
  exact Prod.ext (by rw [← isAddress, ← isOtherAddress, isSame]) isSame

theorem isPlaced_of_progress (laidOut : (Whole.program declarations).IsLaidOut)
    (progress : Progress declarations declarations.length enumeration calls) :
    IsPlaced (allocateInstances malloc enumeration.composer) calls := by
  intro path inst parent isCall isParent
  rw [component_of_call laidOut progress isCall, isParent]

theorem exists_generatedAddress
    (progress : Progress declarations declarations.length enumeration calls)
    (component : Nat → Arch.Word) {table : Table} {path : List Selector}
    (isSite : path ∈ sites declarations table) :
    ∃ i rest top inner part, path = .declared i :: rest ∧ ([.declared i], .component top) ∈ calls ∧
      descend parts (.stored top.type) rest = some (inner, part) ∧
      generatedAddress declarations enumeration component path = some (component top.id + inner) := by
  obtain ⟨offset, part, isPart, isIn⟩ := isSite
  cases path with
  | nil =>
      cases isPart
      exact isIn.elim
  | cons key rest =>
      obtain ⟨_, _, inner, isFirst, isRest, _⟩ := exists_of_descend_cons isPart
      cases isPart_of_parts isFirst with
      | @declared _ i _ _ isDeclared =>
          obtain ⟨declaration, isDeclaration, isType⟩ := exists_declaration isDeclared
          obtain ⟨top, isSymbol, isTop, isTopType⟩ := progress.exists_top isDeclaration
          rw [← isType] at isRest
          refine ⟨i, rest, top, inner, part, rfl, isTop, isTopType ▸ isRest, ?_⟩
          simp [generatedAddress, isDeclaration, isSymbol, selectAddress_eq isRest]

theorem exists_port (malloc : Instance → Arch.Word)
    (laidOut : (Whole.program declarations).IsLaidOut)
    (progress : Progress declarations declarations.length enumeration calls) {table : Table}
    {path : List Selector} (isSite : path ∈ sites declarations table)
    (notInstances : table ≠ .instances) :
    ∃ registration owner address, (path, registration) ∈ calls ∧ registration.table = table ∧
      registration.address = addressOf declarations path ∧ registration.parent = some owner ∧
      allocateInstances malloc enumeration.composer owner.id +
        (registration.address - owner.address) = address ∧
      generatedAddress declarations enumeration
        (allocateInstances malloc enumeration.composer) path = some address := by
  obtain ⟨i, rest, top, inner, part, isPath, isTop, isPart, isGenerated⟩ :=
    exists_generatedAddress progress (allocateInstances malloc enumeration.composer) isSite
  obtain ⟨offset, last, isLast, isIn⟩ := isSite
  have isMember := progress.all.complete path offset last table trivial isLast isIn
  obtain ⟨⟨other, registration⟩, isCall, isFirst⟩ := List.mem_map.mp isMember
  cases isFirst
  have describes := progress.all.describes _ isCall
  have isTable : registration.table = table := by
    obtain ⟨_, whole, isWhole, isWholeIn, _, _⟩ := describes
    rw [isLast, Option.some.injEq, Prod.mk.injEq] at isWhole
    exact table_unique (isWhole.2 ▸ isWholeIn) isIn
  rcases parent_cases progress.all isCall with ⟨_, _, isInstances, _⟩ | ⟨_, _, _, owner, _, _, isOwner⟩
  · exact absurd (isTable.symm.trans isInstances) notInstances
  · refine ⟨registration, owner, _, isCall, isTable, describes.address_eq, isOwner, rfl, ?_⟩
    rw [isGenerated]
    have isOtherPath : other = .declared i :: rest := isPath
    rw [isOtherPath] at isCall
    rw [place_eq_add progress.all isTop (isPlaced_of_progress laidOut progress) isCall isOwner isPart]

/-- The loop puts everything where the generated code takes it to be. -/
theorem allocated_of_progress (laidOut : (Whole.program declarations).IsLaidOut)
    (progress : Progress declarations declarations.length enumeration calls) :
    Allocated declarations malloc enumeration := by
  constructor
  · intro inst isSymbol
    obtain ⟨i, inside, isInst⟩ := List.mem_iff_getElem.mp isSymbol
    obtain ⟨top, isTopSymbol, isTop⟩ := progress.symbols i (progress.length ▸ inside)
    rw [List.getElem?_eq_getElem inside, isInst, Option.some.injEq, Option.some.injEq] at isTopSymbol
    rw [isTopSymbol, component_of_call laidOut progress isTop, parent_of_declared progress.all isTop]
  · intro path isSite
    obtain ⟨i, rest, top, inner, part, isPath, isTop, isPart, isGenerated⟩ :=
      exists_generatedAddress progress (allocateInstances malloc enumeration.composer) isSite
    have enumerated := enumerated_of_registers progress.composer progress.all laidOut
    obtain ⟨inst, isEntry⟩ := enumerated.instances.mapsTo isSite
    refine ⟨inst, isEntry, ?_⟩
    rw [progress.composer] at isEntry
    obtain ⟨isAddress, other, isCall⟩ := (mem_instances progress.all laidOut).mp isEntry
    have describes := progress.all.describes _ isCall
    have isSame : other = path := by
      refine addressOf_injOn laidOut .instances describes.mem_sites isSite ?_
      rw [← isAddress]
      exact describes.address_eq.symm
    rw [isSame, isPath] at isCall
    rw [isGenerated, component_eq_add progress.all isTop (isPlaced_of_progress laidOut progress)
      rest.length rest inst inner part rfl isCall isPart]
  · intro path isSite
    obtain ⟨registration, owner, address, isCall, isTable, isAddress, isOwner, isPlace, isGenerated⟩ :=
      exists_port malloc laidOut progress isSite (by rintro ⟨⟩)
    cases registration <;> cases isTable
    next port =>
      refine ⟨port, address, ?_, ?_, isGenerated⟩
      · rw [progress.composer]
        exact (mem_pushPorts progress.all laidOut).mpr ⟨isAddress, path, isCall⟩
      · have isPortOwner : port.owner = some owner := isOwner
        rw [Port.place, isPortOwner, ← isPlace]
        rfl
  · intro path isSite
    obtain ⟨registration, owner, address, isCall, isTable, isAddress, isOwner, isPlace, isGenerated⟩ :=
      exists_port malloc laidOut progress isSite (by rintro ⟨⟩)
    cases registration <;> cases isTable
    next port =>
      refine ⟨port, address, ?_, ?_, isGenerated⟩
      · rw [progress.composer]
        exact (mem_pullPorts progress.all laidOut).mpr ⟨isAddress, path, isCall⟩
      · have isPortOwner : port.owner = some owner := isOwner
        rw [Port.place, isPortOwner, ← isPlace]
        rfl

theorem componentsNamed_of_progress
    (progress : Progress declarations declarations.length enumeration calls)
    {declaration : InstanceDecl} (isDeclared : declaration ∈ declarations) :
    ComponentsNamed (.stored declaration.type) := by
  obtain ⟨i, isDeclaration⟩ := List.mem_iff_getElem?.mp isDeclared
  obtain ⟨top, _, isTop, isType⟩ := progress.exists_top isDeclaration
  obtain ⟨_, _, _, isFirst, isRest, _⟩ :=
    exists_of_descend_cons (descend_of_instance progress.all isTop)
  cases isRest
  rw [← isType]
  exact (componentsNamed_of_registers progress.all).of_part isFirst

end Allocation

/-- The instances are enumerated and allocated as they must be exactly if every component that
a declaration contains has a type with a name. -/
theorem enumerated_and_allocated_iff (malloc : Instance → Arch.Word)
    (declarations : List InstanceDecl)
    (laidOut : ∀ declaration ∈ declarations,
      declaration.type.IsGiven ∧ declaration.type.Everywhere Arch.LaidOut)
    (gives : ∀ enumeration, enumerateInstances declarations = some enumeration →
      GivesBlocks malloc enumeration.symbolInstances) :
    (∃ enumeration, enumerateInstances declarations = some enumeration ∧
      Enumerated declarations enumeration.composer ∧ Allocated declarations malloc enumeration) ↔
    ∀ declaration ∈ declarations, ComponentsNamed (.stored declaration.type) := by
  constructor
  · rintro ⟨enumeration, runs, _, _⟩ declaration isDeclared
    obtain ⟨calls, progress⟩ := exists_progress runs
    exact componentsNamed_of_progress progress isDeclared
  · intro areNamed
    obtain ⟨enumeration, runs⟩ := exists_enumeration laidOut areNamed
    obtain ⟨calls, progress⟩ := exists_progress runs
    have isLaidOut : (Whole.program declarations).IsLaidOut :=
      ⟨programBytes_le progress (gives enumeration runs), laidOut⟩
    exact ⟨enumeration, runs, enumerated_of_registers progress.composer progress.all isLaidOut,
      allocated_of_progress isLaidOut progress⟩

/-- `type Sensor component { seen push (); };` -/
def sensor : DataType :=
  .component (.cons runtimeField (.cons (.callable .pushPort 0) .nil))

/-- `type Station component { x int; sensors [2]Sensor; source pull () int; };` -/
def station : DataType :=
  .component (.cons runtimeField (.cons (.basic .int) (.cons (.array 2 (.named 0 sensor))
    (.cons (.callable .pullPort 0) .nil))))

/-- `instance station Station Init (); instance sensor Sensor Init ();` -/
def stationAndSensor : List InstanceDecl :=
  [⟨1, station, ⟨_, rfl⟩, 0, 0⟩, ⟨0, sensor, ⟨_, rfl⟩, 1, 1⟩]

def pageOf (inst : Instance) : Arch.Word :=
  BitVec.ofNat 64 (4096 * (inst.id + 1))

theorem isLaidOut_stationAndSensor : ∀ declaration ∈ stationAndSensor,
    declaration.type.IsGiven ∧ declaration.type.Everywhere Arch.LaidOut := by
  have sensorGiven : sensor.IsGiven := by
    simp [sensor, runtimeField, DataType.IsGiven, Fields.AreGiven, Fields.toList]
  have stationGiven : station.IsGiven := by
    simp [station, sensor, runtimeField, DataType.IsGiven, Fields.AreGiven, Fields.toList,
      Kind.predeclared]
  have sensorFits : sensor.Everywhere Arch.Fits := by
    refine ⟨?_, ?_, ?_, trivial⟩
    all_goals exact Arch.Fits.of_size rfl (by decide) (by simp [runtimeField]) (by simp [runtimeField])
  have stationFits : station.Everywhere Arch.Fits := by
    refine ⟨?_, ?_, ?_, ⟨?_, sensorFits⟩, ?_, trivial⟩
    all_goals exact Arch.Fits.of_size rfl (by decide) (by simp [runtimeField]) (by simp [runtimeField])
  simp only [stationAndSensor, List.forall_mem_cons]
  exact ⟨⟨stationGiven, (station.laidOut_iff_fits stationGiven).mpr stationFits⟩,
    ⟨sensorGiven, (sensor.laidOut_iff_fits sensorGiven).mpr sensorFits⟩,
    fun _ isNone => absurd isNone List.not_mem_nil⟩

theorem symbols_stationAndSensor : (enumerateInstances stationAndSensor).map
    (fun enumeration => enumeration.symbolInstances.map
      (Option.map fun inst => (inst.id, bytes inst.type))) = some [some (0, 64), some (3, 16)] := by
  decide

theorem givesBlocks_stationAndSensor {enumeration : Enumeration}
    (runs : enumerateInstances stationAndSensor = some enumeration) :
    GivesBlocks pageOf enumeration.symbolInstances := by
  have symbols := symbols_stationAndSensor
  rw [runs, Option.map_some, Option.some.injEq] at symbols
  have isFirstOrSecond : ∀ inst, some inst ∈ enumeration.symbolInstances →
      pageOf inst = 4096#64 ∧ inst.id = 0 ∧ bytes inst.type = 64 ∨
        pageOf inst = 16384#64 ∧ inst.id = 3 ∧ bytes inst.type = 16 := by
    intro inst isSymbol
    have isMapped := List.mem_map_of_mem (f := Option.map fun inst : Instance =>
      (inst.id, bytes inst.type)) isSymbol
    rw [symbols] at isMapped
    simp only [Option.map_some, List.mem_cons, Option.some.injEq, Prod.mk.injEq,
      List.not_mem_nil, or_false] at isMapped
    rcases isMapped with ⟨isId, isSize⟩ | ⟨isId, isSize⟩
    · exact Or.inl ⟨by rw [pageOf, isId], isId, isSize⟩
    · exact Or.inr ⟨by rw [pageOf, isId], isId, isSize⟩
  constructor
  · intro inst isSymbol
    rcases isFirstOrSecond inst isSymbol with ⟨isPage, _, isSize⟩ | ⟨isPage, _, isSize⟩ <;>
      rw [isPage, isSize] <;> decide
  · intro inst other isSymbol isOther different
    rcases isFirstOrSecond inst isSymbol with ⟨isPage, isId, isSize⟩ | ⟨isPage, isId, isSize⟩ <;>
      rcases isFirstOrSecond other isOther with
        ⟨isOtherPage, isOtherId, isOtherSize⟩ | ⟨isOtherPage, isOtherId, isOtherSize⟩
    · exact absurd (isId.trans isOtherId.symm) different
    · rw [isPage, isSize, isOtherPage, isOtherSize]
      exact disjoint_bytesAt (by decide)
    · rw [isPage, isSize, isOtherPage, isOtherSize]
      exact (disjoint_bytesAt (by decide)).symm
    · exact absurd (isId.trans isOtherId.symm) different

/-- A station with two sensors, and a sensor of its own. -/
theorem enumerated_and_allocated_stationAndSensor :
    ∃ enumeration, enumerateInstances stationAndSensor = some enumeration ∧
      Enumerated stationAndSensor enumeration.composer ∧
      Allocated stationAndSensor pageOf enumeration := by
  refine (enumerated_and_allocated_iff pageOf stationAndSensor isLaidOut_stationAndSensor
    fun _ => givesBlocks_stationAndSensor).mpr fun declaration isDeclared => ?_
  cases runs : enumerateInstances stationAndSensor with
  | none =>
      have symbols := symbols_stationAndSensor
      rw [runs] at symbols
      cases symbols
  | some enumeration =>
      obtain ⟨_, progress⟩ := exists_progress runs
      exact componentsNamed_of_progress progress isDeclared

/-- `component { sub component { x int; }; }`, of which the inner component has no name -/
def aroundAnonymous : DataType :=
  .component (.cons runtimeField (.cons
    (.component (.cons runtimeField (.cons (.basic .int) .nil))) .nil))

/-- The grammar has a component without a name as a field, for which the assertion fails. -/
theorem exists_not_enumerated : ∃ declarations : List InstanceDecl,
    (∀ declaration ∈ declarations,
      declaration.type.IsGiven ∧ declaration.type.Everywhere Arch.LaidOut) ∧
    enumerateInstances declarations = none := by
  have given : aroundAnonymous.IsGiven := by
    simp [aroundAnonymous, runtimeField, DataType.IsGiven, Fields.AreGiven, Fields.toList,
      Kind.predeclared]
  have fits : aroundAnonymous.Everywhere Arch.Fits := by
    refine ⟨?_, ?_, ⟨?_, ?_, ?_, trivial⟩, trivial⟩
    all_goals exact Arch.Fits.of_size rfl (by decide) (by simp [runtimeField]) (by simp [runtimeField])
  refine ⟨[⟨0, aroundAnonymous, ⟨_, rfl⟩, 0, 0⟩], fun declaration isDeclared => ?_, rfl⟩
  rw [List.mem_singleton.mp isDeclared]
  exact ⟨given, (aroundAnonymous.laidOut_iff_fits given).mpr fits⟩

end Rcgo.Composition
