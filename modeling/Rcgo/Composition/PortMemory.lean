import Rcgo.Code.MemoryWords
import Rcgo.Composition.Bindings
import Rcgo.Foundation.ObjectList

/-!
# The bindings in memory

`create_bindings` of `runtime.cpp` makes a list of reactions in the memory of each push port
and enters a getter in that of each pull port.  The loop of `push_port_call` goes through the
list.
-/

namespace Rcgo.Composition

open Code Foundation

/-! ## The places of the ports -/

section Places

variable {declarations : List InstanceDecl} {enumeration : Enumeration} {calls : List Call}
  {malloc : Instance → Arch.Word} {path other : List Selector} {address otherAddress : Arch.Word}
  {size otherSize : Nat}

/-- A part without parts, which takes some bytes of the block of a declared instance. -/
def IsPlacedAt (malloc : Instance → Arch.Word) (calls : List Call) (path : List Selector)
    (address : Arch.Word) (size : Nat) : Prop :=
  ∃ i rest top inner part, path = .declared i :: rest ∧ ([.declared i], .component top) ∈ calls ∧
    descend parts (.stored top.type) rest = some (inner, part) ∧ part.size = size ∧
    (∀ key, parts part key = none) ∧ address = malloc top + inner

theorem parts_of_isIn {table : Table} (notInstances : table ≠ .instances) {whole : Whole}
    (isIn : whole.IsIn table) (key : Selector) : parts whole key = none := by
  cases whole with
  | program declarations => exact isIn.elim
  | stored type =>
      rcases tableOf_eq_ports isIn notInstances with ⟨_, isPort⟩ | ⟨_, isPort⟩
      · apply parts_eq_none <;> simp [isPort]
      · apply parts_eq_none <;> simp [isPort]

variable (progress : Progress declarations declarations.length enumeration calls)
include progress

theorem mem_symbolInstances {i : Nat} {top : Instance}
    (isTop : ([.declared i], .component top) ∈ calls) : some top ∈ enumeration.symbolInstances := by
  rcases exists_of_descend_cons (descend_of_instance progress.all isTop) with
    ⟨_, _, _, isFirst, _, _⟩
  cases isPart_of_parts isFirst with
  | declared isDeclared =>
      rcases exists_declaration isDeclared with ⟨declaration, isDeclaration, _⟩
      rcases progress.symbols i (List.getElem?_eq_some_iff.mp isDeclaration).1 with
        ⟨found, isSymbol, isFound⟩
      have isSame := Registration.component.inj (progress.all.eq_of_path isTop isFound)
      rw [isSame]
      exact List.mem_of_getElem? isSymbol

variable (laidOut : (Whole.program declarations).IsLaidOut)
include laidOut

theorem isPlacedAt_of_site {table : Table} (notInstances : table ≠ .instances)
    (isSize : ∀ whole : Whole, whole.IsIn table → whole.size = size)
    (isSite : path ∈ sites declarations table)
    (isGenerated : generatedAddress declarations enumeration
      (allocateInstances malloc enumeration.composer) path = some address) :
    IsPlacedAt malloc calls path address size := by
  rcases exists_generatedAddress progress (allocateInstances malloc enumeration.composer) isSite with
    ⟨i, rest, top, inner, part, isPath, isTop, isPart, isSum⟩
  rcases isSite with ⟨offset, last, isLast, isIn⟩
  have isRest := descend_append (descend_of_instance progress.all isTop) isPart
  rw [List.singleton_append, ← isPath, isLast, Option.some.injEq, Prod.mk.injEq] at isRest
  rw [isRest.2] at isIn
  refine ⟨i, rest, top, inner, part, isPath, isTop, isPart, isSize part isIn,
    parts_of_isIn notInstances isIn, ?_⟩
  have allocated : Allocated declarations malloc enumeration := allocated_of_progress laidOut progress
  rw [isGenerated, Option.some.injEq] at isSum
  rw [isSum, allocated.declared top (mem_symbolInstances progress isTop)]

variable (gives : GivesBlocks malloc enumeration.symbolInstances) (positive : 0 < size)
include gives positive

theorem IsPlacedAt.toNat_eq {i : Nat} {rest : List Selector} {top : Instance} {inner : Arch.Word}
    {part : Whole} (isTop : ([.declared i], .component top) ∈ calls)
    (isPart : descend parts (.stored top.type) rest = some (inner, part))
    (isSize : part.size = size) :
    (malloc top + inner).toNat = (malloc top).toNat + inner.toNat ∧
      inner.toNat + size ≤ bytes top.type := by
  have isStored := isLaidOut_of_descend laidOut (descend_of_instance progress.all isTop)
  have isInside := (nests_of_isLaidOut isStored).inside isPart (isSize ▸ positive)
  rw [isSize] at isInside
  have fits := gives.inside top (mem_symbolInstances progress isTop)
  have isBytes : (Whole.stored top.type).size = bytes top.type := rfl
  refine ⟨?_, isInside⟩
  rw [BitVec.toNat_add, Nat.mod_eq_of_lt (by omega)]

theorem IsPlacedAt.exists_block (isPlaced : IsPlacedAt malloc calls path address size) :
    ∃ i top, ([.declared i], .component top) ∈ calls ∧
      bytesAt address.toNat size ⊆ bytesAt (malloc top).toNat (bytes top.type) := by
  rcases isPlaced with ⟨i, rest, top, inner, part, isPath, isTop, isPart, isSize, _, rfl⟩
  rcases IsPlacedAt.toNat_eq progress laidOut gives positive isTop isPart isSize with
    ⟨isSum, isInside⟩
  refine ⟨i, top, isTop, ?_⟩
  rw [isSum]
  exact Set.Ico_subset_Ico (Nat.le_add_right _ _) (by omega)

theorem IsPlacedAt.disjoint (isPlaced : IsPlacedAt malloc calls path address size)
    (isOther : IsPlacedAt malloc calls other otherAddress otherSize)
    (otherPositive : 0 < otherSize) (different : path ≠ other) :
    Disjoint (bytesAt address.toNat size) (bytesAt otherAddress.toNat otherSize) := by
  rcases isPlaced with ⟨i, rest, top, inner, part, rfl, isTop, isPart, isSize, hasNoParts, rfl⟩
  rcases isOther with
    ⟨j, otherRest, bottom, otherInner, otherPart, rfl, isBottom, isOtherPart, isOtherSize,
      hasNoOtherParts, rfl⟩
  rcases IsPlacedAt.toNat_eq progress laidOut gives positive isTop isPart isSize with
    ⟨isSum, isInside⟩
  rcases IsPlacedAt.toNat_eq progress laidOut gives otherPositive isBottom isOtherPart
    isOtherSize with ⟨isOtherSum, isOtherInside⟩
  rw [isSum, isOtherSum]
  by_cases same : i = j
  · rw [← same] at isBottom different
    have isSame := Registration.component.inj (progress.all.eq_of_path isTop isBottom)
    rw [← isSame] at isOtherPart ⊢
    have isStored := isLaidOut_of_descend laidOut (descend_of_instance progress.all isTop)
    apply disjoint_bytesAt_add
    rw [← isSize, ← isOtherSize]
    apply (nests_of_isLaidOut isStored).apart isPart isOtherPart (isSize ▸ positive)
      (isOtherSize ▸ otherPositive)
    · exact not_prefix_of_leaf isPart hasNoParts isOtherPart fun same => different (by rw [same])
    · exact not_prefix_of_leaf isOtherPart hasNoOtherParts isPart fun same =>
        different (by rw [same])
  · have numbers : top.id ≠ bottom.id := by
      intro sameNumber
      have isPath := progress.all.numbers _ _ top bottom isTop isBottom sameNumber
      exact same (Selector.declared.inj (List.cons.inj isPath).1)
    apply (gives.apart top bottom (mem_symbolInstances progress isTop)
      (mem_symbolInstances progress isBottom) numbers).mono
    · exact Set.Ico_subset_Ico (Nat.le_add_right _ _) (by omega)
    · exact Set.Ico_subset_Ico (Nat.le_add_right _ _) (by omega)

end Places

/-! ## Lists of reactions in memory -/

/-- `runtime::PushPort`. -/
structure PushPort where
  component : Arch.Word
  reaction : Nat
  parameter : Int
  next : Nat

/-- The reaction that is called, with its receiver and its parameter. -/
def PushPort.activation (port : PushPort) : Arch.Word × Nat × Int :=
  (port.component, port.reaction, port.parameter)

/-- The memory of the instances, and the push ports that `new` has made, by their addresses. -/
structure PortStore where
  memory : Memory
  pushPorts : Nat → Option PushPort
  created : Nat

/-- The size of a pointer, and of the field of a push port. -/
def pointerSize : Nat := 8

/-- The objects that `new` makes are at addresses of their own, as many as are asked for. -/
structure GivesObjects (new : Nat → Nat) (count : Nat) : Prop where
  notNull : ∀ n < count, new n ≠ 0
  small : ∀ n < count, new n < 256 ^ pointerSize
  different : ∀ n < count, ∀ m < count, new n = new m → n = m

namespace PortStore

/-- `bind` of `runtime.cpp`. -/
def bind (new : Nat → Nat) (store : PortStore) (outputPort : Nat) (input : Arch.Word)
    (reaction : Nat) (parameter : Int) : PortStore :=
  let port := new store.created
  { memory := store.memory.write outputPort pointerSize port
    pushPorts := Function.update store.pushPorts port
      (some
        { component := input
          reaction
          parameter
          next := store.memory.read outputPort pointerSize })
    created := store.created + 1 }

/-- The loop of `push_port_call` for the field at an address, with a bound for its tests: the
ports whose reactions are called. -/
def pushPortCall (store : PortStore) (address bound : Nat) : Option (List PushPort) :=
  ObjectList.walk store.pushPorts PushPort.next 0 bound (store.memory.read address pointerSize)

variable {new : Nat → Nat} {count : Nat} {store next after : PortStore} {place address : Nat}
  {activations : List (Arch.Word × Nat × Int)}

/-- The field at an address holds a list of objects for these calls. -/
def Lists (new : Nat → Nat) (store : PortStore) (address : Nat)
    (activations : List (Arch.Word × Nat × Int)) : Prop :=
  ∃ items, ObjectList.Leads store.pushPorts PushPort.next 0
      (store.memory.read address pointerSize) items ∧
    (∀ item ∈ items, ∃ n < store.created, item.1 = new n) ∧
    items.map (fun item => item.2.activation) = activations

theorem Lists.pushPortCall_eq (lists : Lists new store address activations) {bound : Nat}
    (enough : activations.length < bound) :
    (store.pushPortCall address bound).map (List.map PushPort.activation) = some activations := by
  rcases lists with ⟨items, leads, _, rfl⟩
  rw [List.length_map] at enough
  simp [pushPortCall, leads.walk_eq enough]

theorem lists_nil (areZero : ∀ byte ∈ bytesAt address pointerSize, store.memory byte = 0) :
    Lists new store address [] :=
  ⟨[], Memory.read_eq_zero areZero, fun _ isItem => absurd isItem List.not_mem_nil, rfl⟩

/-- Objects are only added, and only the field at the place is written. -/
structure Extends (new : Nat → Nat) (place : Nat) (store after : PortStore) : Prop where
  grows : store.created ≤ after.created
  pushPorts : ∀ n < store.created, after.pushPorts (new n) = store.pushPorts (new n)
  memory : ∀ byte, byte ∉ bytesAt place pointerSize → after.memory byte = store.memory byte

theorem Extends.refl (new : Nat → Nat) (place : Nat) (store : PortStore) :
    Extends new place store store where
  grows := Nat.le_refl _
  pushPorts _ _ := rfl
  memory _ _ := rfl

theorem Extends.trans (first : Extends new place store next) (second : Extends new place next after) :
    Extends new place store after where
  grows := Nat.le_trans first.grows second.grows
  pushPorts n isOld :=
    (second.pushPorts n (Nat.lt_of_lt_of_le isOld first.grows)).trans (first.pushPorts n isOld)
  memory byte outside := (second.memory byte outside).trans (first.memory byte outside)

theorem Lists.of_extends (lists : Lists new store address activations)
    (extended : Extends new place store after)
    (apart : Disjoint (bytesAt address pointerSize) (bytesAt place pointerSize)) :
    Lists new after address activations := by
  rcases lists with ⟨items, leads, areOld, isList⟩
  have sameHead : after.memory.read address pointerSize = store.memory.read address pointerSize :=
    Memory.read_congr fun byte isByte =>
      extended.memory byte (Set.disjoint_left.mp apart isByte)
  refine ⟨items, ?_, ?_, isList⟩
  · rw [sameHead]
    apply leads.congr
    intro item isItem
    rcases areOld item isItem with ⟨n, isOld, isAddress⟩
    rw [isAddress]
    exact extended.pushPorts n isOld
  · intro item isItem
    rcases areOld item isItem with ⟨n, isOld, isAddress⟩
    exact ⟨n, Nat.lt_of_lt_of_le isOld extended.grows, isAddress⟩

section Bind

variable (objects : GivesObjects new count) (room : store.created < count)
include objects room

theorem extends_bind (input : Arch.Word) (reaction : Nat) (parameter : Int) :
    Extends new place store (store.bind new place input reaction parameter) where
  grows := Nat.le_succ _
  pushPorts n isOld := by
    apply Function.update_of_ne
    intro same
    have isSame := objects.different n (Nat.lt_trans isOld room) _ room same
    exact absurd isSame (Nat.ne_of_lt isOld)
  memory byte outside := Memory.write_of_notMem outside

theorem Lists.bind (lists : Lists new store place activations) (input : Arch.Word)
    (reaction : Nat) (parameter : Int) :
    Lists new (store.bind new place input reaction parameter) place
      ((input, reaction, parameter) :: activations) := by
  rcases lists with ⟨items, leads, areOld, isList⟩
  have isHead : (store.bind new place input reaction parameter).memory.read place pointerSize =
      new store.created := by
    exact Memory.read_write_self (objects.small _ room)
  have areOthers : ∀ item ∈ items, item.1 ≠ new store.created := by
    intro item isItem same
    rcases areOld item isItem with ⟨n, isOld, isAddress⟩
    have isSame := objects.different n (Nat.lt_trans isOld room) _ room (isAddress.symm.trans same)
    exact absurd isSame (Nat.ne_of_lt isOld)
  let port : PushPort :=
    { component := input
      reaction
      parameter
      next := store.memory.read place pointerSize }
  have leadsOn : ObjectList.Leads (store.bind new place input reaction parameter).pushPorts
      PushPort.next 0 (new store.created) ((new store.created, port) :: items) :=
    leads.push (objects.notNull _ room) areOthers rfl
  refine ⟨(new store.created, port) :: items, ?_, ?_, ?_⟩
  · rw [isHead]
    exact leadsOn
  · intro item isItem
    rcases List.mem_cons.mp isItem with isNew | isOld
    · rw [isNew]
      exact ⟨store.created, Nat.lt_succ_self _, rfl⟩
    · rcases areOld item isOld with ⟨n, isOld, isAddress⟩
      exact ⟨n, Nat.lt_succ_of_lt isOld, isAddress⟩
  · rw [List.map_cons, isList]
    rfl

end Bind

end PortStore

/-! ## The loops of `create_bindings` -/

/-- The call of a reaction, where the instances have their memory. -/
def ReactionKey.activation (component : Nat → Arch.Word) (key : ReactionKey) :
    Arch.Word × Nat × Int :=
  (component key.inst, key.reaction, key.iota)

section CreateBindings

variable (new : Nat → Nat) (component : Nat → Arch.Word) (bindings : Bindings)

def PortStore.bindAll (outputPort : Nat) (keys : List ReactionKey) (store : PortStore) : PortStore :=
  keys.foldl (fun store key =>
    store.bind new outputPort (component key.inst) key.reaction key.iota) store

def createPushPort (store : PortStore) (entry : Arch.Word × Port) : Option PortStore := do
  let outputPort ← entry.2.place component
  some (store.bindAll new component outputPort.toNat (bindings.reactions entry.1))

/-- The body of the loop over the pull ports; it dereferences the first getter. -/
def createPullPort (store : PortStore) (entry : Arch.Word × Port) : Option PortStore := do
  let pullPort ← entry.2.place component
  let getter ← (bindings.getters entry.1).head?
  some
    { store with
      memory :=
        (store.memory.write pullPort.toNat pointerSize (component getter.inst).toNat).write
          (pullPort.toNat + pointerSize) pointerSize getter.getter.toNat }

/-- `create_bindings`. -/
def createBindings (composer : Composer) (store : PortStore) : Option PortStore := do
  let store ← composer.pushPorts.entries.foldlM (createPushPort new component bindings) store
  composer.pullPorts.entries.foldlM (createPullPort component bindings) store

/-- The calls of a push port: what was bound last comes first. -/
def Bindings.activations (port : Arch.Word) : List (Arch.Word × Nat × Int) :=
  ((bindings.reactions port).map (ReactionKey.activation component)).reverse

def Bindings.objectCount (entries : List (Arch.Word × Port)) : Nat :=
  (entries.map fun entry => (bindings.reactions entry.1).length).sum

end CreateBindings

section Loops

variable {new : Nat → Nat} {count : Nat} {component : Nat → Arch.Word} {bindings : Bindings}
  {store : PortStore} {place : Nat} {activations : List (Arch.Word × Nat × Int)}

open PortStore

theorem PortStore.Lists.bindAll (component : Nat → Arch.Word)
    (objects : GivesObjects new count) (keys : List ReactionKey)
    (room : store.created + keys.length ≤ count) (lists : Lists new store place activations) :
    Lists new (store.bindAll new component place keys) place
        ((keys.map (ReactionKey.activation component)).reverse ++ activations) ∧
      Extends new place store (store.bindAll new component place keys) ∧
      (store.bindAll new component place keys).created = store.created + keys.length := by
  induction keys generalizing store activations with
  | nil => exact ⟨lists, .refl new place store, rfl⟩
  | cons key rest inductionHypothesis =>
      rw [List.length_cons] at room
      have isFirst := lists.bind objects (by omega) (component key.inst) key.reaction key.iota
      have extended : Extends new place store _ :=
        extends_bind objects (by omega) (component key.inst) key.reaction key.iota
      have isCreated : (store.bind new place (component key.inst) key.reaction key.iota).created =
          store.created + 1 := rfl
      rcases inductionHypothesis (by omega) isFirst with ⟨isRest, extendedRest, isCount⟩
      refine ⟨?_, extended.trans extendedRest, ?_⟩
      · rw [List.map_cons, List.reverse_cons, List.append_assoc]
        exact isRest
      · rw [isCreated] at isCount
        rw [List.length_cons, Nat.add_comm rest.length 1, ← Nat.add_assoc]
        exact isCount

/-- The memory and the objects after the first loop has gone through some push ports. -/
structure PushPortsBound (new : Nat → Nat) (component : Nat → Arch.Word) (bindings : Bindings)
    (placeOf : Arch.Word × Port → Arch.Word) (start : PortStore) (done : List (Arch.Word × Port))
    (store : PortStore) : Prop where
  created : store.created = start.created + bindings.objectCount done
  lists : ∀ entry ∈ done,
    Lists new store (placeOf entry).toNat (bindings.activations component entry.1)
  memory : ∀ byte, (∀ entry ∈ done, byte ∉ bytesAt (placeOf entry).toNat pointerSize) →
    store.memory byte = start.memory byte

variable {placeOf : Arch.Word × Port → Arch.Word} {start : PortStore}
  {entries : List (Arch.Word × Port)}

theorem Bindings.objectCount_append (bindings : Bindings) (entries : List (Arch.Word × Port))
    (entry : Arch.Word × Port) : bindings.objectCount (entries ++ [entry]) =
      bindings.objectCount entries + (bindings.reactions entry.1).length := by
  simp [Bindings.objectCount]

theorem exists_pushPortsBound (objects : GivesObjects new count)
    (room : start.created + bindings.objectCount entries ≤ count)
    (places : ∀ entry ∈ entries, entry.2.place component = some (placeOf entry))
    (areApart : entries.Pairwise fun entry other =>
      Disjoint (bytesAt (placeOf entry).toNat pointerSize)
        (bytesAt (placeOf other).toNat pointerSize))
    (areZero : ∀ entry ∈ entries, ∀ byte ∈ bytesAt (placeOf entry).toNat pointerSize,
      start.memory byte = 0) :
    ∃ store, entries.foldlM (createPushPort new component bindings) start = some store ∧
      PushPortsBound new component bindings placeOf start entries store := by
  induction entries using List.reverseRecOn with
  | nil => exact ⟨start, rfl, rfl, fun _ isEntry => absurd isEntry List.not_mem_nil, fun _ _ => rfl⟩
  | append_singleton done entry inductionHypothesis =>
      rw [Bindings.objectCount_append] at room
      have isMember : entry ∈ done ++ [entry] := List.mem_append_right _ List.mem_cons_self
      have areDone : ∀ other ∈ done, other ∈ done ++ [entry] :=
        fun other isDone => List.mem_append_left _ isDone
      rcases List.pairwise_append.mp areApart with ⟨doneApart, _, areFromEntry⟩
      rcases inductionHypothesis (by omega) (fun other isDone => places other (areDone other isDone))
        doneApart (fun other isDone => areZero other (areDone other isDone)) with
        ⟨between, runs, bound⟩
      have fromEntry : ∀ other ∈ done, Disjoint (bytesAt (placeOf other).toNat pointerSize)
          (bytesAt (placeOf entry).toNat pointerSize) :=
        fun other isDone => areFromEntry other isDone entry List.mem_cons_self
      have isEmpty : Lists new between (placeOf entry).toNat [] := by
        apply lists_nil
        intro byte isByte
        rw [bound.memory byte, areZero entry isMember byte isByte]
        exact fun other isDone isOther => Set.disjoint_left.mp (fromEntry other isDone) isOther isByte
      rcases isEmpty.bindAll component objects (bindings.reactions entry.1)
        (by rw [bound.created]; omega) with ⟨isList, extended, isCount⟩
      refine ⟨between.bindAll new component (placeOf entry).toNat (bindings.reactions entry.1),
        ?_, ?_, ?_, ?_⟩
      · simp [List.foldlM_append, runs, createPushPort, places entry isMember]
      · rw [isCount, bound.created, Bindings.objectCount_append, Nat.add_assoc]
      · intro other isOther
        rcases List.mem_append.mp isOther with isDone | isLast
        · exact (bound.lists other isDone).of_extends extended (fromEntry other isDone)
        · rw [List.mem_singleton.mp isLast]
          rw [List.append_nil] at isList
          exact isList
      · intro byte outside
        rw [extended.memory byte (outside entry isMember)]
        exact bound.memory byte fun other isDone => outside other (areDone other isDone)

/-- The memory after the second loop has gone through some pull ports. -/
structure PullPortsFilled (component : Nat → Arch.Word) (bindings : Bindings)
    (placeOf : Arch.Word × Port → Arch.Word) (start : PortStore) (done : List (Arch.Word × Port))
    (store : PortStore) : Prop where
  pushPorts : store.pushPorts = start.pushPorts
  records : ∀ entry ∈ done, ∃ getter, (bindings.getters entry.1).head? = some getter ∧
    store.memory.read (placeOf entry).toNat pointerSize = (component getter.inst).toNat ∧
    store.memory.read ((placeOf entry).toNat + pointerSize) pointerSize = getter.getter.toNat
  memory : ∀ byte, (∀ entry ∈ done, byte ∉ bytesAt (placeOf entry).toNat (2 * pointerSize)) →
    store.memory byte = start.memory byte

theorem bytesAt_first (address : Nat) :
    bytesAt address pointerSize ⊆ bytesAt address (2 * pointerSize) :=
  Set.Ico_subset_Ico (Nat.le_refl _) (by omega)

theorem bytesAt_second (address : Nat) :
    bytesAt (address + pointerSize) pointerSize ⊆ bytesAt address (2 * pointerSize) :=
  Set.Ico_subset_Ico (Nat.le_add_right _ _) (by omega)

/-- The second loop ends if each pull port has a getter, and it enters the getter. -/
theorem exists_pullPortsFilled (start : PortStore)
    (places : ∀ entry ∈ entries, entry.2.place component = some (placeOf entry))
    (areApart : entries.Pairwise fun entry other =>
      Disjoint (bytesAt (placeOf entry).toNat (2 * pointerSize))
        (bytesAt (placeOf other).toNat (2 * pointerSize)))
    (areBound : ∀ entry ∈ entries, bindings.getters entry.1 ≠ []) :
    ∃ store, entries.foldlM (createPullPort component bindings) start = some store ∧
      PullPortsFilled component bindings placeOf start entries store := by
  induction entries using List.reverseRecOn with
  | nil => exact ⟨start, rfl, rfl, fun _ isEntry => absurd isEntry List.not_mem_nil, fun _ _ => rfl⟩
  | append_singleton done entry inductionHypothesis =>
      have isMember : entry ∈ done ++ [entry] := List.mem_append_right _ List.mem_cons_self
      have areDone : ∀ other ∈ done, other ∈ done ++ [entry] :=
        fun other isDone => List.mem_append_left _ isDone
      rcases List.pairwise_append.mp areApart with ⟨doneApart, _, areFromEntry⟩
      rcases inductionHypothesis (fun other isDone => places other (areDone other isDone))
        doneApart (fun other isDone => areBound other (areDone other isDone)) with
        ⟨between, runs, filled⟩
      rcases List.exists_cons_of_ne_nil (areBound entry isMember) with ⟨getter, rest, isGetter⟩
      have isHead : (bindings.getters entry.1).head? = some getter := by rw [isGetter, List.head?_cons]
      let memory := (between.memory.write (placeOf entry).toNat pointerSize
        (component getter.inst).toNat).write ((placeOf entry).toNat + pointerSize) pointerSize
          getter.getter.toNat
      have others : ∀ byte, byte ∉ bytesAt (placeOf entry).toNat (2 * pointerSize) →
          memory byte = between.memory byte := by
        intro byte outside
        have notFirst := fun isByte => outside (bytesAt_first (placeOf entry).toNat isByte)
        have notSecond := fun isByte => outside (bytesAt_second (placeOf entry).toNat isByte)
        exact (Memory.write_of_notMem notSecond).trans (Memory.write_of_notMem notFirst)
      have kept : ∀ other ∈ done, ∀ byte ∈ bytesAt (placeOf other).toNat (2 * pointerSize),
          memory byte = between.memory byte := by
        intro other isDone byte isByte
        have apart := areFromEntry other isDone entry List.mem_cons_self
        exact others byte (Set.disjoint_left.mp apart isByte)
      refine ⟨{ between with memory := memory }, ?_, filled.pushPorts, ?_, ?_⟩
      · simp [List.foldlM_append, runs, createPullPort, places entry isMember, isHead, memory]
      · intro other isOther
        rcases List.mem_append.mp isOther with isDone | isLast
        · rcases filled.records other isDone with ⟨found, isFound, isFirst, isSecond⟩
          refine ⟨found, isFound, ?_, ?_⟩
          · rw [← isFirst]
            exact Memory.read_congr fun byte isByte =>
              kept other isDone byte (bytesAt_first _ isByte)
          · rw [← isSecond]
            exact Memory.read_congr fun byte isByte =>
              kept other isDone byte (bytesAt_second _ isByte)
        · rw [List.mem_singleton.mp isLast]
          refine ⟨getter, isHead, ?_, ?_⟩
          · have apart : Disjoint (bytesAt (placeOf entry).toNat pointerSize)
                (bytesAt ((placeOf entry).toNat + pointerSize) pointerSize) :=
              disjoint_bytesAt (Nat.le_refl _)
            exact (Memory.read_write_of_disjoint apart).trans
              (Memory.read_write_self (BitVec.isLt _))
          · exact Memory.read_write_self (BitVec.isLt _)
      · intro byte outside
        have isOld : memory byte = between.memory byte := others byte (outside entry isMember)
        exact isOld.trans (filled.memory byte fun other isDone => outside other (areDone other isDone))

end Loops

/-! ## The memory of the instances at the start -/

/-- What the body of the loop of `allocate_instances` does to the memory. -/
def clearInstance (malloc : Instance → Arch.Word) (memory : Memory) (inst : Instance) : Memory :=
  match inst.parent with
  | none => memory.write (malloc inst).toNat (bytes inst.type) 0
  | some _ => memory

/-- The memory after `allocate_instances`. -/
def clearInstances (malloc : Instance → Arch.Word) (composer : Composer) (memory : Memory) : Memory :=
  composer.instances.entries.foldl (fun memory entry => clearInstance malloc memory entry.2) memory

section Clear

variable {malloc : Instance → Arch.Word} {memory : Memory} {byte : Nat}

theorem write_zero {address size : Nat} (isZero : memory byte = 0 ∨ byte ∈ bytesAt address size) :
    memory.write address size 0 byte = 0 := by
  rw [Memory.write]
  split
  · rw [Nat.zero_div]
    rfl
  · next outside => exact isZero.resolve_right outside

theorem foldl_clearInstance (entries : List (Arch.Word × Instance)) (isZero : memory byte = 0) :
    entries.foldl (fun memory entry => clearInstance malloc memory entry.2) memory byte = 0 := by
  induction entries generalizing memory with
  | nil => exact isZero
  | cons entry rest inductionHypothesis =>
      apply inductionHypothesis
      cases isParent : entry.2.parent with
      | none =>
          simp only [clearInstance, isParent]
          exact write_zero (Or.inl isZero)
      | some parent =>
          simp only [clearInstance, isParent]
          exact isZero

theorem clearInstances_eq_zero {composer : Composer} {entry : Arch.Word × Instance}
    (isEntry : entry ∈ composer.instances.entries) (isDeclared : entry.2.parent = none)
    (isByte : byte ∈ bytesAt (malloc entry.2).toNat (bytes entry.2.type)) :
    clearInstances malloc composer memory byte = 0 := by
  rcases List.append_of_mem isEntry with ⟨front, back, isSplit⟩
  rw [clearInstances, isSplit, List.foldl_append, List.foldl_cons]
  apply foldl_clearInstance
  simp only [clearInstance, isDeclared]
  exact write_zero (Or.inr isByte)

end Clear

/-! ## The bindings of a program in its memory -/

section Program

variable {declarations : List InstanceDecl} {enumeration : Enumeration} {calls : List Call}
  {malloc : Instance → Arch.Word}

/-- The entries of a table of ports of some size, each of them where the generated code takes
the port to be. -/
structure PortTable (declarations : List InstanceDecl) (malloc : Instance → Arch.Word)
    (enumeration : Enumeration) (table : Table) (ports : OrderedMap Arch.Word Port) (size : Nat) :
    Prop where
  notInstances : table ≠ .instances
  positive : 0 < size
  isSize : ∀ whole : Whole, whole.IsIn table → whole.size = size
  keys : Set.BijOn (addressOf declarations) (sites declarations table) ports.keys
  allocated : ∀ path ∈ sites declarations table, ∃ port address,
    (addressOf declarations path, port) ∈ ports.entries ∧
      port.place (allocateInstances malloc enumeration.composer) = some address ∧
      generatedAddress declarations enumeration
        (allocateInstances malloc enumeration.composer) path = some address

def placeOf (component : Nat → Arch.Word) (entry : Arch.Word × Port) : Arch.Word :=
  (entry.2.place component).getD 0

variable (progress : Progress declarations declarations.length enumeration calls)
  (laidOut : (Whole.program declarations).IsLaidOut)
include progress laidOut

theorem portTable_pushPorts (malloc : Instance → Arch.Word) :
    PortTable declarations malloc enumeration .pushPorts enumeration.composer.pushPorts
      pointerSize where
  notInstances := by simp
  positive := by decide
  isSize := size_of_isIn_pushPorts
  keys := (enumerated_of_registers progress.composer progress.all laidOut).pushPorts
  allocated := (allocated_of_progress laidOut progress).pushPorts

theorem portTable_pullPorts (malloc : Instance → Arch.Word) :
    PortTable declarations malloc enumeration .pullPorts enumeration.composer.pullPorts
      (2 * pointerSize) where
  notInstances := by simp
  positive := by decide
  isSize := size_of_isIn_pullPorts
  keys := (enumerated_of_registers progress.composer progress.all laidOut).pullPorts
  allocated := (allocated_of_progress laidOut progress).pullPorts

variable {table other : Table} {ports otherPorts : OrderedMap Arch.Word Port} {size otherSize : Nat}

theorem PortTable.exists_site
    (portTable : PortTable declarations malloc enumeration table ports size)
    {entry : Arch.Word × Port} (isEntry : entry ∈ ports.entries) :
    ∃ path ∈ sites declarations table, addressOf declarations path = entry.1 ∧
      entry.2.place (allocateInstances malloc enumeration.composer) =
        some (placeOf (allocateInstances malloc enumeration.composer) entry) ∧
      generatedAddress declarations enumeration
        (allocateInstances malloc enumeration.composer) path =
          some (placeOf (allocateInstances malloc enumeration.composer) entry) ∧
      IsPlacedAt malloc calls path (placeOf (allocateInstances malloc enumeration.composer) entry)
        size := by
  rcases portTable.keys.surjOn ⟨entry.2, isEntry⟩ with ⟨path, isSite, isAddress⟩
  rcases portTable.allocated path isSite with ⟨port, address, isPort, isPlace, isGenerated⟩
  rw [isAddress] at isPort
  have isFound := OrderedMap.find_eq_some isPort
  rw [OrderedMap.find_eq_some isEntry, Option.some.injEq] at isFound
  have isPlaceOf : placeOf (allocateInstances malloc enumeration.composer) entry = address := by
    rw [placeOf, isFound, isPlace]
    rfl
  refine ⟨path, isSite, isAddress, ?_, ?_, ?_⟩
  · rw [isPlaceOf, isFound]
    exact isPlace
  · rw [isPlaceOf]
    exact isGenerated
  · rw [isPlaceOf]
    exact isPlacedAt_of_site progress laidOut portTable.notInstances portTable.isSize isSite
      isGenerated

omit progress laidOut in
theorem PortTable.exists_entry
    (portTable : PortTable declarations malloc enumeration table ports size)
    {path : List Selector} (isSite : path ∈ sites declarations table) :
    ∃ entry ∈ ports.entries, entry.1 = addressOf declarations path ∧
      generatedAddress declarations enumeration
        (allocateInstances malloc enumeration.composer) path =
          some (placeOf (allocateInstances malloc enumeration.composer) entry) := by
  rcases portTable.allocated path isSite with ⟨port, address, isPort, isPlace, isGenerated⟩
  refine ⟨_, isPort, rfl, ?_⟩
  rw [placeOf, isPlace]
  exact isGenerated

variable (gives : GivesBlocks malloc enumeration.symbolInstances)
include gives

theorem PortTable.disjoint
    (portTable : PortTable declarations malloc enumeration table ports size)
    (isOtherTable : PortTable declarations malloc enumeration other otherPorts otherSize)
    {entry otherEntry : Arch.Word × Port} (isEntry : entry ∈ ports.entries)
    (isOtherEntry : otherEntry ∈ otherPorts.entries)
    (different : table ≠ other ∨ entry.1 ≠ otherEntry.1) :
    Disjoint
      (bytesAt (placeOf (allocateInstances malloc enumeration.composer) entry).toNat size)
      (bytesAt (placeOf (allocateInstances malloc enumeration.composer) otherEntry).toNat
        otherSize) := by
  rcases portTable.exists_site progress laidOut isEntry with
    ⟨path, isSite, isAddress, _, _, isPlaced⟩
  rcases isOtherTable.exists_site progress laidOut isOtherEntry with
    ⟨otherPath, isOtherSite, isOtherAddress, _, _, isOtherPlaced⟩
  apply isPlaced.disjoint progress laidOut gives portTable.positive isOtherPlaced
    isOtherTable.positive
  intro same
  rcases different with differentTable | differentAddress
  · rcases isSite with ⟨offset, part, isPart, isIn⟩
    rcases isOtherSite with ⟨_, otherPart, isOtherPart, isOtherIn⟩
    rw [← same, isPart, Option.some.injEq, Prod.mk.injEq] at isOtherPart
    exact differentTable (table_unique isIn (isOtherPart.2 ▸ isOtherIn))
  · exact differentAddress (by rw [← isAddress, ← isOtherAddress, same])

theorem PortTable.pairwise (portTable : PortTable declarations malloc enumeration table ports size) :
    ports.entries.Pairwise fun entry other =>
      Disjoint
        (bytesAt (placeOf (allocateInstances malloc enumeration.composer) entry).toNat size)
        (bytesAt (placeOf (allocateInstances malloc enumeration.composer) other).toNat size) := by
  refine ports.sorted.imp_of_mem ?_
  intro entry other isEntry isOther less
  exact portTable.disjoint progress laidOut gives portTable isEntry isOther
    (Or.inr (Std.ne_of_lt less))

theorem PortTable.eq_zero (portTable : PortTable declarations malloc enumeration table ports size)
    (memory : Memory) {entry : Arch.Word × Port} (isEntry : entry ∈ ports.entries) {byte : Nat}
    (isByte : byte ∈
      bytesAt (placeOf (allocateInstances malloc enumeration.composer) entry).toNat size) :
    clearInstances malloc enumeration.composer memory byte = 0 := by
  rcases portTable.exists_site progress laidOut isEntry with ⟨_, _, _, _, _, isPlaced⟩
  rcases isPlaced.exists_block progress laidOut gives portTable.positive with
    ⟨i, top, isTop, isInside⟩
  have isDeclared : (top.address, top) ∈ enumeration.composer.instances.entries := by
    rw [progress.composer]
    exact (mem_instances progress.all laidOut).mpr ⟨rfl, _, isTop⟩
  exact clearInstances_eq_zero isDeclared (parent_of_declared progress.all isTop) (isInside isByte)

end Program

/-- Calls of ports find what has been bound: at the place of a push port, a list of the
reactions in the opposite order, at that of a pull port, the first getter.  Nothing else is
written. -/
structure Wired (declarations : List InstanceDecl) (enumeration : Enumeration)
    (component : Nat → Arch.Word) (bindings : Bindings) (start store : PortStore) : Prop where
  pushPorts : ∀ path ∈ sites declarations .pushPorts, ∃ address,
    generatedAddress declarations enumeration component path = some address ∧
      ∀ bound, (bindings.reactions (addressOf declarations path)).length < bound →
        (store.pushPortCall address.toNat bound).map (List.map PushPort.activation) =
          some (bindings.activations component (addressOf declarations path))
  pullPorts : ∀ path ∈ sites declarations .pullPorts, ∃ address getter,
    generatedAddress declarations enumeration component path = some address ∧
      (bindings.getters (addressOf declarations path)).head? = some getter ∧
      store.memory.read address.toNat pointerSize = (component getter.inst).toNat ∧
      store.memory.read (address.toNat + pointerSize) pointerSize = getter.getter.toNat
  others : ∀ byte,
    (∀ path ∈ sites declarations .pushPorts, ∀ address,
      generatedAddress declarations enumeration component path = some address →
        byte ∉ bytesAt address.toNat pointerSize) →
    (∀ path ∈ sites declarations .pullPorts, ∀ address,
      generatedAddress declarations enumeration component path = some address →
        byte ∉ bytesAt address.toNat (2 * pointerSize)) →
    store.memory byte = start.memory byte

section Wired

variable {declarations : List InstanceDecl} {enumeration : Enumeration} {calls : List Call}
  {malloc : Instance → Arch.Word}

theorem PortTable.forall_iff {table : Table} {ports : OrderedMap Arch.Word Port} {size : Nat}
    (progress : Progress declarations declarations.length enumeration calls)
    (laidOut : (Whole.program declarations).IsLaidOut)
    (portTable : PortTable declarations malloc enumeration table ports size)
    (holds : Arch.Word → Prop) :
    (∀ entry ∈ ports.entries, holds entry.1) ↔
      ∀ path ∈ sites declarations table, holds (addressOf declarations path) := by
  constructor
  · intro areHeld path isSite
    rcases portTable.exists_entry isSite with ⟨entry, isEntry, isAddress, _⟩
    exact isAddress ▸ areHeld entry isEntry
  · intro areHeld entry isEntry
    rcases portTable.exists_site progress laidOut isEntry with ⟨path, isSite, isAddress, _⟩
    exact isAddress ▸ areHeld path isSite

theorem areBound_of_createBindings {new : Nat → Nat} {component : Nat → Arch.Word}
    {bindings : Bindings} {composer : Composer} {start store : PortStore}
    (places : ∀ entry ∈ composer.pullPorts.entries,
      entry.2.place component = some (placeOf component entry))
    (created : createBindings new component bindings composer start = some store) :
    ∀ entry ∈ composer.pullPorts.entries, bindings.getters entry.1 ≠ [] := by
  intro entry isEntry isEmpty
  rw [createBindings, Option.bind_eq_bind, Option.bind_eq_some_iff] at created
  rcases created with ⟨between, _, second⟩
  rcases exists_step_of_foldlM second entry isEntry with ⟨before, next, isNext⟩
  simp [createPullPort, places entry isEntry, isEmpty] at isNext

/-- After both loops the calls of ports find what has been bound: the second loop leaves the
lists of the push ports alone. -/
theorem wired_of_loops {new : Nat → Nat} {bindings : Bindings} {start between store : PortStore}
    (progress : Progress declarations declarations.length enumeration calls)
    (laidOut : (Whole.program declarations).IsLaidOut)
    (gives : GivesBlocks malloc enumeration.symbolInstances)
    (bound : PushPortsBound new (allocateInstances malloc enumeration.composer) bindings
      (placeOf (allocateInstances malloc enumeration.composer)) start
      enumeration.composer.pushPorts.entries between)
    (filled : PullPortsFilled (allocateInstances malloc enumeration.composer) bindings
      (placeOf (allocateInstances malloc enumeration.composer)) between
      enumeration.composer.pullPorts.entries store) :
    Wired declarations enumeration (allocateInstances malloc enumeration.composer) bindings start
      store := by
  have pushTable := portTable_pushPorts progress laidOut malloc
  have pullTable := portTable_pullPorts progress laidOut malloc
  refine ⟨?_, ?_, ?_⟩
  · intro path isSite
    rcases pushTable.exists_entry isSite with ⟨entry, isEntry, isAddress, isGenerated⟩
    refine ⟨_, isGenerated, ?_⟩
    intro tests enough
    have sameHead : store.memory.read
          (placeOf (allocateInstances malloc enumeration.composer) entry).toNat pointerSize =
        between.memory.read
          (placeOf (allocateInstances malloc enumeration.composer) entry).toNat pointerSize := by
      apply Memory.read_congr
      intro byte isByte
      apply filled.memory
      intro other isOther
      exact Set.disjoint_left.mp (pushTable.disjoint progress laidOut gives pullTable isEntry
        isOther (Or.inl (by simp))) isByte
    rw [PortStore.pushPortCall, sameHead, filled.pushPorts, ← isAddress]
    apply (bound.lists entry isEntry).pushPortCall_eq
    rw [Bindings.activations, List.length_reverse, List.length_map, isAddress]
    exact enough
  · intro path isSite
    rcases pullTable.exists_entry isSite with ⟨entry, isEntry, isAddress, isGenerated⟩
    rcases filled.records entry isEntry with ⟨getter, isGetter, isFirst, isSecond⟩
    exact ⟨_, getter, isGenerated, isAddress ▸ isGetter, isFirst, isSecond⟩
  · intro byte notPush notPull
    rw [filled.memory byte, bound.memory byte]
    · intro entry isEntry
      rcases pushTable.exists_site progress laidOut isEntry with
        ⟨path, isSite, _, _, isGenerated, _⟩
      exact notPush path isSite _ isGenerated
    · intro entry isEntry
      rcases pullTable.exists_site progress laidOut isEntry with
        ⟨path, isSite, _, _, isGenerated, _⟩
      exact notPull path isSite _ isGenerated

end Wired

/-- `create_bindings` gives a result exactly if each pull port is bound, and then the generated
code finds at every port what was bound to it. -/
theorem createBindings_correct {declarations : List InstanceDecl} {enumeration : Enumeration}
    (malloc : Instance → Arch.Word) (new : Nat → Nat) (bindings : Bindings) (memory : Memory)
    (laidOut : ∀ declaration ∈ declarations,
      declaration.type.IsGiven ∧ declaration.type.Everywhere Arch.LaidOut)
    (runs : enumerateInstances declarations = some enumeration)
    (gives : GivesBlocks malloc enumeration.symbolInstances)
    (objects : GivesObjects new (bindings.objectCount enumeration.composer.pushPorts.entries)) :
    let component := allocateInstances malloc enumeration.composer
    let start : PortStore := ⟨clearInstances malloc enumeration.composer memory, fun _ => none, 0⟩
    ((∃ store, createBindings new component bindings enumeration.composer start = some store) ↔
        ∀ path ∈ sites declarations .pullPorts,
          bindings.getters (addressOf declarations path) ≠ []) ∧
      ∀ store, createBindings new component bindings enumeration.composer start = some store →
        Wired declarations enumeration component bindings start store := by
  intro component start
  rcases exists_progress runs with ⟨calls, progress⟩
  have isLaidOut : (Whole.program declarations).IsLaidOut :=
    ⟨programBytes_le progress gives, laidOut⟩
  have pushTable := portTable_pushPorts progress isLaidOut malloc
  have pullTable := portTable_pullPorts progress isLaidOut malloc
  have pushPlaces : ∀ entry ∈ enumeration.composer.pushPorts.entries,
      entry.2.place component = some (placeOf component entry) := by
    intro entry isEntry
    rcases pushTable.exists_site progress isLaidOut isEntry with ⟨_, _, _, isPlace, _⟩
    exact isPlace
  have pullPlaces : ∀ entry ∈ enumeration.composer.pullPorts.entries,
      entry.2.place component = some (placeOf component entry) := by
    intro entry isEntry
    rcases pullTable.exists_site progress isLaidOut isEntry with ⟨_, _, _, isPlace, _⟩
    exact isPlace
  have room : start.created + bindings.objectCount enumeration.composer.pushPorts.entries ≤
      bindings.objectCount enumeration.composer.pushPorts.entries :=
    Nat.le_of_eq (Nat.zero_add _)
  rcases exists_pushPortsBound objects room pushPlaces (pushTable.pairwise progress isLaidOut gives)
    (fun entry isEntry byte isByte =>
      pushTable.eq_zero progress isLaidOut gives memory isEntry isByte) with ⟨between, first, bound⟩
  have creates : (∀ entry ∈ enumeration.composer.pullPorts.entries,
      bindings.getters entry.1 ≠ []) →
      ∃ store, createBindings new component bindings enumeration.composer start = some store ∧
        Wired declarations enumeration component bindings start store := by
    intro areBound
    rcases exists_pullPortsFilled between pullPlaces
      (pullTable.pairwise progress isLaidOut gives) areBound with ⟨store, second, filled⟩
    exact ⟨store, by simp [createBindings, first, second],
      wired_of_loops progress isLaidOut gives bound filled⟩
  have areBoundIff := pullTable.forall_iff progress isLaidOut
    fun address => bindings.getters address ≠ []
  refine ⟨⟨?_, ?_⟩, ?_⟩
  · rintro ⟨store, created⟩
    exact areBoundIff.mp (areBound_of_createBindings pullPlaces created)
  · intro areBound
    rcases creates (areBoundIff.mpr areBound) with ⟨store, created, _⟩
    exact ⟨store, created⟩
  · intro store created
    rcases creates (areBound_of_createBindings pullPlaces created) with ⟨same, createdToo, wired⟩
    rw [created, Option.some.injEq] at createdToo
    exact createdToo ▸ wired

/-- Every push port calls the first reaction of the station, and every pull port a getter of the
first sensor. -/
def stationBindings : Bindings where
  reactions _ := [⟨0, 0, 0⟩]
  pushPorts _ := []
  getters _ := [⟨1, 7⟩]

theorem objectCount_stationBindings : (enumerateInstances stationAndSensor).map
    (fun enumeration => stationBindings.objectCount enumeration.composer.pushPorts.entries) =
      some 3 := by
  decide

theorem createBindings_correct_station :
    ∃ enumeration store, enumerateInstances stationAndSensor = some enumeration ∧
      createBindings (fun n => n + 1) (allocateInstances pageOf enumeration.composer)
        stationBindings enumeration.composer
        ⟨clearInstances pageOf enumeration.composer (fun _ => 255), fun _ => none, 0⟩ = some store ∧
      Wired stationAndSensor enumeration (allocateInstances pageOf enumeration.composer)
        stationBindings
        ⟨clearInstances pageOf enumeration.composer (fun _ => 255), fun _ => none, 0⟩ store := by
  cases runs : enumerateInstances stationAndSensor with
  | none =>
      have isCount := objectCount_stationBindings
      rw [runs] at isCount
      cases isCount
  | some enumeration =>
      have isCount := objectCount_stationBindings
      rw [runs, Option.map_some, Option.some.injEq] at isCount
      have objects : GivesObjects (fun n => n + 1)
          (stationBindings.objectCount enumeration.composer.pushPorts.entries) := by
        rw [isCount]
        constructor
        · exact fun n _ => Nat.succ_ne_zero n
        · intro n isBelow
          have isSmall : (4 : Nat) < 256 ^ pointerSize := by decide
          omega
        · exact fun n _ m _ same => Nat.succ.inj same
      rcases createBindings_correct pageOf (fun n => n + 1) stationBindings (fun _ => 255)
        isLaidOut_stationAndSensor runs (givesBlocks_stationAndSensor runs) objects with
        ⟨endsIff, wired⟩
      rcases endsIff.mpr fun _ _ => List.cons_ne_nil _ _ with ⟨store, created⟩
      exact ⟨enumeration, store, rfl, created, wired store created⟩

end Rcgo.Composition
