import Rcgo.Composition.ElaborationFrames
import Rcgo.Composition.InstanceMemory
import Rcgo.Foundation.Incidence
import Rcgo.Foundation.PartialLoop

/-!
# The bindings of a program

`enumerate_reactions`, `enumerate_getters` and `elaborate_bindings` of `composition.cpp`.
A bind declaration is elaborated for each instance of its type, in a frame on a stack of
1024 bytes.  Its statements denote ports and components by their places in the instance.
What its conditions, indices and parameters compute is taken to depend on the iotas only: an
instance has no memory yet, and no statement assigns to a local variable.
-/

namespace Rcgo.Composition

open Code Foundation Transaction

/-! ## Bind declarations -/

/-- The values of the variables of the enclosing `for iota` statements. -/
abbrev Iotas := Nat → Nat

/-- A step of an expression that denotes a part of the receiver. -/
inductive PartStep where
  | field (i : Nat)
  | element (index : Iotas → Int)

/-- The part that a step selects; an index must not be negative. -/
def PartStep.selector (iotas : Iotas) : PartStep → Option Selector
  | .field i => some (.field i)
  | .element index => if 0 ≤ index iotas then some (.element (index iotas).toNat) else none

/-- The address that the operation of an expression computes. -/
def selectPart (type : DataType) (steps : List PartStep) (iotas : Iotas) (receiver : Arch.Word) :
    Option Arch.Word := do
  let path ← steps.mapM (PartStep.selector iotas)
  selectAddress type path receiver

/-- The base of the expression that is bound: the pointer `this` or a component. -/
inductive SelectBase where
  | this
  | part (steps : List PartStep)

def SelectBase.steps : SelectBase → List PartStep
  | this => []
  | part steps => steps

/-- A condition, which may be a variable. -/
inductive BindCondition where
  | valueExpression (holds : Iotas → Bool)
  | variableExpression

mutual

/-- The statements of a bind declaration. -/
inductive BindStatement where
  | statementList (statements : BindStatements)
  | ifElse (condition : BindCondition) (trueBody falseBody : BindStatement)
  | forIota (symbol limit : Nat) (body : BindStatement)
  | bindPushPort (left : List PartStep) (right : SelectBase) (reaction : Nat)
  | bindPushPortParameter (left : List PartStep) (right : SelectBase) (reaction : Nat)
      (param : Iotas → Int)
  | bindPullPort (left : List PartStep) (right : SelectBase) (getter : Arch.Word)
  /-- a statement that the visitor passes over, with all that it contains -/
  | other

inductive BindStatements where
  | nil
  | cons (statement : BindStatement) (rest : BindStatements)

end

/-- `BindDecl`, with the size of its locals and the number of words that its operations have
on the stack at a time, at most. -/
structure BindDecl where
  locals : Nat
  operands : Nat
  body : BindStatement

/-- The constructor of the visitor: the frame on the stack of `composition::Executor`. -/
def BindDecl.frame (binddecl : BindDecl) (receiver : Arch.Word) : Option BoundedStack := do
  let stack ← (BoundedStack.fresh (fun _ => 0) 0 elaboratorCapacity).push receiver.toNat
  let stack ← stack.push 0
  stack.setup binddecl.locals

/-- `decl::Reaction`, with its dimension if it has one. -/
structure ReactionDecl where
  id : Nat
  dimension : Option Nat

/-- What `NamedType` lists of a component.  A getter stands for the address of its
declaration. -/
structure Members where
  binds : DataType → List BindDecl
  reactions : DataType → List ReactionDecl
  getters : DataType → List Arch.Word

/-! ## The nodes -/

/-- `ReactionKey`; the instance is given by its number. -/
structure ReactionKey where
  inst : Nat
  reaction : Nat
  iota : Int
  deriving DecidableEq

/-- `GetterKey`. -/
structure GetterKey where
  inst : Nat
  getter : Arch.Word
  deriving DecidableEq

/-- The values of `iota` for a reaction. -/
def ReactionDecl.iotas (reaction : ReactionDecl) : List Int :=
  match reaction.dimension with
  | none => [0]
  | some dimension => (List.range dimension).map fun idx => (idx : Int)

/-- The keys of `reactions_` after `enumerate_reactions`. -/
def enumerateReactions (members : Members) (composer : Composer) : List ReactionKey :=
  composer.instances.entries.flatMap fun entry =>
    (members.reactions entry.2.type).flatMap fun reaction =>
      reaction.iotas.map fun iota => ⟨entry.2.id, reaction.id, iota⟩

/-- The keys of `getters_` after `enumerate_getters`. -/
def enumerateGetters (members : Members) (composer : Composer) : List GetterKey :=
  composer.instances.entries.flatMap fun entry =>
    (members.getters entry.2.type).map fun getter => ⟨entry.2.id, getter⟩

/-! ## Elaboration -/

/-- `reactions` of the push ports, `push_ports` of the reactions and `getters` of the pull
ports.  Ports are given by their addresses. -/
structure Bindings where
  reactions : Arch.Word → List ReactionKey
  pushPorts : ReactionKey → List Arch.Word
  getters : Arch.Word → List GetterKey

namespace Bindings

def initial : Bindings where
  reactions _ := []
  pushPorts _ := []
  getters _ := []

/-- `bind` of the visitor, with what the operations of the port and the component have left
on the stack.  Without a result an assertion fails. -/
def bind (members : Members) (composer : Composer) (port component : Arch.Word) (reaction : Nat)
    (param : Int) (bindings : Bindings) : Option Bindings := do
  let _ ← composer.pushPorts.find port
  let inst ← composer.instances.find component
  let key : ReactionKey := ⟨inst.id, reaction, param⟩
  if key ∈ enumerateReactions members composer then
    some
      { bindings with
        reactions := Function.update bindings.reactions port (bindings.reactions port ++ [key])
        pushPorts := Function.update bindings.pushPorts key (bindings.pushPorts key ++ [port]) }
  else
    none

/-- The end of `visit` of a `BindPullPort`. -/
def bindPullPort (members : Members) (composer : Composer) (port component getter : Arch.Word)
    (bindings : Bindings) : Option Bindings := do
  let _ ← composer.pullPorts.find port
  let inst ← composer.instances.find component
  let key : GetterKey := ⟨inst.id, getter⟩
  if key ∈ enumerateGetters members composer then
    some
      { bindings with
        getters := Function.update bindings.getters port (bindings.getters port ++ [key]) }
  else
    none

end Bindings

section Elaboration

variable (members : Members) (composer : Composer) (type : DataType) (receiver : Arch.Word)

mutual

/-- The visitor of `elaborate_bindings`.  Without a result an assertion fails or an index is
out of range. -/
def BindStatement.accept : BindStatement → Iotas → Bindings → Option Bindings
  | .statementList statements, iotas, bindings => statements.visitChildren iotas bindings
  | .ifElse (.valueExpression holds) trueBody falseBody, iotas, bindings =>
      if holds iotas then trueBody.accept iotas bindings
      else falseBody.accept iotas bindings
  -- `UNIMPLEMENTED`
  | .ifElse .variableExpression _ _, _, _ => none
  | .forIota symbol limit body, iotas, bindings =>
      (List.range limit).foldlM
        (fun bindings idx => body.accept (Function.update iotas symbol idx) bindings) bindings
  | .bindPushPort left right reaction, iotas, bindings => do
      let port ← selectPart type left iotas receiver
      let component ← selectPart type right.steps iotas receiver
      bindings.bind members composer port component reaction 0
  | .bindPushPortParameter left right reaction param, iotas, bindings => do
      let port ← selectPart type left iotas receiver
      let component ← selectPart type right.steps iotas receiver
      bindings.bind members composer port component reaction (param iotas)
  -- the address of `this` in the frame, which is not loaded here, is not that of an instance
  | .bindPullPort _ .this _, _, _ => none
  | .bindPullPort left (.part steps) getter, iotas, bindings => do
      let port ← selectPart type left iotas receiver
      let component ← selectPart type steps iotas receiver
      bindings.bindPullPort members composer port component getter
  | .other, _, bindings => some bindings

def BindStatements.visitChildren : BindStatements → Iotas → Bindings → Option Bindings
  | .nil, _, bindings => some bindings
  | .cons statement rest, iotas, bindings => do
      let bindings ← statement.accept iotas bindings
      rest.visitChildren iotas bindings

end

/-- The visitor for a bind declaration and a receiver. -/
def BindDecl.accept (binddecl : BindDecl) (bindings : Bindings) : Option Bindings := do
  let stack ← binddecl.frame receiver
  if stack.top + wordSize * binddecl.operands ≤ stack.limit then
    binddecl.body.accept members composer type receiver (fun _ => 0) bindings
  else
    none

end Elaboration

/-! ## Runs of the visitor -/

section Runs

variable {members : Members} {composer : Composer} {type : DataType} {receiver : Arch.Word}

/-- What no bind statement breaks. -/
structure Bindings.Kept (members : Members) (composer : Composer) (holds : Bindings → Prop) :
    Prop where
  bind : ∀ port component reaction param bindings after, holds bindings →
    bindings.bind members composer port component reaction param = some after → holds after
  bindPullPort : ∀ port component getter bindings after, holds bindings →
    bindings.bindPullPort members composer port component getter = some after → holds after

variable {holds : Bindings → Prop}

mutual

theorem BindStatement.accept_keeps (kept : Bindings.Kept members composer holds)
    (statement : BindStatement) (iotas : Iotas) {bindings after : Bindings}
    (isHeld : holds bindings)
    (runs : statement.accept members composer type receiver iotas bindings = some after) :
    holds after := by
  cases statement with
  | statementList statements =>
      rw [BindStatement.accept] at runs
      exact statements.visitChildren_keeps kept iotas isHeld runs
  | ifElse condition trueBody falseBody =>
      cases condition with
      | valueExpression test =>
          rw [BindStatement.accept] at runs
          split at runs
          · exact trueBody.accept_keeps kept iotas isHeld runs
          · exact falseBody.accept_keeps kept iotas isHeld runs
      | variableExpression =>
          rw [BindStatement.accept] at runs
          cases runs
  | forIota symbol limit body =>
      rw [BindStatement.accept] at runs
      exact foldlM_keeps (fun idx _ state next isHeld runs =>
        body.accept_keeps kept (Function.update iotas symbol idx) isHeld runs) isHeld runs
  | bindPushPort left right reaction =>
      simp only [BindStatement.accept, Option.bind_eq_bind, Option.bind_eq_some_iff] at runs
      rcases runs with ⟨port, _, component, _, runs⟩
      exact kept.bind port component reaction 0 bindings after isHeld runs
  | bindPushPortParameter left right reaction param =>
      simp only [BindStatement.accept, Option.bind_eq_bind, Option.bind_eq_some_iff] at runs
      rcases runs with ⟨port, _, component, _, runs⟩
      exact kept.bind port component reaction (param iotas) bindings after isHeld runs
  | bindPullPort left right getter =>
      cases right with
      | this =>
          rw [BindStatement.accept] at runs
          cases runs
      | part steps =>
          simp only [BindStatement.accept, Option.bind_eq_bind, Option.bind_eq_some_iff] at runs
          rcases runs with ⟨port, _, component, _, runs⟩
          exact kept.bindPullPort port component getter bindings after isHeld runs
  | other =>
      rw [BindStatement.accept, Option.some.injEq] at runs
      exact runs ▸ isHeld

theorem BindStatements.visitChildren_keeps (kept : Bindings.Kept members composer holds)
    (statements : BindStatements) (iotas : Iotas) {bindings after : Bindings}
    (isHeld : holds bindings)
    (runs : statements.visitChildren members composer type receiver iotas bindings = some after) :
    holds after := by
  cases statements with
  | nil =>
      rw [BindStatements.visitChildren, Option.some.injEq] at runs
      exact runs ▸ isHeld
  | cons statement rest =>
      simp only [BindStatements.visitChildren, Option.bind_eq_bind, Option.bind_eq_some_iff] at runs
      rcases runs with ⟨next, isNext, runs⟩
      exact rest.visitChildren_keeps kept iotas
        (statement.accept_keeps kept iotas isHeld isNext) runs

end

end Runs

/-! ## What has been bound -/

/-- The bindings of push ports, listed at the ports and at the reactions. -/
def Bindings.incidence (bindings : Bindings) : Incidence Arch.Word ReactionKey where
  out := bindings.reactions
  into := bindings.pushPorts

section Sound

variable {members : Members} {composer : Composer}

end Sound

/-! ## Checked bind declarations -/

/-- The steps lead to a part of this type, which is registered in the table. -/
def LeadsTo (type : DataType) (steps : List PartStep) (iotas : Iotas) (table : Table)
    (part : DataType) : Prop :=
  tableOf part = some table ∧ ∃ path inner, steps.mapM (PartStep.selector iotas) = some path ∧
    descend parts (.stored type) path = some (inner, .stored part)

/-- The type has the reaction, with this parameter in its dimension. -/
def Members.HasReaction (members : Members) (type : DataType) (reaction : Nat) (param : Int) :
    Prop :=
  ∃ declaration ∈ members.reactions type, declaration.id = reaction ∧ param ∈ declaration.iotas

section Checked

variable (members : Members) (type : DataType)

/-- A push port of the receiver is bound to a reaction of one of its components. -/
def BindsReaction (left : List PartStep) (right : SelectBase) (iotas : Iotas) (reaction : Nat)
    (param : Int) : Prop :=
  (∃ port, LeadsTo type left iotas .pushPorts port) ∧
    ∃ target, LeadsTo type right.steps iotas .instances target ∧
      members.HasReaction target reaction param

mutual

/-- Each bind statement that is executed binds a port of the receiver to what one of its
components has, with indices and parameters in range; a getter is not selected from `this`, and
no condition is a variable. -/
def BindStatement.IsChecked : BindStatement → Iotas → Prop
  | .statementList statements, iotas => statements.AreChecked iotas
  | .ifElse (.valueExpression holds) trueBody falseBody, iotas =>
      (holds iotas = true → trueBody.IsChecked iotas) ∧
        (holds iotas = false → falseBody.IsChecked iotas)
  | .ifElse .variableExpression _ _, _ => False
  | .forIota symbol limit body, iotas =>
      ∀ idx < limit, body.IsChecked (Function.update iotas symbol idx)
  | .bindPushPort left right reaction, iotas => BindsReaction members type left right iotas reaction 0
  | .bindPushPortParameter left right reaction param, iotas =>
      BindsReaction members type left right iotas reaction (param iotas)
  | .bindPullPort _ .this _, _ => False
  | .bindPullPort left (.part steps) getter, iotas =>
      (∃ port, LeadsTo type left iotas .pullPorts port) ∧
        ∃ target, LeadsTo type steps iotas .instances target ∧ getter ∈ members.getters target
  | .other, _ => True

def BindStatements.AreChecked : BindStatements → Iotas → Prop
  | .nil, _ => True
  | .cons statement rest, iotas => statement.IsChecked iotas ∧ rest.AreChecked iotas

end

/-- The frame and the operands have room on the stack, and the body is checked. -/
structure BindDecl.IsChecked (binddecl : BindDecl) : Prop where
  room : wordSize + wordSize + (wordSize + aligned binddecl.locals) +
    wordSize * binddecl.operands ≤ elaboratorCapacity
  body : binddecl.body.IsChecked members type fun _ => 0

end Checked

section Ends

variable {declarations : List InstanceDecl} {enumeration : Enumeration} {calls : List Call}
  {members : Members} {path : List Selector} {inst : Instance}

theorem exists_selectPart (progress : Progress declarations declarations.length enumeration calls)
    (isInstance : (path, .component inst) ∈ calls) {steps : List PartStep} {iotas : Iotas}
    {table : Table} {part : DataType} (leads : LeadsTo inst.type steps iotas table part) :
    ∃ site, site ∈ sites declarations table ∧
      selectPart inst.type steps iotas inst.address = some (addressOf declarations site) ∧
      descend parts (.program declarations) site =
        some (addressOf declarations site, .stored part) := by
  rcases leads with ⟨isIn, below, inner, isPath, isPart⟩
  have isSite := descend_append (descend_of_instance progress.all isInstance) isPart
  have isAddress : addressOf declarations (path ++ below) = inst.address + inner := by
    rw [addressOf, isSite]
    rfl
  refine ⟨path ++ below, ⟨_, _, isSite, isIn⟩, ?_, ?_⟩
  · rw [isAddress, selectPart, isPath]
    exact selectAddress_eq isPart inst.address
  · rw [isAddress]
    exact isSite

variable (laidOut : (Whole.program declarations).IsLaidOut)
  (progress : Progress declarations declarations.length enumeration calls)
include laidOut progress

theorem exists_instance (isInstance : (path, .component inst) ∈ calls) {steps : List PartStep}
    {iotas : Iotas} {target : DataType} (leads : LeadsTo inst.type steps iotas .instances target) :
    ∃ address found, selectPart inst.type steps iotas inst.address = some address ∧
      (address, found) ∈ enumeration.composer.instances.entries ∧ found.type = target := by
  rcases exists_selectPart progress isInstance leads with ⟨site, isSite, isAddress, isPart⟩
  have enumerated := enumerated_of_registers progress.composer progress.all laidOut
  rcases enumerated.instances.mapsTo isSite with ⟨found, isEntry⟩
  refine ⟨_, found, isAddress, isEntry, ?_⟩
  rw [progress.composer] at isEntry
  rcases (mem_instances progress.all laidOut).mp isEntry with ⟨isFound, other, isCall⟩
  have describes := progress.all.describes _ isCall
  have isSame : other = site := by
    apply addressOf_injOn laidOut .instances describes.mem_sites isSite
    rw [← isFound]
    exact describes.address_eq.symm
  have isOther := descend_of_instance progress.all isCall
  rw [isSame, isPart, Option.some.injEq, Prod.mk.injEq, Whole.stored.injEq] at isOther
  exact isOther.2.symm

theorem exists_bind (isInstance : (path, .component inst) ∈ calls) {left : List PartStep}
    {right : SelectBase} {iotas : Iotas} {reaction : Nat} {param : Int}
    (binds : BindsReaction members inst.type left right iotas reaction param) :
    ∃ port component, selectPart inst.type left iotas inst.address = some port ∧
      selectPart inst.type right.steps iotas inst.address = some component ∧
      ∀ bindings : Bindings, ∃ after,
        bindings.bind members enumeration.composer port component reaction param = some after := by
  rcases binds with ⟨⟨part, leads⟩, target, leadsToTarget, declaration, isDeclared, isId, isIota⟩
  rcases exists_selectPart progress isInstance leads with ⟨site, isSite, isAddress, _⟩
  have enumerated := enumerated_of_registers progress.composer progress.all laidOut
  rcases enumerated.pushPorts.mapsTo isSite with ⟨port, isPort⟩
  rcases exists_instance laidOut progress isInstance leadsToTarget with
    ⟨address, found, isComponent, isEntry, isType⟩
  have isReaction : (⟨found.id, reaction, param⟩ : ReactionKey) ∈
      enumerateReactions members enumeration.composer := by
    rw [enumerateReactions, List.mem_flatMap]
    refine ⟨_, isEntry, List.mem_flatMap.mpr ⟨declaration, ?_, ?_⟩⟩
    · rw [isType]
      exact isDeclared
    · rw [isId]
      exact List.mem_map_of_mem isIota
  refine ⟨_, address, isAddress, isComponent, fun bindings => ?_⟩
  simp [Bindings.bind, OrderedMap.find_eq_some isPort, OrderedMap.find_eq_some isEntry, isReaction]

theorem exists_bindPullPort (isInstance : (path, .component inst) ∈ calls)
    {left right : List PartStep} {iotas : Iotas} {getter : Arch.Word} {part target : DataType}
    (leads : LeadsTo inst.type left iotas .pullPorts part)
    (leadsToTarget : LeadsTo inst.type right iotas .instances target)
    (isGetter : getter ∈ members.getters target) :
    ∃ port component, selectPart inst.type left iotas inst.address = some port ∧
      selectPart inst.type right iotas inst.address = some component ∧
      ∀ bindings : Bindings, ∃ after,
        bindings.bindPullPort members enumeration.composer port component getter = some after := by
  rcases exists_selectPart progress isInstance leads with ⟨site, isSite, isAddress, _⟩
  have enumerated := enumerated_of_registers progress.composer progress.all laidOut
  rcases enumerated.pullPorts.mapsTo isSite with ⟨port, isPort⟩
  rcases exists_instance laidOut progress isInstance leadsToTarget with
    ⟨address, found, isComponent, isEntry, isType⟩
  have isKey : (⟨found.id, getter⟩ : GetterKey) ∈ enumerateGetters members enumeration.composer := by
    rw [enumerateGetters, List.mem_flatMap]
    refine ⟨_, isEntry, List.mem_map_of_mem ?_⟩
    rw [isType]
    exact isGetter
  refine ⟨_, address, isAddress, isComponent, fun bindings => ?_⟩
  simp [Bindings.bindPullPort, OrderedMap.find_eq_some isPort, OrderedMap.find_eq_some isEntry,
    isKey]

variable (isInstance : (path, .component inst) ∈ calls)
include isInstance

mutual

theorem BindStatement.exists_accept (statement : BindStatement) (iotas : Iotas)
    (isChecked : statement.IsChecked members inst.type iotas) (bindings : Bindings) :
    ∃ after, statement.accept members enumeration.composer inst.type inst.address iotas bindings =
      some after := by
  cases statement with
  | statementList statements =>
      rw [BindStatement.IsChecked] at isChecked
      rw [BindStatement.accept]
      exact statements.exists_visitChildren iotas isChecked bindings
  | ifElse condition trueBody falseBody =>
      cases condition with
      | valueExpression test =>
          rw [BindStatement.IsChecked] at isChecked
          rw [BindStatement.accept]
          split
          · next isTrue => exact trueBody.exists_accept iotas (isChecked.1 isTrue) bindings
          · next isFalse =>
            have isOther := Bool.eq_false_iff.mpr isFalse
            exact falseBody.exists_accept iotas (isChecked.2 isOther) bindings
      | variableExpression =>
          rw [BindStatement.IsChecked] at isChecked
          exact isChecked.elim
  | forIota symbol limit body =>
      rw [BindStatement.IsChecked] at isChecked
      rw [BindStatement.accept]
      apply exists_foldlM
      intro idx isIdx state
      exact body.exists_accept (Function.update iotas symbol idx)
        (isChecked idx (List.mem_range.mp isIdx)) state
  | bindPushPort left right reaction =>
      rw [BindStatement.IsChecked] at isChecked
      rcases exists_bind laidOut progress isInstance isChecked with
        ⟨port, component, isPort, isComponent, binds⟩
      simpa [BindStatement.accept, isPort, isComponent] using binds bindings
  | bindPushPortParameter left right reaction param =>
      rw [BindStatement.IsChecked] at isChecked
      rcases exists_bind laidOut progress isInstance isChecked with
        ⟨port, component, isPort, isComponent, binds⟩
      simpa [BindStatement.accept, isPort, isComponent] using binds bindings
  | bindPullPort left right getter =>
      cases right with
      | this =>
          rw [BindStatement.IsChecked] at isChecked
          exact isChecked.elim
      | part steps =>
          rw [BindStatement.IsChecked] at isChecked
          rcases isChecked with ⟨⟨part, leads⟩, target, leadsToTarget, isGetter⟩
          rcases exists_bindPullPort laidOut progress isInstance leads leadsToTarget isGetter with
            ⟨port, component, isPort, isComponent, binds⟩
          simpa [BindStatement.accept, isPort, isComponent] using binds bindings
  | other => exact ⟨bindings, by rw [BindStatement.accept]⟩

theorem BindStatements.exists_visitChildren (statements : BindStatements) (iotas : Iotas)
    (areChecked : statements.AreChecked members inst.type iotas) (bindings : Bindings) :
    ∃ after, statements.visitChildren members enumeration.composer inst.type inst.address iotas
      bindings = some after := by
  cases statements with
  | nil => exact ⟨bindings, by rw [BindStatements.visitChildren]⟩
  | cons statement rest =>
      rw [BindStatements.AreChecked] at areChecked
      rcases statement.exists_accept iotas areChecked.1 bindings with ⟨next, isNext⟩
      rcases rest.exists_visitChildren iotas areChecked.2 next with ⟨after, runs⟩
      exact ⟨after, by simp [BindStatements.visitChildren, isNext, runs]⟩

end

end Ends

end Rcgo.Composition
