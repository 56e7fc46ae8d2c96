import Rcgo.Code.Kind
import Rcgo.Foundation.NameResolution
import Mathlib.Data.Option.Basic

/-!
# Scopes

`scope.cpp` with the symbols of `symbol.cpp` that it tells apart.  The scope of
an `activate` or a `change` block is opened empty and then gets changed copies of
symbols of the scopes around it.
-/

namespace Rcgo.Code

mutual

/-- `Type::contains_pointer`. -/
def DataType.containsPointer : DataType → Bool
  | .basic kind => kind == .string || kind == .fileDescriptor
  | .struct fields => fields.containsPointer
  | .component fields => fields.containsPointer
  | .array _ base => base.containsPointer
  | .pointer _ => true
  | .slice _ => true
  | .heap base => base.containsPointer
  | .callable _ _ => false
  | .named _ definition => definition.containsPointer
  | .declared _ => false

/-- The loop over the fields in `Struct::contains_pointer_i`. -/
def Fields.containsPointer : Fields → Bool
  | .nil => false
  | .cons type rest => type.containsPointer || rest.containsPointer

end

end Rcgo.Code

namespace Rcgo.Checker

open Rcgo.Code Rcgo.Foundation

/-- `::Mutability`. -/
inductive Mutability where
  | mutable
  | immutable
  | foreign
  deriving DecidableEq, Repr

/-- `Parameter::Kind`. -/
inductive ParameterKind where
  | ordinary
  | ordinaryDuplicate
  | receiver
  | receiverDuplicate
  | returned
  deriving DecidableEq, Repr

/-- The kinds that `make`, `make_receiver` and `make_return` give. -/
inductive DeclaredKind where
  | ordinary
  | receiver
  | returned
  deriving DecidableEq, Repr

/-- A parameter as it was made.  Symbols are told apart by their numbers. -/
structure DeclaredParameter where
  symbol : Nat
  name : String
  type : DataType
  intrinsicMutability : Mutability
  indirectionMutability : Mutability
  kind : DeclaredKind
  deriving DecidableEq

/-- A parameter or a duplicate of one, `original_`. -/
inductive Parameter where
  | declared (parameter : DeclaredParameter)
  | duplicateOf (indirectionMutability : Mutability) (original : Parameter)
  deriving DecidableEq

namespace Parameter

def declaration : Parameter → DeclaredParameter
  | declared parameter => parameter
  | duplicateOf _ original => original.declaration

/-- `Symbol::name`. -/
def name (parameter : Parameter) : String :=
  parameter.declaration.name

/-- `Parameter::type`. -/
def type (parameter : Parameter) : DataType :=
  parameter.declaration.type

/-- `Parameter::kind`. -/
def kind : Parameter → ParameterKind
  | declared parameter =>
      match parameter.kind with
      | .ordinary => .ordinary
      | .receiver => .receiver
      | .returned => .returned
  | duplicateOf _ original =>
      match original.kind with
      | .receiver => .receiverDuplicate
      | .ordinary => .ordinaryDuplicate
      | kind => kind

/-- `Parameter::indirection_mutability`. -/
def indirectionMutability : Parameter → Mutability
  | declared parameter => parameter.indirectionMutability
  | duplicateOf indirectionMutability _ => indirectionMutability

/-- `Parameter::is_foreign_safe`. -/
def isForeignSafe (parameter : Parameter) : Bool :=
  !(parameter.type.containsPointer && parameter.indirectionMutability != .foreign)

/-- `Parameter::duplicate`; a return parameter is not reached. -/
def duplicate (parameter : Parameter) (mutability : Mutability) : Option Parameter :=
  match parameter.kind with
  | .returned => none
  | _ => some (duplicateOf mutability parameter)

/-- `Parameter::offset`, with the offsets that have been allocated. -/
def offset (offsets : Nat → Int) : Parameter → Int
  | declared parameter => offsets parameter.symbol
  | duplicateOf _ original => original.offset offsets

end Parameter

/-- A variable as it was made. -/
structure DeclaredVariable where
  symbol : Nat
  name : String
  type : DataType
  intrinsicMutability : Mutability
  indirectionMutability : Mutability
  deriving DecidableEq

/-- A variable or a duplicate of one, `original_`. -/
inductive LocalVariable where
  | declared (localVariable : DeclaredVariable)
  | duplicateOf (original : LocalVariable)
  deriving DecidableEq

namespace LocalVariable

def declaration : LocalVariable → DeclaredVariable
  | declared localVariable => localVariable
  | duplicateOf original => original.declaration

/-- `Symbol::name`. -/
def name (localVariable : LocalVariable) : String :=
  localVariable.declaration.name

/-- `Variable::type`. -/
def type (localVariable : LocalVariable) : DataType :=
  localVariable.declaration.type

/-- `Variable::indirection_mutability`: a duplicate is foreign. -/
def indirectionMutability : LocalVariable → Mutability
  | declared localVariable => localVariable.indirectionMutability
  | duplicateOf _ => .foreign

/-- `Variable::offset`. -/
def offset (offsets : Nat → Int) : LocalVariable → Int
  | declared localVariable => offsets localVariable.symbol
  | duplicateOf original => original.offset offsets

end LocalVariable

/-- A symbol, by the classes that scopes tell apart.  A marker has nothing but
the name of the symbol that it hides. -/
inductive Symbol where
  | parameter (parameter : Parameter)
  | localVariable (localVariable : LocalVariable)
  | hidden (symbol : Symbol)
  | other (symbol : Nat) (name : String)
  deriving DecidableEq

/-- `Symbol::name`. -/
def Symbol.name : Symbol → String
  | .parameter declared => declared.name
  | .localVariable declared => declared.name
  | .hidden symbol => symbol.name
  | .other _ name => name

/-- `symbol_cast<Hidden>`. -/
def Symbol.isHidden : Symbol → Bool
  | .hidden _ => true
  | _ => false

/-- `Symbol::offset` of the symbols that have a place on the stack. -/
def Symbol.offset (offsets : Nat → Int) : Symbol → Option Int
  | .parameter declared => some (declared.offset offsets)
  | .localVariable declared => some (declared.offset offsets)
  | _ => none

/-- `Scope::symbols_`, in the order in which they were entered. -/
abbrev Scope := List Symbol

/-- `Scope::find_local_symbol`. -/
def findLocalSymbol (scope : Scope) (identifier : String) : Option Symbol :=
  scope.find? fun symbol => decide (symbol.name = identifier)

/-- `Scope::find_global_symbol`, for a scope followed by its parents. -/
def findGlobalSymbol : List Scope → String → Option Symbol
  | [], _ => none
  | scope :: parents, identifier =>
      match findLocalSymbol scope identifier with
      | some symbol => some symbol
      | none => findGlobalSymbol parents identifier

def findsHidden (scopes : List Scope) (identifier : String) : Bool :=
  (findGlobalSymbol scopes identifier).any Symbol.isHidden

/-- The body of the loops of `Scope::activate`. -/
def activateSymbol (parents : List Scope) (entered : Scope) (symbol : Symbol) : Option Scope :=
  if findsHidden (entered :: parents) symbol.name then some entered
  else
    match symbol with
    | .parameter parameter =>
        if parameter.kind = .receiver then
          (parameter.duplicate .mutable).map fun duplicate => entered ++ [.parameter duplicate]
        else if parameter.type.containsPointer then
          if parameter.isForeignSafe then some (entered ++ [.hidden symbol]) else none
        else some entered
    | .localVariable localVariable =>
        if localVariable.type.containsPointer && localVariable.indirectionMutability == .foreign then
          some (entered ++ [.hidden symbol])
        else some entered
    | _ => some entered

/-- The body of the loops of `Scope::change`. -/
def changeSymbol (parents : List Scope) (entered : Scope) (symbol : Symbol) : Option Scope :=
  if findsHidden (entered :: parents) symbol.name then some entered
  else
    match symbol with
    | .parameter parameter =>
        if parameter.type.containsPointer then
          (parameter.duplicate .foreign).map fun duplicate => entered ++ [.parameter duplicate]
        else some entered
    | .localVariable localVariable =>
        if localVariable.type.containsPointer then
          some (entered ++ [.localVariable (.duplicateOf localVariable)])
        else some entered
    | _ => some entered

/-- The blocks that enter symbols of the scopes around them. -/
inductive Block where
  | activate
  | change
  deriving DecidableEq, Repr

/-- The body of the loops of `Scope::activate` and `Scope::change`. -/
def Block.enterSymbol : Block → List Scope → Scope → Symbol → Option Scope
  | activate => activateSymbol
  | change => changeSymbol

/-- `Scope::activate` and `Scope::change` of a scope that has just been opened:
the symbols that it has afterwards, none where an assertion fails or where the
code is not reached. -/
def Block.enter (block : Block) (parents : List Scope) : Option Scope :=
  parents.foldlM (fun entered scope => scope.foldlM (block.enterSymbol parents) entered) []

/-- The mutability that the block gives to what it duplicates. -/
def Block.mutability : Block → Mutability
  | activate => .mutable
  | change => .foreign

/-- The second symbol is the duplicate of the first that the block makes. -/
inductive Block.Duplicates (block : Block) : Symbol → Symbol → Prop where
  | parameter (parameter : Parameter) :
      block.Duplicates (.parameter parameter) (.parameter (.duplicateOf block.mutability parameter))
  | localVariable (localVariable : LocalVariable) :
      block.Duplicates (.localVariable localVariable) (.localVariable (.duplicateOf localVariable))

/-- What a symbol may have become in the block: itself, a duplicate with the
changed mutability, or a marker that hides it. -/
inductive Block.View (block : Block) : Symbol → Symbol → Prop where
  | itself (symbol : Symbol) : block.View symbol symbol
  | duplicate {symbol duplicate : Symbol} (made : block.Duplicates symbol duplicate) :
      block.View symbol duplicate
  | hidden (symbol : Symbol) : block.View symbol (.hidden symbol)

/-- The block can be entered, every identifier finds what it found just outside
as the block sees it, and what is duplicated keeps its place on the stack. -/
structure Block.Resolves (block : Block) (parents : List Scope) (entered : Scope) : Prop where
  enters : block.enter parents = some entered
  finds : ∀ identifier, Option.Rel block.View (findGlobalSymbol parents identifier)
    (findGlobalSymbol (entered :: parents) identifier)
  offsets : ∀ duplicate ∈ entered, duplicate.isHidden = false →
    ∃ symbol ∈ parents.flatten, block.Duplicates symbol duplicate ∧
      ∀ offsets, duplicate.offset offsets = symbol.offset offsets

def Block.Correct (block : Block) (parents : List Scope) : Prop :=
  ∃ entered, block.Resolves parents entered

/-- What the block enters anew, changed or hidden. -/
def Block.affects : Block → Symbol → Bool
  | activate, .parameter parameter => parameter.kind == .receiver || parameter.type.containsPointer
  | activate, .localVariable localVariable =>
      localVariable.type.containsPointer && localVariable.indirectionMutability == .foreign
  | change, .parameter parameter => parameter.type.containsPointer
  | change, .localVariable localVariable => localVariable.type.containsPointer
  | _, _ => false

/-- The parameters that must not come up unless their names are hidden. -/
def Block.refuses : Block → Symbol → Bool
  | activate, .parameter parameter => parameter.kind != .receiver && !parameter.isForeignSafe
  | change, .parameter parameter => parameter.type.containsPointer && parameter.kind == .returned
  | _, _ => false

/-- What the block enters for a symbol that it affects. -/
def Block.rewrite : Block → Symbol → Symbol
  | activate, .parameter parameter =>
      if parameter.kind = .receiver then .parameter (.duplicateOf .mutable parameter)
      else .hidden (.parameter parameter)
  | activate, .localVariable localVariable => .hidden (.localVariable localVariable)
  | change, .parameter parameter => .parameter (.duplicateOf .foreign parameter)
  | change, .localVariable localVariable => .localVariable (.duplicateOf localVariable)
  | _, symbol => symbol

section Rewriting

variable {block : Block} {parents : List Scope} {entered : Scope} {identifier : String}

private theorem name_rewrite (block : Block) (symbol : Symbol) :
    (block.rewrite symbol).name = symbol.name := by
  cases block with
  | activate =>
      cases symbol with
      | parameter parameter =>
          simp only [Block.rewrite]
          split <;> rfl
      | _ => rfl
  | change => cases symbol <;> rfl

private theorem affects_of_refuses (block : Block) (symbol : Symbol)
    (refused : block.refuses symbol = true) : block.affects symbol = true := by
  cases block <;> cases symbol with
  | parameter parameter =>
      simp only [Block.refuses, Block.affects, Parameter.isForeignSafe, Bool.not_not,
        Bool.and_eq_true] at refused ⊢
      simp [refused]
  | _ => cases refused

/-- The block as a rewriting of symbols. -/
def Block.rewriting (block : Block) : Rewriting Symbol String where
  name := Symbol.name
  isHidden := Symbol.isHidden
  affects := block.affects
  refuses := block.refuses
  rewrite := block.rewrite
  name_rewrite := name_rewrite block
  affects_of_refuses := affects_of_refuses block

theorem findGlobalSymbol_eq :
    findGlobalSymbol parents identifier = block.rewriting.resolve parents.flatten identifier := by
  induction parents with
  | nil => rfl
  | cons scope parents induction =>
      rw [List.flatten_cons, Rewriting.resolve_append, ← induction, findGlobalSymbol]
      change _ = (findLocalSymbol scope identifier).or _
      cases findLocalSymbol scope identifier <;> rfl

theorem findsHidden_eq (symbol : Symbol) :
    findsHidden (entered :: parents) symbol.name =
      (block.rewriting.resolve (entered ++ parents.flatten) symbol.name).any Symbol.isHidden := by
  rw [findsHidden, findGlobalSymbol_eq, List.flatten_cons]

theorem enterSymbol_eq (symbol : Symbol) :
    block.enterSymbol parents entered symbol =
      block.rewriting.enterSymbol parents.flatten entered symbol := by
  unfold Rewriting.enterSymbol
  change _ = if (block.rewriting.resolve (entered ++ parents.flatten) symbol.name).any
    Symbol.isHidden then _ else if block.refuses symbol then _ else if block.affects symbol then
      some (entered ++ [block.rewrite symbol]) else _
  rw [← findsHidden_eq]
  cases block with
  | activate =>
      unfold Block.enterSymbol activateSymbol
      refine if_congr Iff.rfl rfl ?_
      cases symbol with
      | parameter parameter =>
          by_cases isReceiver : parameter.kind = .receiver
          · simp [Block.refuses, Block.affects, Block.rewrite, Parameter.duplicate, isReceiver]
          · cases hasPointer : parameter.type.containsPointer <;>
              cases isSafe : parameter.isForeignSafe <;>
                simp_all [Block.refuses, Block.affects, Block.rewrite, Parameter.isForeignSafe]
      | localVariable localVariable => simp [Block.refuses, Block.affects, Block.rewrite]
      | _ => rfl
  | change =>
      unfold Block.enterSymbol changeSymbol
      refine if_congr Iff.rfl rfl ?_
      cases symbol with
      | parameter parameter =>
          cases hasPointer : parameter.type.containsPointer <;>
            cases isKind : parameter.kind <;>
              simp [Block.refuses, Block.affects, Block.rewrite, Parameter.duplicate, hasPointer,
                isKind]
      | localVariable localVariable =>
          cases hasPointer : localVariable.type.containsPointer <;>
            simp [Block.refuses, Block.affects, Block.rewrite, hasPointer]
      | _ => rfl

theorem enter_eq : block.enter parents = block.rewriting.enter parents.flatten := by
  have loops : ∀ (scopes : List Scope) (entered : Scope),
      scopes.foldlM (fun entered scope => scope.foldlM (block.enterSymbol parents) entered) entered =
        scopes.flatten.foldlM (block.rewriting.enterSymbol parents.flatten) entered := by
    intro scopes
    induction scopes with
    | nil => exact fun _ => rfl
    | cons scope scopes induction =>
        intro entered
        rw [List.foldlM_cons, List.flatten_cons, List.foldlM_append]
        have same : scope.foldlM (block.enterSymbol parents) entered =
            scope.foldlM (block.rewriting.enterSymbol parents.flatten) entered :=
          congrArg (fun body => scope.foldlM body entered)
            (funext fun entered => funext fun symbol => enterSymbol_eq symbol)
        rw [same]
        exact congrArg _ (funext induction)
  exact loops parents []

theorem rewrite_spec (symbol : Symbol) (affected : block.affects symbol = true) :
    block.Duplicates symbol (block.rewrite symbol) ∨ block.rewrite symbol = .hidden symbol := by
  cases block with
  | activate =>
      cases symbol with
      | parameter parameter =>
          simp only [Block.rewrite]
          split
          · exact Or.inl (.parameter parameter)
          · exact Or.inr rfl
      | localVariable localVariable => exact Or.inr rfl
      | _ => cases affected
  | change =>
      cases symbol with
      | parameter parameter => exact Or.inl (.parameter parameter)
      | localVariable localVariable => exact Or.inl (.localVariable localVariable)
      | _ => cases affected

theorem view_rewrite (symbol : Symbol) (affected : block.affects symbol = true) :
    block.View symbol (block.rewrite symbol) := by
  rcases rewrite_spec symbol affected with made | isHidden
  · exact .duplicate made
  · rw [isHidden]
    exact .hidden symbol

theorem Block.Duplicates.injective {symbol other duplicate : Symbol}
    (first : block.Duplicates symbol duplicate) (second : block.Duplicates other duplicate) :
    other = symbol := by
  cases first <;> cases second <;> rfl

theorem Block.Duplicates.isHidden_eq {symbol duplicate : Symbol}
    (made : block.Duplicates symbol duplicate) : duplicate.isHidden = false := by
  cases made <;> rfl

theorem Block.Duplicates.offset_eq {symbol duplicate : Symbol}
    (made : block.Duplicates symbol duplicate) (offsets : Nat → Int) :
    duplicate.offset offsets = symbol.offset offsets := by
  cases made <;> rfl

theorem eq_of_view_rewrite (symbol other : Symbol) (affected : block.affects other = true)
    (view : block.View symbol (block.rewrite other)) :
    other = symbol ∨ block.rewrite other = symbol := by
  generalize isRewritten : block.rewrite other = rewritten at view
  cases view with
  | itself => exact Or.inr rfl
  | duplicate made =>
      rcases rewrite_spec other affected with second | isHidden
      · exact Or.inl (made.injective (isRewritten ▸ second))
      · have notHidden := made.isHidden_eq
        rw [← isRewritten, isHidden] at notHidden
        cases notHidden
  | hidden =>
      rcases rewrite_spec other affected with second | isHidden
      · have notHidden := second.isHidden_eq
        rw [isRewritten] at notHidden
        cases notHidden
      · rw [isRewritten, Symbol.hidden.injEq] at isHidden
        exact Or.inl isHidden.symm

theorem offset_of_enter (runs : block.enter parents = some entered) {duplicate : Symbol}
    (isMember : duplicate ∈ entered) (notHidden : duplicate.isHidden = false) :
    ∃ symbol ∈ parents.flatten, block.Duplicates symbol duplicate ∧
      ∀ offsets, duplicate.offset offsets = symbol.offset offsets := by
  rw [enter_eq] at runs
  rcases Rewriting.mem_of_enter runs isMember with ⟨symbol, inside, affected, isRewritten⟩
  rcases rewrite_spec symbol affected with made | isHidden
  · have isDuplicate : block.Duplicates symbol duplicate := isRewritten ▸ made
    exact ⟨symbol, inside, isDuplicate, isDuplicate.offset_eq⟩
  · rw [isRewritten] at notHidden
    change (block.rewrite symbol).isHidden = false at notHidden
    rw [isHidden] at notHidden
    cases notHidden

end Rewriting

/-- The block refuses no symbol, and of each name it rewrites none but the
symbol that is visible. -/
structure Block.Regular (block : Block) (parents : List Scope) : Prop where
  admits : block.rewriting.Admits parents.flatten
  unshadowed : block.rewriting.Unshadowed parents.flatten

/-- An `activate` or a `change` block is entered as it should be exactly in
those scopes where it refuses no symbol that it comes to and where nothing that
it rewrites is shadowed. -/
theorem Block.correct_iff (block : Block) (parents : List Scope) :
    block.Correct parents ↔ block.Regular parents := by
  have keeps : ∀ entered, block.enter parents = some entered →
      ((∀ identifier, Option.Rel block.View (findGlobalSymbol parents identifier)
        (findGlobalSymbol (entered :: parents) identifier)) ↔
          block.rewriting.Unshadowed parents.flatten) := by
    intro entered runs
    rw [enter_eq] at runs
    rw [← Rewriting.keeps_iff Block.View.itself view_rewrite eq_of_view_rewrite runs]
    refine forall_congr' fun identifier => ?_
    rw [findGlobalSymbol_eq, findGlobalSymbol_eq, List.flatten_cons]
  constructor
  · rintro ⟨entered, resolves⟩
    have runs := resolves.enters
    exact ⟨Rewriting.enter_isSome_iff.mp ⟨entered, enter_eq.symm.trans runs⟩,
      (keeps entered runs).mp resolves.finds⟩
  · intro regular
    rcases Rewriting.enter_isSome_iff.mpr regular.admits with ⟨entered, runs⟩
    have enters : block.enter parents = some entered := enter_eq.trans runs
    exact ⟨entered, enters, (keeps entered enters).mpr regular.unshadowed,
      fun duplicate isMember notHidden => offset_of_enter enters isMember notHidden⟩

section Shadowing

/-- A parameter `p` that is a pointer. -/
def pointerParameter : Parameter :=
  .declared ⟨0, "p", .pointer (.basic .int), .mutable, .mutable, .ordinary⟩

/-- A variable `p` that is an integer. -/
def integerVariable : LocalVariable :=
  .declared ⟨1, "p", .basic .int, .mutable, .mutable⟩

/-- A block of a function declares `p` again. -/
def shadowingScopes : List Scope :=
  [[.localVariable integerVariable], [.parameter pointerParameter]]

/-- In a `change` block there `p` is no longer the variable but a duplicate of
the parameter. -/
theorem Block.shadowing_not_correct :
    ¬∀ (block : Block) (parents : List Scope), block.Correct parents := by
  intro correct
  rcases correct .change shadowingScopes with ⟨entered, resolves⟩
  have isEntered : Block.change.enter shadowingScopes =
      some [.parameter (.duplicateOf .foreign pointerParameter)] := by decide
  have same : [.parameter (.duplicateOf .foreign pointerParameter)] = entered :=
    Option.some.inj (isEntered.symm.trans resolves.enters)
  have outside : findGlobalSymbol shadowingScopes "p" = some (.localVariable integerVariable) := by
    decide
  have inside : findGlobalSymbol (entered :: shadowingScopes) "p" =
      some (.parameter (.duplicateOf .foreign pointerParameter)) := by
    rw [← same]
    decide
  have found := resolves.finds "p"
  rw [outside, inside] at found
  cases found with
  | some view =>
      cases view with
      | duplicate made => cases made

end Shadowing

end Rcgo.Checker
