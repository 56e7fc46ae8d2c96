import Rcgo.Code.MemoryModel
import Rcgo.Foundation.NestedScopes

/-!
# Allocation of local variables

`allocate_statement_stack_variables`: every local variable of a body gets its
offset from the base pointer, and the offsets of a block are given out again
behind it.
-/

namespace Rcgo.Code

mutual

/-- A statement of a body.  The statements that the allocation passes over are
`simple`; the bodies of the others are blocks by the grammar. -/
inductive BodyStatement (σ : Type) where
  | simple
  | forIota (symbol : σ) (body : Block σ)
  | change (rootSymbol : σ) (body : Block σ)
  | ifStatement (before : BodyStatement σ) (trueBody : Block σ)
      (falseBody : BodyStatement σ)
  | whileStatement (body : Block σ)
  | activate (body : Block σ)
  | var (symbols : List σ)
  | block (block : Block σ)

/-- `StatementList`. -/
inductive Block (σ : Type) where
  | list (statements : BodyStatements σ)

/-- The statements of a block. -/
inductive BodyStatements (σ : Type) where
  | nil
  | cons (statement : BodyStatement σ) (rest : BodyStatements σ)

end

/-- `locals_pop (offset_after - offset_before)` and the assertion behind it. -/
def MemoryModel.restore (memoryModel : MemoryModel) (offsetBefore offsetAfter : Arch.Word) :
    Option MemoryModel :=
  let memoryModel := memoryModel.localsPop (offsetAfter - offsetBefore)
  if memoryModel.localsOffset = offsetBefore then some memoryModel else none

/-- The symbols of a variable declaration, one after the other. -/
def allocateVariables (memoryModel : MemoryModel) :
    List DataType → Option (List StackSymbol × MemoryModel)
  | [] => some ([], memoryModel)
  | type :: rest => do
      let (symbol, memoryModel) ← allocateVariable memoryModel type
      let (symbols, memoryModel) ← allocateVariables memoryModel rest
      some (symbol :: symbols, memoryModel)

mutual

/-- `allocate_statement_stack_variables`, none where an assertion fails or a
type has no size. -/
def allocateStatement (memoryModel : MemoryModel) :
    BodyStatement DataType → Option (BodyStatement StackSymbol × MemoryModel)
  | .simple => some (.simple, memoryModel)
  | .forIota symbol body => do
      let (symbol, entered) ← allocateVariable memoryModel symbol
      let (body, left) ← allocateBlock entered body
      let restored ← left.restore memoryModel.localsOffset entered.localsOffset
      some (.forIota symbol body, restored)
  | .change rootSymbol body => do
      let (rootSymbol, entered) ← allocateVariable memoryModel rootSymbol
      let (body, left) ← allocateBlock entered body
      let restored ← left.restore memoryModel.localsOffset entered.localsOffset
      some (.change rootSymbol body, restored)
  | .ifStatement before trueBody falseBody => do
      let (before, memoryModel) ← allocateStatement memoryModel before
      let (trueBody, memoryModel) ← allocateBlock memoryModel trueBody
      let (falseBody, memoryModel) ← allocateStatement memoryModel falseBody
      some (.ifStatement before trueBody falseBody, memoryModel)
  | .whileStatement body => do
      let (body, memoryModel) ← allocateBlock memoryModel body
      some (.whileStatement body, memoryModel)
  | .activate body => do
      let (body, memoryModel) ← allocateBlock memoryModel body
      some (.activate body, memoryModel)
  | .var symbols => do
      let (symbols, memoryModel) ← allocateVariables memoryModel symbols
      some (.var symbols, memoryModel)
  | .block block => do
      let (block, memoryModel) ← allocateBlock memoryModel block
      some (.block block, memoryModel)

/-- `visit (StatementList)`. -/
def allocateBlock (memoryModel : MemoryModel) :
    Block DataType → Option (Block StackSymbol × MemoryModel)
  | .list statements => do
      let (statements, left) ← allocateStatements memoryModel statements
      let restored ← left.restore memoryModel.localsOffset left.localsOffset
      some (.list statements, restored)

/-- The loop over the statements of a block. -/
def allocateStatements (memoryModel : MemoryModel) :
    BodyStatements DataType → Option (BodyStatements StackSymbol × MemoryModel)
  | .nil => some (.nil, memoryModel)
  | .cons statement rest => do
      let (statement, memoryModel) ← allocateStatement memoryModel statement
      let (rest, memoryModel) ← allocateStatements memoryModel rest
      some (.cons statement rest, memoryModel)

end

/-- A callable with its offsets. -/
structure StackFrame where
  parameters : AllocatedParameters
  body : Block StackSymbol
  memoryModel : MemoryModel

/-- `allocate_stack_variables` for a declaration with a body. -/
def allocateStackVariables (callable : Callable) (body : Block DataType) : Option StackFrame := do
  let (parameters, memoryModel) ← callable.allocate
  let (body, memoryModel) ← allocateBlock memoryModel body
  if memoryModel.localsEmpty then some ⟨parameters, body, memoryModel⟩ else none

/-! ## Scopes -/

section Scopes

variable {σ : Type}

mutual

/-- The variables that a statement declares, in order, each with the path of the
scope that the checker enters it into.  The statement is the one at position `i`
of `scope`, and a scope that it opens is the inner scope with this number. -/
def BodyStatement.declarations (scope : List Nat) (i : Nat) :
    BodyStatement σ → List (List Nat × σ)
  | .simple => []
  | .forIota symbol body => (scope ++ [i], symbol) :: body.declarations (scope ++ [i]) 0
  | .change rootSymbol body => (scope ++ [i], rootSymbol) :: body.declarations (scope ++ [i]) 0
  | .ifStatement before trueBody falseBody =>
      before.declarations (scope ++ [i]) 0 ++ trueBody.declarations (scope ++ [i]) 1 ++
        falseBody.declarations (scope ++ [i]) 2
  | .whileStatement body => body.declarations (scope ++ [i]) 0
  | .activate body => body.declarations (scope ++ [i]) 0
  | .var symbols => symbols.map fun symbol => (scope, symbol)
  | .block block => block.declarations scope i

def Block.declarations (scope : List Nat) (i : Nat) : Block σ → List (List Nat × σ)
  | .list statements => statements.declarations (scope ++ [i]) 0

/-- The variables of statements, the first of which is at position `i`. -/
def BodyStatements.declarations (scope : List Nat) (i : Nat) :
    BodyStatements σ → List (List Nat × σ)
  | .nil => []
  | .cons statement rest => statement.declarations scope i ++ rest.declarations scope (i + 1)

end

end Scopes

/-- The bytes of a local variable, relative to the base pointer. -/
def StackSymbol.bytes (symbol : StackSymbol) : Set Int :=
  {n | symbol.offset.toInt ≤ n ∧ n < symbol.offset.toInt + symbol.type.sizeOnStack.getD 0}

/-- The locals area: what is reserved behind the saved base pointer. -/
def MemoryModel.localsArea (memoryModel : MemoryModel) : Set Int :=
  {n | 8 ≤ n ∧ n < 8 + memoryModel.localsSizeOnStack.toNat}

/-- What is claimed of the local variables of a callable: the allocation succeeds,
they lie in the locals area, and those in related scopes keep apart. -/
def Callable.AllocatesLocals (callable : Callable) (body : Block DataType)
    (related : List Nat → List Nat → Prop) : Prop :=
  ∃ frame, allocateStackVariables callable body = some frame ∧
    (∀ declaration ∈ frame.body.declarations [] 0,
      declaration.2.bytes ⊆ frame.memoryModel.localsArea) ∧
      (frame.body.declarations [] 0).Pairwise fun declaration other =>
        related declaration.1 other.1 → Disjoint declaration.2.bytes other.2.bytes

/-- After the block the current offset is what it was before it. -/
def Block.RestoresOffset (block : Block DataType) : Prop :=
  ∀ memoryModel allocated after, allocateBlock memoryModel block = some (allocated, after) →
    after.localsOffset = memoryModel.localsOffset

/-- The scopes are the same or one is inside the other. -/
def Nested (scope other : List Nat) : Prop :=
  scope <+: other ∨ other <+: scope

open Foundation

section Placement

variable {memoryModel middle after : MemoryModel} {scope : List Nat} {first limit total : Nat}
  {declarations others : List (List Nat × StackSymbol)}

namespace StackSymbol

def lower (symbol : StackSymbol) : Nat :=
  symbol.offset.toNat

def upper (symbol : StackSymbol) : Nat :=
  symbol.offset.toNat + symbol.type.sizeOnStack.getD 0

end StackSymbol

/-- There is room for so many bytes. -/
structure MemoryModel.Room (memoryModel : MemoryModel) (total : Nat) : Prop where
  aligned : stackAlignment ∣ memoryModel.localsOffset.toNat
  small : memoryModel.localsOffset.toNat + total < 2 ^ 63

/-- What an allocation does: it reserves the bytes of the variables that are
declared, and these are placed from the current offset on. -/
structure Allocation (memoryModel after : MemoryModel) (scope : List Nat) (first limit total : Nat)
    (declarations : List (List Nat × StackSymbol)) : Prop where
  size : after.localsSizeOnStack = memoryModel.localsSizeOnStack + BitVec.ofNat 64 total
  aligned : stackAlignment ∣ after.localsOffset.toNat
  placed : ScopedPlacement StackSymbol.lower StackSymbol.upper scope first limit
    memoryModel.localsOffset.toNat after.localsOffset.toNat (memoryModel.localsOffset.toNat + total)
    declarations

theorem sizeOnStackOfList_append {types rest : List DataType} {total : Nat} :
    sizeOnStackOfList (types ++ rest) = some total ↔
      ∃ size others, sizeOnStackOfList types = some size ∧ sizeOnStackOfList rest = some others ∧
        size + others = total := by
  induction types generalizing total with
  | nil => simp [sizeOnStackOfList]
  | cons type types inductionHypothesis =>
      simp only [List.cons_append, sizeOnStackOfList, Option.bind_eq_bind, Option.bind_eq_some_iff,
        inductionHypothesis, Option.some.injEq]
      constructor
      · rintro ⟨first, isFirst, _, ⟨size, others, isSize, areOthers, rfl⟩, rfl⟩
        exact ⟨first + size, others, ⟨first, isFirst, size, isSize, rfl⟩, areOthers, by omega⟩
      · rintro ⟨_, others, ⟨first, isFirst, size, isSize, rfl⟩, areOthers, rfl⟩
        exact ⟨first, isFirst, size + others, ⟨size, others, isSize, areOthers, rfl⟩, by omega⟩

namespace MemoryModel.Room

theorem mono {less : Nat} (room : memoryModel.Room total) (le : less ≤ total) :
    memoryModel.Room less :=
  ⟨room.aligned, by have := room.small; omega⟩

theorem behind {size : Nat} (room : memoryModel.Room (size + total))
    (allocation : Allocation memoryModel after scope first limit size declarations) :
    after.Room total := by
  have stopLe := allocation.placed.stop_le
  have small := room.small
  exact ⟨allocation.aligned, by omega⟩

end MemoryModel.Room

namespace Allocation

theorem nothing (aligned : stackAlignment ∣ memoryModel.localsOffset.toNat) :
    Allocation memoryModel memoryModel scope first limit 0 [] where
  size := (BitVec.add_zero _).symm
  aligned := aligned
  placed := ScopedPlacement.empty scope first limit _

theorem append {last size : Nat}
    (allocation : Allocation memoryModel middle scope first limit total declarations)
    (rest : Allocation middle after scope limit last size others) (firstLe : first ≤ limit)
    (lastLe : limit ≤ last) :
    Allocation memoryModel after scope first last (total + size) (declarations ++ others) where
  size := by rw [rest.size, allocation.size, BitVec.ofNat_add, BitVec.add_assoc]
  aligned := rest.aligned
  placed := by
    have stopLe := allocation.placed.stop_le
    have restLe := rest.placed.stop_le
    exact allocation.placed.append
      (rest.placed.mono (Nat.le_refl _) (by omega) (by omega)) (Nat.le_refl _) firstLe lastLe
      (by omega)

end Allocation

theorem allocateVariable_spec {type : DataType} {size : Nat}
    (isSize : type.sizeOnStack = some size) (room : memoryModel.Room size) (scope : List Nat)
    (first limit : Nat) :
    ∃ symbol after, allocateVariable memoryModel type = some (symbol, after) ∧
      Allocation memoryModel after scope first limit size [(scope, symbol)] ∧
        after.localsOffset.toNat = memoryModel.localsOffset.toNat + size := by
  have small := room.small
  have isWord : Arch.sizeOnStack type = some (BitVec.ofNat 64 size) := by
    rw [Arch.sizeOnStack_eq, isSize, Option.map_some]
  have isOffset : (memoryModel.localsOffset + BitVec.ofNat 64 size).toNat =
      memoryModel.localsOffset.toNat + size := by
    rw [BitVec.toNat_add, BitVec.toNat_ofNat, Nat.add_mod_mod]
    exact Nat.mod_eq_of_lt (by omega)
  have divides : stackAlignment ∣ size := by
    rcases Option.map_eq_some_iff.mp isSize with ⟨n, _, rfl⟩
    exact dvd_aligned n
  have isAllocated : allocateVariable memoryModel type =
      some (⟨memoryModel.localsOffset, type⟩,
        { memoryModel with
          localsOffset := memoryModel.localsOffset + BitVec.ofNat 64 size
          localsSizeOnStack := memoryModel.localsSizeOnStack + BitVec.ofNat 64 size }) := by
    rw [allocateVariable, MemoryModel.localsPush, isWord]
    rfl
  refine ⟨_, _, isAllocated, ⟨rfl, ?_, ?_⟩, isOffset⟩
  · change stackAlignment ∣ (memoryModel.localsOffset + BitVec.ofNat 64 size).toNat
    rw [isOffset]
    exact Nat.dvd_add room.aligned divides
  · change ScopedPlacement _ _ _ _ _ _ (memoryModel.localsOffset + BitVec.ofNat 64 size).toNat _ _
    rw [isOffset]
    apply ScopedPlacement.single
    · exact Nat.le_refl _
    · change _ + type.sizeOnStack.getD 0 = _
      rw [isSize, Option.getD_some]
    · exact Nat.le_add_right _ _

theorem restore_spec {offset : Arch.Word} (aligned : stackAlignment ∣ offset.toNat)
    (alignedAfter : stackAlignment ∣ after.localsOffset.toNat)
    (le : offset.toNat ≤ after.localsOffset.toNat) :
    after.restore offset after.localsOffset = some { after with localsOffset := offset } := by
  have isDifference : after.localsOffset - offset =
      BitVec.ofNat 64 (after.localsOffset.toNat - offset.toNat) := by
    apply BitVec.eq_of_toNat_eq
    rw [BitVec.toNat_sub_of_le le, BitVec.toNat_ofNat, Nat.mod_eq_of_lt]
    omega
  have isAlignment : IsAlignment stackAlignment := Or.inr ⟨3, by decide, rfl⟩
  have isRounded : Arch.alignUp (after.localsOffset - offset) (BitVec.ofNat 64 stackAlignment) =
      after.localsOffset - offset := by
    rw [isDifference, Arch.alignUp_ofNat _ isAlignment]
    congr 1
    exact aligned_of_dvd (Nat.dvd_sub alignedAfter aligned)
  have isOffset : after.localsOffset - (after.localsOffset - offset) = offset := by
    rw [BitVec.sub_eq_iff_eq_add, BitVec.add_comm, BitVec.sub_add_cancel]
  have isPopped : after.localsPop (after.localsOffset - offset) =
      { after with localsOffset := offset } := by
    rw [MemoryModel.localsPop, isRounded, isOffset]
  rw [MemoryModel.restore, isPopped, if_pos rfl]

theorem allocateVariables_spec (types : List DataType)
    (isTotal : sizeOnStackOfList types = some total) (room : memoryModel.Room total)
    (scope : List Nat) (i : Nat) :
    ∃ symbols after, allocateVariables memoryModel types = some (symbols, after) ∧
      Allocation memoryModel after scope i (i + 1) total (symbols.map fun symbol => (scope, symbol)) := by
  induction types generalizing memoryModel total with
  | nil =>
      cases isTotal
      exact ⟨[], memoryModel, rfl, Allocation.nothing room.aligned⟩
  | cons type rest inductionHypothesis =>
      simp only [sizeOnStackOfList, Option.bind_eq_bind, Option.bind_eq_some_iff,
        Option.some.injEq] at isTotal
      rcases isTotal with ⟨size, isSize, others, areOthers, rfl⟩
      rcases allocateVariable_spec isSize (room.mono (Nat.le_add_right _ _)) scope i i with
        ⟨symbol, middle, isSymbol, allocation, _⟩
      rcases inductionHypothesis areOthers (room.behind allocation) with
        ⟨symbols, after, runs, restAllocation⟩
      refine ⟨symbol :: symbols, after, ?_,
        allocation.append restAllocation (Nat.le_refl i) (Nat.le_succ i)⟩
      simp only [allocateVariables, isSymbol, runs, Option.bind_eq_bind, Option.bind_some]

/-- What is claimed of a block by induction: it leaves the offset as it was. -/
def AllocatesBlock (block : Block DataType) : Prop :=
  ∀ (memoryModel : MemoryModel) (scope : List Nat) (i total : Nat),
    sizeOnStackOfList ((block.declarations scope i).map Prod.snd) = some total →
    memoryModel.Room total →
      ∃ allocated after, allocateBlock memoryModel block = some (allocated, after) ∧
        Allocation memoryModel after scope i (i + 1) total (allocated.declarations scope i) ∧
          after.localsOffset = memoryModel.localsOffset

/-- What is claimed of the statements by induction. -/
def AllocatesStatement (statement : BodyStatement DataType) : Prop :=
  ∀ (memoryModel : MemoryModel) (scope : List Nat) (i total : Nat),
    sizeOnStackOfList ((statement.declarations scope i).map Prod.snd) = some total →
    memoryModel.Room total →
      ∃ allocated after, allocateStatement memoryModel statement = some (allocated, after) ∧
        Allocation memoryModel after scope i (i + 1) total (allocated.declarations scope i)

/-- What is claimed of the statements of a block by induction. -/
def AllocatesStatements (statements : BodyStatements DataType) : Prop :=
  ∀ (memoryModel : MemoryModel) (scope : List Nat) (i total : Nat),
    sizeOnStackOfList ((statements.declarations scope i).map Prod.snd) = some total →
    memoryModel.Room total →
      ∃ allocated after limit, allocateStatements memoryModel statements = some (allocated, after) ∧
        i ≤ limit ∧ Allocation memoryModel after scope i limit total (allocated.declarations scope i)

theorem AllocatesBlock.withSymbol {block : Block DataType} (allocates : AllocatesBlock block)
    {type : DataType} {i : Nat}
    (isTotal : sizeOnStackOfList
      (type :: (block.declarations (scope ++ [i]) 0).map Prod.snd) = some total)
    (room : memoryModel.Room total) :
    ∃ symbol entered allocated left restored,
      allocateVariable memoryModel type = some (symbol, entered) ∧
        allocateBlock entered block = some (allocated, left) ∧
          left.restore memoryModel.localsOffset entered.localsOffset = some restored ∧
            Allocation memoryModel restored scope i (i + 1) total
              ((scope ++ [i], symbol) :: allocated.declarations (scope ++ [i]) 0) := by
  simp only [sizeOnStackOfList, Option.bind_eq_bind, Option.bind_eq_some_iff,
    Option.some.injEq] at isTotal
  rcases isTotal with ⟨size, isSize, others, areOthers, rfl⟩
  rcases allocateVariable_spec isSize (room.mono (Nat.le_add_right _ _)) (scope ++ [i]) 0 0 with
    ⟨symbol, entered, isSymbol, allocation, isOffset⟩
  rcases allocates entered (scope ++ [i]) 0 others areOthers (room.behind allocation) with
    ⟨allocated, left, isAllocated, blockAllocation, isRestored⟩
  have both := allocation.append blockAllocation (Nat.le_refl 0) (Nat.zero_le 1)
  have restores := restore_spec room.aligned blockAllocation.aligned (by rw [isRestored, isOffset]; omega)
  rw [isRestored] at restores
  exact ⟨symbol, entered, allocated, left, _, isSymbol, isAllocated, restores, both.size,
    room.aligned, both.placed.nest⟩

mutual

theorem allocatesStatement (statement : BodyStatement DataType) :
    AllocatesStatement statement := by
  intro memoryModel scope i total isTotal room
  cases statement with
  | simple =>
      cases isTotal
      exact ⟨.simple, memoryModel, rfl, Allocation.nothing room.aligned⟩
  | forIota symbol body =>
      rcases (allocatesBlock body).withSymbol isTotal room with
        ⟨symbol, entered, allocated, left, restored, isSymbol, isAllocated, isRestored, allocation⟩
      refine ⟨.forIota symbol allocated, restored, ?_, allocation⟩
      simp only [allocateStatement, isSymbol, isAllocated, isRestored, Option.bind_eq_bind,
        Option.bind_some]
  | change rootSymbol body =>
      rcases (allocatesBlock body).withSymbol isTotal room with
        ⟨symbol, entered, allocated, left, restored, isSymbol, isAllocated, isRestored, allocation⟩
      refine ⟨.change symbol allocated, restored, ?_, allocation⟩
      simp only [allocateStatement, isSymbol, isAllocated, isRestored, Option.bind_eq_bind,
        Option.bind_some]
  | ifStatement before trueBody falseBody =>
      simp only [BodyStatement.declarations, List.map_append, sizeOnStackOfList_append] at isTotal
      rcases isTotal with ⟨_, falseSize, ⟨beforeSize, trueSize, isBefore, isTrue, rfl⟩, isFalse, rfl⟩
      rcases allocatesStatement before memoryModel (scope ++ [i]) 0 beforeSize isBefore
        (room.mono (by omega)) with ⟨before, middle, beforeRuns, beforeAllocation⟩
      have room₁ : middle.Room (trueSize + falseSize) :=
        MemoryModel.Room.behind (room.mono (by omega)) beforeAllocation
      rcases allocatesBlock trueBody middle (scope ++ [i]) 1 trueSize isTrue
        (room₁.mono (by omega)) with ⟨trueBody, afterTrue, trueRuns, trueAllocation, _⟩
      rcases allocatesStatement falseBody afterTrue (scope ++ [i]) 2 falseSize isFalse
        (room₁.behind trueAllocation) with ⟨falseBody, after, falseRuns, falseAllocation⟩
      refine ⟨.ifStatement before trueBody falseBody, after, ?_, ?_⟩
      · simp only [allocateStatement, beforeRuns, trueRuns, falseRuns, Option.bind_eq_bind,
          Option.bind_some]
      · have all := (beforeAllocation.append trueAllocation (by omega) (by omega)).append
          falseAllocation (by omega) (by omega)
        exact ⟨all.size, all.aligned, all.placed.nest.mono all.placed.start_le (Nat.le_refl _)
          all.placed.stop_le⟩
  | whileStatement body =>
      rcases allocatesBlock body memoryModel (scope ++ [i]) 0 total isTotal room with
        ⟨body, after, runs, allocation, _⟩
      refine ⟨.whileStatement body, after, ?_, allocation.size, allocation.aligned, ?_⟩
      · simp only [allocateStatement, runs, Option.bind_eq_bind, Option.bind_some]
      · exact allocation.placed.nest.mono allocation.placed.start_le (Nat.le_refl _)
          allocation.placed.stop_le
  | activate body =>
      rcases allocatesBlock body memoryModel (scope ++ [i]) 0 total isTotal room with
        ⟨body, after, runs, allocation, _⟩
      refine ⟨.activate body, after, ?_, allocation.size, allocation.aligned, ?_⟩
      · simp only [allocateStatement, runs, Option.bind_eq_bind, Option.bind_some]
      · exact allocation.placed.nest.mono allocation.placed.start_le (Nat.le_refl _)
          allocation.placed.stop_le
  | var symbols =>
      rw [BodyStatement.declarations, List.map_map, Function.comp_def, List.map_id'] at isTotal
      rcases allocateVariables_spec symbols isTotal room scope i with
        ⟨symbols, after, runs, allocation⟩
      refine ⟨.var symbols, after, ?_, allocation⟩
      simp only [allocateStatement, runs, Option.bind_eq_bind, Option.bind_some]
  | block block =>
      rcases allocatesBlock block memoryModel scope i total isTotal room with
        ⟨block, after, runs, allocation, _⟩
      refine ⟨.block block, after, ?_, allocation⟩
      simp only [allocateStatement, runs, Option.bind_eq_bind, Option.bind_some]

theorem allocatesBlock (block : Block DataType) : AllocatesBlock block := by
  intro memoryModel scope i total isTotal room
  cases block with
  | list statements =>
      rcases allocatesStatements statements memoryModel (scope ++ [i]) 0 total isTotal room with
        ⟨allocated, left, limit, runs, _, allocation⟩
      have restores := restore_spec room.aligned allocation.aligned allocation.placed.start_le
      refine ⟨.list allocated, { left with localsOffset := memoryModel.localsOffset }, ?_,
        ⟨allocation.size, room.aligned, allocation.placed.nest⟩, rfl⟩
      simp only [allocateBlock, runs, restores, Option.bind_eq_bind, Option.bind_some]

theorem allocatesStatements (statements : BodyStatements DataType) :
    AllocatesStatements statements := by
  intro memoryModel scope i total isTotal room
  cases statements with
  | nil =>
      cases isTotal
      exact ⟨.nil, memoryModel, i, rfl, Nat.le_refl i, Allocation.nothing room.aligned⟩
  | cons statement rest =>
      simp only [BodyStatements.declarations, List.map_append, sizeOnStackOfList_append] at isTotal
      rcases isTotal with ⟨size, others, isSize, areOthers, rfl⟩
      rcases allocatesStatement statement memoryModel scope i size isSize
        (room.mono (Nat.le_add_right _ _)) with ⟨statement, middle, runs, allocation⟩
      rcases allocatesStatements rest middle scope (i + 1) others areOthers
        (room.behind allocation) with ⟨rest, after, limit, restRuns, firstLe, restAllocation⟩
      refine ⟨.cons statement rest, after, limit, ?_, by omega,
        allocation.append restAllocation (by omega) firstLe⟩
      simp only [allocateStatements, runs, restRuns, Option.bind_eq_bind, Option.bind_some]

end

end Placement

section Parameters

variable (memoryModel : MemoryModel)

/-- The parts of the memory model that are about local variables. -/
def MemoryModel.SameLocals (memoryModel other : MemoryModel) : Prop :=
  other.localsOffset = memoryModel.localsOffset ∧
    other.localsSizeOnStack = memoryModel.localsSizeOnStack

theorem allocateParameter_sameLocals {parameter : Parameter}
    (sized : parameter.type.sizeOnStack ≠ none) :
    ∃ symbol after, allocateParameter memoryModel parameter = some (symbol, after) ∧
      memoryModel.SameLocals after := by
  rcases Option.ne_none_iff_exists'.mp sized with ⟨size, isSize⟩
  rw [allocateParameter, MemoryModel.argumentsPush, Arch.sizeOnStack_eq, isSize]
  refine ⟨_, _, rfl, ?_⟩
  dsimp only
  split
  · exact ⟨rfl, rfl⟩
  · exact ⟨rfl, rfl⟩

theorem allocateParameters_sameLocals (parameters : List Parameter)
    (sized : ∀ parameter ∈ parameters, parameter.type.sizeOnStack ≠ none) :
    ∃ symbols after, allocateParameters memoryModel parameters = some (symbols, after) ∧
      memoryModel.SameLocals after := by
  induction parameters with
  | nil => exact ⟨[], memoryModel, rfl, rfl, rfl⟩
  | cons parameter rest inductionHypothesis =>
      rcases inductionHypothesis fun other isOther => sized other (List.mem_cons_of_mem _ isOther) with
        ⟨symbols, middle, runs, same⟩
      rcases allocateParameter_sameLocals middle (sized parameter List.mem_cons_self) with ⟨symbol, after, isSymbol, sameAfter⟩
      refine ⟨symbol :: symbols, after, ?_, sameAfter.1.trans same.1, sameAfter.2.trans same.2⟩
      simp only [allocateParameters, runs, isSymbol, Option.bind_eq_bind, Option.bind_some]

theorem allocateIota_sameLocals (iota : Option Parameter)
    (sized : ∀ parameter ∈ iota, parameter.type.sizeOnStack ≠ none) :
    ∃ symbol after, allocateIota memoryModel iota = some (symbol, after) ∧
      memoryModel.SameLocals after := by
  cases iota with
  | none => exact ⟨none, memoryModel, rfl, rfl, rfl⟩
  | some parameter =>
      rcases allocateParameter_sameLocals memoryModel (sized parameter rfl) with
        ⟨symbol, after, isSymbol, same⟩
      refine ⟨some symbol, after, ?_, same⟩
      rw [allocateIota, isSymbol, Option.map_some]

/-- All parameters of a callable. -/
def Callable.parameters : Callable → List Parameter
  | action receiver iota => receiver :: iota.toList
  | bind receiver => [receiver]
  | function parameters returns => parameters ++ returns
  | method parameters returns => parameters ++ returns
  | initializer parameters returns => parameters ++ returns
  | getter parameters returns => parameters ++ returns
  | reaction parameters iota => parameters ++ iota.toList

theorem allocateSignature_sameLocals (parameters returns : List Parameter)
    (sized : ∀ parameter ∈ parameters ++ returns, parameter.type.sizeOnStack ≠ none) :
    ∃ symbols after, allocateSignature parameters returns = some (symbols, after) ∧
      MemoryModel.initial.SameLocals after := by
  rcases allocateParameters_sameLocals .initial parameters
    fun parameter isParameter => sized parameter (List.mem_append_left _ isParameter) with
    ⟨symbols, middle, runs, same⟩
  rcases allocateParameters_sameLocals middle returns
    fun parameter isParameter => sized parameter (List.mem_append_right _ isParameter) with
    ⟨returned, after, returnsRun, sameAfter⟩
  refine ⟨⟨symbols, returned, none⟩, after, ?_, sameAfter.1.trans same.1, sameAfter.2.trans same.2⟩
  simp only [allocateSignature, runs, returnsRun, Option.bind_eq_bind, Option.bind_some]

theorem allocateWithIota_sameLocals (parameters : List Parameter) (iota : Option Parameter)
    (sized : ∀ parameter ∈ parameters ++ iota.toList, parameter.type.sizeOnStack ≠ none) :
    ∃ symbols after, allocateWithIota parameters iota = some (symbols, after) ∧
      MemoryModel.initial.SameLocals after := by
  rcases allocateParameters_sameLocals .initial parameters
    fun parameter isParameter => sized parameter (List.mem_append_left _ isParameter) with
    ⟨symbols, middle, runs, same⟩
  rcases allocateIota_sameLocals middle iota fun parameter isParameter =>
    sized parameter (List.mem_append_right _ (Option.mem_toList.mpr isParameter)) with
    ⟨symbol, after, iotaRuns, sameAfter⟩
  refine ⟨⟨symbols, [], symbol⟩, after, ?_, sameAfter.1.trans same.1, sameAfter.2.trans same.2⟩
  simp only [allocateWithIota, runs, iotaRuns, Option.bind_eq_bind, Option.bind_some]

theorem Callable.allocate_sameLocals (callable : Callable)
    (sized : ∀ parameter ∈ callable.parameters, parameter.type.sizeOnStack ≠ none) :
    ∃ symbols after, callable.allocate = some (symbols, after) ∧
      MemoryModel.initial.SameLocals after := by
  cases callable with
  | action receiver iota => exact allocateWithIota_sameLocals [receiver] iota sized
  | bind receiver => exact allocateWithIota_sameLocals [receiver] none sized
  | function parameters returns => exact allocateSignature_sameLocals parameters returns sized
  | method parameters returns => exact allocateSignature_sameLocals parameters returns sized
  | initializer parameters returns => exact allocateSignature_sameLocals parameters returns sized
  | getter parameters returns => exact allocateSignature_sameLocals parameters returns sized
  | reaction parameters iota => exact allocateWithIota_sameLocals parameters iota sized

end Parameters

section Arguments

variable {memoryModel middle after : MemoryModel}

/-- The parts of the memory model that are about parameters. -/
def MemoryModel.SameArguments (memoryModel other : MemoryModel) : Prop :=
  other.argumentsOffset = memoryModel.argumentsOffset ∧
    other.receiverOffset = memoryModel.receiverOffset

theorem MemoryModel.SameArguments.refl (memoryModel : MemoryModel) :
    memoryModel.SameArguments memoryModel :=
  ⟨rfl, rfl⟩

theorem MemoryModel.SameArguments.trans (first : memoryModel.SameArguments middle)
    (second : middle.SameArguments after) : memoryModel.SameArguments after :=
  ⟨second.1.trans first.1, second.2.trans first.2⟩

theorem allocateVariable_sameArguments {type : DataType} {symbol : StackSymbol}
    (runs : allocateVariable memoryModel type = some (symbol, after)) :
    memoryModel.SameArguments after := by
  rw [allocateVariable, MemoryModel.localsPush] at runs
  simp only [Option.map_map, Option.map_eq_some_iff, Function.comp_apply, Prod.mk.injEq] at runs
  rcases runs with ⟨_, _, _, rfl⟩
  exact ⟨rfl, rfl⟩

theorem allocateVariables_sameArguments {types : List DataType} {symbols : List StackSymbol}
    (runs : allocateVariables memoryModel types = some (symbols, after)) :
    memoryModel.SameArguments after := by
  induction types generalizing memoryModel symbols with
  | nil =>
      cases runs
      exact .refl _
  | cons type rest inductionHypothesis =>
      simp only [allocateVariables, Option.bind_eq_bind, Option.bind_eq_some_iff, Prod.exists,
        Option.some.injEq, Prod.mk.injEq] at runs
      rcases runs with ⟨symbol, middle, isSymbol, others, last, restRuns, _, rfl⟩
      exact (allocateVariable_sameArguments isSymbol).trans (inductionHypothesis restRuns)

theorem restore_sameArguments {before offset : Arch.Word}
    (restores : memoryModel.restore before offset = some after) :
    memoryModel.SameArguments after := by
  unfold MemoryModel.restore at restores
  dsimp only at restores
  split at restores
  case isTrue =>
    rw [← Option.some.inj restores]
    exact ⟨rfl, rfl⟩
  case isFalse => cases restores

mutual

theorem allocateStatement_sameArguments {memoryModel after : MemoryModel}
    {statement : BodyStatement DataType} {allocated : BodyStatement StackSymbol}
    (runs : allocateStatement memoryModel statement = some (allocated, after)) :
    memoryModel.SameArguments after := by
  cases statement with
  | simple =>
      cases runs
      exact .refl _
  | forIota symbol body =>
      simp only [allocateStatement, Option.bind_eq_bind, Option.bind_eq_some_iff, Prod.exists,
        Option.some.injEq, Prod.mk.injEq] at runs
      rcases runs with ⟨_, entered, isSymbol, _, left, blockRuns, restored, restores, _, rfl⟩
      exact ((allocateVariable_sameArguments isSymbol).trans
        (allocateBlock_sameArguments blockRuns)).trans (restore_sameArguments restores)
  | change rootSymbol body =>
      simp only [allocateStatement, Option.bind_eq_bind, Option.bind_eq_some_iff, Prod.exists,
        Option.some.injEq, Prod.mk.injEq] at runs
      rcases runs with ⟨_, entered, isSymbol, _, left, blockRuns, restored, restores, _, rfl⟩
      exact ((allocateVariable_sameArguments isSymbol).trans
        (allocateBlock_sameArguments blockRuns)).trans (restore_sameArguments restores)
  | ifStatement before trueBody falseBody =>
      simp only [allocateStatement, Option.bind_eq_bind, Option.bind_eq_some_iff, Prod.exists,
        Option.some.injEq, Prod.mk.injEq] at runs
      rcases runs with ⟨_, _, beforeRuns, _, _, trueRuns, _, _, falseRuns, _, rfl⟩
      exact ((allocateStatement_sameArguments beforeRuns).trans
        (allocateBlock_sameArguments trueRuns)).trans (allocateStatement_sameArguments falseRuns)
  | whileStatement body =>
      simp only [allocateStatement, Option.bind_eq_bind, Option.bind_eq_some_iff, Prod.exists,
        Option.some.injEq, Prod.mk.injEq] at runs
      rcases runs with ⟨_, _, blockRuns, _, rfl⟩
      exact allocateBlock_sameArguments blockRuns
  | activate body =>
      simp only [allocateStatement, Option.bind_eq_bind, Option.bind_eq_some_iff, Prod.exists,
        Option.some.injEq, Prod.mk.injEq] at runs
      rcases runs with ⟨_, _, blockRuns, _, rfl⟩
      exact allocateBlock_sameArguments blockRuns
  | var symbols =>
      simp only [allocateStatement, Option.bind_eq_bind, Option.bind_eq_some_iff, Prod.exists,
        Option.some.injEq, Prod.mk.injEq] at runs
      rcases runs with ⟨_, _, variablesRun, _, rfl⟩
      exact allocateVariables_sameArguments variablesRun
  | block block =>
      simp only [allocateStatement, Option.bind_eq_bind, Option.bind_eq_some_iff, Prod.exists,
        Option.some.injEq, Prod.mk.injEq] at runs
      rcases runs with ⟨_, _, blockRuns, _, rfl⟩
      exact allocateBlock_sameArguments blockRuns

theorem allocateBlock_sameArguments {memoryModel after : MemoryModel} {block : Block DataType}
    {allocated : Block StackSymbol}
    (runs : allocateBlock memoryModel block = some (allocated, after)) :
    memoryModel.SameArguments after := by
  cases block with
  | list statements =>
      simp only [allocateBlock, Option.bind_eq_bind, Option.bind_eq_some_iff, Prod.exists,
        Option.some.injEq, Prod.mk.injEq] at runs
      rcases runs with ⟨_, _, statementsRun, restored, restores, _, rfl⟩
      exact (allocateStatements_sameArguments statementsRun).trans (restore_sameArguments restores)

theorem allocateStatements_sameArguments {memoryModel after : MemoryModel}
    {statements : BodyStatements DataType} {allocated : BodyStatements StackSymbol}
    (runs : allocateStatements memoryModel statements = some (allocated, after)) :
    memoryModel.SameArguments after := by
  cases statements with
  | nil =>
      cases runs
      exact .refl _
  | cons statement rest =>
      simp only [allocateStatements, Option.bind_eq_bind, Option.bind_eq_some_iff, Prod.exists,
        Option.some.injEq, Prod.mk.injEq] at runs
      rcases runs with ⟨_, _, statementRuns, _, _, restRuns, _, rfl⟩
      exact (allocateStatement_sameArguments statementRuns).trans
        (allocateStatements_sameArguments restRuns)

end

end Arguments

theorem Block.restoresOffset (block : Block DataType) : block.RestoresOffset := by
  intro memoryModel allocated after runs
  cases block with
  | list statements =>
      simp only [allocateBlock, Option.bind_eq_bind, Option.bind_eq_some_iff] at runs
      rcases runs with ⟨_, _, restored, restores, isResult⟩
      rw [Option.some.injEq, Prod.mk.injEq] at isResult
      rw [← isResult.2]
      unfold MemoryModel.restore at restores
      dsimp only at restores
      split at restores
      case isTrue same => rw [← Option.some.inj restores, same]
      case isFalse => cases restores

/-- Where the variables of a body have sizes that together leave the offsets
positive, the allocation succeeds, every variable lies in the locals area, and a
variable keeps apart from those declared after it in its scope or inside it. -/
theorem Callable.allocatesLocals (callable : Callable) (body : Block DataType) (total : Nat)
    (sized : ∀ parameter ∈ callable.parameters, parameter.type.sizeOnStack ≠ none)
    (isTotal : sizeOnStackOfList ((body.declarations [] 0).map Prod.snd) = some total)
    (small : 8 + total < 2 ^ 63) :
    (callable.AllocatesLocals body fun scope inner => scope <+: inner) ∧
      ∀ block : Block DataType, block.RestoresOffset := by
  refine ⟨?_, Block.restoresOffset⟩
  rcases callable.allocate_sameLocals sized with ⟨parameters, entered, allocated, same⟩
  have isStart : entered.localsOffset.toNat = 8 := by
    rw [same.1]
    rfl
  have room : entered.Room total := ⟨by rw [isStart]; exact Nat.dvd_refl 8, by rw [isStart]; exact small⟩
  rcases allocatesBlock body entered [] 0 total isTotal room with
    ⟨block, after, runs, allocation, isRestored⟩
  have isEmpty : after.localsEmpty = true := by
    rw [MemoryModel.localsEmpty, isRestored, same.1]
    rfl
  have isSize : after.localsSizeOnStack.toNat = total := by
    rw [allocation.size, same.2]
    change (BitVec.ofNat 64 0 + BitVec.ofNat 64 total).toNat = total
    rw [BitVec.zero_add, BitVec.toNat_ofNat]
    exact Nat.mod_eq_of_lt (by omega)
  have within := allocation.placed.within
  rw [isStart] at within
  have isSigned : ∀ declaration ∈ block.declarations [] 0,
      declaration.2.offset.toInt = declaration.2.lower := by
    intro declaration isDeclaration
    have inside := within declaration isDeclaration
    rw [BitVec.toInt_eq_toNat_of_lt]
    · rfl
    · unfold StackSymbol.upper at inside
      omega
  refine ⟨⟨parameters, block, after⟩, ?_, ?_, ?_⟩
  · simp only [allocateStackVariables, allocated, runs, isEmpty, Option.bind_eq_bind,
      Option.bind_some, if_true]
  · intro declaration isDeclaration n isByte
    have inside := within declaration isDeclaration
    have isOffset := isSigned declaration isDeclaration
    simp only [StackSymbol.bytes, StackSymbol.upper, StackSymbol.lower, Set.mem_ofPred_eq] at *
    simp only [MemoryModel.localsArea, isSize, Set.mem_ofPred_eq]
    omega
  · have placed := allocation.placed.apart
    refine placed.imp_of_mem fun {declaration other} isDeclaration isOther before around => ?_
    have before := before around
    have isOffset := isSigned declaration isDeclaration
    have isOtherOffset := isSigned other isOther
    rw [Set.disjoint_left]
    intro n isByte isOtherByte
    simp only [StackSymbol.bytes, StackSymbol.upper, StackSymbol.lower, Set.mem_ofPred_eq] at *
    omega

section Bodies

/-- `{ var a int; } var b int;` -/
def laterVariable : Block DataType :=
  .list (.cons (.block (.list (.cons (.var [.basic .int]) .nil))) (.cons (.var [.basic .int]) .nil))

/-- `var a, b [1 << 60]int;` -/
def hugeVariables : Block DataType :=
  .list (.cons (.var [.array (2 ^ 60) (.basic .int), .array (2 ^ 60) (.basic .int)]) .nil)

/-- A variable of an inner block and one behind the block are both placed. -/
theorem Callable.allocatesLocals_laterVariable :
    ((Callable.function [] []).AllocatesLocals laterVariable fun scope inner => scope <+: inner) ∧
      ∀ block : Block DataType, block.RestoresOffset :=
  Callable.allocatesLocals (.function [] []) laterVariable 16 (by simp [Callable.parameters]) rfl
    (by decide)

/-- The variable of an inner block shares its bytes with one that is declared
behind the block, and the size of the locals area may wrap around. -/
theorem Callable.laterVariable_not_nested :
    ¬(Callable.function [] []).AllocatesLocals laterVariable Nested ∧
      ¬(Callable.function [] []).AllocatesLocals hugeVariables Nested := by
  constructor
  · rintro ⟨frame, isFrame, _, apart⟩
    have declarations : frame.body.declarations [] 0 =
        [([0, 0], ⟨BitVec.ofNat 64 8, .basic .int⟩), ([0], ⟨BitVec.ofNat 64 8, .basic .int⟩)] := by
      rw [← Option.some.inj ((rfl : allocateStackVariables (.function [] []) laterVariable =
        some ⟨⟨[], [], none⟩, _, _⟩).symm.trans isFrame)]
      rfl
    rw [declarations, List.pairwise_pair] at apart
    have disjoint := Set.disjoint_left.mp (apart (Or.inr ⟨[0], rfl⟩))
    have isByte : (8 : Int) ∈ (⟨BitVec.ofNat 64 8, .basic .int⟩ : StackSymbol).bytes :=
      ⟨by decide, by decide⟩
    exact disjoint isByte isByte
  · rintro ⟨frame, isFrame, inside, _⟩
    have isFrame := (rfl : allocateStackVariables (.function [] []) hugeVariables =
      some ⟨⟨[], [], none⟩, _, _⟩).symm.trans isFrame
    have outside := inside ([0], ⟨BitVec.ofNat 64 8, .array (2 ^ 60) (.basic .int)⟩) (by
      rw [← Option.some.inj isFrame]
      exact List.mem_cons_self)
    have isByte : (8 : Int) ∈
        (⟨BitVec.ofNat 64 8, .array (2 ^ 60) (.basic .int)⟩ : StackSymbol).bytes :=
      ⟨by decide, by decide⟩
    have isInside := (outside isByte).2
    rw [← Option.some.inj isFrame] at isInside
    exact absurd isInside (by decide)

end Bodies

end Rcgo.Code
