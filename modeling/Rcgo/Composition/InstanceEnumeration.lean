import Rcgo.Composition.InstanceRegistration

/-!
# The enumeration of the instances
-/

namespace Rcgo.Composition

open Code Foundation

def IntoDeclared (n : Nat) (path : List Selector) : Prop :=
  ∃ i < n, ∃ rest, path = .declared i :: rest

theorem intoDeclared_succ (n : Nat) (path : List Selector) :
    (IntoDeclared n path ∨ ∃ rest, path = .declared n :: rest) ↔ IntoDeclared (n + 1) path := by
  constructor
  · rintro (⟨i, before, isPath⟩ | isPath)
    · exact ⟨i, Nat.lt_succ_of_lt before, isPath⟩
    · exact ⟨n, Nat.lt_succ_self n, isPath⟩
  · rintro ⟨i, before, isPath⟩
    rcases Nat.lt_succ_iff_lt_or_eq.mp before with before | isLast
    · exact Or.inl ⟨i, before, isPath⟩
    · exact Or.inr (isLast ▸ isPath)

/-- How many bytes the declared instances take. -/
def declaredSize : List InstanceDecl → Option Arch.Word
  | [] => some 0
  | declaration :: rest => do
      let size ← Arch.size declaration.type
      let others ← declaredSize rest
      some (size + others)

theorem declared_eq {declarations : List InstanceDecl} {n : Nat} {declaration : InstanceDecl}
    (isDeclaration : declarations[n]? = some declaration) :
    declared declarations n =
      (declaredSize (declarations.take n)).map fun address => (address, declaration.type) := by
  induction declarations generalizing n with
  | nil => cases isDeclaration
  | cons first rest inductionHypothesis =>
      cases n with
      | zero =>
          cases isDeclaration
          rfl
      | succ n =>
          rw [declared, inductionHypothesis isDeclaration, List.take_succ_cons, declaredSize]
          cases Arch.size first.type with
          | none => rfl
          | some size =>
              cases declaredSize (rest.take n) with
              | none => rfl
              | some others => rfl

theorem declaredSize_append (done : List InstanceDecl) (declaration : InstanceDecl)
    {start size : Arch.Word} (isStart : declaredSize done = some start)
    (isSize : Arch.size declaration.type = some size) :
    declaredSize (done ++ [declaration]) = some (start + size) := by
  induction done generalizing start with
  | nil =>
      cases isStart
      simp [declaredSize, isSize]
  | cons first rest inductionHypothesis =>
      simp only [declaredSize, Option.bind_eq_bind, Option.bind_eq_some_iff,
        Option.some.injEq] at isStart
      obtain ⟨firstSize, isFirst, others, areOthers, isSum⟩ := isStart
      rw [List.cons_append, declaredSize, isFirst, inductionHypothesis areOthers, ← isSum]
      simp [BitVec.add_assoc]

/-- What the enumeration of the first declarations has left behind. -/
structure Progress (declarations : List InstanceDecl) (n : Nat) (enumeration : Enumeration)
    (calls : List Call) : Prop where
  composer : enumeration.composer = Composer.initial.registerAll calls
  address : declaredSize (declarations.take n) = some enumeration.address
  registers : Registers (IntoDeclared n) (.program declarations) none 0 0
    enumeration.composer.created calls
  length : enumeration.symbolInstances.length = n
  symbols : ∀ i < n, ∃ inst, enumeration.symbolInstances[i]? = some (some inst) ∧
    ([.declared i], .component inst) ∈ calls

theorem progress_initial (declarations : List InstanceDecl) :
    Progress declarations 0 .initial [] where
  composer := rfl
  address := rfl
  registers := (Registers.nil _ _ _ _).congr (by simp [IntoDeclared])
  length := rfl
  symbols _ before := absurd before (Nat.not_lt_zero _)

theorem exists_component {type : DataType} {parent : Option Instance} {base : Arch.Word}
    {before after : Nat} {calls : List Call} (isIn : tableOf type = some .instances)
    (registers : Registers (fun _ => True) (.stored type) parent base before after calls) :
    ∃ inst, ([], .component inst) ∈ calls := by
  have isPath := registers.complete [] _ (.stored type) .instances trivial rfl isIn
  obtain ⟨⟨path, registration⟩, isCall, isRoot⟩ := List.mem_map.mp isPath
  cases isRoot
  obtain ⟨_, part, isPart, isTable, _, _⟩ := registers.describes _ isCall
  cases isPart
  rw [Whole.IsIn, isIn, Option.some.injEq] at isTable
  cases registration with
  | component inst => exact ⟨inst, isCall⟩
  | pushPort port => cases isTable
  | pullPort port => cases isTable

theorem Progress.visit {declarations : List InstanceDecl} {n : Nat} {enumeration next : Enumeration}
    {calls : List Call} (progress : Progress declarations n enumeration calls)
    {declaration : InstanceDecl} (isDeclaration : declarations[n]? = some declaration)
    (runs : enumeration.visit declaration = some next) :
    ∃ all, Progress declarations (n + 1) next all := by
  simp only [Enumeration.visit, Option.bind_eq_bind, Option.bind_eq_some_iff, Prod.exists,
    Option.some.injEq] at runs
  obtain ⟨result, composer, runs, size, isSize, isNext⟩ := runs
  obtain ⟨childCalls, areChildCalls, child, isResult⟩ :=
    sound_of_type _ _ _ _ _ _ _ _ _ declaration.type runs (Or.inl ⟨rfl, rfl⟩)
  have isDeclared : declared declarations n = some (enumeration.address, declaration.type) := by
    rw [declared_eq isDeclaration, progress.address]
    rfl
  have isPart := parts_of_isPart (.declared isDeclared)
  rw [← BitVec.zero_add enumeration.address] at child
  have isFresh : ∀ rest, ¬IntoDeclared n (.declared n :: rest) := by
    rintro rest ⟨i, before, _, isPath⟩
    cases isPath
    exact Nat.lt_irrefl _ before
  have extended := (progress.registers.extend isPart child isFresh rfl).congr (intoDeclared_succ n)
  obtain ⟨inst, isCall⟩ := exists_component (tableOf_declaration declaration) child
  refine ⟨calls ++ childCalls.map (Call.under (.declared n)), ?_, ?_, ?_, ?_, ?_⟩
  · rw [← isNext, registerAll_append, registerAll_under, ← progress.composer]
    exact areChildCalls
  · rw [← isNext, List.take_add_one, isDeclaration]
    exact declaredSize_append _ _ progress.address isSize
  · rw [← isNext]
    exact extended
  · rw [← isNext, List.length_append, progress.length, List.length_singleton]
  · intro i before
    rw [← isNext]
    rcases Nat.lt_succ_iff_lt_or_eq.mp before with before | isLast
    · obtain ⟨other, isOther, isOtherCall⟩ := progress.symbols i before
      refine ⟨other, ?_, List.mem_append_left _ isOtherCall⟩
      rw [List.getElem?_append_left (progress.length ▸ before)]
      exact isOther
    · refine ⟨inst, ?_, List.mem_append_right _ (mem_under.mpr ⟨[], isLast ▸ rfl, isCall⟩)⟩
      rw [isLast, List.getElem?_append_right (Nat.le_of_eq progress.length), progress.length,
        Nat.sub_self, isResult inst isCall]
      rfl

theorem progress_run {declarations : List InstanceDecl} (rest : List InstanceDecl) :
    ∀ (n : Nat) (enumeration final : Enumeration) (calls : List Call),
    declarations.drop n = rest → n ≤ declarations.length →
    Progress declarations n enumeration calls →
    rest.foldlM Enumeration.visit enumeration = some final →
    ∃ all, Progress declarations declarations.length final all := by
  induction rest with
  | nil =>
      intro n enumeration final calls isDrop inside progress runs
      cases runs
      have isLength : n = declarations.length :=
        Nat.le_antisymm inside (List.drop_eq_nil_iff.mp isDrop)
      exact ⟨calls, isLength ▸ progress⟩
  | cons declaration rest inductionHypothesis =>
      intro n enumeration final calls isDrop inside progress runs
      rw [List.foldlM_cons, Option.bind_eq_bind, Option.bind_eq_some_iff] at runs
      obtain ⟨between, isBetween, runs⟩ := runs
      have isDeclaration : declarations[n]? = some declaration := by
        rw [← List.head?_drop, isDrop]
        rfl
      have isNextDrop : declarations.drop (n + 1) = rest := by
        rw [← List.tail_drop, isDrop]
        rfl
      obtain ⟨all, next⟩ := progress.visit isDeclaration isBetween
      exact inductionHypothesis (n + 1) between final all isNextDrop
        (List.getElem?_eq_some_iff.mp isDeclaration).1 next runs

theorem exists_progress {declarations : List InstanceDecl} {enumeration : Enumeration}
    (runs : enumerateInstances declarations = some enumeration) :
    ∃ calls, Progress declarations declarations.length enumeration calls :=
  progress_run declarations 0 .initial enumeration [] rfl (Nat.zero_le _)
    (progress_initial declarations) runs

theorem Progress.all {declarations : List InstanceDecl} {enumeration : Enumeration}
    {calls : List Call} (progress : Progress declarations declarations.length enumeration calls) :
    Registers (fun _ => True) (.program declarations) none 0 0 enumeration.composer.created calls := by
  refine progress.registers.all ?_
  intro path offset part table isPart isIn
  cases path with
  | nil =>
      cases isPart
      exact isIn.elim
  | cons key rest =>
      obtain ⟨_, _, _, isFirst, _, _⟩ := exists_of_descend_cons isPart
      cases isPart_of_parts isFirst with
      | declared isDeclared =>
          obtain ⟨_, isDeclaration, _⟩ := exists_declaration isDeclared
          exact ⟨_, (List.getElem?_eq_some_iff.mp isDeclaration).1, rest, rfl⟩

theorem exists_enumeration {declarations : List InstanceDecl}
    (laidOut : ∀ declaration ∈ declarations, (Whole.stored declaration.type).IsLaidOut)
    (areNamed : ∀ declaration ∈ declarations, ComponentsNamed (.stored declaration.type)) :
    ∃ enumeration, enumerateInstances declarations = some enumeration := by
  rw [enumerateInstances]
  generalize Enumeration.initial = enumeration
  induction declarations generalizing enumeration with
  | nil => exact ⟨enumeration, rfl⟩
  | cons declaration rest inductionHypothesis =>
      have isLaidOut := laidOut declaration List.mem_cons_self
      obtain ⟨⟨inst, composer⟩, instantiates⟩ :=
        total_of_type declaration.type none (some declaration) enumeration.address none none
          enumeration.composer declaration.type (Or.inl ⟨rfl, rfl⟩) isLaidOut
          (areNamed declaration List.mem_cons_self)
      obtain ⟨fields, isComponent⟩ := tableOf_eq_instances (tableOf_declaration declaration)
      have everywhere := everywhere_underlyingType isLaidOut.2
      rw [isComponent] at everywhere
      obtain ⟨size, isSize, _⟩ := everywhere.1.parts
      rw [← isComponent, size_underlyingType] at isSize
      rw [List.foldlM_cons, Enumeration.visit, instantiates, isSize]
      exact inductionHypothesis (fun other isOther => laidOut other (List.mem_cons_of_mem _ isOther))
        (fun other isOther => areNamed other (List.mem_cons_of_mem _ isOther)) _

theorem componentsNamed_of_registers {whole : Whole} {parent : Option Instance} {base : Arch.Word}
    {before after : Nat} {calls : List Call}
    (registers : Registers (fun _ => True) whole parent base before after calls) :
    ComponentsNamed whole := by
  intro path offset type isPart isIn
  have isPath := registers.complete path offset (.stored type) .instances trivial isPart isIn
  obtain ⟨⟨other, registration⟩, isCall, isOther⟩ := List.mem_map.mp isPath
  cases isOther
  obtain ⟨_, part, isSame, isTable, _, isNamed⟩ := registers.describes _ isCall
  rw [isPart, Option.some.injEq, Prod.mk.injEq] at isSame
  rw [← isSame.2, Whole.IsIn, isIn, Option.some.injEq] at isTable
  cases registration with
  | component inst =>
      obtain ⟨isType, named⟩ := isNamed inst rfl
      rw [← isSame.2, Whole.stored.injEq] at isType
      exact isType ▸ named
  | pushPort port => cases isTable
  | pullPort port => cases isTable

end Rcgo.Composition
