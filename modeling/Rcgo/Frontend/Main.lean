import Rcgo.Frontend.Completion

/-!
# From the declarations to the scheduler

`main` runs the semantic analysis, generates code and starts the scheduler.  The
passes after the analysis never look at the error reporter, so what ends a
rejected program is the limit of the reporter or an exit of a pass.
-/

namespace Rcgo.Frontend

open Foundation Reporting

/-- The phases and passes that `main` calls, over what is known of a program.
The phases down to `checkTypes` have the error reporter.  A pass after them
returns none where it exits the program. -/
structure Passes (σ : Type) where
  enterTopLevelIdentifiers : σ → Analysis σ
  enterMethodIdentifiers : σ → Analysis σ
  processTopLevelDeclarations : σ → Analysis σ
  checkTypes : σ → Analysis σ
  computeReceiverAccess : σ → Option σ
  allocateStackVariables : σ → Option σ
  generateCode : σ → Option σ
  enumerateInstances : σ → Option σ
  elaborate : σ → Option σ
  analyze : σ → Option σ
  allocateInstances : σ → Option σ
  createBindings : σ → Option σ

/-- The options that decide how far `main` goes. -/
structure Options where
  showComposition : Bool
  schedulerType : String

/-- What is left when `main` is done: the errors on the list of the reporter,
whether code generation began, and whether the scheduler, which executes the
initializers, the actions and the reactions, was started. -/
structure Report where
  reported : List ErrorCode
  generated : Bool
  started : Bool
  deriving DecidableEq, Repr

namespace Passes

variable {σ : Type} (passes : Passes σ)

def semanticAnalysis (root : σ) : Analysis σ := do
  let root ← passes.enterTopLevelIdentifiers root
  let root ← passes.enterMethodIdentifiers root
  let root ← passes.processTopLevelDeclarations root
  passes.checkTypes root

/-- The passes between the analysis and the generation of code. -/
def beforeCode (root : σ) : Option σ :=
  passes.computeReceiverAccess root >>= passes.allocateStackVariables

/-- From the generation of code on: whether the scheduler is started. -/
def compose (options : Options) (root : σ) : Bool :=
  match passes.generateCode root >>= passes.enumerateInstances >>= passes.elaborate with
  | none => false
  | some root =>
      if options.showComposition then false
      else
        match passes.analyze root >>= passes.allocateInstances >>= passes.createBindings with
        | none => false
        | some _ => options.schedulerType == "partitioned" || options.schedulerType == "instance"

/-- `main`, from the making of the error reporter on. -/
def main (options : Options) (root : σ) : Report :=
  let er : ErrorReporter := { limit := 3, list := [] }
  match (passes.semanticAnalysis root).run ErrorReporter.bump er with
  | (er, none) => { reported := er.list, generated := false, started := false }
  | (er, some root) =>
      match passes.beforeCode root with
      | none => { reported := er.list, generated := false, started := false }
      | some root =>
          { reported := er.list, generated := true, started := passes.compose options root }

/-- What the passes before code generation get to see if no report ends the
program, none where the analysis or one of them exits. -/
def prepared (root : σ) : Option σ :=
  (passes.semanticAnalysis root).result.bind passes.beforeCode

theorem main_eq (options : Options) (root : σ) :
    passes.main options root =
      { reported := (passes.semanticAnalysis root).errors.take 3
        generated := decide ((passes.semanticAnalysis root).errors.length < 3) &&
          (passes.prepared root).isSome
        started := decide ((passes.semanticAnalysis root).errors.length < 3) &&
          (passes.prepared root).any (passes.compose options) } := by
  have runs := ErrorReporter.run_eq (passes.semanticAnalysis root) { limit := 3, list := [] }
    (Nat.zero_lt_succ 2)
  rw [main, runs]
  simp only [ErrorReporter.count, List.length_nil, Nat.zero_add, List.nil_append, Nat.sub_zero]
  by_cases few : (passes.semanticAnalysis root).errors.length < 3
  · rw [if_pos few, decide_eq_true few, List.take_of_length_le (Nat.le_of_lt few), prepared]
    cases (passes.semanticAnalysis root).result with
    | none => rfl
    | some analysed =>
        rw [Option.bind_some]
        cases isBefore : passes.beforeCode analysed <;> simp [isBefore]
  · rw [if_neg few, decide_eq_false few]
    rfl

/-- A rejected program ends before its code is generated and before anything of
it is executed. -/
def RejectedNeverRuns (options : Options) (root : σ) : Prop :=
  (passes.main options root).reported ≠ [] →
    (passes.main options root).generated = false ∧ (passes.main options root).started = false

theorem goesOn_iff (options : Options) (root : σ) :
    ¬ passes.RejectedNeverRuns options root ↔
      (passes.semanticAnalysis root).errors ≠ [] ∧
        (passes.semanticAnalysis root).errors.length < 3 ∧ (passes.prepared root).isSome := by
  rw [RejectedNeverRuns, main_eq]
  cases isErrors : (passes.semanticAnalysis root).errors with
  | nil => simp
  | cons code rest =>
      cases isPrepared : passes.prepared root with
      | none => simp
      | some analysed => by_cases few : (code :: rest).length < 3 <;> simp only [few] <;> simp

/-- The limit of the reporter and the exits of the passes are the only things
that keep a rejected program from going on. -/
theorem rejectedNeverRuns_iff (options : Options) (root : σ) :
    passes.RejectedNeverRuns options root ↔
      (passes.semanticAnalysis root).errors = [] ∨
        3 ≤ (passes.semanticAnalysis root).errors.length ∨ passes.prepared root = none := by
  rw [← not_iff_not, goesOn_iff, not_or, not_or, Nat.not_le, ← ne_eq, ← ne_eq,
    Option.ne_none_iff_isSome]

end Passes

/-- The passes over a program that declares types: the later ones do nothing for
a type declaration. -/
def typePasses : Passes (List TypeDecl × PackageScope) where
  enterTopLevelIdentifiers root := do
    let (_, scope) ← Frontend.enterTopLevelIdentifiers root.1 root.2
    pure (root.1, scope)
  enterMethodIdentifiers := pure
  processTopLevelDeclarations root := do
    let (_, scope) ← Frontend.processTopLevelDeclarations (root.1.length + 1)
      (List.range root.1.length) root.2
    pure (root.1, scope)
  checkTypes := pure
  computeReceiverAccess := some
  allocateStackVariables := some
  generateCode := some
  enumerateInstances := some
  elaborate := some
  analyze := some
  allocateInstances := some
  createBindings := some

theorem typePasses_result (typedecls : List TypeDecl)
    (mapless : ∀ typedecl ∈ typedecls, typedecl.type.Mapless) :
    (typePasses.semanticAnalysis (typedecls, [])).result.isSome := by
  have entered := enterTopLevelIdentifiers_result typedecls []
  have ready : Ready (typedecls.length + 1) (typedecls.map NamedType.declared) :=
    { mapless := by
        intro typedecl member
        rw [List.map_map] at member
        rcases List.mem_map.mp member with ⟨node, isNode, rfl⟩
        exact mapless node isNode
      waiting_lt := by
        apply Nat.lt_succ_of_le
        rw [← List.length_map NamedType.declared]
        exact List.countP_le_length }
  have completes := processTopLevelDeclarations_completes (List.range typedecls.length) ready
    (fun i member => by simpa using member)
  rcases completes with ⟨_, scope, isResult, _⟩
  simp only [Passes.semanticAnalysis, typePasses, result_bind, entered, isResult, List.nil_append,
    Option.bind_some, pure_eq, done_bind, bind_assoc]
  simp [result]

theorem typeDeclarations_run_iff (options : Options) (typedecls : List TypeDecl)
    (mapless : ∀ typedecl ∈ typedecls, typedecl.type.Mapless) :
    ¬ typePasses.RejectedNeverRuns options (typedecls, []) ↔
      (typePasses.semanticAnalysis (typedecls, [])).errors.length ∈ [1, 2] := by
  have finished := typePasses_result typedecls mapless
  have isPrepared : (typePasses.prepared (typedecls, [])).isSome := by
    rw [Passes.prepared, Option.isSome_bind]
    exact (Option.any_eq_true_iff_get _ _).mpr ⟨finished, rfl⟩
  rw [Passes.goesOn_iff, ne_eq, ← List.length_eq_zero_iff]
  simp only [isPrepared, List.mem_cons, List.not_mem_nil, and_true, or_false]
  omega

/-- `type S struct { a int; a int; };` -/
def duplicateField : List TypeDecl :=
  [{ identifier := "S"
     type := .fieldList false (.cons ["a"] (.identifierType "int")
       (.cons ["a"] (.identifierType "int") .nil)) }]

/-- The scheduler is started on a program with a duplicate field. -/
theorem duplicateField_runs :
    ¬ typePasses.RejectedNeverRuns { showComposition := false, schedulerType := "partitioned" }
      (duplicateField, []) := by
  have isReport : typePasses.main { showComposition := false, schedulerType := "partitioned" }
      (duplicateField, []) =
        { reported := [.alreadyDeclared], generated := true, started := true } := by
    decide +kernel
  intro never
  rw [Passes.RejectedNeverRuns, isReport] at never
  exact Bool.noConfusion (never (List.cons_ne_nil _ _)).1

end Rcgo.Frontend
