import Rcgo.Code.StatementStack

/-!
# Stack discipline

The code of a program keeps the discipline of the operand stack at every depth
of calls: by induction on the depth no callable leaves its frame, and so the
rules for expressions and statements hold of the running program.
-/

namespace Rcgo.Code

open Rcgo.Foundation Machine

variable {World : Type}

/-- The run raises the stack by `n` bytes, in the frame it runs in, and no pop
in it or in the callables it enters goes below the end of the locals. -/
def RaisesBy (run : Run World Control) (n : Nat) : Prop :=
  ∀ machine, machine.frame.floor ≤ machine.top →
    (run machine).Meets Fault.Clean fun result =>
      result.2.top = machine.top + n ∧ result.2.frame = machine.frame

def SourceProgram.IsChecked (program : SourceProgram World) : Prop :=
  ∀ callable body, program.body callable = .block body → body.Checked program.declarations

/-- Every expression statement in a body of the program pops what its expression
pushes. -/
def SourceProgram.IsBalanced (program : SourceProgram World) : Prop :=
  ∀ callable body, program.body callable = .block body → body.IsBalanced

theorem Pushes.raisesBy {context : Context World} {operation : Operation} {n : Nat}
    (pushes : Pushes context operation n) : RaisesBy (execute context operation) n := by
  intro machine above
  apply (pushes 0 machine machine.top above rfl).mono
  intro result ends
  exact ⟨ends.2.1, ends.2.2⟩

theorem Neutral.raisesBy {context : Context World} {operation : Operation}
    (neutral : Neutral context operation) : RaisesBy (execute context operation) 0 := by
  intro machine above
  apply (neutral 0 machine machine.top above rfl).mono
  intro result ends
  exact ⟨ends.2.1, ends.2.2⟩

theorem staysInFrame_of_neutral {context : Context World} {operation : Operation}
    (neutral : Neutral context operation) :
    StaysInFrame (do let _ ← execute context operation; pure ()) := by
  intro machine above
  apply (neutral.raisesBy machine above).bind
  intro result ends
  exact ends.2

/-- An expression statement whose expression is a variable leaves the stack as
high as it was only if its type is as large as a pointer. -/
theorem discard_variable_iff {context : Context World} {declarations : Declarations}
    {child : Expression} {operation discarded : Operation} (serves : context.Serves declarations)
    (checked : child.Checked declarations) (isVariable : child.kind = .variable)
    (isGenerated : child.generate declarations = some operation)
    (isDiscarded : child.discard operation = some discarded) {machine : Machine World}
    (above : machine.frame.floor ≤ machine.top) {result : Control × Machine World}
    (ends : execute context discarded machine = .ok result) :
    result.2.top = machine.top ↔ child.IsBalanced := by
  have pushes := child.pushes_of_variable serves checked isVariable isGenerated
  have notVoid : child.kind ≠ .void := by
    rw [isVariable]
    exact ExpressionKind.noConfusion
  simp only [Expression.discard, if_neg notVoid, Option.bind_eq_bind,
    Option.bind_eq_some_iff] at isDiscarded
  obtain ⟨type, isType, size, isSize, isDiscarded⟩ := isDiscarded
  have onStack : child.type.bind DataType.sizeOnStack = some (aligned size) := by
    rw [isType, Option.bind_some, DataType.sizeOnStack, isSize, Option.map_some]
  have prints : child.PrintsValues := .of_type (by rw [isType]; rfl)
  have isBalanced : child.IsBalanced ↔ aligned size = wordBytes :=
    ⟨fun balanced => balanced.1 isVariable _ onStack, fun isWord =>
      ⟨fun _ _ isPopped => (Option.some.inj (onStack.symm.trans isPopped)).symm.trans isWord,
        prints⟩⟩
  have raised := pushes.raisesBy machine above
  rw [isBalanced]
  split at isDiscarded
  case isTrue isZero =>
    rw [← Option.some.inj isDiscarded] at ends
    rw [ends] at raised
    have isTop : result.2.top = machine.top + wordBytes := raised.1
    rw [isTop, isZero]
    exact iff_of_false (by simp [wordBytes]) (by decide)
  case isFalse =>
    rw [← Option.some.inj isDiscarded, execute] at ends
    obtain ⟨pushed, isPushed, ends⟩ := Outcome.bind_eq_ok.mp ends
    obtain ⟨popped, isPopped, ends⟩ := Outcome.bind_eq_ok.mp ends
    rw [isPushed] at raised
    have isTop : pushed.2.top = machine.top + wordBytes := raised.1
    have isLower := top_of_popn isPopped
    rw [← Outcome.ok.inj ends]
    change popped.2.top = machine.top ↔ aligned size = wordBytes
    omega

namespace CompiledProgram

variable {program : CompiledProgram World}

theorem serves (checked : program.source.IsChecked) (balanced : program.source.IsBalanced)
    (runtime : Runtime World) (fuel steps : Nat) :
    (program.source.context runtime (program.call runtime fuel) steps).Serves
      program.source.declarations := by
  refine ⟨rfl, program.source.getter_fits, ?_⟩
  induction fuel generalizing steps with
  | zero =>
      intro callable machine above
      exact trivial
  | succ fuel inductionHypothesis =>
      intro callable
      change StaysInFrame (program.call runtime (fuel + 1) callable)
      rw [call]
      cases isBody : program.source.body callable with
      | builtin effect =>
          intro machine above
          exact rfl
      | block body =>
          have neutral := body.neutral ⟨rfl, program.source.getter_fits, inductionHypothesis fuel⟩
            (checked callable body isBody) (balanced callable body isBody)
            (program.generated callable body isBody)
          apply staysInFrame_of_neutral
          unfold wrap
          split
          · exact neutral_setRestoreCurrentInstance neutral _
          · exact neutral

/-- In a program whose expression statements pop what their expressions push,
the operation of every checked expression raises the stack by the size of a
value, by a pointer for a variable and by nothing otherwise, and the operation
of every checked statement leaves the stack as it found it.  An expression
statement of a variable that is not as large as a pointer never does. -/
theorem stackDiscipline (program : CompiledProgram World) (checked : program.source.IsChecked)
    (balanced : program.source.IsBalanced) (runtime : Runtime World) (fuel : Nat) :
    (∀ (expression : Expression) (operation : Operation), expression.Checked program.source.declarations →
      expression.PrintsValues →
        expression.generate program.source.declarations = some operation →
          ∀ n, expression.raises = some n ∨ expression.raises = none →
            RaisesBy (program.execute runtime fuel operation) n) ∧
      (∀ (statement : Statement) (operation : Operation),
        statement.Checked program.source.declarations → statement.IsBalanced →
          statement.generate program.source.declarations = some operation →
            RaisesBy (program.execute runtime fuel operation) 0) ∧
        ∀ (child : Expression) (operation : Operation) (machine : Machine World)
          (result : Control × Machine World),
          child.Checked program.source.declarations → child.kind = .variable →
            (Statement.expression child).generate program.source.declarations = some operation →
              machine.frame.floor ≤ machine.top →
                program.execute runtime fuel operation machine = .ok result →
                  (result.2.top = machine.top ↔ child.IsBalanced) := by
  have serves := serves checked balanced runtime fuel fuel
  refine ⟨?_, ?_, ?_⟩
  · intro expression operation isChecked prints isGenerated n isRaised
    apply Pushes.raisesBy
    apply expression.sound serves isChecked prints operation isGenerated
    intro m isSize
    rcases isRaised with isSome | isNone
    · rw [isSome, Option.mem_some_iff] at isSize
      exact isSize.symm
    · rw [isNone] at isSize
      cases isSize
  · intro statement operation isChecked isBalanced isGenerated
    exact (statement.neutral serves isChecked isBalanced isGenerated).raisesBy
  · intro child operation machine result isChecked isVariable isGenerated above ends
    simp only [Statement.generate, Option.bind_eq_bind, Option.bind_eq_some_iff] at isGenerated
    obtain ⟨childOperation, isChild, isDiscarded⟩ := isGenerated
    exact discard_variable_iff serves isChecked isVariable isChild isDiscarded above ends

end CompiledProgram

section Examples

/-- A runtime for programs that only work on the stack. -/
def idleRuntime : Runtime Unit where
  floating :=
    { arithmetic := fun _ _ _ _ => 0
      comparison := fun _ _ _ _ => false
      convertNumeric := fun _ _ word => word
      toAndBack := fun _ _ _ => true }
  convertFloating := fun _ _ word => word
  stepFloating := fun _ _ word => word
  allocate := fun _ memory world => (0, memory, world)
  makeHeap := fun _ memory world => (0, memory, world)
  move := fun link memory world => (link, memory, world)
  merge := fun link memory world => (link, memory, world)
  enterChange := fun _ _ _ => none
  leaveChange := fun _ _ memory world => ((), memory, world)
  enterInstance := fun component memory world => (component, memory, world)
  leaveInstance := fun _ memory world => ((), memory, world)
  beginPrint := fun memory world => ((), memory, world)
  print := fun _ _ memory world => ((), memory, world)
  endPrint := fun memory world => ((), memory, world)

/-- Every callable is `func f (x int) int { return x; }`. -/
def identitySignature : Signature where
  receiver := none
  parameters := [.basic .int]
  result := some (.basic .int)
  localsSize := 0

/-- `return x;` -/
def identityBody : Statement :=
  .returnStatement (.identifier (-16) (.basic .int)) ⟨-24, .basic .int⟩

/-- The operation of `return x;`. -/
def identityCode : Operation :=
  .returnOp (.load (.reference (-16)) (.basic .int)) (-24) 8

/-- A program whose callables are the identity. -/
def identityProgram : CompiledProgram Unit where
  source :=
    { declarations :=
        { signature := fun _ => identitySignature
          port := fun _ => identitySignature
          characters := fun _ => 0 }
      body := fun _ => .block identityBody
      receiverOffset := fun _ => none
      getter := fun _ _ => none
      getter_fits := fun _ _ _ isGetter => by cases isGetter }
  code := fun _ => identityCode
  generated := by
    intro callable body isBody
    rw [← Body.block.inj isBody]
    rfl

theorem identityProgram_isChecked : identityProgram.source.IsChecked := by
  intro callable body isBody
  rw [← Body.block.inj isBody]
  simp [identityBody, Statement.Checked, Expression.Converted, Expression.Checked,
    Expression.isValueOrVariable, Expression.kind, Expression.type]

theorem identityProgram_isBalanced : identityProgram.source.IsBalanced := by
  intro callable body isBody
  rw [← Body.block.inj isBody]
  exact trivial

/-- `f (1)` -/
def identityCall : Expression :=
  .functionCall 0 (.cons (.literal (.basic .int) (.bits 1)) .nil) (some (.basic .int))

theorem identityCall_isChecked : identityCall.Checked identityProgram.source.declarations := by
  rw [identityCall, Expression.Checked]
  refine ⟨?_, ⟨rfl, rfl⟩, rfl, rfl⟩
  simp [Arguments.Checked, Expression.Checked]

/-- The call raises the stack by the size of its result. -/
theorem CompiledProgram.stackDiscipline_identity :
    RaisesBy (identityProgram.execute idleRuntime 7
      (.functionCall 0 (.list (.cons (.literal 8 1) .nil)))) 8 :=
  (identityProgram.stackDiscipline identityProgram_isChecked identityProgram_isBalanced idleRuntime
    7).1 identityCall _ identityCall_isChecked (.of_type rfl) rfl 8 (.inl rfl)

def tripleType : DataType :=
  .struct (.cons (.basic .int) (.cons (.basic .int) (.cons (.basic .int) .nil)))

/-- The statement `t;` for a local variable with a struct of three words pushes
the address of the variable and pops three words: two words of the locals. -/
theorem CompiledProgram.variableStatement_not_neutral :
    ¬∀ (program : CompiledProgram Unit) (runtime : Runtime Unit) (fuel : Nat)
      (statement : Statement) (operation : Operation), program.source.IsChecked →
        statement.Checked program.source.declarations →
          statement.generate program.source.declarations = some operation →
            RaisesBy (program.execute runtime fuel operation) 0 := by
  intro neutral
  have checked :
      (Statement.expression (.identifier 8 tripleType)).Checked
        identityProgram.source.declarations := by
    simp [Statement.Checked, Expression.Checked, Expression.kind]
  have raises :=
    neutral identityProgram idleRuntime 7 _ (.popn (.reference 8) 24) identityProgram_isChecked
      checked rfl ⟨fun _ => 0, 40, ⟨0, 40, []⟩, ()⟩ (Nat.le_refl 40)
  exact raises rfl

end Examples

end Rcgo.Code
