import Rcgo.Foundation.Reporting

/-!
# The error reporter

`error_reporter.cpp`: errors are listed, and the program exits when the list
reaches the limit.
-/

namespace Rcgo.Frontend

open Foundation

/-- `ErrorCode`, in the order of the enumeration. -/
inductive ErrorCode where
  | funcExpectsCount
  | funcExpectsArg
  | cannotBeApplied
  | notDeclared
  | hiddenSymbol
  | requiresValueOrVariable
  | expectedAType
  | leaksPointers
  | parameterIsNotForeignSafe
  | expectedNExpressions
  | cannotConvert
  | expressionIsNotConstant
  | alreadyDeclared
  | definedRecursively
  | nonIntegerArrayDimension
  | negativeArrayDimension
  | notDefined
  | expectedAComponent
  | expectedAPointer
  | expectedImmutableIndirectionMutability
  deriving DecidableEq, Repr

/-- A computation of the semantic analysis.  It stops where the program exits at
once: at `error_at_line`, at a failed assertion and at code marked unreachable. -/
abbrev Analysis := Reporting ErrorCode

/-- `ErrorReporter`. -/
structure ErrorReporter where
  limit : Nat
  list : List ErrorCode
  deriving DecidableEq, Repr

namespace ErrorReporter

/-- `ErrorReporter::count`. -/
def count (er : ErrorReporter) : Nat :=
  er.list.length

/-- `ErrorReporter::bump`, and whether it exits. -/
def bump (er : ErrorReporter) (code : ErrorCode) : ErrorReporter × Bool :=
  let er := { er with list := er.list ++ [code] }
  (er, 0 < er.limit && er.count == er.limit)

theorem run_eq {α : Type} (x : Analysis α) (er : ErrorReporter) (below : er.count < er.limit) :
    x.run bump er =
      if er.count + x.errors.length < er.limit then
        ({ er with list := er.list ++ x.errors }, x.result)
      else ({ er with list := er.list ++ x.errors.take (er.limit - er.count) }, none) := by
  induction x generalizing er with
  | done value => simp [Reporting.run, Reporting.errors, Reporting.result, below]
  | stop => simp [Reporting.run, Reporting.errors, Reporting.result, below]
  | report code rest inductionHypothesis =>
      have isBumped : er.bump code =
          ({ er with list := er.list ++ [code] }, decide (er.count + 1 = er.limit)) := by
        have positive : 0 < er.limit := by omega
        simp only [bump, count, positive, List.length_append, List.length_singleton]
        rfl
      rw [Reporting.run, isBumped, Reporting.errors, Reporting.result, List.length_cons]
      rcases Nat.lt_or_eq_of_le (Nat.succ_le_of_lt below) with more | isLast
      · have others := inductionHypothesis { er with list := er.list ++ [code] }
          (by simpa [count] using more)
        have isCount : ({ er with list := er.list ++ [code] } : ErrorReporter).count =
            er.count + 1 := by
          simp [count]
        have isRest : er.limit - er.count = er.limit - (er.count + 1) + 1 := by omega
        rw [isCount] at others
        rw [isRest, List.take_succ_cons]
        simpa [Nat.ne_of_lt more, Nat.add_assoc, Nat.add_comm 1] using others
      · have reached : ¬ er.count + (rest.errors.length + 1) < er.limit := by omega
        have isRest : er.limit - er.count = 0 + 1 := by omega
        have ends : decide (er.count + 1 = er.limit) = true := decide_eq_true isLast
        rw [if_neg reached, isRest, List.take_succ_cons, List.take_zero, ends]
        rfl

end ErrorReporter

end Rcgo.Frontend
