import Mathlib.Data.List.Basic

/-!
# Name resolution under rewriting

A block is entered in the scopes around it.  Some of the symbols around it are
entered anew in its own scope, changed.  An identifier finds the first symbol of
its name, the symbols of the block before those around it.
-/

namespace Rcgo.Foundation

/-- How a block enters symbols: those it affects are entered rewritten, some it
refuses, and what is hidden stays as it is. -/
structure Rewriting (α ν : Type) where
  name : α → ν
  isHidden : α → Bool
  affects : α → Bool
  refuses : α → Bool
  rewrite : α → α
  name_rewrite : ∀ x, name (rewrite x) = name x
  affects_of_refuses : ∀ x, refuses x = true → affects x = true

namespace Rewriting

variable {α ν : Type} [DecidableEq ν] (block : Rewriting α ν)

def resolve (symbols : List α) (n : ν) : Option α :=
  symbols.find? fun x => decide (block.name x = n)

/-- The first symbol of a name that the block affects. -/
def firstAffected (symbols : List α) (n : ν) : Option α :=
  symbols.find? fun x => decide (block.name x = n) && block.affects x

def enterSymbol (around entered : List α) (x : α) : Option (List α) :=
  if (block.resolve (entered ++ around) (block.name x)).any block.isHidden then some entered
  else if block.refuses x then none
  else if block.affects x then some (entered ++ [block.rewrite x])
  else some entered

/-- All symbols around the block, in the order in which they are found. -/
def enter (around : List α) : Option (List α) :=
  around.foldlM (block.enterSymbol around) []

variable {block}

section Lookup

variable {symbols others : List α} {n : ν} {x : α}

theorem resolve_append :
    block.resolve (symbols ++ others) n = (block.resolve symbols n).or (block.resolve others n) :=
  List.find?_append

theorem firstAffected_append :
    block.firstAffected (symbols ++ others) n =
      (block.firstAffected symbols n).or (block.firstAffected others n) :=
  List.find?_append

theorem firstAffected_mem (found : block.firstAffected symbols n = some x) :
    x ∈ symbols ∧ block.name x = n ∧ block.affects x = true := by
  have isSuch := List.find?_some found
  simp only [Bool.and_eq_true, decide_eq_true_eq] at isSuch
  exact ⟨List.mem_of_find?_eq_some found, isSuch⟩

theorem firstAffected_of_resolve_none (missing : block.resolve symbols n = none) :
    block.firstAffected symbols n = none := by
  rw [firstAffected, List.find?_eq_none]
  intro y isMember
  have different := List.find?_eq_none.mp missing y isMember
  simp only [decide_eq_true_eq] at different
  simp [different]

theorem firstAffected_singleton :
    block.firstAffected [x] n =
      if block.name x = n ∧ block.affects x = true then some x else none := by
  by_cases same : block.name x = n <;> cases isAffected : block.affects x <;>
    simp [firstAffected, same, isAffected]

end Lookup

/-- What has been entered after some of the symbols: for each name that is not
hidden the first symbol that is affected, rewritten. -/
def Describes (block : Rewriting α ν) (around passed entered : List α) : Prop :=
  ∀ n, block.resolve entered n =
    if (block.resolve around n).any block.isHidden then none
    else (block.firstAffected passed n).map block.rewrite

/-- The name is hidden once some of the symbols have been passed. -/
def HiddenAfter (block : Rewriting α ν) (around passed : List α) (n : ν) : Prop :=
  (block.resolve around n).any block.isHidden = true ∨
    ∃ z, block.firstAffected passed n = some z ∧ block.isHidden (block.rewrite z) = true

variable {around passed rest entered final : List α} {n : ν} {x : α}

theorem describes_nil : block.Describes around [] [] := by
  intro n
  change none = if _ then none else none
  rw [ite_self]

theorem isHidden_iff (describes : block.Describes around passed entered) :
    (block.resolve (entered ++ around) n).any block.isHidden = true ↔
      block.HiddenAfter around passed n := by
  rw [resolve_append, describes n]
  unfold HiddenAfter
  cases isVisible : (block.resolve around n).any block.isHidden with
  | true => simp [isVisible]
  | false =>
      cases first : block.firstAffected passed n with
      | none => simp [isVisible]
      | some z => simp

theorem enterSymbol_describes (describes : block.Describes around passed entered)
    (runs : block.enterSymbol around entered x = some final) :
    block.Describes around (passed ++ [x]) final := by
  intro n
  have before := describes n
  rw [firstAffected_append, firstAffected_singleton]
  unfold enterSymbol at runs
  split at runs
  case isTrue isHidden =>
    rw [Option.some.injEq] at runs
    subst runs
    rw [before]
    by_cases same : block.name x = n
    · subst same
      rcases (isHidden_iff describes).mp isHidden with visible | ⟨z, first, _⟩
      · simp [visible]
      · simp [first]
    · simp [same]
  case isFalse notHidden =>
    split at runs
    case isTrue => cases runs
    case isFalse =>
      split at runs
      case isTrue isAffected =>
        rw [Option.some.injEq] at runs
        subst runs
        rw [resolve_append, before]
        by_cases same : block.name x = n
        · subst same
          have visible : ¬(block.resolve around (block.name x)).any block.isHidden = true :=
            fun visible => notHidden ((isHidden_iff describes).mpr (Or.inl visible))
          rw [if_neg visible, if_neg visible]
          cases block.firstAffected passed (block.name x) with
          | none => simp [resolve, block.name_rewrite, isAffected]
          | some z => simp
        · have missing : block.resolve [block.rewrite x] n = none := by
            simp [resolve, block.name_rewrite, same]
          simp [missing, same]
      case isFalse notAffected =>
        rw [Option.some.injEq] at runs
        subst runs
        rw [before]
        simp [notAffected]

/-- The block is entered if and only if every symbol it refuses is hidden by then. -/
theorem foldlM_spec (describes : block.Describes around passed entered)
    (isAround : around = passed ++ rest) :
    ((∃ final, rest.foldlM (block.enterSymbol around) entered = some final) ↔
        ∀ before x behind, rest = before ++ x :: behind → block.refuses x = true →
          block.HiddenAfter around (passed ++ before) (block.name x)) ∧
      ∀ final, rest.foldlM (block.enterSymbol around) entered = some final →
        block.Describes around around final := by
  induction rest generalizing passed entered with
  | nil =>
      rw [List.append_nil] at isAround
      subst isAround
      refine ⟨iff_of_true ⟨entered, rfl⟩ fun before x behind isSplit => ?_, fun final runs => ?_⟩
      · simp at isSplit
      · rw [List.foldlM_nil, Option.pure_def, Option.some.injEq] at runs
        exact runs ▸ describes
  | cons x rest induction =>
      have isHidden := isHidden_iff (n := block.name x) describes
      rw [List.foldlM_cons]
      cases runs : block.enterSymbol around entered x with
      | none =>
          simp only [Option.bind_eq_bind, Option.bind_none, reduceCtorEq, exists_false, false_iff,
            false_implies, implies_true, and_true]
          intro safe
          unfold enterSymbol at runs
          split at runs
          case isTrue => cases runs
          case isFalse notHidden =>
            split at runs
            case isTrue refused =>
              have hidden := safe [] x rest rfl refused
              rw [List.append_nil] at hidden
              exact notHidden (isHidden.mpr hidden)
            case isFalse => split at runs <;> cases runs
      | some next =>
          have nextDescribes := enterSymbol_describes describes runs
          have fromNext := induction nextDescribes (by rw [isAround, List.append_assoc]; rfl)
          rw [Option.bind_eq_bind, Option.bind_some]
          refine ⟨fromNext.1.trans ⟨fun safe before y behind isSplit refused => ?_,
            fun safe before y behind isSplit refused => ?_⟩, fromNext.2⟩
          · cases before with
            | nil =>
                rw [List.nil_append, List.cons.injEq] at isSplit
                rw [← isSplit.1] at refused ⊢
                unfold enterSymbol at runs
                rw [refused] at runs
                rw [List.append_nil]
                by_contra notHidden
                rw [if_neg fun hidden => notHidden (isHidden.mp hidden), if_pos rfl] at runs
                cases runs
            | cons first before =>
                rw [List.cons_append, List.cons.injEq] at isSplit
                have hidden := safe before y behind isSplit.2 refused
                rwa [List.append_assoc, isSplit.1, List.singleton_append] at hidden
          · have hidden := safe (x :: before) y behind (by rw [isSplit]; rfl) refused
            rwa [List.append_assoc, List.singleton_append]

/-- The first symbol of the name that is affected is entered as a hidden marker. -/
def HidesName (block : Rewriting α ν) (around : List α) (n : ν) : Prop :=
  ∃ z, block.firstAffected around n = some z ∧ block.isHidden (block.rewrite z) = true ∧
    block.refuses z = false

/-- Nothing that is refused is visible or comes up before its name is hidden. -/
def Admits (block : Rewriting α ν) (around : List α) : Prop :=
  ∀ y ∈ around, block.refuses y = true →
    (block.resolve around (block.name y)).any block.isHidden = true ∨
      block.HidesName around (block.name y)

theorem enter_isSome_iff : (∃ entered, block.enter around = some entered) ↔ block.Admits around := by
  have spec :=
    foldlM_spec (describes_nil : block.Describes around [] []) (rfl : around = [] ++ around)
  rw [enter, spec.1]
  constructor
  · intro safe y isMember refused
    have isSplit := List.append_of_mem isMember
    rcases isSplit with ⟨before, behind, isSplit⟩
    rcases safe before y behind isSplit refused with visible | ⟨z, first, isHidden⟩
    · exact Or.inl visible
    · rw [List.nil_append] at first
      by_cases visible : (block.resolve around (block.name y)).any block.isHidden = true
      · exact Or.inl visible
      · refine Or.inr ⟨z, by rw [isSplit, firstAffected_append, first, Option.some_or], isHidden, ?_⟩
        rw [← Bool.not_eq_true]
        intro zRefused
        have sameName := (firstAffected_mem first).2.1
        rcases List.find?_eq_some_iff_append.mp first with ⟨_, front, back, isFront, unaffected⟩
        have atFront : around = front ++ z :: (back ++ y :: behind) := by
          rw [isSplit, isFront, List.append_assoc, List.cons_append]
        have noneBefore : block.firstAffected front (block.name y) = none := by
          rw [firstAffected, List.find?_eq_none]
          intro w isMember isSuch
          have isNot := unaffected w isMember
          rw [isSuch] at isNot
          cases isNot
        rcases safe front z _ atFront zRefused with zVisible | ⟨w, found, _⟩
        · rw [sameName] at zVisible
          exact visible zVisible
        · rw [List.nil_append, sameName, noneBefore] at found
          cases found
  · intro admits before y behind isSplit refused
    have affected := block.affects_of_refuses y refused
    rcases admits y (by simp [isSplit]) refused with visible | ⟨z, first, isHidden, notRefused⟩
    · exact Or.inl visible
    · refine Or.inr ⟨z, ?_, isHidden⟩
      rw [List.nil_append]
      rw [isSplit, firstAffected_append] at first
      cases found : block.firstAffected before (block.name y) with
      | some w =>
          rw [found, Option.some_or] at first
          exact first
      | none =>
          have isFirst : block.firstAffected (y :: behind) (block.name y) = some y := by
            simp [firstAffected, affected]
          rw [found, Option.none_or, isFirst, Option.some.injEq] at first
          subst first
          rw [refused] at notRefused
          cases notRefused

theorem resolve_enter (runs : block.enter around = some entered) (n : ν) :
    block.resolve (entered ++ around) n =
      if (block.resolve around n).any block.isHidden then block.resolve around n
      else ((block.firstAffected around n).map block.rewrite).or (block.resolve around n) := by
  have describes : block.Describes around around entered :=
    (foldlM_spec describes_nil (rfl : around = [] ++ around)).2 entered runs
  rw [resolve_append, describes n]
  split
  case isTrue => rw [Option.none_or]
  case isFalse => rfl

theorem foldlM_mem (symbols : List α) (runs : symbols.foldlM (block.enterSymbol around) entered = some final)
    {y : α} (isMember : y ∈ final) :
    y ∈ entered ∨ ∃ x ∈ symbols, block.affects x = true ∧ y = block.rewrite x := by
  induction symbols generalizing entered with
  | nil =>
      rw [List.foldlM_nil, Option.pure_def, Option.some.injEq] at runs
      exact Or.inl (runs ▸ isMember)
  | cons x symbols induction =>
      rw [List.foldlM_cons, Option.bind_eq_bind, Option.bind_eq_some_iff] at runs
      rcases runs with ⟨next, step, runs⟩
      rcases induction runs with inNext | ⟨z, inside, isRewritten⟩
      · unfold enterSymbol at step
        split at step
        case isTrue =>
          cases step
          exact Or.inl inNext
        case isFalse =>
          split at step
          case isTrue => cases step
          case isFalse =>
            split at step
            case isTrue affected =>
              cases step
              rcases List.mem_append.mp inNext with before | isNew
              · exact Or.inl before
              · exact Or.inr ⟨x, List.mem_cons_self, affected, List.mem_singleton.mp isNew⟩
            case isFalse =>
              cases step
              exact Or.inl inNext
      · exact Or.inr ⟨z, List.mem_cons_of_mem x inside, isRewritten⟩

theorem mem_of_enter (runs : block.enter around = some entered) {y : α} (isMember : y ∈ entered) :
    ∃ x ∈ around, block.affects x = true ∧ y = block.rewrite x :=
  (foldlM_mem around runs isMember).resolve_left List.not_mem_nil

/-- Every identifier finds a view of what it found around the block. -/
def Keeps (block : Rewriting α ν) (View : α → α → Prop) (around entered : List α) : Prop :=
  ∀ n, Option.Rel View (block.resolve around n) (block.resolve (entered ++ around) n)

/-- No affected symbol comes before the visible one in the scope of the block. -/
def Unshadowed (block : Rewriting α ν) (around : List α) : Prop :=
  ∀ n x y, block.resolve around n = some x → block.isHidden x = false →
    block.firstAffected around n = some y → y = x ∨ block.rewrite y = x

theorem keeps_iff {View : α → α → Prop} (itself : ∀ x, View x x)
    (rewritten : ∀ x, block.affects x = true → View x (block.rewrite x))
    (only : ∀ x y, block.affects y = true → View x (block.rewrite y) →
      y = x ∨ block.rewrite y = x)
    (runs : block.enter around = some entered) :
    block.Keeps View around entered ↔ block.Unshadowed around := by
  constructor
  · intro keeps n x y visible notHidden first
    have related := keeps n
    rw [resolve_enter runs, visible, Option.any_some, notHidden, if_neg Bool.false_ne_true, first,
      Option.map_some, Option.some_or] at related
    cases related with
    | some view => exact only x y (firstAffected_mem first).2.2 view
  · intro unshadowed n
    rw [resolve_enter runs]
    cases visible : block.resolve around n with
    | none =>
        rw [Option.any_none, if_neg Bool.false_ne_true, firstAffected_of_resolve_none visible]
        exact Option.Rel.none
    | some x =>
        cases isHidden : block.isHidden x with
        | true =>
            rw [Option.any_some, isHidden, if_pos rfl]
            exact Option.Rel.some (itself x)
        | false =>
            rw [Option.any_some, isHidden, if_neg Bool.false_ne_true]
            cases first : block.firstAffected around n with
            | none =>
                rw [Option.map_none, Option.none_or]
                exact Option.Rel.some (itself x)
            | some y =>
                rw [Option.map_some, Option.some_or]
                apply Option.Rel.some
                rcases unshadowed n x y visible isHidden first with same | same
                · rw [same]
                  exact rewritten x (same ▸ (firstAffected_mem first).2.2)
                · rw [same]
                  exact itself x

end Rewriting

end Rcgo.Foundation
