import Rcgo.Frontend.TypeDeclarations

/-!
# The analysis of type declarations completes

Each call of `process_declaration` that goes further takes a symbol that is
declared and puts it in progress, so the depth of the recursion is bounded by the
number of declared symbols.  Only a map type ends the analysis.
-/

namespace Rcgo.Frontend

open Code Foundation Reporting

mutual

/-- No node is a map type. -/
def TypeSpec.Mapless : TypeSpec → Prop
  | .identifierType _ => True
  | .array _ baseType => baseType.Mapless
  | .slice child => child.Mapless
  | .pointer child => child.Mapless
  | .heap child => child.Mapless
  | .map _ _ => False
  | .fieldList _ fields => fields.Mapless

def VariableLists.Mapless : VariableLists → Prop
  | .nil => True
  | .cons _ type rest => type.Mapless ∧ rest.Mapless

end

def waiting (scope : PackageScope) : Nat :=
  scope.countP (·.state = .declared)

/-- What a phase may do to the scope after the entry of the names. -/
structure Follows (before after : PackageScope) : Prop where
  typedecls : after.map (·.typedecl) = before.map (·.typedecl)
  waiting_le : waiting after ≤ waiting before

theorem Follows.refl (scope : PackageScope) : Follows scope scope :=
  ⟨rfl, Nat.le_refl _⟩

theorem Follows.trans {a b c : PackageScope} (first : Follows a b) (second : Follows b c) :
    Follows a c :=
  ⟨second.typedecls.trans first.typedecls, Nat.le_trans second.waiting_le first.waiting_le⟩

theorem Follows.length_eq {before after : PackageScope} (follows : Follows before after) :
    after.length = before.length := by
  simpa using congrArg List.length follows.typedecls

/-- A scope that a recursion of the given depth can process. -/
structure Ready (depth : Nat) (scope : PackageScope) : Prop where
  mapless : ∀ typedecl ∈ scope.map (·.typedecl), typedecl.type.Mapless
  waiting_lt : waiting scope < depth

theorem Ready.follows {depth : Nat} {before after : PackageScope} (ready : Ready depth before)
    (follows : Follows before after) : Ready depth after where
  mapless typedecl member := ready.mapless typedecl (follows.typedecls ▸ member)
  waiting_lt := Nat.lt_of_le_of_lt follows.waiting_le ready.waiting_lt

theorem report_completes (code : ErrorCode) (scope : PackageScope) :
    Completes Follows (report code) scope :=
  ⟨(), scope, rfl, .refl scope⟩

theorem completes_bind {α β : Type} {x : Phase α} {f : α → Phase β} {scope : PackageScope}
    (first : Completes Follows x scope)
    (second : ∀ value after, (x scope).result = some (value, after) → Follows scope after →
      Completes Follows (f value) after) :
    Completes Follows (x >>= f) scope :=
  first.bind (fun _ _ _ => Follows.trans) second

theorem completes_report_bind {α : Type} (code : ErrorCode) {rest : Phase α} {scope : PackageScope}
    (completes : Completes Follows rest scope) :
    Completes Follows (report code >>= fun _ => rest) scope :=
  completes_bind (report_completes code scope) fun _ after isResult _ => by
    change some ((), scope) = some (_, after) at isResult
    cases isResult
    exact completes

theorem processArrayDimension_completes (dimension : Dimension) (scope : PackageScope) :
    Completes Follows (processArrayDimension dimension) scope := by
  cases dimension with
  | notConstant => exact completes_report_bind _ (completes_pure Follows.refl _ _)
  | nonInteger => exact completes_report_bind _ (completes_pure Follows.refl _ _)
  | constant dim =>
      rw [processArrayDimension]
      split
      · exact completes_report_bind _ (completes_pure Follows.refl _ _)
      · exact completes_pure Follows.refl _ _

theorem appendFields_completes (type : DataType) (identifiers : List String) (members : Members)
    (scope : PackageScope) : Completes Follows (appendFields type identifiers members) scope := by
  induction identifiers generalizing members with
  | nil => exact completes_pure Follows.refl _ _
  | cons identifier rest inductionHypothesis =>
      rw [appendFields]
      split
      · exact completes_report_bind _ (inductionHypothesis members)
      · exact inductionHypothesis _

section ProcessType

variable {depth : Nat} {callee : Nat → Phase Bool}

/-- The callee completes where the recursion can process the scope. -/
def Handles (depth : Nat) (callee : Nat → Phase Bool) : Prop :=
  ∀ scope i, Ready depth scope → i < scope.length → Completes Follows (callee i) scope

theorem processType_identifierType_completes (handles : Handles depth callee)
    (requireDefined : Bool) (identifier : String) {scope : PackageScope}
    (ready : Ready depth scope) :
    Completes Follows (processType callee requireDefined (.identifierType identifier)) scope := by
  rw [processType]
  apply completes_bind (completes_get Follows.refl scope)
  intro found after isResult _
  change some (scope, scope) = some (found, after) at isResult
  cases isResult
  split
  next i isFound =>
    have within : i < scope.length := (List.findIdx?_eq_some_iff_getElem.mp isFound).1
    split
    · apply completes_bind (handles scope i ready within)
      intro defined after _ _
      cases defined with
      | false => exact completes_report_bind _ (completes_pure Follows.refl _ _)
      | true => exact completes_pure Follows.refl _ _
    · exact completes_pure Follows.refl _ _
  next =>
    split
    · exact completes_pure Follows.refl _ _
    · exact completes_report_bind _ (completes_pure Follows.refl _ _)
    · exact completes_report_bind _ (completes_pure Follows.refl _ _)

mutual

theorem processType_completes (handles : Handles depth callee) (requireDefined : Bool) :
    ∀ (type : TypeSpec) {scope : PackageScope}, type.Mapless → Ready depth scope →
      Completes Follows (processType callee requireDefined type) scope
  | .identifierType identifier, _, _, ready =>
      processType_identifierType_completes handles requireDefined identifier ready
  | .array dimension baseType, scope, mapless, ready => by
      rw [processType]
      apply completes_bind (processArrayDimension_completes dimension scope)
      intro dim after _ follows
      cases dim with
      | none => exact completes_pure Follows.refl _ _
      | some dim =>
          apply completes_bind
            (processType_completes handles true baseType mapless (ready.follows follows))
          exact fun _ _ _ _ => completes_pure Follows.refl _ _
  | .slice child, _, mapless, ready => by
      rw [processType]
      apply completes_bind (processType_completes handles false child mapless ready)
      exact fun _ _ _ _ => completes_pure Follows.refl _ _
  | .pointer child, _, mapless, ready => by
      rw [processType]
      apply completes_bind (processType_completes handles false child mapless ready)
      exact fun _ _ _ _ => completes_pure Follows.refl _ _
  | .heap child, _, mapless, ready => by
      rw [processType]
      apply completes_bind (processType_completes handles false child mapless ready)
      exact fun _ _ _ _ => completes_pure Follows.refl _ _
  | .map _ _, _, mapless, _ => mapless.elim
  | .fieldList isComponent fields, _, mapless, ready => by
      rw [processType]
      apply completes_bind (processFields_completes handles fields _ mapless ready)
      exact fun _ _ _ _ => completes_pure Follows.refl _ _

theorem processFields_completes (handles : Handles depth callee) :
    ∀ (fields : VariableLists) (members : Members) {scope : PackageScope}, fields.Mapless →
      Ready depth scope → Completes Follows (processFields callee fields members) scope
  | .nil, _, _, _, _ => by
      rw [processFields]
      exact completes_pure Follows.refl _ _
  | .cons identifiers type rest, members, _, mapless, ready => by
      rw [processFields]
      apply completes_bind (processType_completes handles true type mapless.1 ready)
      intro processed after _ follows
      cases processed with
      | none => exact processFields_completes handles rest members mapless.2 (ready.follows follows)
      | some type =>
          apply completes_bind (appendFields_completes type identifiers members after)
          intro members last _ appended
          exact processFields_completes handles rest members mapless.2
            ((ready.follows follows).follows appended)

end

end ProcessType

theorem waiting_modify (scope : PackageScope) (i : Nat) (change : NamedType → NamedType)
    (leaves : ∀ symbol, (change symbol).state ≠ .declared) :
    waiting (scope.modify i change) +
      (if (scope[i]?.map (·.state)) = some .declared then 1 else 0) = waiting scope := by
  induction scope generalizing i with
  | nil => simp [waiting]
  | cons head rest inductionHypothesis =>
      cases i with
      | zero =>
          have changed := leaves head
          by_cases isDeclared : head.state = .declared <;>
            simp [waiting, List.modify_zero_cons, changed, isDeclared]
      | succ i =>
          have others := inductionHypothesis i
          simp only [waiting, List.modify_succ_cons, List.countP_cons, List.getElem?_cons_succ]
            at others ⊢
          omega

theorem follows_modify (scope : PackageScope) (i : Nat) {change : NamedType → NamedType}
    (keeps : ∀ symbol, (change symbol).typedecl = symbol.typedecl)
    (leaves : ∀ symbol, (change symbol).state ≠ .declared) :
    Follows scope (scope.modify i change) where
  typedecls := by
    apply List.ext_getElem
    · simp
    · intro k _ _
      by_cases same : i = k <;> simp [same, keeps]
  waiting_le := by
    have counted := waiting_modify scope i change leaves
    omega

theorem update_completes {i : Nat} {change : NamedType → NamedType} (scope : PackageScope)
    (keeps : ∀ symbol, (change symbol).typedecl = symbol.typedecl)
    (leaves : ∀ symbol, (change symbol).state ≠ .declared) :
    Completes Follows (update i change) scope :=
  ⟨(), _, rfl, follows_modify scope i keeps leaves⟩

theorem update_pure_completes {i : Nat} {change : NamedType → NamedType} (defined : Bool)
    (scope : PackageScope) (keeps : ∀ symbol, (change symbol).typedecl = symbol.typedecl)
    (leaves : ∀ symbol, (change symbol).state ≠ .declared) :
    Completes Follows (update i change >>= fun _ => (pure defined : Phase Bool)) scope :=
  completes_bind (update_completes scope keeps leaves) fun _ _ _ _ =>
    completes_pure Follows.refl _ _

theorem Ready.inProgress {depth i : Nat} {scope : PackageScope} (ready : Ready (depth + 1) scope)
    (isDeclared : (scope[i]?.map (·.state)) = some .declared) :
    Ready depth (scope.modify i ({ · with state := .inProgress })) where
  mapless := by
    have follows : Follows scope (scope.modify i ({ · with state := .inProgress })) :=
      follows_modify scope i (fun _ => rfl) (by simp)
    exact (ready.follows follows).mapless
  waiting_lt := by
    have counted := waiting_modify scope i ({ · with state := .inProgress }) (by simp)
    have bound := ready.waiting_lt
    rw [if_pos isDeclared] at counted
    omega

theorem handles_processDeclaration (depth : Nat) : Handles depth (processDeclaration depth) := by
  induction depth with
  | zero => exact fun _ _ ready => absurd ready.waiting_lt (Nat.not_lt_zero _)
  | succ depth inductionHypothesis =>
      intro scope i ready within
      rw [processDeclaration]
      apply completes_bind (completes_get Follows.refl scope)
      intro found after isResult _
      change some (scope, scope) = some (found, after) at isResult
      cases isResult
      rw [List.getElem?_eq_getElem within]
      have member : scope[i] ∈ scope := List.getElem_mem within
      cases isState : scope[i].state with
      | declared =>
          simp only [isState]
          have isDeclared : (scope[i]?.map (·.state)) = some .declared := by
            rw [List.getElem?_eq_getElem within]
            exact congrArg some isState
          have isReady := ready.inProgress isDeclared
          have begins : Completes Follows (update i ({ · with state := .inProgress })) scope :=
            update_completes scope (fun _ => rfl) (by simp)
          apply completes_bind begins
          intro _ after isResult _
          change some ((), scope.modify i ({ · with state := .inProgress })) = some (_, after)
            at isResult
          cases isResult
          apply completes_bind (processType_completes inductionHypothesis true _
            (ready.mapless _ (List.mem_map_of_mem member)) isReady)
          intro processed last _ _
          cases processed with
          | none => exact update_pure_completes false last (fun _ => rfl) (by simp)
          | some type => exact update_pure_completes true last (fun _ => rfl) (by simp)
      | inProgress =>
          simp only [isState]
          exact completes_report_bind _ (update_pure_completes false scope (fun _ => rfl) (by simp))
      | defined =>
          simp only [isState]
          exact completes_pure Follows.refl _ _
      | undefined =>
          simp only [isState]
          exact completes_pure Follows.refl _ _

theorem processTopLevelDeclarations_completes {depth : Nat} (symbols : List Nat)
    {scope : PackageScope} (ready : Ready depth scope) (within : ∀ i ∈ symbols, i < scope.length) :
    Completes Follows (processTopLevelDeclarations depth symbols) scope := by
  induction symbols generalizing scope with
  | nil => exact completes_pure Follows.refl _ _
  | cons i rest inductionHypothesis =>
      rw [processTopLevelDeclarations]
      apply completes_bind
        (handles_processDeclaration depth scope i ready (within i List.mem_cons_self))
      intro _ after _ follows
      apply inductionHypothesis (ready.follows follows)
      intro k member
      rw [follows.length_eq]
      exact within k (List.mem_cons_of_mem i member)

def NamedType.declared (typedecl : TypeDecl) : NamedType :=
  { typedecl := typedecl, state := .declared, underlyingType := none }

theorem enterTopLevelIdentifiers_result (typedecls : List TypeDecl) (scope : PackageScope) :
    (enterTopLevelIdentifiers typedecls scope).result =
      some ((), scope ++ typedecls.map NamedType.declared) := by
  induction typedecls generalizing scope with
  | nil => exact congrArg (fun scope => some ((), scope)) (List.append_nil scope).symm
  | cons node rest inductionHypothesis =>
      have others := inductionHypothesis (scope ++ [NamedType.declared node])
      rw [List.append_assoc, List.singleton_append, ← List.map_cons] at others
      rw [enterTopLevelIdentifiers, ← others]
      change result ((if scope.any (·.typedecl.identifier = node.identifier) then _ else _ :
        Phase Unit) scope) = _
      by_cases already : scope.any (·.typedecl.identifier = node.identifier)
      · rw [if_pos already]
        rfl
      · rw [if_neg already]
        rfl

end Rcgo.Frontend
