import Rcgo.Foundation.Regex

/-!
# The first of the longest matches

A scanner chooses the rule that matches the longest prefix of its input, and
among several such rules the first one.
-/

namespace Rcgo.Foundation

universe u v

/-- A pattern and what is done with the text that it matches. -/
structure MatchRule (α : Type u) (τ : Type v) where
  pattern : Regex α
  action : τ

namespace MatchRule

variable {α : Type u} {τ : Type v}

/-- The length of the match and the action of the rule. -/
def select : List (MatchRule α τ) → List α → Option (Nat × τ)
  | [], _ => none
  | rule :: rules, text =>
      match rule.pattern.longest text, select rules text with
      | none, later => later
      | some n, none => some (n, rule.action)
      | some n, some (m, action) => if m ≤ n then some (n, rule.action) else some (m, action)

variable {rules before after : List (MatchRule α τ)} {rule : MatchRule α τ} {text : List α}
  {n : Nat}

/-- No prefix of the text that one of the rules matches is longer than `n`. -/
def MatchesAtMost (rules : List (MatchRule α τ)) (text : List α) (n : Nat) : Prop :=
  ∀ rule ∈ rules, ∀ m, m ≤ text.length → text.take m ∈ rule.pattern.language → m ≤ n

theorem MatchesAtMost.append (first : MatchesAtMost before text n)
    (second : MatchesAtMost after text n) : MatchesAtMost (before ++ after) text n := by
  intro rule member
  rcases List.mem_append.mp member with inBefore | inAfter
  · exact first rule inBefore
  · exact second rule inAfter

theorem MatchesAtMost.cons
    (first : ∀ m, m ≤ text.length → text.take m ∈ rule.pattern.language → m ≤ n)
    (others : MatchesAtMost rules text n) : MatchesAtMost (rule :: rules) text n := by
  intro other member
  rcases List.mem_cons.mp member with isRule | inRules
  · rw [isRule]
    exact first
  · exact others other inRules

theorem select_eq_none :
    select rules text = none ↔
      ∀ rule ∈ rules, ∀ m, m ≤ text.length → text.take m ∉ rule.pattern.language := by
  induction rules with
  | nil => exact iff_of_true rfl (by simp)
  | cons rule rules inductionHypothesis =>
      rw [List.forall_mem_cons, ← inductionHypothesis, ← Regex.longest_eq_none, select]
      cases rule.pattern.longest text with
      | none => simp
      | some n =>
          cases select rules text with
          | none => simp
          | some later =>
              refine iff_of_false ?_ (by simp)
              dsimp only
              split
              · exact Option.some_ne_none _
              · exact Option.some_ne_none _

theorem select_bound (atMost : MatchesAtMost rules text n) {m : Nat} {action : τ}
    (selected : select rules text = some (m, action)) : m ≤ n := by
  induction rules generalizing m action with
  | nil => cases selected
  | cons rule rules inductionHypothesis =>
      have others : MatchesAtMost rules text n := fun other member =>
        atMost other (List.mem_cons_of_mem _ member)
      rw [select] at selected
      cases isLongest : rule.pattern.longest text with
      | none =>
          rw [isLongest] at selected
          exact inductionHypothesis others selected
      | some k =>
          have spec := Regex.longest_eq_some.mp isLongest
          have bound := atMost rule List.mem_cons_self k spec.bound spec.isMatch
          rw [isLongest] at selected
          cases isLater : select rules text with
          | none =>
              rw [isLater, Option.some.injEq, Prod.mk.injEq] at selected
              exact selected.1 ▸ bound
          | some later =>
              have laterBound := inductionHypothesis others isLater
              rw [isLater] at selected
              dsimp only at selected
              split at selected
              · rw [Option.some.injEq, Prod.mk.injEq] at selected
                exact selected.1 ▸ bound
              · rw [Option.some.injEq, Prod.mk.injEq] at selected
                exact selected.1 ▸ laterBound

theorem select_eq_some (before : List (MatchRule α τ)) (rule : MatchRule α τ)
    {after : List (MatchRule α τ)} (isLongest : Regex.IsLongest rule.pattern.language text n)
    (shorter : ∀ other ∈ before, ∀ m, m ≤ text.length →
      text.take m ∈ other.pattern.language → m < n)
    (atMost : MatchesAtMost after text n) :
    select (before ++ rule :: after) text = some (n, rule.action) := by
  induction before with
  | nil =>
      rw [List.nil_append, select, Regex.longest_eq_some.mpr isLongest]
      cases isLater : select after text with
      | none => rfl
      | some later => exact if_pos (select_bound atMost isLater)
  | cons first before inductionHypothesis =>
      have others := inductionHypothesis fun other member =>
        shorter other (List.mem_cons_of_mem _ member)
      rw [List.cons_append, select, others]
      cases isFirst : first.pattern.longest text with
      | none => rfl
      | some k =>
          have spec := Regex.longest_eq_some.mp isFirst
          have less := shorter first List.mem_cons_self k spec.bound spec.isMatch
          exact if_neg (Nat.not_le.mpr less)

theorem select_spec {m : Nat} {action : τ} (selected : select rules text = some (m, action)) :
    (∃ rule ∈ rules, rule.action = action ∧ m ≤ text.length ∧
      text.take m ∈ rule.pattern.language) ∧ MatchesAtMost rules text m := by
  induction rules generalizing m action with
  | nil => cases selected
  | cons rule rules inductionHypothesis =>
      rw [select] at selected
      cases isLongest : rule.pattern.longest text with
      | none =>
          rw [isLongest] at selected
          obtain ⟨⟨other, member, isOther⟩, atMost⟩ := inductionHypothesis selected
          refine And.intro ⟨other, List.mem_cons_of_mem _ member, isOther⟩ (atMost.cons ?_)
          exact fun k bound isMatch =>
            absurd isMatch (Regex.longest_eq_none.mp isLongest k bound)
      | some n =>
          have spec := Regex.longest_eq_some.mp isLongest
          have first : ∃ other ∈ rule :: rules, other.action = rule.action ∧ n ≤ text.length ∧
              text.take n ∈ other.pattern.language :=
            ⟨rule, List.mem_cons_self, rfl, spec.bound, spec.isMatch⟩
          rw [isLongest] at selected
          cases isLater : select rules text with
          | none =>
              rw [isLater, Option.some.injEq, Prod.mk.injEq] at selected
              rw [← selected.1, ← selected.2]
              refine And.intro first (MatchesAtMost.cons spec.longest ?_)
              intro other member k bound isMatch
              exact absurd isMatch (select_eq_none.mp isLater other member k bound)
          | some later =>
              obtain ⟨⟨other, member, isOther⟩, atMost⟩ := inductionHypothesis isLater
              rw [isLater] at selected
              dsimp only at selected
              split at selected
              · next less =>
                rw [Option.some.injEq, Prod.mk.injEq] at selected
                rw [← selected.1, ← selected.2]
                refine And.intro first (MatchesAtMost.cons spec.longest ?_)
                exact fun another inRules k bound isMatch =>
                  (atMost another inRules k bound isMatch).trans less
              · next notLess =>
                rw [Option.some.injEq, Prod.mk.injEq] at selected
                rw [← selected.1, ← selected.2]
                refine And.intro ⟨other, List.mem_cons_of_mem _ member, isOther⟩ (atMost.cons ?_)
                exact fun k bound isMatch => (spec.longest k bound isMatch).trans (by omega)

theorem matchesAtMost_of_starts {a : α}
    (notStarts : (rules.all fun rule => !rule.pattern.starts a) = true) :
    MatchesAtMost rules (a :: text) 0 := by
  intro rule member m _ isMatch
  have notFirst := List.all_eq_true.mp notStarts rule member
  rw [Bool.not_eq_true'] at notFirst
  exact (Regex.eq_zero_of_starts notFirst isMatch).le

theorem matchesAtMost_of_isWithin {a : α}
    (each : (rules.all fun rule => !rule.pattern.starts a || rule.pattern.isWithin n) = true) :
    MatchesAtMost rules (a :: text) n := by
  intro rule member m bound isMatch
  have either := List.all_eq_true.mp each rule member
  rw [Bool.or_eq_true, Bool.not_eq_true'] at either
  rcases either with notStarts | within
  · rw [Regex.eq_zero_of_starts notStarts isMatch]
    exact Nat.zero_le n
  · exact Regex.le_of_isWithin within bound isMatch

/-! ## More text behind a match -/

theorem select_append {behind : List α}
    (atMost : MatchesAtMost rules (text ++ behind) text.length) :
    select rules (text ++ behind) = select rules text := by
  induction rules with
  | nil => rfl
  | cons rule rules inductionHypothesis =>
      rw [select, select, Regex.longest_append (atMost rule List.mem_cons_self),
        inductionHypothesis fun other member => atMost other (List.mem_cons_of_mem _ member)]

/-- The converse of `select_eq_some`. -/
theorem exists_of_select {m : Nat} {action : τ} (selected : select rules text = some (m, action)) :
    ∃ before rule after, rules = before ++ rule :: after ∧ rule.action = action ∧
      Regex.IsLongest rule.pattern.language text m ∧
      (∀ other ∈ before, ∀ k, k ≤ text.length → text.take k ∈ other.pattern.language → k < m) ∧
      MatchesAtMost after text m := by
  induction rules generalizing m action with
  | nil => cases selected
  | cons first rules inductionHypothesis =>
      rw [select] at selected
      -- the first rule is passed over: it matches less than the later one that is chosen
      have passed : ∀ {n : Nat} {later : τ}, select rules text = some (n, later) →
          (∀ k, k ≤ text.length → text.take k ∈ first.pattern.language → k < n) →
          ∃ before rule after, first :: rules = before ++ rule :: after ∧ rule.action = later ∧
            Regex.IsLongest rule.pattern.language text n ∧
            (∀ other ∈ before, ∀ k, k ≤ text.length →
              text.take k ∈ other.pattern.language → k < n) ∧
            MatchesAtMost after text n := by
        intro n later isLater less
        rcases inductionHypothesis isLater with
          ⟨before, rule, after, isSplit, isAction, isLongest, shorter, atMost⟩
        refine ⟨first :: before, rule, after, ?_, isAction, isLongest, ?_, atMost⟩
        · rw [isSplit, List.cons_append]
        · intro other member
          rcases List.mem_cons.mp member with isFirst | inBefore
          · rw [isFirst]
            exact less
          · exact shorter other inBefore
      cases isLongest : first.pattern.longest text with
      | none =>
          rw [isLongest] at selected
          apply passed selected
          intro k bound isMatch
          exact absurd isMatch (Regex.longest_eq_none.mp isLongest k bound)
      | some n =>
          have spec := Regex.longest_eq_some.mp isLongest
          have chosen : ∀ {later : List (MatchRule α τ)}, MatchesAtMost later text n →
              ∃ before rule after, first :: later = before ++ rule :: after ∧
                rule.action = first.action ∧ Regex.IsLongest rule.pattern.language text n ∧
                (∀ other ∈ before, ∀ k, k ≤ text.length →
                  text.take k ∈ other.pattern.language → k < n) ∧
                MatchesAtMost after text n := by
            intro later atMost
            refine ⟨[], first, later, rfl, rfl, spec, ?_, atMost⟩
            exact fun other member => absurd member List.not_mem_nil
          rw [isLongest] at selected
          cases isLater : select rules text with
          | none =>
              rw [isLater, Option.some.injEq, Prod.mk.injEq] at selected
              rw [← selected.1, ← selected.2]
              apply chosen
              intro other member k bound isMatch
              exact absurd isMatch (select_eq_none.mp isLater other member k bound)
          | some later =>
              have later_atMost := (select_spec isLater).2
              rw [isLater] at selected
              dsimp only at selected
              split at selected
              · next less =>
                rw [Option.some.injEq, Prod.mk.injEq] at selected
                rw [← selected.1, ← selected.2]
                apply chosen
                exact fun other member k bound isMatch =>
                  (later_atMost other member k bound isMatch).trans less
              · next notLess =>
                rw [Option.some.injEq, Prod.mk.injEq] at selected
                rw [← selected.1, ← selected.2]
                apply passed isLater
                exact fun k bound isMatch =>
                  (spec.longest k bound isMatch).trans_lt (Nat.lt_of_not_le notLess)

end MatchRule

end Rcgo.Foundation
