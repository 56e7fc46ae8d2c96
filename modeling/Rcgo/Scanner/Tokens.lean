import Rcgo.Scanner.CommentRules

/-!
# The tokens of a source text

The calls of the generated scanner, one after another, from the first line of a
source text.  `yylloc` counts the newlines between tokens only: those inside a
string literal are part of `yytext`, and no rule for strings counts them.
-/

namespace Rcgo.Scanner

open Rcgo.Foundation

/-- What the scanner returns: the action of the rule, `yytext` and `yylloc`. -/
structure Token where
  action : Action
  text : List Byte
  line : Nat
  deriving DecidableEq

namespace Scan

/-- `BEGIN (INITIAL)` and `yylloc = 1`. -/
def start (source : List Byte) : Scan :=
  ⟨source, .initial, 1⟩

/-- The end of the input, or a character that ends the compiler with an error. -/
def Halts (s : Scan) : Prop :=
  s.input = [] ∨ ∃ next b, s.next = some (next, some (.unrecognized, [b]))

end Scan

/-- The scanner matches some rules, and returns the tokens.  The error about an
unrecognized character is not passed; a literal whose value is refused may end
the run after any token. -/
inductive Scanned : Scan → List Token → Scan → Prop where
  | refl (s : Scan) : Scanned s [] s
  | silent {s next last : Scan} {tokens : List Token} (step : SilentStep s next)
      (others : Scanned next tokens last) : Scanned s tokens last
  | token {s next last : Scan} {action : Action} {text : List Byte} {tokens : List Token}
      (step : s.next = some (next, some (action, text))) (recognized : action ≠ .unrecognized)
      (others : Scanned next tokens last) : Scanned s (⟨action, text, s.line⟩ :: tokens) last

/-- The text before the next token counts with its newlines, a token without. -/
inductive Laid (rest : List Byte) (lastLine : Nat) : List Byte → Nat → List Token → Prop where
  | done (gap : List Byte) {line : Nat} (counted : lastLine = line + gap.count 10) :
      Laid rest lastLine (gap ++ rest) line []
  | token (gap : List Byte) {behind : List Byte} {line : Nat} (token : Token)
      {tokens : List Token} (counted : token.line = line + gap.count 10)
      (others : Laid rest lastLine behind token.line tokens) :
      Laid rest lastLine (gap ++ (token.text ++ behind)) line (token :: tokens)

namespace Scanned

end Scanned

/-! ## One step -/

theorem next_of_select {s : Scan} {n : Nat} {action : Action} (loud : isSilent action = false)
    (selected : MatchRule.select (activeRules s.condition) s.input = some (n, action)) :
    s.next = some (⟨s.input.drop n, s.condition, s.line⟩, some (action, s.input.take n)) := by
  rw [Scan.next, selected]
  cases action with
  | discard => cases loud
  | begin condition => cases loud
  | newline => cases loud
  | _ => rfl

theorem exists_select {s next : Scan} {action : Action} {text : List Byte}
    (step : s.next = some (next, some (action, text))) :
    ∃ n, MatchRule.select (activeRules s.condition) s.input = some (n, action) ∧
      isSilent action = false ∧ text = s.input.take n ∧
      next = ⟨s.input.drop n, s.condition, s.line⟩ := by
  rw [Scan.next] at step
  cases selected : MatchRule.select (activeRules s.condition) s.input with
  | none =>
      rw [selected] at step
      cases step
  | some found =>
      rcases found with ⟨n, chosen⟩
      rw [selected] at step
      refine ⟨n, ?_⟩
      cases chosen <;> cases step <;> exact ⟨rfl, rfl, rfl, rfl⟩

theorem exists_select_of_silentStep {s next : Scan} (step : SilentStep s next) :
    ∃ n action, MatchRule.select (activeRules s.condition) s.input = some (n, action) ∧
      isSilent action = true ∧ next.input = s.input.drop n ∧
      next.line = s.line + (if action = .newline then 1 else 0) := by
  rw [SilentStep, Scan.next] at step
  cases selected : MatchRule.select (activeRules s.condition) s.input with
  | none =>
      rw [selected] at step
      cases step
  | some found =>
      rcases found with ⟨n, chosen⟩
      rw [selected] at step
      refine ⟨n, chosen, rfl, ?_⟩
      cases chosen <;> cases step <;> exact ⟨rfl, rfl, rfl⟩

theorem pos_of_select {condition : StartCondition} {input : List Byte} {n : Nat} {action : Action}
    (selected : MatchRule.select (activeRules condition) input = some (n, action)) : 0 < n := by
  rcases (MatchRule.select_spec selected).1 with ⟨rule, member, _, _, isMatch⟩
  apply Nat.pos_of_ne_zero
  intro isZero
  have notNullable := List.all_eq_true.1 (activeRules_nullable condition) rule member
  rw [isZero, List.take_zero, ← Regex.nullable_iff] at isMatch
  rw [isMatch] at notNullable
  cases notNullable

theorem select_ne_none (condition : StartCondition) (b : Byte) (text : List Byte) :
    MatchRule.select (activeRules condition) (b :: text) ≠ none := by
  intro isNone
  have noMatch := MatchRule.select_eq_none.1 isNone
  have last : ∀ rule ∈ [newlineRule.rule, unrecognizedRule.rule],
      rule ∈ activeRules condition := by
    have inLast : ∀ rule ∈ [newlineRule.rule, unrecognizedRule.rule], rule ∈ ordinaryRules := by
      simp [ordinaryRules, lastRules]
    intro rule member
    cases condition with
    | initial =>
        rw [activeRules_outside]
        exact List.mem_append_right _ (List.mem_cons_of_mem _ (inLast rule member))
    | inComment =>
        rw [activeRules_comment]
        exact List.mem_append_right _ (inLast rule member)
  by_cases isNewline : b = 10
  · apply noMatch newlineRule.rule (last _ (by simp)) 1 (Nat.succ_pos _)
    exact ⟨b, by rw [isNewline]; rfl, rfl⟩
  · apply noMatch unrecognizedRule.rule (last _ (by simp)) 1 (Nat.succ_pos _)
    refine ⟨b, ?_, rfl⟩
    rw [show bytes "\n" = [10] from rfl, Bool.not_eq_true', List.contains_eq_mem,
      decide_eq_false_iff_not, List.mem_singleton]
    exact isNewline

theorem length_of_unrecognized {condition : StartCondition} {input : List Byte} {n : Nat}
    (selected : MatchRule.select (activeRules condition) input = some (n, .unrecognized)) :
    n = 1 := by
  have within : ((activeRules condition).all fun rule => rule.action != .unrecognized ||
      rule.pattern.isWithin 1) = true := by
    cases condition with
    | initial => rfl
    | inComment => rfl
  rcases (MatchRule.select_spec selected).1 with ⟨rule, member, isAction, bound, isMatch⟩
  have either := List.all_eq_true.1 within rule member
  rw [isAction, bne_self_eq_false, Bool.false_or] at either
  exact Nat.le_antisymm (Regex.le_of_isWithin either bound isMatch) (pos_of_select selected)

theorem take_of_newline {condition : StartCondition} {input : List Byte} {n : Nat}
    (selected : MatchRule.select (activeRules condition) input = some (n, .newline)) :
    input.take n = [10] := by
  have isFilter : ∃ first, (activeRules condition).filter (fun rule => rule.action == .newline) =
      first ++ [newlineRule.rule] ∧ ∀ rule ∈ first, rule = commentNewlineRule.rule := by
    cases condition with
    | initial => exact ⟨[], rfl, by simp⟩
    | inComment => exact ⟨[commentNewlineRule.rule], rfl, by simp⟩
  rcases (MatchRule.select_spec selected).1 with ⟨rule, member, isAction, _, isMatch⟩
  have inFilter : rule ∈ (activeRules condition).filter fun rule => rule.action == .newline :=
    List.mem_filter.2 (And.intro member (by rw [isAction]; rfl))
  rcases isFilter with ⟨first, isSplit, areComment⟩
  rw [isSplit, List.mem_append, List.mem_singleton] at inFilter
  rcases inFilter with inFirst | isLast
  · rw [areComment rule inFirst] at isMatch
    exact mem_literal.1 isMatch
  · rw [isLast] at isMatch
    rcases isMatch with ⟨b, isMember, isSingle⟩
    have isNewline : b = 10 := List.mem_singleton.1 (List.contains_iff_mem.1 isMember)
    rw [isSingle, isNewline]

theorem action_of_newline {condition : StartCondition} {input : List Byte} {n : Nat}
    {action : Action}
    (selected : MatchRule.select (activeRules condition) input = some (n, action))
    (hasNewline : 10 ∈ input.take n) :
    action = .newline ∨ action = .rawString ∨ action = .interpretedString := by
  have mentioning : ((activeRules condition).all fun rule => !rule.pattern.mentions 10 ||
      (rule.action == .newline || (rule.action == .rawString ||
        rule.action == .interpretedString))) = true := by
    cases condition with
    | initial => rfl
    | inComment => rfl
  rcases (MatchRule.select_spec selected).1 with ⟨rule, member, isAction, _, isMatch⟩
  have either := List.all_eq_true.1 mentioning rule member
  rw [Regex.mentions_of_mem isMatch hasNewline, Bool.not_true, Bool.false_or, isAction] at either
  simpa using either

/-! ## Runs -/

theorem count_of_silentStep {s next : Scan} (step : SilentStep s next) :
    ∃ gap, s.input = gap ++ next.input ∧ next.line = s.line + gap.count 10 := by
  rcases exists_select_of_silentStep step with ⟨n, action, selected, silent, isInput, isLine⟩
  refine ⟨s.input.take n, ?_, ?_⟩
  · rw [isInput, List.take_append_drop]
  · rw [isLine]
    by_cases isNewline : action = .newline
    · rw [isNewline] at selected
      rw [if_pos isNewline, take_of_newline selected, List.count_singleton_self]
    · rw [if_neg isNewline, List.count_eq_zero.2]
      intro hasNewline
      rcases action_of_newline selected hasNewline with counts | isRaw | isString
      · exact isNewline counts
      · rw [isRaw] at silent
        cases silent
      · rw [isString] at silent
        cases silent

theorem Laid.gap {rest text : List Byte} {lastLine line : Nat} {tokens : List Token}
    (front : List Byte) (laid : Laid rest lastLine text (line + front.count 10) tokens) :
    Laid rest lastLine (front ++ text) line tokens := by
  cases laid with
  | done gap counted =>
      rw [← List.append_assoc]
      apply Laid.done
      rw [counted, List.count_append, Nat.add_assoc]
  | token gap token counted others =>
      rw [← List.append_assoc]
      apply Laid.token _ _ _ others
      rw [counted, List.count_append, Nat.add_assoc]

theorem Laid.exists_position {rest text : List Byte} {lastLine line : Nat}
    {before after : List Token} {token : Token}
    (laid : Laid rest lastLine text line (before ++ token :: after)) :
    ∃ front back, text = front ++ (token.text ++ back) ∧
      token.line + (before.flatMap Token.text).count 10 = line + front.count 10 := by
  induction before generalizing text line with
  | nil =>
      cases laid with
      | token gap _ counted _ => exact ⟨gap, _, rfl, counted⟩
  | cons first before inductionHypothesis =>
      cases laid with
      | token gap _ counted others =>
          rcases inductionHypothesis others with ⟨front, back, isBehind, isLine⟩
          refine ⟨gap ++ (first.text ++ front), back, ?_, ?_⟩
          · rw [isBehind]
            simp
          · rw [List.flatMap_cons, List.count_append, List.count_append, List.count_append]
            omega

theorem Scanned.laid {s last : Scan} {tokens : List Token} (run : Scanned s tokens last) :
    Laid last.input last.line s.input s.line tokens := by
  induction run with
  | refl s => exact Laid.done [] rfl
  | silent step _ inductionHypothesis =>
      rcases count_of_silentStep step with ⟨gap, isInput, isLine⟩
      rw [isInput]
      rw [isLine] at inductionHypothesis
      exact inductionHypothesis.gap gap
  | @token s next last action text tokens step _ _ inductionHypothesis =>
      rcases exists_select step with ⟨n, _, _, isText, isNext⟩
      rw [isNext] at inductionHypothesis
      have counted : s.line = s.line + ([] : List Byte).count 10 := rfl
      have laid := Laid.token [] ⟨action, text, s.line⟩ counted inductionHypothesis
      rw [List.nil_append, isText, List.take_append_drop] at laid
      rw [isText]
      exact laid

theorem Scanned.newline_in_string {s last : Scan} {tokens : List Token}
    (run : Scanned s tokens last) : ∀ token ∈ tokens, 10 ∈ token.text →
      token.action = .rawString ∨ token.action = .interpretedString := by
  induction run with
  | refl s => exact fun token member => absurd member List.not_mem_nil
  | silent _ _ inductionHypothesis => exact inductionHypothesis
  | @token s next last action text tokens step _ _ inductionHypothesis =>
      intro token member hasNewline
      rcases List.mem_cons.1 member with isFirst | isLater
      · rcases exists_select step with ⟨n, selected, loud, isText, _⟩
        rw [isFirst] at hasNewline ⊢
        rw [isText] at hasNewline
        apply (action_of_newline selected hasNewline).resolve_left
        intro counts
        rw [counts] at loud
        cases loud
      · exact inductionHypothesis token isLater hasNewline

theorem exists_halting_run (s : Scan) : ∃ tokens last, Scanned s tokens last ∧ last.Halts := by
  induction isLength : s.input.length using Nat.strong_induction_on generalizing s with
  | h length inductionHypothesis =>
      cases isInput : s.input with
      | nil => exact ⟨[], s, .refl s, Or.inl isInput⟩
      | cons b text =>
          cases selected : MatchRule.select (activeRules s.condition) s.input with
          | none =>
              rw [isInput] at selected
              exact absurd selected (select_ne_none s.condition b text)
          | some found =>
              rcases found with ⟨n, action⟩
              have positive := pos_of_select selected
              have shorter : ∀ condition line,
                  (⟨s.input.drop n, condition, line⟩ : Scan).input.length < length := by
                intro condition line
                rw [List.length_drop, ← isLength, isInput, List.length_cons]
                omega
              have goesOn := fun condition line =>
                inductionHypothesis _ (shorter condition line) ⟨s.input.drop n, condition, line⟩ rfl
              by_cases loud : isSilent action = false
              · have step := next_of_select loud selected
                by_cases isError : action = .unrecognized
                · rw [isError] at step selected
                  rw [length_of_unrecognized selected, isInput] at step
                  exact ⟨[], s, .refl s, Or.inr ⟨_, b, step⟩⟩
                · rcases goesOn s.condition s.line with ⟨tokens, last, run, halts⟩
                  exact ⟨_, last, .token step isError run, halts⟩
              · have silent : ∃ condition line,
                    SilentStep s ⟨s.input.drop n, condition, line⟩ := by
                  cases action with
                  | discard => exact ⟨_, _, silentStep_of_discard s.line selected⟩
                  | begin condition => exact ⟨_, _, silentStep_of_begin s.line selected⟩
                  | newline => exact ⟨_, _, silentStep_of_newline s.line selected⟩
                  | _ => exact absurd rfl loud
                rcases silent with ⟨condition, line, step⟩
                rcases goesOn condition line with ⟨tokens, last, run, halts⟩
                exact ⟨tokens, last, .silent step run, halts⟩

/-- The scanner gets through every source text, up to its end or to a character
that it reports.  The tokens stand in the text in their order; only string
literals have newlines, and `yylloc` is the line of a token but for the newlines
in the tokens before it. -/
theorem scanned_source (source : List Byte) :
    (∃ tokens last, Scanned (Scan.start source) tokens last ∧ last.Halts) ∧
      ∀ tokens last, Scanned (Scan.start source) tokens last →
        Laid last.input last.line source 1 tokens ∧
        (∀ token ∈ tokens, 10 ∈ token.text →
          token.action = .rawString ∨ token.action = .interpretedString) ∧
        ∀ before token after, tokens = before ++ token :: after →
          ∃ front back, source = front ++ (token.text ++ back) ∧
            token.line + (before.flatMap Token.text).count 10 = 1 + front.count 10 := by
  constructor
  · exact exists_halting_run (Scan.start source)
  · intro tokens last run
    refine And.intro run.laid (And.intro run.newline_in_string ?_)
    intro before token after isSplit
    have laid := run.laid
    rw [isSplit] at laid
    exact laid.exists_position

end Rcgo.Scanner
