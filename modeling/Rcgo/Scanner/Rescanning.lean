import Rcgo.Scanner.Tokens

/-!
# Scanning the tokens again

The tokens of a source text with a blank behind each of them are a source text
with the same tokens.  So blanks can stand for all that the scanner drops, and
no two tokens have to be kept apart by anything else.
-/

namespace Rcgo.Scanner

open Rcgo.Foundation

/-- The texts of the tokens, each with a blank behind it. -/
def spaced (tokens : List Token) : List Byte :=
  tokens.flatMap fun token => token.text ++ [32]

namespace Token

def onFirstLine (token : Token) : Token :=
  { token with line := 1 }

end Token

/-! ## Tokens in comments -/

set_option maxRecDepth 4000 in
theorem ordinaryRules_opening :
    (ordinaryRules.all fun rule => rule.pattern.longest [47, 42] != some 2) = true :=
  rfl

theorem commentRules_silent : (commentRules.all fun rule => isSilent rule.action) = true :=
  rfl

theorem opening_shorter {rule : MatchRule Byte Action} {input : List Byte} {n m : Nat}
    (isLongest : Regex.IsLongest rule.pattern.language input n) (isOrdinary : rule ∈ ordinaryRules)
    (chunkShorter : ∀ k, k ≤ input.length → input.take k ∈ commentChunk.language → k < n)
    (bound : m ≤ input.length) (isMatch : input.take m ∈ (literal "/*").language) : m < n := by
  have isOpening : input.take m = [47, 42] := mem_literal.1 isMatch
  have isTwo : m = 2 := by
    have lengths := congrArg List.length isOpening
    rw [List.length_take, Nat.min_eq_left bound] at lengths
    exact lengths
  rw [isTwo] at bound isOpening ⊢
  have isInput : input = 47 :: 42 :: input.drop 2 := by
    have whole := List.take_append_drop 2 input
    rw [isOpening] at whole
    exact whole.symm
  have isSlash : input.take 1 ∈ commentChunk.language := by
    rw [isInput]
    exact (Regex.longest_eq_some.1 (show commentChunk.longest [47] = some 1 from rfl)).isMatch
  have two := chunkShorter 1 (Nat.le_of_succ_le bound) isSlash
  have notTwo : n ≠ 2 := by
    intro isN
    have isWhole : Regex.IsLongest rule.pattern.language [47, 42] 2 := by
      constructor
      · exact le_rfl
      · have isPrefix := isLongest.isMatch
        rw [isN, isOpening] at isPrefix
        exact isPrefix
      · exact fun k short _ => short
    have none := List.all_eq_true.1 ordinaryRules_opening rule isOrdinary
    rw [Regex.longest_eq_some.2 isWhole] at none
    cases none
  omega

/-- A token that is found in a comment would be found outside, too. -/
theorem select_outside {condition : StartCondition} {input : List Byte} {n : Nat} {action : Action}
    (loud : isSilent action = false)
    (selected : MatchRule.select (activeRules condition) input = some (n, action)) :
    MatchRule.select (activeRules .initial) input = some (n, action) := by
  cases condition with
  | initial => exact selected
  | inComment =>
      rcases MatchRule.exists_of_select selected with
        ⟨before, rule, after, isSplit, isAction, isLongest, shorter, atMost⟩
      have split : ∃ others, before = commentRules ++ others ∧
          ordinaryRules = others ++ rule :: after := by
        rw [activeRules_comment] at isSplit
        rcases List.append_eq_append_iff.1 isSplit with
          ⟨others, isBefore, isOrdinary⟩ | ⟨others, isComment, isRest⟩
        · exact ⟨others, isBefore, isOrdinary⟩
        · cases others with
          | nil =>
              rw [List.append_nil] at isComment
              exact ⟨[], by rw [isComment, List.append_nil], isRest.symm⟩
          | cons first others =>
              rw [List.cons_append, List.cons.injEq] at isRest
              have inComment : rule ∈ commentRules := by
                rw [isComment, isRest.1]
                exact List.mem_append_right _ List.mem_cons_self
              have silent := List.all_eq_true.1 commentRules_silent rule inComment
              rw [isAction, loud] at silent
              cases silent
      rcases split with ⟨others, isBefore, isOrdinary⟩
      rw [activeRules_outside, isOrdinary, ← isAction]
      rw [← List.cons_append, ← List.append_assoc]
      apply MatchRule.select_eq_some _ rule isLongest _ atMost
      intro other member m bound isMatch
      have inBefore : ∀ other ∈ commentRules ++ others, other ∈ before :=
        fun other member => isBefore ▸ member
      rw [List.mem_append, List.mem_cons] at member
      rcases member with isLine | isOpening | inOthers
      · apply shorter other (inBefore other (List.mem_append_left _ _)) m bound isMatch
        rw [commentRules, List.map_append]
        exact List.mem_append_left _ isLine
      · rw [isOpening] at isMatch
        have inOrdinary : rule ∈ ordinaryRules := by
          rw [isOrdinary]
          exact List.mem_append_right _ List.mem_cons_self
        have inComment : chunkRule.rule ∈ commentRules := by simp [commentRules]
        have isBefore := inBefore chunkRule.rule (List.mem_append_left _ inComment)
        exact opening_shorter isLongest inOrdinary (shorter chunkRule.rule isBefore) bound isMatch
      · exact shorter other (inBefore other (List.mem_append_right _ inOthers)) m bound isMatch

/-! ## The first character -/

/-- The rules outside a comment that can start with the character. -/
def rulesAt (b : Byte) : List (MatchRule Byte Action) :=
  (activeRules .initial).filter fun rule => rule.pattern.starts b

theorem rulesAt_blank : rulesAt 32 = [blankRule.rule, unrecognizedRule.rule] :=
  rfl

def runes : List Pattern :=
  [noneOf "'\n", .append (literal "\\") (oneOf "abfnrtv\\'"), octal, hex, littleU, bigU]

theorem rulesAt_apostrophe :
    rulesAt 39 = runes.map (fun p => ⟨quoted p, .rune⟩) ++ [unrecognizedRule.rule] :=
  rfl

theorem rulesAt_slash :
    rulesAt 47 =
      [⟨lineComment, .discard⟩, openingRule.rule, (characterRule "/").rule,
        (symbolRule "/=").rule, unrecognizedRule.rule] :=
  rfl

theorem rulesAt_backquote : rulesAt 96 = [rawStringRule.rule, unrecognizedRule.rule] :=
  rfl

/-- The scanner returns the text as a token when the rest of the input is behind it. -/
structure IsChosen (text : List Byte) (action : Action) (behind : List Byte) : Prop where
  loud : isSilent action = false
  recognized : action ≠ .unrecognized
  selected : MatchRule.select (activeRules .initial) (text ++ behind) = some (text.length, action)

namespace IsChosen

variable {text behind : List Byte} {action : Action}

theorem exists_rule (chosen : IsChosen text action behind) :
    ∃ b rest rule, text = b :: rest ∧ rule ∈ rulesAt b ∧ rule.action = action ∧
      text ∈ rule.pattern.language := by
  rcases (MatchRule.select_spec chosen.selected).1 with ⟨rule, member, isAction, _, isMatch⟩
  rw [List.take_left] at isMatch
  cases text with
  | nil => exact absurd (pos_of_select chosen.selected) (Nat.lt_irrefl 0)
  | cons b rest =>
      refine ⟨b, rest, rule, rfl, ?_, isAction, isMatch⟩
      exact List.mem_filter.2 (And.intro member (Regex.starts_of_mem isMatch))

theorem atMost (chosen : IsChosen text action behind) :
    MatchRule.MatchesAtMost (activeRules .initial) (text ++ behind) text.length :=
  (MatchRule.select_spec chosen.selected).2

theorem notStarts (chosen : IsChosen text action behind) {b : Byte} {rest : List Byte}
    (none : ((rulesAt b).all fun rule =>
      isSilent rule.action || rule.action == .unrecognized) = true) :
    text ≠ b :: rest := by
  intro isText
  rcases chosen.exists_rule with ⟨c, others, rule, isOther, member, isAction, _⟩
  rw [isText, List.cons.injEq] at isOther
  rw [← isOther.1] at member
  have either := List.all_eq_true.1 none rule member
  rw [isAction, chosen.loud, Bool.false_or, beq_iff_eq] at either
  exact chosen.recognized either

theorem notBlank (chosen : IsChosen text action behind) {b : Byte} {rest : List Byte}
    (isText : text = b :: rest) : b ≠ 32 ∧ b ≠ 9 := by
  constructor
  · intro isBlank
    rw [isBlank] at isText
    exact chosen.notStarts rfl isText
  · intro isTab
    rw [isTab] at isText
    exact chosen.notStarts rfl isText

theorem notStartsLine (chosen : IsChosen text action behind) : ¬StartsLine text := by
  rintro (⟨more, isText⟩ | ⟨more, isText⟩)
  · rcases chosen.exists_rule with ⟨b, rest, rule, isOther, member, isAction, isMatch⟩
    rw [isText, List.cons.injEq] at isOther
    rw [← isOther.1, rulesAt_slash] at member
    simp only [List.mem_cons, List.not_mem_nil, or_false] at member
    rcases member with isLine | isOpening | isSlash | isAssign | isError
    · have loud := chosen.loud
      rw [← isAction, isLine] at loud
      cases loud
    · have loud := chosen.loud
      rw [← isAction, isOpening] at loud
      cases loud
    · rw [isSlash, isText] at isMatch
      cases mem_literal.1 isMatch
    · rw [isAssign, isText] at isMatch
      cases mem_literal.1 isMatch
    · apply chosen.recognized
      rw [← isAction, isError]
      rfl
  · exact chosen.notStarts rfl isText

/-! ### A blank behind the token -/

variable {tail : List Byte}

theorem startsLine_of_blank {text tail : List Byte} (nonempty : text ≠ [])
    (starts : StartsLine (text ++ 32 :: tail)) : StartsLine text := by
  rcases List.exists_cons_of_ne_nil nonempty with ⟨b, rest, isText⟩
  rw [isText, List.cons_append] at starts
  rw [isText]
  rcases starts with ⟨more, isLine⟩ | ⟨more, isHash⟩
  · rw [List.cons.injEq] at isLine
    cases rest with
    | nil => cases isLine.2
    | cons c rest =>
        rw [List.cons_append, List.cons.injEq] at isLine
        exact Or.inl ⟨rest, by rw [isLine.1, isLine.2.1]⟩
  · rw [List.cons.injEq] at isHash
    exact Or.inr ⟨rest, by rw [isHash.1]⟩

theorem atMost_blank (chosen : IsChosen text action behind) (rules : List (MatchRule Byte Action))
    (each : (rules.all fun rule => !rule.pattern.mentions 32 || rule.pattern.isWithin 1) = true) :
    MatchRule.MatchesAtMost rules (text ++ 32 :: tail) text.length := by
  intro rule member m bound isMatch
  have either := List.all_eq_true.1 each rule member
  rw [Bool.or_eq_true, Bool.not_eq_true'] at either
  rcases either with notMentions | within
  · exact Regex.le_of_mentions notMentions isMatch
  · exact (Regex.le_of_isWithin within bound isMatch).trans (pos_of_select chosen.selected)

theorem lineComment_blank (chosen : IsChosen text action behind) :
    MatchRule.MatchesAtMost (lineCommentRules.map ScanRule.rule) (text ++ 32 :: tail)
      text.length := by
  intro rule member m _ isMatch
  rcases chosen.exists_rule with ⟨b, rest, _, isText, _⟩
  have nonempty : text ≠ [] := isText ▸ List.cons_ne_nil b rest
  exact absurd (startsLine_of_blank nonempty (lineCommentRules_match member isMatch))
    chosen.notStartsLine

theorem rune_blank (chosen : IsChosen text action behind) :
    MatchRule.MatchesAtMost [runeRule.rule] (text ++ 32 :: tail) text.length := by
  intro other isRune m bound isMatch
  rw [List.mem_singleton.1 isRune] at isMatch
  rcases chosen.exists_rule with ⟨b, rest, rule, isText, member, isAction, isToken⟩
  have isQuote : b = 39 := by
    rcases mem_between.1 isMatch with ⟨_, isTake, _⟩
    rw [isText] at isTake
    exact (take_eq_cons isTake).1
  rw [isQuote, rulesAt_apostrophe, List.mem_append, List.mem_map, List.mem_singleton] at member
  rcases member with ⟨p, inRunes, isRule⟩ | isError
  · rw [← isRule] at isToken
    rcases mem_between.1 isToken with ⟨content, isWhole, isContent⟩
    have notNullable : (runes.all fun p => !p.nullable) = true := rfl
    have nonempty : content ≠ [] := by
      intro isEmpty
      have notEmpty := List.all_eq_true.1 notNullable p inRunes
      rw [isEmpty, ← Regex.nullable_iff] at isContent
      rw [isContent] at notEmpty
      cases notEmpty
    have positive := List.length_pos_iff.2 nonempty
    have three := Regex.le_of_isWithin (n := 3) rfl bound isMatch
    rw [isWhole, List.length_append, List.length_append]
    show m ≤ 1 + (content.length + 1)
    omega
  · exact absurd (by rw [← isAction, isError]; rfl) chosen.recognized

theorem rawString_blank (chosen : IsChosen text action behind) :
    MatchRule.MatchesAtMost [rawStringRule.rule] (text ++ 32 :: tail) text.length := by
  intro other isRaw m bound isMatch
  rw [List.mem_singleton.1 isRaw] at isMatch
  rcases chosen.exists_rule with ⟨b, rest, rule, isText, member, isAction, isToken⟩
  have isQuote : b = 96 := by
    rcases mem_rawStringLiteral.1 isMatch with ⟨_, isTake, _⟩
    rw [isText] at isTake
    exact (take_eq_cons isTake).1
  rw [isQuote, rulesAt_backquote, List.mem_cons, List.mem_singleton] at member
  rcases member with isRule | isError
  · rw [isRule] at isToken
    rcases mem_rawStringLiteral.1 isToken with ⟨content, isWhole, _⟩
    by_contra beyond
    have longer := Nat.lt_of_not_le beyond
    rw [isWhole, List.cons_append] at bound isMatch
    rw [isWhole, List.length_cons] at longer
    apply (exists_rawString_match.1 ⟨m, longer, bound, isMatch⟩).1
    exact List.mem_append_right _ List.mem_cons_self
  · exact absurd (by rw [← isAction, isError]; rfl) chosen.recognized

theorem string_blank (chosen : IsChosen text action behind) (noQuote : 34 ∈ tail → 34 ∈ behind) :
    MatchRule.MatchesAtMost [stringRule.rule] (text ++ 32 :: tail) text.length := by
  intro other isString m bound isMatch
  rw [List.mem_singleton.1 isString] at isMatch
  rcases chosen.exists_rule with ⟨b, rest, rule, isText, _⟩
  have isQuote : b = 34 := by
    rcases mem_between.1 isMatch with ⟨_, isTake, _⟩
    rw [isText] at isTake
    exact (take_eq_cons isTake).1
  have stringActive : stringRule.rule ∈ activeRules .initial := by
    rw [activeRules_initial]
    exact List.mem_append_right _ List.mem_cons_self
  have atMost := chosen.atMost stringRule.rule stringActive
  rw [isText, isQuote] at bound isMatch atMost ⊢
  by_contra beyond
  have found := exists_string_match.1 ⟨m, Nat.lt_of_not_le beyond, bound, isMatch⟩
  have hasQuote : 34 ∈ behind := by
    apply noQuote
    exact (List.mem_cons.1 found.2).resolve_left (by decide)
  rcases exists_string_match.2 (And.intro found.1 hasQuote) with ⟨k, longer, inside, isLonger⟩
  exact absurd (atMost k inside isLonger) (Nat.not_le.2 longer)

theorem blank_blank (chosen : IsChosen text action behind) :
    MatchRule.MatchesAtMost [blankRule.rule] (text ++ 32 :: tail) text.length := by
  intro other isBlank m _ isMatch
  rw [List.mem_singleton.1 isBlank] at isMatch
  rcases chosen.exists_rule with ⟨b, rest, rule, isText, _⟩
  have notBlank := chosen.notBlank isText
  rw [isText, List.cons_append] at isMatch
  rcases mem_plus_symbol.1 isMatch with ⟨nonempty, areBlank⟩
  cases m with
  | zero => exact absurd List.take_zero nonempty
  | succ m =>
      have isMember := areBlank b (by rw [List.take_succ_cons]; exact List.mem_cons_self)
      have isListed : b ∈ ([32, 9] : List Byte) := List.contains_iff_mem.1 isMember
      rw [List.mem_cons, List.mem_singleton] at isListed
      rcases isListed with isSpace | isTab
      · exact absurd isSpace notBlank.1
      · exact absurd isTab notBlank.2

theorem atMost_spaced (chosen : IsChosen text action behind) (noQuote : 34 ∈ tail → 34 ∈ behind) :
    MatchRule.MatchesAtMost (activeRules .initial) (text ++ 32 :: tail) text.length := by
  have isSplit : activeRules .initial =
      lineCommentRules.map ScanRule.rule ++ ((openingRule.rule :: rulesBeforeTimes) ++
        ((symbolRule "*=").rule :: rulesAfterTimes ++ ([rawStringRule.rule] ++
          ([stringRule.rule] ++ (numberRules.map ScanRule.rule ++ ([runeRule.rule] ++
            (escapedRuneRules.map ScanRule.rule ++ ([blankRule.rule] ++
              [newlineRule.rule, unrecognizedRule.rule])))))))) := by
    rw [activeRules_outside]
    rfl
  rw [isSplit]
  apply chosen.lineComment_blank.append
  apply (chosen.atMost_blank _ rfl).append
  apply (chosen.atMost_blank _ rfl).append
  apply chosen.rawString_blank.append
  apply (chosen.string_blank noQuote).append
  apply (chosen.atMost_blank _ rfl).append
  apply chosen.rune_blank.append
  apply (chosen.atMost_blank _ rfl).append
  apply chosen.blank_blank.append
  exact chosen.atMost_blank _ rfl

theorem next_spaced (chosen : IsChosen text action behind) (noQuote : 34 ∈ tail → 34 ∈ behind)
    (line : Nat) :
    Scan.next ⟨text ++ 32 :: tail, .initial, line⟩ =
      some (⟨32 :: tail, .initial, line⟩, some (action, text)) := by
  have selected : MatchRule.select (activeRules .initial) (text ++ 32 :: tail) =
      some (text.length, action) := by
    rw [MatchRule.select_append (chosen.atMost_spaced noQuote),
      ← MatchRule.select_append chosen.atMost, chosen.selected]
  have step := next_of_select (s := ⟨text ++ 32 :: tail, .initial, line⟩) chosen.loud selected
  rw [List.drop_left, List.take_left] at step
  exact step

end IsChosen

/-! ## All tokens -/

def NotBlank (text : List Byte) : Prop :=
  ∀ b rest, text = b :: rest → b ≠ 32 ∧ b ≠ 9

theorem silentStep_blank {tail : List Byte} (notBlank : NotBlank tail) (line : Nat) :
    SilentStep ⟨32 :: tail, .initial, line⟩ ⟨tail, .initial, line⟩ := by
  have atMost : MatchRule.MatchesAtMost (activeRules .initial) ([32] ++ tail) 1 := by
    intro rule member m bound isMatch
    cases m with
    | zero => exact Nat.zero_le 1
    | succ m =>
        have inRules : rule ∈ rulesAt 32 :=
          List.mem_filter.2 (And.intro member (Regex.starts_of_mem isMatch))
        rw [rulesAt_blank, List.mem_cons, List.mem_singleton] at inRules
        rcases inRules with isBlank | isError
        · rw [isBlank] at isMatch
          have areBlank := (mem_plus_symbol.1 isMatch).2
          cases tail with
          | nil => exact bound
          | cons b rest =>
              cases m with
              | zero => exact le_rfl
              | succ m =>
                  have isMember := areBlank b (by simp)
                  have isListed : b ∈ ([32, 9] : List Byte) := List.contains_iff_mem.1 isMember
                  have other := notBlank b rest rfl
                  simp [other] at isListed
        · rw [isError] at isMatch
          exact (take_mem_dot isMatch bound).le
  have selected : MatchRule.select (activeRules .initial) ([32] ++ tail) = some (1, .discard) := by
    rw [MatchRule.select_append atMost]
    rfl
  exact silentStep_of_discard line selected

theorem exists_chosen {s next : Scan} {action : Action} {text : List Byte}
    (step : s.next = some (next, some (action, text))) (recognized : action ≠ .unrecognized) :
    s.input = text ++ next.input ∧ IsChosen text action next.input := by
  rcases exists_select step with ⟨n, selected, loud, isText, isNext⟩
  have isInput : s.input = text ++ next.input := by
    rw [isText, isNext, List.take_append_drop]
  rcases (MatchRule.select_spec selected).1 with ⟨_, _, _, bound, _⟩
  have isLength : text.length = n := by
    rw [isText, List.length_take, Nat.min_eq_left bound]
  have outside := select_outside loud selected
  rw [isInput, ← isLength] at outside
  exact And.intro isInput ⟨loud, recognized, outside⟩

theorem Scanned.spaced_append {s last : Scan} {tokens : List Token}
    (run : Scanned s tokens last) {tail : List Byte} (noQuote : 34 ∈ tail → 34 ∈ last.input)
    (notBlank : NotBlank tail) :
    Scanned ⟨spaced tokens ++ tail, .initial, 1⟩ (tokens.map Token.onFirstLine)
      ⟨tail, .initial, 1⟩ ∧ NotBlank (spaced tokens ++ tail) ∧
      (34 ∈ spaced tokens ++ tail → 34 ∈ s.input) := by
  induction run with
  | refl s => exact And.intro (.refl _) (And.intro notBlank noQuote)
  | @silent s next last tokens step _ inductionHypothesis =>
      rcases inductionHypothesis noQuote with ⟨again, starts, quotes⟩
      rcases count_of_silentStep step with ⟨gap, isInput, _⟩
      refine And.intro again (And.intro starts ?_)
      intro hasQuote
      rw [isInput]
      exact List.mem_append_right _ (quotes hasQuote)
  | @token s next last action text tokens step recognized _ inductionHypothesis =>
      rcases inductionHypothesis noQuote with ⟨again, starts, quotes⟩
      rcases exists_chosen step recognized with ⟨isInput, chosen⟩
      have isSpaced : spaced (⟨action, text, s.line⟩ :: tokens) ++ tail =
          text ++ 32 :: (spaced tokens ++ tail) := by
        simp [spaced]
      rw [isSpaced]
      refine And.intro ?_ (And.intro ?_ ?_)
      · have first := chosen.next_spaced quotes 1
        exact .token first recognized (.silent (silentStep_blank starts 1) again)
      · rcases chosen.exists_rule with ⟨b, rest, _, isCons, _⟩
        intro c others isOther
        rw [isCons, List.cons_append, List.cons.injEq] at isOther
        rw [← isOther.1]
        exact chosen.notBlank isCons
      · intro hasQuote
        rw [isInput]
        rw [List.mem_append, List.mem_cons] at hasQuote
        rcases hasQuote with inText | isBlank | inOthers
        · exact List.mem_append_left _ inText
        · cases isBlank
        · exact List.mem_append_right _ (quotes inOthers)

/-- The tokens of a source text, each with a blank behind it, are the tokens of
that text, whatever the scanner has dropped between them, and however far it
came. -/
theorem scanned_spaced {source : List Byte} {tokens : List Token} {last : Scan}
    (run : Scanned (Scan.start source) tokens last) :
    Scanned (Scan.start (spaced tokens)) (tokens.map Token.onFirstLine) (Scan.start []) := by
  have noQuote : 34 ∈ ([] : List Byte) → 34 ∈ last.input :=
    fun hasQuote => absurd hasQuote List.not_mem_nil
  have notBlank : NotBlank [] := fun b rest isCons => absurd isCons.symm (List.cons_ne_nil b rest)
  have again := (run.spaced_append noQuote notBlank).1
  rw [List.append_nil] at again
  exact again

/-- A comment, a newline, and a string that ends in an escaped backslash. -/
theorem scanned_spaced_backslash :
    Scanned (Scan.start (bytes "x \"\\\\\" "))
      [⟨.identifier, [120], 1⟩, ⟨.interpretedString, [34, 92, 92, 34], 1⟩] (Scan.start []) := by
  have run : Scanned (Scan.start (bytes "x//\n\"\\\\\""))
      [⟨.identifier, [120], 1⟩, ⟨.interpretedString, [34, 92, 92, 34], 2⟩] ⟨[], .initial, 2⟩ := by
    -- the identifier, the comment and the newline, and the string
    exact .token rfl (by decide) (.silent rfl (.silent rfl (.token rfl (by decide) (.refl _))))
  exact scanned_spaced run

end Rcgo.Scanner
