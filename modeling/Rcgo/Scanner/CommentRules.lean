import Rcgo.Scanner.StringTokens

/-!
# The rules inside a comment

`IN_COMMENT` is inclusive, so all ordinary rules compete with those for
comments.  What the scanner does next depends on how the text continues.
-/

namespace Rcgo.Scanner

open Rcgo.Foundation

/-! ## The active rules -/

/-- The rules without a start condition up to the star. -/
def rulesBeforeTimes : List (MatchRule Byte Action) :=
  (reservedWords ++ operatorsBefore ++ characterRule "*" :: operatorsBetween).map ScanRule.rule

/-- The rules between `*=` and raw strings. -/
def rulesAfterTimes : List (MatchRule Byte Action) :=
  (operatorsAfter ++ [identifierRule]).map ScanRule.rule

def lastRules : List (MatchRule Byte Action) :=
  (escapedRuneRules ++ [blankRule, newlineRule, unrecognizedRule]).map ScanRule.rule

/-- The rules without a start condition behind those for comments. -/
def ordinaryRules : List (MatchRule Byte Action) :=
  rulesBeforeTimes ++ (symbolRule "*=").rule :: (rulesAfterTimes ++
    rawStringRule.rule :: stringRule.rule :: (numberRules.map ScanRule.rule ++
      runeRule.rule :: lastRules))

/-- The rules for comments that are active in a comment. -/
def commentRules : List (MatchRule Byte Action) :=
  (lineCommentRules ++
    [closingRule, chunkRule, loneStarRule, commentNewlineRule]).map ScanRule.rule

set_option maxRecDepth 2000 in
theorem activeRules_comment : activeRules .inComment = commentRules ++ ordinaryRules :=
  rfl

set_option maxRecDepth 2000 in
theorem activeRules_outside :
    activeRules .initial =
      lineCommentRules.map ScanRule.rule ++ openingRule.rule :: ordinaryRules :=
  rfl

theorem activeRules_nullable (condition : StartCondition) :
    ((activeRules condition).all fun rule => !rule.pattern.nullable) = true := by
  cases condition with
  | initial => rfl
  | inComment => rfl

/-! ## Steps -/

/-- The scanner goes on without a token and without an error. -/
def SilentStep (s next : Scan) : Prop :=
  s.next = some (next, none)

theorem length_lt_of_silentStep {s next : Scan} (step : SilentStep s next) :
    next.input.length < s.input.length := by
  rw [SilentStep, Scan.next] at step
  cases selected : MatchRule.select (activeRules s.condition) s.input with
  | none =>
      rw [selected] at step
      cases step
  | some found =>
      obtain ⟨n, action⟩ := found
      obtain ⟨⟨rule, member, _, bound, isMatch⟩, _⟩ := MatchRule.select_spec selected
      have positive : n ≠ 0 := by
        intro isZero
        have notNullable := List.all_eq_true.1 (activeRules_nullable s.condition) rule member
        rw [isZero, List.take_zero, ← Regex.nullable_iff] at isMatch
        rw [isMatch] at notNullable
        cases notNullable
      have shorter : (s.input.drop n).length < s.input.length := by
        rw [List.length_drop]
        omega
      rw [selected] at step
      cases action <;> cases step <;> exact shorter

theorem silentStep_of_discard {input : List Byte} {condition : StartCondition} (line : Nat)
    {n : Nat} (selected : MatchRule.select (activeRules condition) input = some (n, .discard)) :
    SilentStep ⟨input, condition, line⟩ ⟨input.drop n, condition, line⟩ := by
  rw [SilentStep, Scan.next, selected]

theorem silentStep_of_begin {input : List Byte} {condition target : StartCondition} (line : Nat)
    {n : Nat} (selected : MatchRule.select (activeRules condition) input = some (n, .begin target)) :
    SilentStep ⟨input, condition, line⟩ ⟨input.drop n, target, line⟩ := by
  rw [SilentStep, Scan.next, selected]

theorem silentStep_of_newline {input : List Byte} {condition : StartCondition} (line : Nat)
    {n : Nat} (selected : MatchRule.select (activeRules condition) input = some (n, .newline)) :
    SilentStep ⟨input, condition, line⟩ ⟨input.drop n, condition, line + 1⟩ := by
  rw [SilentStep, Scan.next, selected]

theorem isLongest_literal (expected : String) {text behind : List Byte}
    (isText : text = bytes expected ++ behind) :
    Regex.IsLongest (literal expected).language text (bytes expected).length := by
  constructor
  · rw [isText, List.length_append]
    exact Nat.le_add_right _ _
  · rw [isText, List.take_left]
    exact mem_literal.2 rfl
  · intro m bound isMatch
    have isLength := congrArg List.length (mem_literal.1 isMatch)
    rw [List.length_take, Nat.min_eq_left bound] at isLength
    exact isLength.le

theorem not_mem_of_second (expected : String) {first second b : Byte}
    (isExpected : bytes expected = [first, second]) {text : List Byte} {m : Nat}
    (isMatch : (b :: text).take m ∈ (literal expected).language) : ∃ more, text = second :: more := by
  have isTake := mem_literal.1 isMatch
  rw [isExpected] at isTake
  cases m with
  | zero => cases isTake
  | succ m =>
      rw [List.take_succ_cons, List.cons.injEq] at isTake
      cases text with
      | nil =>
          rw [List.take_nil] at isTake
          cases isTake.2
      | cons c more =>
          cases m with
          | zero => cases isTake.2
          | succ m =>
              rw [List.take_succ_cons, List.cons.injEq] at isTake
              exact ⟨more, by rw [isTake.2.1]⟩

/-- The text begins like a comment that ends with its line. -/
def StartsLine (text : List Byte) : Prop :=
  (∃ more, text = 47 :: 47 :: more) ∨ ∃ more, text = 35 :: more

theorem startsLine_of_take {text : List Byte} {m : Nat} (starts : StartsLine (text.take m)) :
    StartsLine text := by
  have whole := List.take_append_drop m text
  rcases starts with ⟨more, isTake⟩ | ⟨more, isTake⟩
  · rw [isTake] at whole
    exact Or.inl ⟨_, whole.symm⟩
  · rw [isTake] at whole
    exact Or.inr ⟨_, whole.symm⟩

theorem mem_restOfLine {mark : String} {text : List Byte} :
    text ∈ (Regex.append (literal mark) (.star dot)).language ↔
      ∃ more, text = bytes mark ++ more ∧ 10 ∉ more := by
  rw [mem_append]
  constructor
  · rintro ⟨front, back, whole, isFront, isBack⟩
    refine ⟨back, by rw [whole, mem_literal.1 isFront], ?_⟩
    intro hasNewline
    exact absurd (mem_star_symbol.1 isBack 10 hasNewline) (by decide)
  · rintro ⟨more, isText, noNewline⟩
    refine ⟨bytes mark, more, isText, mem_literal.2 rfl, mem_star_symbol.2 ?_⟩
    intro b member
    have isOther : (!([10] : List Byte).contains b) = true := by
      rw [Bool.not_eq_true', List.contains_eq_mem, decide_eq_false_iff_not, List.mem_singleton]
      intro isNewline
      exact noNewline (isNewline ▸ member)
    exact isOther

theorem lineCommentRules_match {text : List Byte} {m : Nat} {other : MatchRule Byte Action}
    (member : other ∈ lineCommentRules.map ScanRule.rule)
    (isMatch : text.take m ∈ other.pattern.language) : StartsLine text := by
  apply startsLine_of_take (m := m)
  rcases List.mem_cons.1 member with isLine | isHash
  · rw [isLine] at isMatch
    obtain ⟨more, isTake, _⟩ := mem_restOfLine.1 isMatch
    exact Or.inl ⟨more, isTake⟩
  · rw [List.mem_singleton.1 isHash] at isMatch
    obtain ⟨more, isTake, _⟩ := mem_restOfLine.1 isMatch
    exact Or.inr ⟨more, isTake⟩

theorem silentStep_opening (text : List Byte) (line : Nat) :
    SilentStep ⟨47 :: 42 :: text, .initial, line⟩ ⟨text, .inComment, line⟩ := by
  apply silentStep_of_begin line (n := 2)
  rw [activeRules_outside]
  apply MatchRule.select_eq_some _ _ (isLongest_literal "/*" rfl)
  · intro other member m bound isMatch
    rcases lineCommentRules_match member isMatch with ⟨more, isText⟩ | ⟨more, isText⟩
    · cases isText
    · cases isText
  · exact MatchRule.matchesAtMost_of_isWithin rfl

theorem silentStep_closing (text : List Byte) (line : Nat) :
    SilentStep ⟨42 :: 47 :: text, .inComment, line⟩ ⟨text, .initial, line⟩ := by
  apply silentStep_of_begin line (n := 2)
  rw [activeRules_comment]
  apply MatchRule.select_eq_some (lineCommentRules.map ScanRule.rule) closingRule.rule
    (isLongest_literal "*/" rfl)
  · intro other member m bound isMatch
    have atMost : MatchRule.MatchesAtMost (lineCommentRules.map ScanRule.rule)
        (42 :: 47 :: text) 0 := MatchRule.matchesAtMost_of_starts rfl
    have isZero := atMost other member m bound isMatch
    exact Nat.lt_succ_of_le (isZero.trans (Nat.zero_le 1))
  · exact MatchRule.matchesAtMost_of_isWithin rfl

theorem silentStep_commentNewline (text : List Byte) (line : Nat) :
    SilentStep ⟨10 :: text, .inComment, line⟩ ⟨text, .inComment, line + 1⟩ := by
  apply silentStep_of_newline line (n := 1)
  rw [activeRules_comment]
  apply MatchRule.select_eq_some
    ((lineCommentRules ++ [closingRule, chunkRule, loneStarRule]).map ScanRule.rule)
    commentNewlineRule.rule (isLongest_literal "\n" rfl)
  · intro other member m bound isMatch
    have atMost : MatchRule.MatchesAtMost
        ((lineCommentRules ++ [closingRule, chunkRule, loneStarRule]).map ScanRule.rule)
        (10 :: text) 0 := MatchRule.matchesAtMost_of_starts rfl
    exact Nat.lt_succ_of_le (atMost other member m bound isMatch)
  · exact MatchRule.matchesAtMost_of_isWithin rfl

theorem silentStep_loneStar {text : List Byte} (notClosing : ∀ more, text ≠ 47 :: more)
    (notAssign : ∀ more, text ≠ 61 :: more) (line : Nat) :
    SilentStep ⟨42 :: text, .inComment, line⟩ ⟨text, .inComment, line⟩ := by
  apply silentStep_of_discard line (n := 1)
  rw [activeRules_comment]
  apply MatchRule.select_eq_some
    (lineCommentRules.map ScanRule.rule ++ [closingRule.rule, chunkRule.rule])
    loneStarRule.rule (isLongest_literal "*" rfl)
  · intro other member m bound isMatch
    rw [List.mem_append, List.mem_cons, List.mem_singleton] at member
    rcases member with isLine | isClosing | isChunk
    · rcases lineCommentRules_match isLine isMatch with ⟨more, isText⟩ | ⟨more, isText⟩
      · cases isText
      · cases isText
    · rw [isClosing] at isMatch
      obtain ⟨more, isText⟩ := not_mem_of_second "*/" rfl isMatch
      exact absurd isText (notClosing more)
    · rw [isChunk] at isMatch
      cases m with
      | zero => exact Nat.succ_pos 0
      | succ m => exact absurd (Regex.starts_of_mem isMatch) (by decide)
  · have assign : MatchRule.MatchesAtMost [(symbolRule "*=").rule] (42 :: text) 1 := by
      intro other member m bound isMatch
      rw [List.mem_singleton.1 member] at isMatch
      obtain ⟨more, isText⟩ := not_mem_of_second "*=" rfl isMatch
      exact absurd isText (notAssign more)
    have first : MatchRule.MatchesAtMost (commentNewlineRule.rule :: rulesBeforeTimes)
        (42 :: text) 1 := MatchRule.matchesAtMost_of_isWithin rfl
    have last : MatchRule.MatchesAtMost (rulesAfterTimes ++
        rawStringRule.rule :: stringRule.rule :: (numberRules.map ScanRule.rule ++
          runeRule.rule :: lastRules)) (42 :: text) 1 :=
      MatchRule.matchesAtMost_of_isWithin rfl
    exact first.append (assign.append last)

theorem next_assign (text : List Byte) (line : Nat) :
    Scan.next ⟨42 :: 61 :: text, .inComment, line⟩ =
      some (⟨text, .inComment, line⟩, some (.symbol "*=", [42, 61])) := by
  have selected : MatchRule.select (activeRules .inComment) (42 :: 61 :: text) =
      some (2, .symbol "*=") := by
    rw [activeRules_comment, ordinaryRules, ← List.append_assoc]
    apply MatchRule.select_eq_some _ _ (isLongest_literal "*=" rfl)
    · have first : MatchRule.MatchesAtMost (lineCommentRules.map ScanRule.rule)
          (42 :: 61 :: text) 1 := MatchRule.matchesAtMost_of_isWithin rfl
      have closing : MatchRule.MatchesAtMost [closingRule.rule] (42 :: 61 :: text) 1 := by
        intro other member m bound isMatch
        rw [List.mem_singleton.1 member] at isMatch
        obtain ⟨more, isText⟩ := not_mem_of_second "*/" rfl isMatch
        cases isText
      have others : MatchRule.MatchesAtMost
          (chunkRule.rule :: loneStarRule.rule :: commentNewlineRule.rule :: rulesBeforeTimes)
          (42 :: 61 :: text) 1 := MatchRule.matchesAtMost_of_isWithin rfl
      intro other member m bound isMatch
      exact Nat.lt_succ_of_le
        ((first.append (closing.append others)) other member m bound isMatch)
    · exact MatchRule.matchesAtMost_of_isWithin rfl
  rw [Scan.next, selected]
  rfl

/-! ## Line comments -/

def EndsLine (behind : List Byte) : Prop :=
  behind = [] ∨ ∃ more, behind = 10 :: more

theorem length_le_line {p : Pattern} {text behind : List Byte} (endsLine : EndsLine behind)
    (notMentions : p.mentions 10 = false) {m : Nat} (bound : m ≤ (text ++ behind).length)
    (isMatch : (text ++ behind).take m ∈ p.language) : m ≤ text.length := by
  rcases endsLine with isEmpty | ⟨more, isNewline⟩
  · rw [isEmpty, List.append_nil] at bound
    exact bound
  · rw [isNewline] at bound isMatch
    exact Regex.le_of_mentions notMentions isMatch

theorem isLongest_line {p : Pattern} {text behind : List Byte} (endsLine : EndsLine behind)
    (notMentions : p.mentions 10 = false) (isMatch : text ∈ p.language) :
    Regex.IsLongest p.language (text ++ behind) text.length := by
  refine ⟨?_, ?_, ?_⟩
  · rw [List.length_append]
    exact Nat.le_add_right _ _
  · rw [List.take_left]
    exact isMatch
  · exact fun m bound isLonger => length_le_line endsLine notMentions bound isLonger

theorem matchesAtMost_line {rules : List (MatchRule Byte Action)} {text behind : List Byte}
    (endsLine : EndsLine behind) (starts : StartsLine text)
    (each : (rules.all fun rule => !rule.pattern.mentions 10 ||
      (!rule.pattern.starts 47 && !rule.pattern.starts 35)) = true) :
    MatchRule.MatchesAtMost rules (text ++ behind) text.length := by
  intro rule member m bound isMatch
  have either := List.all_eq_true.1 each rule member
  simp only [Bool.or_eq_true, Bool.and_eq_true, Bool.not_eq_true'] at either
  rcases either with notMentions | notStarts
  · exact length_le_line endsLine notMentions bound isMatch
  · have head : ∃ b more, text ++ behind = b :: more ∧ rule.pattern.starts b = false := by
      rcases starts with ⟨more, isText⟩ | ⟨more, isText⟩
      · exact ⟨47, _, by rw [isText]; rfl, notStarts.1⟩
      · exact ⟨35, _, by rw [isText]; rfl, notStarts.2⟩
    obtain ⟨b, more, isInput, notFirst⟩ := head
    rw [isInput] at isMatch
    rw [Regex.eq_zero_of_starts notFirst isMatch]
    exact Nat.zero_le _

theorem silentStep_line {text behind : List Byte} (starts : StartsLine text)
    (oneLine : 10 ∉ text) (endsLine : EndsLine behind) (line : Nat) :
    SilentStep ⟨text ++ behind, .inComment, line⟩ ⟨behind, .inComment, line⟩ := by
  have selected : MatchRule.select (activeRules .inComment) (text ++ behind) =
      some (text.length, .discard) := by
    rw [activeRules_comment]
    rcases id starts with ⟨more, isText⟩ | ⟨more, isText⟩
    · apply MatchRule.select_eq_some [] ⟨lineComment, Action.discard⟩
      · apply isLongest_line endsLine (by decide)
        refine mem_restOfLine.2 ⟨more, isText, ?_⟩
        rw [isText] at oneLine
        exact fun inMore => oneLine (List.mem_cons_of_mem _ (List.mem_cons_of_mem _ inMore))
      · exact fun other member => absurd member List.not_mem_nil
      · exact matchesAtMost_line endsLine starts rfl
    · apply MatchRule.select_eq_some [⟨lineComment, Action.discard⟩]
        ⟨hashComment, Action.discard⟩
      · apply isLongest_line endsLine (by decide)
        refine mem_restOfLine.2 ⟨more, isText, ?_⟩
        rw [isText] at oneLine
        exact fun inMore => oneLine (List.mem_cons_of_mem _ inMore)
      · intro other member m bound isMatch
        rw [List.mem_singleton.1 member] at isMatch
        rw [isText] at isMatch
        have isZero : m = 0 := by
          cases m with
          | zero => rfl
          | succ m => exact absurd (Regex.starts_of_mem isMatch) (by decide)
        rw [isZero, isText]
        exact Nat.succ_pos _
      · exact matchesAtMost_line endsLine starts rfl
  have step := silentStep_of_discard line selected
  rw [List.drop_left] at step
  exact step

/-! ## Pieces -/

def IsPiece (piece : List Byte) : Prop :=
  piece ≠ [] ∧ 42 ∉ piece ∧ 10 ∉ piece

def Stops (behind : List Byte) : Prop :=
  ∃ more, behind = 42 :: more ∨ behind = 10 :: more

/-- A string, a raw string or a rune that begins with the piece ends behind it. -/
def Outgrown (piece behind : List Byte) : Prop :=
  (∃ inside, piece = 34 :: inside ∧ Guarded 34 inside ∧ 34 ∈ behind) ∨
    (∃ inside, piece = 96 :: inside ∧ 96 ∉ inside ∧ 96 ∈ behind) ∨
    (piece = [39] ∧ ∃ more, behind = 42 :: 39 :: more)

theorem exists_string_match {inside behind : List Byte} :
    (∃ m, inside.length + 1 < m ∧ m ≤ (34 :: (inside ++ behind)).length ∧
      (34 :: (inside ++ behind)).take m ∈ stringLiteral.language) ↔
      Guarded 34 inside ∧ 34 ∈ behind := by
  constructor
  · rintro ⟨m, longer, bound, isMatch⟩
    obtain ⟨k, isM, isQuote, guarded⟩ := (take_mem_stringLiteral bound).1 isMatch
    obtain ⟨j, isK⟩ := Nat.exists_eq_add_of_le (show inside.length ≤ k by omega)
    rw [isK, List.getElem?_append_right (Nat.le_add_right _ _), Nat.add_sub_cancel_left] at isQuote
    rw [isK, List.take_length_add_append] at guarded
    exact And.intro guarded.of_append (List.mem_of_getElem? isQuote)
  · rintro ⟨guarded, hasQuote⟩
    obtain ⟨j, isQuote, none⟩ := exists_first_quote hasQuote
    have less := (List.getElem?_eq_some_iff.1 isQuote).1
    have bound : inside.length + j + 2 ≤ (34 :: (inside ++ behind)).length := by
      rw [List.length_cons, List.length_append]
      omega
    refine ⟨inside.length + j + 2, by omega, bound, ?_⟩
    refine (take_mem_stringLiteral bound).2 ⟨inside.length + j, rfl, ?_, ?_⟩
    · rw [List.getElem?_append_right (Nat.le_add_right _ _), Nat.add_sub_cancel_left]
      exact isQuote
    · rw [List.take_length_add_append]
      exact guarded.append fun p => Guarded.of_notMem none

theorem mem_rawStringLiteral {text : List Byte} :
    text ∈ rawStringLiteral.language ↔ ∃ content, text = 96 :: (content ++ [96]) ∧ 96 ∉ content := by
  have isOther : ∀ b : Byte, (!(bytes "`").contains b) = true ↔ 96 ≠ b := by
    intro b
    rw [show bytes "`" = [96] from rfl, Bool.not_eq_true', List.contains_eq_mem,
      decide_eq_false_iff_not, List.mem_singleton]
    exact ne_comm
  rw [rawStringLiteral, mem_between]
  constructor
  · rintro ⟨content, isText, isContent⟩
    refine ⟨content, isText, ?_⟩
    intro hasQuote
    exact (isOther 96).1 (mem_star_symbol.1 isContent 96 hasQuote) rfl
  · rintro ⟨content, isText, noQuote⟩
    refine ⟨content, isText, mem_star_symbol.2 ?_⟩
    intro b member
    exact (isOther b).2 fun isQuote => noQuote (isQuote ▸ member)

theorem exists_rawString_match {inside behind : List Byte} :
    (∃ m, inside.length + 1 < m ∧ m ≤ (96 :: (inside ++ behind)).length ∧
      (96 :: (inside ++ behind)).take m ∈ rawStringLiteral.language) ↔
      96 ∉ inside ∧ 96 ∈ behind := by
  constructor
  · rintro ⟨m, longer, bound, isMatch⟩
    obtain ⟨content, isTake, noQuote⟩ := mem_rawStringLiteral.1 isMatch
    obtain ⟨j, isM⟩ := Nat.exists_eq_add_of_le longer
    rw [show m = inside.length + (j + 1) + 1 by omega, List.take_succ_cons,
      List.take_length_add_append, List.cons.injEq] at isTake
    rw [List.length_cons, List.length_append] at bound
    obtain ⟨b, isLast⟩ : ∃ b, behind[j]? = some b :=
      ⟨_, List.getElem?_eq_getElem (show j < behind.length by omega)⟩
    have whole := isTake.2
    rw [List.take_add_one, isLast, ← List.append_assoc] at whole
    have parts := List.append_inj' whole rfl
    rw [← parts.1, List.mem_append, not_or] at noQuote
    rw [List.singleton_inj.1 parts.2] at isLast
    exact And.intro noQuote.1 (List.mem_of_getElem? isLast)
  · rintro ⟨noQuote, hasQuote⟩
    obtain ⟨first, rest, isBehind, none⟩ := List.eq_append_cons_of_mem hasQuote
    have whole : 96 :: (inside ++ behind) = (96 :: (inside ++ first ++ [96])) ++ rest := by
      rw [isBehind]
      simp
    refine ⟨(96 :: (inside ++ first ++ [96])).length, ?_, ?_, ?_⟩
    · simp only [List.length_cons, List.length_append, List.length_nil]
      omega
    · rw [whole, List.length_append]
      exact Nat.le_add_right _ _
    · rw [whole, List.take_left]
      refine mem_rawStringLiteral.2 ⟨inside ++ first, rfl, ?_⟩
      rw [List.mem_append, not_or]
      exact And.intro noQuote none

theorem mem_rune {text : List Byte} :
    text ∈ (quoted (noneOf "'\n")).language ↔
      ∃ b, text = [39, b, 39] ∧ (!(bytes "'\n").contains b) = true := by
  rw [quoted, mem_between]
  constructor
  · rintro ⟨content, isText, b, isOther, isContent⟩
    rw [isContent] at isText
    exact ⟨b, isText, isOther⟩
  · rintro ⟨b, isText, isOther⟩
    exact ⟨[b], isText, b, isOther, rfl⟩

/-! ## A piece is dropped -/

theorem matchesAtMost_piece (rules : List (MatchRule Byte Action)) {piece behind : List Byte}
    (isPiece : IsPiece piece) (stops : Stops behind)
    (each : (rules.all fun rule => (!rule.pattern.mentions 42 && !rule.pattern.mentions 10) ||
      rule.pattern.isWithin 1) = true) :
    MatchRule.MatchesAtMost rules (piece ++ behind) piece.length := by
  intro rule member m bound isMatch
  have either := List.all_eq_true.1 each rule member
  simp only [Bool.or_eq_true, Bool.and_eq_true, Bool.not_eq_true'] at either
  rcases either with notMentions | within
  · obtain ⟨more, isStar | isNewline⟩ := stops
    · rw [isStar] at isMatch
      exact Regex.le_of_mentions notMentions.1 isMatch
    · rw [isNewline] at isMatch
      exact Regex.le_of_mentions notMentions.2 isMatch
  · exact (Regex.le_of_isWithin within bound isMatch).trans (List.length_pos_iff.2 isPiece.1)

theorem startsLine_piece {piece behind : List Byte} (isPiece : IsPiece piece) (stops : Stops behind)
    (starts : StartsLine (piece ++ behind)) : StartsLine piece := by
  obtain ⟨b, others, isCons⟩ := List.exists_cons_of_ne_nil isPiece.1
  rw [isCons, List.cons_append] at starts
  rw [isCons]
  rcases starts with ⟨more, isText⟩ | ⟨more, isText⟩
  · rw [List.cons.injEq] at isText
    cases others with
    | nil =>
        obtain ⟨rest, isStar | isNewline⟩ := stops
        · rw [isStar] at isText
          cases isText.2
        · rw [isNewline] at isText
          cases isText.2
    | cons c others =>
        rw [List.cons_append, List.cons.injEq] at isText
        exact Or.inl ⟨others, by rw [isText.1, isText.2.1]⟩
  · rw [List.cons.injEq] at isText
    exact Or.inr ⟨others, by rw [isText.1]⟩

theorem isLongest_chunk {piece behind : List Byte} (isPiece : IsPiece piece)
    (stops : Stops behind) :
    Regex.IsLongest commentChunk.language (piece ++ behind) piece.length := by
  refine ⟨?_, ?_, ?_⟩
  · rw [List.length_append]
    exact Nat.le_add_right _ _
  · rw [List.take_left]
    refine mem_plus_symbol.2 (And.intro isPiece.1 ?_)
    intro b member
    rw [show bytes "*\n" = [42, 10] from rfl, Bool.not_eq_true', List.contains_eq_mem,
      decide_eq_false_iff_not, List.mem_cons, List.mem_singleton, not_or]
    constructor
    · intro isStar
      exact isPiece.2.1 (isStar ▸ member)
    · intro isNewline
      exact isPiece.2.2 (isNewline ▸ member)
  · exact matchesAtMost_piece [chunkRule.rule] isPiece stops rfl
      chunkRule.rule List.mem_cons_self

theorem take_eq_cons {b c : Byte} {text more : List Byte} {m : Nat}
    (isTake : (b :: text).take m = c :: more) : b = c ∧ text.take (m - 1) = more := by
  cases m with
  | zero => cases isTake
  | succ m =>
      rw [List.take_succ_cons, List.cons.injEq] at isTake
      exact isTake

/-- A rune that reaches beyond the piece. -/
theorem outgrown_of_rune {inside behind : List Byte} {b : Byte} {m : Nat} (stops : Stops behind)
    (longer : inside.length + 1 < m)
    (isMatch : (b :: (inside ++ behind)).take m ∈ (quoted (noneOf "'\n")).language) :
    Outgrown (b :: inside) behind := by
  obtain ⟨c, isTake, isOther⟩ := mem_rune.1 isMatch
  obtain ⟨isQuote, isRest⟩ := take_eq_cons isTake
  have notNewline : c ≠ 10 := by
    intro isNewline
    rw [isNewline] at isOther
    cases isOther
  obtain ⟨more, isBehind⟩ := stops
  cases inside with
  | nil =>
      right
      right
      refine And.intro (by rw [isQuote]) ?_
      rcases isBehind with isStar | isNewline
      · rw [List.nil_append, isStar] at isRest
        obtain ⟨_, isEnd⟩ := take_eq_cons isRest
        cases more with
        | nil =>
            rw [List.take_nil] at isEnd
            cases isEnd
        | cons d more =>
            rw [isStar, (take_eq_cons isEnd).1]
            exact ⟨more, rfl⟩
      · rw [List.nil_append, isNewline] at isRest
        exact absurd (take_eq_cons isRest).1.symm notNewline
  | cons d inside =>
      have isEnd : (inside ++ behind).take (m - 1 - 1) = [39] := (take_eq_cons isRest).2
      cases inside with
      | nil =>
          rcases isBehind with isStar | isNewline
          · rw [List.nil_append, isStar] at isEnd
            exact absurd (take_eq_cons isEnd).1 (by decide)
          · rw [List.nil_append, isNewline] at isEnd
            exact absurd (take_eq_cons isEnd).1 (by decide)
      | cons e inside =>
          have nonempty : 0 < behind.length := by
            rcases isBehind with isStar | isNewline
            · exact List.length_pos_iff.2 (by rw [isStar]; exact List.cons_ne_nil _ _)
            · exact List.length_pos_iff.2 (by rw [isNewline]; exact List.cons_ne_nil _ _)
          have lengths := congrArg List.length isEnd
          rw [List.length_take, List.length_append, List.length_cons, List.length_singleton] at lengths
          rw [List.length_cons, List.length_cons] at longer
          omega

theorem matchesAtMost_special {piece behind : List Byte} (isPiece : IsPiece piece)
    (stops : Stops behind) (fits : ¬Outgrown piece behind) :
    MatchRule.MatchesAtMost
      [(symbolRule "*=").rule, rawStringRule.rule, stringRule.rule, runeRule.rule]
      (piece ++ behind) piece.length := by
  obtain ⟨b, inside, isCons⟩ := List.exists_cons_of_ne_nil isPiece.1
  have notStar : b ≠ 42 := fun isStar => isPiece.2.1 (by rw [isCons, isStar]; exact List.mem_cons_self)
  have whole : piece ++ behind = b :: (inside ++ behind) := by
    rw [isCons]
    rfl
  have isLength : piece.length = inside.length + 1 := by
    rw [isCons, List.length_cons]
  rw [isCons] at fits
  rw [whole, isLength]
  intro rule member m bound isMatch
  by_contra short
  have longer := Nat.lt_of_not_le short
  rw [List.mem_cons, List.mem_cons, List.mem_cons, List.mem_singleton] at member
  rcases member with isAssign | isRaw | isString | isRune
  · rw [isAssign] at isMatch
    exact notStar (take_eq_cons (mem_literal.1 isMatch)).1
  · rw [isRaw] at isMatch
    obtain ⟨content, isTake, _⟩ := mem_rawStringLiteral.1 isMatch
    obtain ⟨isQuote, _⟩ := take_eq_cons isTake
    rw [isQuote] at bound isMatch fits
    have found := exists_rawString_match.1 ⟨m, longer, bound, isMatch⟩
    exact fits (Or.inr (Or.inl ⟨inside, rfl, found⟩))
  · rw [isString] at isMatch
    obtain ⟨content, isTake, _⟩ := mem_between.1 isMatch
    obtain ⟨isQuote, _⟩ := take_eq_cons isTake
    rw [isQuote] at bound isMatch fits
    have found := exists_string_match.1 ⟨m, longer, bound, isMatch⟩
    exact fits (Or.inl ⟨inside, rfl, found⟩)
  · rw [isRune] at isMatch
    exact fits (outgrown_of_rune stops longer isMatch)

theorem silentStep_piece {piece behind : List Byte} (isPiece : IsPiece piece)
    (stops : Stops behind) (notLine : ¬StartsLine piece) (fits : ¬Outgrown piece behind)
    (line : Nat) :
    SilentStep ⟨piece ++ behind, .inComment, line⟩ ⟨behind, .inComment, line⟩ := by
  have selected : MatchRule.select (activeRules .inComment) (piece ++ behind) =
      some (piece.length, .discard) := by
    rw [activeRules_comment]
    apply MatchRule.select_eq_some (lineCommentRules.map ScanRule.rule ++ [closingRule.rule])
      chunkRule.rule (isLongest_chunk isPiece stops)
    · intro other member m bound isMatch
      rw [List.mem_append, List.mem_singleton] at member
      rcases member with isLine | isClosing
      · exact absurd (startsLine_piece isPiece stops (lineCommentRules_match isLine isMatch)) notLine
      · obtain ⟨b, inside, isCons⟩ := List.exists_cons_of_ne_nil isPiece.1
        rw [isClosing, isCons] at isMatch
        have isStar := (take_eq_cons (mem_literal.1 isMatch)).1
        exact absurd (by rw [isCons, isStar]; exact List.mem_cons_self) isPiece.2.1
    · have special := matchesAtMost_special isPiece stops fits
      have first := matchesAtMost_piece
        (loneStarRule.rule :: commentNewlineRule.rule :: rulesBeforeTimes) isPiece stops rfl
      have second := matchesAtMost_piece rulesAfterTimes isPiece stops rfl
      have third := matchesAtMost_piece (numberRules.map ScanRule.rule) isPiece stops rfl
      have fourth := matchesAtMost_piece lastRules isPiece stops rfl
      apply first.append
      apply MatchRule.MatchesAtMost.cons (special _ (by simp))
      apply second.append
      apply MatchRule.MatchesAtMost.cons (special _ (by simp))
      apply MatchRule.MatchesAtMost.cons (special _ (by simp))
      apply third.append
      exact MatchRule.MatchesAtMost.cons (special _ (by simp)) fourth
  have step := silentStep_of_discard line selected
  rw [List.drop_left] at step
  exact step

/-! ## A piece that a token outgrows -/

def isSilent : Action → Bool
  | .discard => true
  | .begin _ => true
  | .newline => true
  | _ => false

theorem not_silentStep {b : Byte} {piece behind : List Byte} {line : Nat}
    (isPiece : IsPiece piece) (stops : Stops behind) (isHead : ∃ inside, piece = b :: inside)
    (rules : ((activeRules .inComment).all fun rule => !isSilent rule.action ||
      (!rule.pattern.starts b ||
        ((!rule.pattern.mentions 42 && !rule.pattern.mentions 10) ||
          rule.pattern.isWithin 1))) = true)
    (longer : MatchRule Byte Action) (isActive : longer ∈ activeRules .inComment) {m : Nat}
    (beyond : piece.length < m) (bound : m ≤ (piece ++ behind).length)
    (isMatch : (piece ++ behind).take m ∈ longer.pattern.language) (next : Scan) :
    ¬SilentStep ⟨piece ++ behind, .inComment, line⟩ next := by
  intro step
  rw [SilentStep, Scan.next] at step
  cases selected : MatchRule.select (activeRules .inComment) (piece ++ behind) with
  | none =>
      rw [selected] at step
      cases step
  | some found =>
      obtain ⟨n, action⟩ := found
      obtain ⟨⟨rule, member, isAction, inside, isSelected⟩, atMost⟩ :=
        MatchRule.select_spec selected
      have reaches := atMost longer isActive m bound isMatch
      have silent : isSilent rule.action = true := by
        rw [selected] at step
        rw [isAction]
        cases action <;> first | rfl | cases step
      have short : n ≤ piece.length := by
        have either := List.all_eq_true.1 rules rule member
        rw [silent, Bool.not_true, Bool.false_or, Bool.or_eq_true, Bool.not_eq_true'] at either
        rcases either with notStarts | keeps
        · obtain ⟨others, isCons⟩ := isHead
          rw [isCons] at isSelected
          rw [Regex.eq_zero_of_starts notStarts isSelected]
          exact Nat.zero_le _
        · exact matchesAtMost_piece [rule] isPiece stops
            (by rw [List.all_cons, List.all_nil, Bool.and_true]; exact keeps) rule
            List.mem_cons_self n inside isSelected
      omega

theorem special_active :
    ∀ rule ∈ [rawStringRule.rule, stringRule.rule, runeRule.rule],
      rule ∈ activeRules .inComment := by
  intro rule member
  rw [activeRules_comment, ordinaryRules]
  simp only [List.mem_cons, List.not_mem_nil, or_false] at member
  simp only [List.mem_append, List.mem_cons]
  tauto

theorem not_silentStep_of_outgrown {piece behind : List Byte} {line : Nat}
    (isPiece : IsPiece piece) (stops : Stops behind) (outgrown : Outgrown piece behind)
    (next : Scan) : ¬SilentStep ⟨piece ++ behind, .inComment, line⟩ next := by
  rcases outgrown with ⟨inside, isString, found⟩ | ⟨inside, isRaw, found⟩ | ⟨isRune, more, isBehind⟩
  · obtain ⟨m, longer, bound, isMatch⟩ := exists_string_match.2 found
    rw [isString] at isPiece ⊢
    exact not_silentStep isPiece stops ⟨inside, rfl⟩ rfl
      stringRule.rule (special_active _ (by simp)) longer bound isMatch next
  · obtain ⟨m, longer, bound, isMatch⟩ := exists_rawString_match.2 found
    rw [isRaw] at isPiece ⊢
    exact not_silentStep isPiece stops ⟨inside, rfl⟩ rfl
      rawStringRule.rule (special_active _ (by simp)) longer bound isMatch next
  · rw [isRune] at isPiece ⊢
    refine not_silentStep isPiece stops ⟨[], rfl⟩ rfl
      runeRule.rule (special_active _ (by simp)) (m := 3) (by decide) ?_ ?_ next
    · rw [isBehind]
      exact Nat.le_add_left 3 _
    · rw [isBehind]
      exact mem_rune.2 ⟨42, rfl, rfl⟩

end Rcgo.Scanner
