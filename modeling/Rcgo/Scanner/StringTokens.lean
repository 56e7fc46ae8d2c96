import Rcgo.Scanner.Patterns
import Mathlib.Data.List.TakeDrop

/-!
# Where a string token ends

Any character but a quote may stand for itself in the rule for string literals,
also a backslash.  So a backslash that is itself escaped still protects a quote
behind it, if that makes the token longer.
-/

namespace Rcgo.Scanner

open Rcgo.Foundation

/-! ## Guarded quotes -/

def Guarded : Byte → List Byte → Prop
  | _, [] => True
  | previous, b :: rest => (b = 34 → previous = 92) ∧ Guarded b rest

namespace Guarded

variable {previous other b : Byte} {text rest : List Byte}

theorem append (first : Guarded previous text) (second : ∀ p, Guarded p rest) :
    Guarded previous (text ++ rest) := by
  induction text generalizing previous with
  | nil => exact second previous
  | cons b text inductionHypothesis => exact And.intro first.1 (inductionHypothesis first.2)

theorem of_append (guarded : Guarded previous (text ++ rest)) : Guarded previous text := by
  induction text generalizing previous with
  | nil => exact trivial
  | cons b text inductionHypothesis => exact And.intro guarded.1 (inductionHypothesis guarded.2)

theorem of_notMem (noQuote : 34 ∉ text) : Guarded previous text := by
  induction text generalizing previous with
  | nil => exact trivial
  | cons b text inductionHypothesis =>
      rw [List.mem_cons, not_or] at noQuote
      exact And.intro (fun isQuote => absurd isQuote.symm noQuote.1) (inductionHypothesis noQuote.2)

theorem congr (guarded : Guarded previous (b :: text)) (notQuote : b ≠ 34) :
    Guarded other (b :: text) :=
  And.intro (fun isQuote => absurd isQuote notQuote) guarded.2

theorem before {k : Nat} (guarded : Guarded previous text) (isQuote : text[k]? = some 34) :
    (previous :: text)[k]? = some 92 := by
  induction text generalizing previous k with
  | nil => cases isQuote
  | cons b text inductionHypothesis =>
      cases k with
      | zero => rw [List.getElem?_cons_zero, guarded.1 (Option.some.inj isQuote)]
      | succ k => exact inductionHypothesis guarded.2 isQuote

end Guarded

/-! ## The content of a string token -/

theorem guarded_of_mentions {p : Pattern} {text : List Byte} (notMentions : p.mentions 34 = false)
    (isMatch : text ∈ p.language) (previous : Byte) : Guarded previous text := by
  apply Guarded.of_notMem
  intro isQuote
  rw [Regex.mentions_of_mem isMatch isQuote] at notMentions
  cases notMentions

theorem guarded_escaped {text : List Byte} (isMatch : text ∈ escaped.language) (previous : Byte) :
    Guarded previous text := by
  obtain ⟨front, back, isText, isFront, b, _, isBack⟩ := mem_append.1 isMatch
  rw [isText, mem_literal.1 isFront, isBack]
  exact And.intro (fun isQuote => absurd isQuote (by decide)) (And.intro (fun _ => rfl) trivial)

theorem mem_alternatives {patterns : List Pattern} {text : List Byte} :
    text ∈ (alternatives patterns).language ↔ ∃ p ∈ patterns, text ∈ p.language := by
  induction patterns with
  | nil => exact iff_of_false (Language.notMem_zero text) (by simp)
  | cons p patterns inductionHypothesis =>
      rw [List.exists_mem_cons_iff, ← inductionHypothesis]
      exact Language.mem_add _ _ _

theorem guarded_alternative {text : List Byte}
    (isMatch : text ∈ (alternatives [noneOf "\"", octal, hex, littleU, bigU, escaped]).language)
    (previous : Byte) : Guarded previous text := by
  obtain ⟨p, member, isAlternative⟩ := mem_alternatives.1 isMatch
  simp only [List.mem_cons, List.not_mem_nil, or_false] at member
  rcases member with isNone | isOctal | isHex | isLittleU | isBigU | isEscaped
  · exact guarded_of_mentions (by rw [isNone]; decide) isAlternative previous
  · exact guarded_of_mentions (by rw [isOctal]; decide) isAlternative previous
  · exact guarded_of_mentions (by rw [isHex]; decide) isAlternative previous
  · exact guarded_of_mentions (by rw [isLittleU]; decide) isAlternative previous
  · exact guarded_of_mentions (by rw [isBigU]; decide) isAlternative previous
  · exact guarded_escaped (isEscaped ▸ isAlternative) previous

/-- What the rule allows between the quotes. -/
theorem mem_stringContent {text : List Byte} :
    text ∈ stringContent.language ↔ Guarded 34 text := by
  constructor
  · intro isMatch
    obtain ⟨parts, isFlatten, areParts⟩ := Language.mem_kstar.1 isMatch
    suffices general : ∀ p, Guarded p parts.flatten from isFlatten ▸ general 34
    clear isFlatten
    induction parts with
    | nil => exact fun _ => trivial
    | cons part parts inductionHypothesis =>
        intro p
        rw [List.flatten_cons]
        apply (guarded_alternative (areParts part List.mem_cons_self) p).append
        exact inductionHypothesis fun other member => areParts other (List.mem_cons_of_mem _ member)
  · intro guarded
    induction isLength : text.length using Nat.strong_induction_on generalizing text with
    | h length inductionHypothesis =>
        cases text with
        | nil => exact Language.nil_mem_kstar _
        | cons b rest =>
            have notQuote : b ≠ 34 := fun isQuote => absurd (guarded.1 isQuote) (by decide)
            have longer : rest.length < length := by
              rw [← isLength]
              exact Nat.lt_succ_self _
            apply Regex.cons_mem_kstar.2
            by_cases isEscape : b = 92 ∧ ∃ others, rest = 34 :: others
            · obtain ⟨isBackslash, others, isRest⟩ := isEscape
              rw [isRest] at guarded longer
              refine ⟨[34], others, isRest, ?_, ?_⟩
              · rw [isBackslash]
                apply mem_alternatives.2
                refine ⟨escaped, by simp, mem_append.2 ⟨[92], [34], rfl, ?_, 34, rfl, rfl⟩⟩
                exact mem_literal.2 rfl
              · exact inductionHypothesis others.length (Nat.lt_of_succ_lt longer) guarded.2.2 rfl
            · refine ⟨[], rest, rfl, ?_, ?_⟩
              · have isOther : (!([34] : List Byte).contains b) = true := by
                  simpa using notQuote
                exact mem_alternatives.2 ⟨noneOf "\"", List.mem_cons_self, b, isOther, rfl⟩
              · apply inductionHypothesis rest.length longer _ rfl
                cases rest with
                | nil => exact trivial
                | cons c others =>
                    by_cases isQuote : c = 34
                    · have isBackslash := guarded.2.1 isQuote
                      exact absurd ⟨isBackslash, others, by rw [isQuote]⟩ isEscape
                    · exact guarded.2.congr isQuote

/-! ## The token -/

/-- A quote in the text after the opening quote at which a token can end. -/
def EndsAt (text : List Byte) (k : Nat) : Prop :=
  text[k]? = some 34 ∧ Guarded 34 (text.take k)

def LastEnd (text : List Byte) (k : Nat) : Prop :=
  EndsAt text k ∧ ∀ j, EndsAt text j → j ≤ k

theorem take_mem_stringLiteral {text : List Byte} {n : Nat} (bound : n ≤ (34 :: text).length) :
    (34 :: text).take n ∈ stringLiteral.language ↔ ∃ k, n = k + 2 ∧ EndsAt text k := by
  rw [stringLiteral, mem_between]
  constructor
  · rintro ⟨content, isText, isContent⟩
    cases n with
    | zero => cases isText
    | succ m =>
        have isTake : text.take m = content ++ [34] := List.tail_eq_of_cons_eq isText
        have isLength := congrArg List.length isTake
        rw [List.length_cons] at bound
        rw [List.length_take, Nat.min_eq_left (by omega), List.length_append,
          List.length_singleton] at isLength
        rw [isLength] at isTake
        refine ⟨content.length, by omega, ?_, ?_⟩
        · have inTake := congrArg (fun bytes : List Byte => bytes[content.length]?) isTake
          rw [List.getElem?_take_of_lt (Nat.lt_succ_self _), List.getElem?_concat_length] at inTake
          exact inTake
        · have isPrefix := congrArg (List.take content.length) isTake
          rw [List.take_take, Nat.min_eq_left (Nat.le_succ _), List.take_left] at isPrefix
          rw [isPrefix]
          exact mem_stringContent.1 isContent
  · rintro ⟨k, isN, isQuote, guarded⟩
    refine ⟨text.take k, ?_, mem_stringContent.2 guarded⟩
    rw [isN, List.take_succ_cons, List.take_add_one, isQuote]
    rfl

theorem isLongest_stringLiteral {text : List Byte} {n : Nat} :
    Regex.IsLongest stringLiteral.language (34 :: text) n ↔ ∃ k, n = k + 2 ∧ LastEnd text k := by
  have inside : ∀ {k}, EndsAt text k → k + 2 ≤ (34 :: text).length := by
    intro k ends
    have less := (List.getElem?_eq_some_iff.1 ends.1).1
    rw [List.length_cons]
    omega
  constructor
  · intro longest
    obtain ⟨k, isN, ends⟩ := (take_mem_stringLiteral longest.bound).1 longest.isMatch
    refine ⟨k, isN, ends, ?_⟩
    intro j other
    have less := longest.longest (j + 2) (inside other)
      ((take_mem_stringLiteral (inside other)).2 ⟨j, rfl, other⟩)
    omega
  · rintro ⟨k, isN, ends, last⟩
    rw [isN]
    refine ⟨inside ends, (take_mem_stringLiteral (inside ends)).2 ⟨k, rfl, ends⟩, ?_⟩
    intro m bound isMatch
    obtain ⟨j, isM, other⟩ := (take_mem_stringLiteral bound).1 isMatch
    have less := last j other
    omega

theorem exists_lastEnd {text : List Byte} {j : Nat} (ends : EndsAt text j) :
    ∃ k, LastEnd text k := by
  rcases Regex.longest_spec stringLiteral (34 :: text) with ⟨n, _, longest⟩ | ⟨_, noMatch⟩
  · obtain ⟨k, _, last⟩ := isLongest_stringLiteral.1 longest
    exact ⟨k, last⟩
  · have less := (List.getElem?_eq_some_iff.1 ends.1).1
    have bound : j + 2 ≤ (34 :: text).length := by
      rw [List.length_cons]
      omega
    exact absurd ((take_mem_stringLiteral bound).2 ⟨j, rfl, ends⟩) (noMatch _ bound)

/-! ## The rules at a quote -/

def beforeString : List (MatchRule Byte Action) :=
  (lineCommentRules ++
    openingRule :: (reservedWords ++ operatorsBefore ++
      characterRule "*" :: (operatorsBetween ++
        symbolRule "*=" :: (operatorsAfter ++ [identifierRule, rawStringRule])))).map ScanRule.rule

/-- The rules after that for string literals, but the last. -/
def afterString : List (MatchRule Byte Action) :=
  (numberRules ++ runeRule :: (escapedRuneRules ++ [blankRule, newlineRule])).map ScanRule.rule

set_option maxRecDepth 2000 in
theorem activeRules_initial :
    activeRules .initial =
      beforeString ++ stringRule.rule :: (afterString ++ [unrecognizedRule.rule]) :=
  rfl

theorem beforeString_starts : (beforeString.all fun rule => !rule.pattern.starts 34) = true :=
  rfl

theorem afterString_starts : (afterString.all fun rule => !rule.pattern.starts 34) = true :=
  rfl

theorem take_mem_dot {text : List Byte} {m : Nat} (isMatch : text.take m ∈ dot.language)
    (bound : m ≤ text.length) : m = 1 := by
  obtain ⟨b, _, isSingle⟩ := isMatch
  have isLength := congrArg List.length isSingle
  rw [List.length_take, Nat.min_eq_left bound] at isLength
  exact isLength

theorem next_of_lastEnd {text : List Byte} {k : Nat} (last : LastEnd text k) (line : Nat) :
    Scan.next ⟨34 :: text, .initial, line⟩ =
      some (⟨text.drop (k + 1), .initial, line⟩,
        some (.interpretedString, 34 :: text.take (k + 1))) := by
  have longest := isLongest_stringLiteral.2 ⟨k, rfl, last⟩
  have selected : MatchRule.select (activeRules .initial) (34 :: text) =
      some (k + 2, .interpretedString) := by
    rw [activeRules_initial]
    apply MatchRule.select_eq_some _ _ longest
    · intro other member m bound isMatch
      have isZero := MatchRule.matchesAtMost_of_starts beforeString_starts other member m bound isMatch
      omega
    · apply MatchRule.MatchesAtMost.append
      · intro other member m bound isMatch
        have isZero := MatchRule.matchesAtMost_of_starts afterString_starts other member m bound isMatch
        omega
      · intro other member m bound isMatch
        rw [List.mem_singleton.1 member] at isMatch
        have isOne := take_mem_dot isMatch bound
        omega
  rw [Scan.next, selected]
  rfl

theorem next_of_noEnd {text : List Byte} (noEnd : ∀ k, ¬EndsAt text k) (line : Nat) :
    Scan.next ⟨34 :: text, .initial, line⟩ =
      some (⟨text, .initial, line⟩, some (.unrecognized, [34])) := by
  have selected : MatchRule.select (activeRules .initial) (34 :: text) =
      some (1, .unrecognized) := by
    rw [activeRules_initial,
      show beforeString ++ stringRule.rule :: (afterString ++ [unrecognizedRule.rule]) =
        (beforeString ++ stringRule.rule :: afterString) ++ unrecognizedRule.rule :: [] by simp]
    apply MatchRule.select_eq_some _ unrecognizedRule.rule
    · refine ⟨Nat.succ_pos _, ⟨34, rfl, rfl⟩, ?_⟩
      intro m bound isMatch
      exact (take_mem_dot isMatch bound).le
    · intro other member m bound isMatch
      rw [List.mem_append, List.mem_cons] at member
      rcases member with isBefore | isString | isAfter
      · exact Nat.lt_succ_of_le
          (MatchRule.matchesAtMost_of_starts beforeString_starts other isBefore m bound isMatch)
      · rw [isString] at isMatch
        obtain ⟨k, _, ends⟩ := (take_mem_stringLiteral bound).1 isMatch
        exact absurd ends (noEnd k)
      · exact Nat.lt_succ_of_le
          (MatchRule.matchesAtMost_of_starts afterString_starts other isAfter m bound isMatch)
    · intro other member
      exact absurd member List.not_mem_nil
  rw [Scan.next, selected]
  rfl

/-! ## The closing quote -/

/-- The first quote that is not the second character of an escape, when the
text is read from left to right. -/
def closingQuote : Bool → List Byte → Option Nat
  | _, [] => none
  | true, _ :: rest => (closingQuote false rest).map (· + 1)
  | false, b :: rest => if b = 34 then some 0 else (closingQuote (b == 92) rest).map (· + 1)

/-- The string token ends at the closing quote, and there is none without it. -/
structure ExtentAsRead (text : List Byte) (line : Nat) : Prop where
  token : ∀ k, closingQuote false text = some k →
    Scan.next ⟨34 :: text, .initial, line⟩ =
      some (⟨text.drop (k + 1), .initial, line⟩,
        some (.interpretedString, 34 :: text.take (k + 1)))
  noToken : closingQuote false text = none → ∀ after lexeme,
    Scan.next ⟨34 :: text, .initial, line⟩ ≠ some (after, some (.interpretedString, lexeme))

theorem endsAt_closingQuote {escaped : Bool} {text : List Byte} {k : Nat} (previous : Byte)
    (isClosing : closingQuote escaped text = some k) (isEscape : escaped = true → previous = 92) :
    text[k]? = some 34 ∧ Guarded previous (text.take k) := by
  induction text generalizing escaped previous k with
  | nil => cases escaped <;> cases isClosing
  | cons b text inductionHypothesis =>
      cases escaped with
      | true =>
          obtain ⟨j, isLater, isK⟩ := Option.map_eq_some_iff.1 isClosing
          have later := inductionHypothesis b isLater (fun impossible => by cases impossible)
          rw [← isK]
          exact And.intro later.1 (And.intro (fun _ => isEscape rfl) later.2)
      | false =>
          rw [closingQuote] at isClosing
          by_cases isQuote : b = 34
          · rw [if_pos isQuote] at isClosing
            rw [← Option.some.inj isClosing, isQuote]
            exact And.intro rfl trivial
          · rw [if_neg isQuote] at isClosing
            obtain ⟨j, isLater, isK⟩ := Option.map_eq_some_iff.1 isClosing
            have later := inductionHypothesis b isLater eq_of_beq
            rw [← isK]
            exact And.intro later.1 (And.intro (fun equal => absurd equal isQuote) later.2)

theorem exists_first_quote {text : List Byte} (hasQuote : 34 ∈ text) :
    ∃ j, text[j]? = some 34 ∧ 34 ∉ text.take j := by
  induction text with
  | nil => exact absurd hasQuote List.not_mem_nil
  | cons b text inductionHypothesis =>
      by_cases isQuote : b = 34
      · exact ⟨0, congrArg some isQuote, List.not_mem_nil⟩
      · have later := (List.mem_cons.1 hasQuote).resolve_left (Ne.symm isQuote)
        obtain ⟨j, isLater, none⟩ := inductionHypothesis later
        refine ⟨j + 1, isLater, ?_⟩
        rw [List.take_succ_cons, List.mem_cons, not_or]
        exact And.intro (Ne.symm isQuote) none

theorem exists_later_quote {text : List Byte} {k : Nat} {previous : Byte}
    (guarded : Guarded previous (text.take k)) (backslash : (previous :: text)[k]? = some 92)
    (hasQuote : 34 ∈ text.drop (k + 1)) :
    ∃ j, k < j ∧ text[j]? = some 34 ∧ Guarded previous (text.take j) := by
  induction text generalizing previous k with
  | nil => exact absurd hasQuote (by simp)
  | cons b text inductionHypothesis =>
      cases k with
      | zero =>
          obtain ⟨j, isQuote, none⟩ := exists_first_quote hasQuote
          exact ⟨j + 1, Nat.succ_pos j, isQuote, fun _ => Option.some.inj backslash,
            Guarded.of_notMem none⟩
      | succ k =>
          obtain ⟨j, less, isQuote, later⟩ := inductionHypothesis guarded.2 backslash hasQuote
          exact ⟨j + 1, Nat.succ_lt_succ less, isQuote, guarded.1, later⟩

theorem backslash_before_of_lt {text : List Byte} {k j : Nat} (isQuote : text[k]? = some 34)
    (less : k < j) (ends : EndsAt text j) : (34 :: text)[k]? = some 92 := by
  have inTake : (text.take j)[k]? = some 34 := by
    rw [List.getElem?_take_of_lt less, isQuote]
  have isBefore := ends.2.before inTake
  rw [← List.take_succ_cons, List.getElem?_take_of_lt (Nat.lt_succ_of_lt less)] at isBefore
  exact isBefore

/-- The token ends at the closing quote, unless a backslash stands before it and
a quote somewhere behind it. -/
theorem string_extentAsRead (text : List Byte) (line : Nat) :
    ExtentAsRead text line ↔
      34 ∉ text ∨ ∃ k, closingQuote false text = some k ∧
        ((34 :: text)[k]? ≠ some 92 ∨ 34 ∉ text.drop (k + 1)) := by
  have isEnd : ∀ k, closingQuote false text = some k → EndsAt text k := fun k isClosing =>
    endsAt_closingQuote 34 isClosing (fun impossible => by cases impossible)
  constructor
  · intro asRead
    by_cases hasQuote : 34 ∈ text
    · right
      cases isClosing : closingQuote false text with
      | none =>
          obtain ⟨j, isQuote, none⟩ := exists_first_quote hasQuote
          obtain ⟨k, last⟩ := exists_lastEnd (And.intro isQuote (Guarded.of_notMem none))
          exact absurd (next_of_lastEnd last line) (asRead.noToken isClosing _ _)
      | some k =>
          refine ⟨k, rfl, ?_⟩
          by_contra protectedQuote
          rw [not_or, not_not, not_not] at protectedQuote
          obtain ⟨j, less, ends⟩ :=
            exists_later_quote (isEnd k isClosing).2 protectedQuote.1 protectedQuote.2
          obtain ⟨n, last⟩ := exists_lastEnd ends
          have same := (asRead.token k isClosing).symm.trans (next_of_lastEnd last line)
          have inputs : text.drop (k + 1) = text.drop (n + 1) := by
            rw [Option.some.injEq, Prod.mk.injEq, Scan.mk.injEq] at same
            exact same.1.1
          have lengths := congrArg List.length inputs
          have isLast := last.2 j ends
          have inside := (List.getElem?_eq_some_iff.1 last.1.1).1
          rw [List.length_drop, List.length_drop] at lengths
          omega
    · exact Or.inl hasQuote
  · intro condition
    constructor
    · intro k isClosing
      apply next_of_lastEnd
      refine And.intro (isEnd k isClosing) ?_
      intro j ends
      by_contra later
      have less : k < j := Nat.lt_of_not_le later
      have backslash := backslash_before_of_lt (isEnd k isClosing).1 less ends
      have atJ := List.mem_of_getElem? ends.1
      rcases condition with noQuote | ⟨other, isOther, bare | noLater⟩
      · exact noQuote atJ
      · rw [isClosing, Option.some.injEq] at isOther
        exact bare (isOther ▸ backslash)
      · rw [isClosing, Option.some.injEq] at isOther
        rw [← isOther] at noLater
        apply noLater
        apply List.mem_of_getElem? (i := j - (k + 1))
        rw [List.getElem?_drop, Nat.add_sub_cancel' less]
        exact ends.1
    · intro isNone after lexeme isToken
      rcases condition with noQuote | ⟨k, isClosing, _⟩
      · rw [next_of_noEnd (fun k ends => noQuote (List.mem_of_getElem? ends.1))] at isToken
        cases isToken
      · rw [isNone] at isClosing
        cases isClosing

/-- The first of two literals on one line ends in an escaped backslash. -/
theorem not_extentAsRead_backslashes :
    ¬ExtentAsRead (bytes "\\\\\" + \"b\"") 1 := by
  intro asRead
  have longest : Regex.IsLongest stringLiteral.language
      (34 :: bytes "\\\\\" + \"b\"") 8 := Regex.longest_eq_some.1 rfl
  obtain ⟨k, isLength, last⟩ := isLongest_stringLiteral.1 longest
  have isSix : k = 6 := by omega
  have same := (asRead.token 2 (by decide)).symm.trans (next_of_lastEnd last 1)
  rw [isSix] at same
  exact absurd same (by decide)

end Rcgo.Scanner
