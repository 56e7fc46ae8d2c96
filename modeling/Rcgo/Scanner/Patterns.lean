import Rcgo.Scanner.Rules

/-!
# The texts that the patterns match
-/

namespace Rcgo.Scanner

open Rcgo.Foundation

theorem mem_append {p q : Pattern} {text : List Byte} :
    text ∈ (Regex.append p q).language ↔
      ∃ front back, text = front ++ back ∧ front ∈ p.language ∧ back ∈ q.language := by
  rw [Regex.language, Language.mem_mul]
  constructor
  · rintro ⟨front, isFront, back, isBack, whole⟩
    exact ⟨front, back, whole.symm, isFront, isBack⟩
  · rintro ⟨front, back, whole, isFront, isBack⟩
    exact ⟨front, isFront, back, isBack, whole.symm⟩

theorem mem_foldr_literal (expected text : List Byte) :
    text ∈ (expected.foldr (fun b rest => Regex.append (.symbol fun c => c == b) rest)
      Regex.epsilon).language ↔ text = expected := by
  induction expected generalizing text with
  | nil => exact Language.mem_one text
  | cons b expected inductionHypothesis =>
      rw [List.foldr_cons, mem_append]
      constructor
      · rintro ⟨front, back, whole, ⟨c, isSymbol, isFront⟩, isBack⟩
        rw [whole, isFront, (inductionHypothesis back).1 isBack, eq_of_beq isSymbol]
        rfl
      · intro isText
        exact ⟨[b], expected, isText, ⟨b, beq_self_eq_true b, rfl⟩,
          (inductionHypothesis expected).2 rfl⟩

theorem mem_literal {expected : String} {text : List Byte} :
    text ∈ (literal expected).language ↔ text = bytes expected :=
  mem_foldr_literal (bytes expected) text

theorem mem_sequence_nil {text : List Byte} : text ∈ (sequence []).language ↔ text = [] :=
  Language.mem_one text

theorem mem_sequence_cons {p : Pattern} {patterns : List Pattern} {text : List Byte} :
    text ∈ (sequence (p :: patterns)).language ↔
      ∃ front back, text = front ++ back ∧ front ∈ p.language ∧
        back ∈ (sequence patterns).language :=
  mem_append

theorem mem_star_symbol {isMember : Byte → Bool} {text : List Byte} :
    text ∈ (Regex.star (.symbol isMember)).language ↔ ∀ b ∈ text, isMember b = true := by
  induction text with
  | nil => exact iff_of_true (Language.nil_mem_kstar _) (by simp)
  | cons b text inductionHypothesis =>
      rw [List.forall_mem_cons, ← inductionHypothesis]
      show b :: text ∈ KStar.kstar (Regex.symbol isMember).language ↔ _
      rw [Regex.cons_mem_kstar]
      constructor
      · rintro ⟨first, rest, whole, ⟨c, isSymbol, isSingle⟩, isRest⟩
        rw [List.cons.injEq] at isSingle
        rw [whole, isSingle.2, List.nil_append, isSingle.1]
        exact And.intro isSymbol isRest
      · intro both
        exact ⟨[], text, rfl, ⟨b, both.1, rfl⟩, both.2⟩

theorem mem_plus_symbol {isMember : Byte → Bool} {text : List Byte} :
    text ∈ (plus (.symbol isMember)).language ↔ text ≠ [] ∧ ∀ b ∈ text, isMember b = true := by
  rw [plus, mem_append]
  constructor
  · rintro ⟨front, back, whole, ⟨b, isSymbol, isSingle⟩, isBack⟩
    rw [whole, isSingle, List.singleton_append, List.forall_mem_cons]
    exact And.intro (List.cons_ne_nil _ _) (And.intro isSymbol (mem_star_symbol.1 isBack))
  · intro both
    obtain ⟨b, others, isText⟩ := List.exists_cons_of_ne_nil both.1
    have members := both.2
    rw [isText, List.forall_mem_cons] at members
    exact ⟨[b], others, isText, ⟨b, members.1, rfl⟩, mem_star_symbol.2 members.2⟩

theorem mem_between {mark : String} {p : Pattern} {text : List Byte} :
    text ∈ (sequence [literal mark, p, literal mark]).language ↔
      ∃ content, text = bytes mark ++ (content ++ bytes mark) ∧ content ∈ p.language := by
  simp only [mem_sequence_cons, mem_sequence_nil, mem_literal]
  constructor
  · rintro ⟨_, _, isText, isFront, content, _, isRest, isContent, _, _, isBack, isMark, isEmpty⟩
    exact ⟨content, by rw [isText, isFront, isRest, isBack, isMark, isEmpty, List.append_nil],
      isContent⟩
  · rintro ⟨content, isText, isContent⟩
    exact ⟨_, _, isText, rfl, content, _, rfl, isContent, _, [], (List.append_nil _).symm, rfl, rfl⟩

theorem mem_of_longest {pattern : Pattern} {text : List Byte}
    (isLongest : pattern.longest text = some text.length) : text ∈ pattern.language := by
  have isMatch := (Regex.longest_eq_some.1 isLongest).isMatch
  rw [List.take_length] at isMatch
  exact isMatch

end Rcgo.Scanner
