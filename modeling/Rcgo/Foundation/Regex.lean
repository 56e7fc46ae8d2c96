import Mathlib.Computability.Language

/-!
# Regular expressions over classes of symbols

A matcher by derivatives, the longest prefix that an expression matches, and
simple reasons for which it matches nothing, or nothing long.
-/

namespace Rcgo.Foundation

universe u

/-- A class of symbols is given by its test. -/
inductive Regex (α : Type u) where
  | empty
  | epsilon
  | symbol (isMember : α → Bool)
  | append (first second : Regex α)
  | union (first second : Regex α)
  | star (body : Regex α)

namespace Regex

variable {α : Type u}

/-! ## Matching -/

/-- The texts that the expression matches. -/
def language : Regex α → Language α
  | empty => 0
  | epsilon => 1
  | symbol isMember => { text | ∃ a, isMember a = true ∧ text = [a] }
  | append first second => first.language * second.language
  | union first second => first.language + second.language
  | star body => KStar.kstar body.language

/-- The expression matches the empty text. -/
def nullable : Regex α → Bool
  | empty => false
  | epsilon => true
  | symbol _ => false
  | append first second => first.nullable && second.nullable
  | union first second => first.nullable || second.nullable
  | star _ => true

/-- What has to follow `a`. -/
def derive : Regex α → α → Regex α
  | empty, _ => empty
  | epsilon, _ => empty
  | symbol isMember, a => if isMember a then epsilon else empty
  | append first second, a =>
      if first.nullable then
        union (append (first.derive a) second) (second.derive a)
      else
        append (first.derive a) second
  | union first second, a => union (first.derive a) (second.derive a)
  | star body, a => append (body.derive a) (star body)

/-- The length of the longest prefix of the text that the expression matches. -/
def longest (r : Regex α) : List α → Option Nat
  | [] => if r.nullable then some 0 else none
  | a :: text =>
      match (r.derive a).longest text with
      | some n => some (n + 1)
      | none => if r.nullable then some 0 else none

theorem nullable_iff (r : Regex α) : r.nullable = true ↔ [] ∈ r.language := by
  induction r with
  | empty => exact iff_of_false Bool.false_ne_true (Language.notMem_zero [])
  | epsilon => exact iff_of_true rfl Language.nil_mem_one
  | symbol isMember =>
      refine iff_of_false Bool.false_ne_true ?_
      rintro ⟨a, _, isSingle⟩
      cases isSingle
  | append first second firstIH secondIH =>
      rw [nullable, Bool.and_eq_true, firstIH, secondIH, language, Language.mem_mul]
      constructor
      · intro both
        exact ⟨[], both.1, [], both.2, rfl⟩
      · rintro ⟨left, isLeft, right, isRight, isEmpty⟩
        obtain ⟨leftEmpty, rightEmpty⟩ := List.append_eq_nil_iff.mp isEmpty
        exact ⟨leftEmpty ▸ isLeft, rightEmpty ▸ isRight⟩
  | union first second firstIH secondIH =>
      rw [nullable, Bool.or_eq_true, firstIH, secondIH]
      exact (Language.mem_add _ _ _).symm
  | star body _ => exact iff_of_true rfl (Language.nil_mem_kstar _)

theorem cons_mem_kstar {l : Language α} {a : α} {text : List α} :
    a :: text ∈ KStar.kstar l ↔
      ∃ first rest, text = first ++ rest ∧ a :: first ∈ l ∧ rest ∈ KStar.kstar l := by
  constructor
  · intro isStar
    rw [Language.kstar_def_nonempty] at isStar
    obtain ⟨parts, isText, areParts⟩ := isStar
    cases parts with
    | nil => cases isText
    | cons part parts =>
        obtain ⟨isPart, nonempty⟩ := areParts part List.mem_cons_self
        obtain ⟨b, first, isCons⟩ := List.exists_cons_of_ne_nil nonempty
        rw [isCons] at isPart isText
        rw [List.flatten_cons, List.cons_append, List.cons.injEq] at isText
        refine ⟨first, parts.flatten, isText.2, isText.1 ▸ isPart, ?_⟩
        apply Language.mem_kstar.mpr
        refine ⟨parts, rfl, ?_⟩
        exact fun other member => (areParts other (List.mem_cons_of_mem _ member)).1
  · rintro ⟨first, rest, isText, isFirst, isRest⟩
    obtain ⟨parts, isFlatten, areParts⟩ := Language.mem_kstar.mp isRest
    rw [isText, isFlatten]
    apply Language.mem_kstar.mpr
    refine ⟨(a :: first) :: parts, rfl, ?_⟩
    intro part member
    rcases List.mem_cons.mp member with isHead | inParts
    · rw [isHead]
      exact isFirst
    · exact areParts part inParts

theorem cons_mem_mul {l m : Language α} {a : α} {text : List α} :
    a :: text ∈ l * m ↔
      (∃ first rest, text = first ++ rest ∧ a :: first ∈ l ∧ rest ∈ m) ∨
        ([] ∈ l ∧ a :: text ∈ m) := by
  rw [Language.mem_mul]
  constructor
  · rintro ⟨left, isLeft, right, isRight, whole⟩
    cases left with
    | nil =>
        rw [List.nil_append] at whole
        exact Or.inr ⟨isLeft, whole ▸ isRight⟩
    | cons b first =>
        rw [List.cons_append, List.cons.injEq] at whole
        exact Or.inl ⟨first, right, whole.2.symm, whole.1 ▸ isLeft, isRight⟩
  · rintro (⟨first, rest, isText, isFirst, isRest⟩ | ⟨isEmpty, isText⟩)
    · exact ⟨a :: first, isFirst, rest, isRest, isText ▸ rfl⟩
    · exact ⟨[], isEmpty, _, isText, rfl⟩

theorem mem_derive (r : Regex α) (a : α) :
    ∀ text, text ∈ (r.derive a).language ↔ a :: text ∈ r.language := by
  induction r with
  | empty => exact fun _ => Iff.rfl
  | epsilon =>
      intro text
      refine iff_of_false (Language.notMem_zero text) ?_
      rw [language, Language.mem_one]
      exact List.cons_ne_nil _ _
  | symbol isMember =>
      intro text
      have isSymbol : a :: text ∈ (symbol isMember).language ↔ isMember a = true ∧ text = [] := by
        constructor
        · rintro ⟨b, accepted, isSingle⟩
          rw [List.cons.injEq] at isSingle
          exact ⟨isSingle.1 ▸ accepted, isSingle.2⟩
        · intro both
          exact ⟨a, both.1, by rw [both.2]⟩
      rw [isSymbol, derive]
      by_cases accepted : isMember a = true
      · rw [if_pos accepted]
        exact (and_iff_right accepted).symm
      · rw [if_neg accepted]
        exact iff_of_false (Language.notMem_zero text) fun both => accepted both.1
  | append first second firstIH secondIH =>
      intro text
      have parts : text ∈ (append (first.derive a) second).language ↔
          ∃ left rest, text = left ++ rest ∧ a :: left ∈ first.language ∧
            rest ∈ second.language := by
        rw [language, Language.mem_mul]
        constructor
        · rintro ⟨left, isLeft, rest, isRest, whole⟩
          exact ⟨left, rest, whole.symm, (firstIH left).mp isLeft, isRest⟩
        · rintro ⟨left, rest, whole, isLeft, isRest⟩
          exact ⟨left, (firstIH left).mpr isLeft, rest, isRest, whole.symm⟩
      show _ ↔ a :: text ∈ first.language * second.language
      rw [cons_mem_mul, ← nullable_iff, ← secondIH, ← parts, derive]
      by_cases isNullable : first.nullable = true
      · rw [if_pos isNullable, and_iff_right isNullable]
        exact Language.mem_add _ _ _
      · rw [if_neg isNullable]
        exact (or_iff_left fun both => isNullable both.1).symm
  | union first second firstIH secondIH =>
      intro text
      show text ∈ (first.derive a).language + (second.derive a).language ↔
        a :: text ∈ first.language + second.language
      rw [Language.mem_add, Language.mem_add, firstIH, secondIH]
  | star body bodyIH =>
      intro text
      show text ∈ (body.derive a).language * KStar.kstar body.language ↔
        a :: text ∈ KStar.kstar body.language
      rw [cons_mem_kstar, Language.mem_mul]
      constructor
      · rintro ⟨left, isLeft, rest, isRest, whole⟩
        exact ⟨left, rest, whole.symm, (bodyIH left).mp isLeft, isRest⟩
      · rintro ⟨left, rest, whole, isLeft, isRest⟩
        exact ⟨left, (bodyIH left).mpr isLeft, rest, isRest, whole.symm⟩

/-! ## The longest match -/

/-- `n` is the length of the longest prefix of the text in the language. -/
structure IsLongest (l : Language α) (text : List α) (n : Nat) : Prop where
  bound : n ≤ text.length
  isMatch : text.take n ∈ l
  longest : ∀ m, m ≤ text.length → text.take m ∈ l → m ≤ n

theorem IsLongest.unique {l : Language α} {text : List α} {n m : Nat} (first : IsLongest l text n)
    (second : IsLongest l text m) : n = m :=
  Nat.le_antisymm (second.longest n first.bound first.isMatch)
    (first.longest m second.bound second.isMatch)

theorem longest_spec (r : Regex α) (text : List α) :
    (∃ n, r.longest text = some n ∧ IsLongest r.language text n) ∨
      (r.longest text = none ∧ ∀ m, m ≤ text.length → text.take m ∉ r.language) := by
  induction text generalizing r with
  | nil =>
      rw [longest]
      by_cases isNullable : r.nullable = true
      · rw [if_pos isNullable]
        refine Or.inl ⟨0, rfl, le_rfl, (nullable_iff r).mp isNullable, ?_⟩
        exact fun m bound _ => bound
      · rw [if_neg isNullable]
        refine Or.inr ⟨rfl, ?_⟩
        intro m _
        rw [List.take_nil, ← nullable_iff]
        exact isNullable
  | cons a text inductionHypothesis =>
      rw [longest]
      rcases inductionHypothesis (r.derive a) with ⟨n, isLongest, spec⟩ | ⟨isNone, noMatch⟩
      · rw [isLongest]
        refine Or.inl ⟨n + 1, rfl, Nat.succ_le_succ spec.bound, ?_, ?_⟩
        · rw [List.take_succ_cons, ← mem_derive]
          exact spec.isMatch
        · intro m bound isMatch
          cases m with
          | zero => exact Nat.zero_le _
          | succ m =>
              rw [List.take_succ_cons, ← mem_derive] at isMatch
              exact Nat.succ_le_succ (spec.longest m (Nat.le_of_succ_le_succ bound) isMatch)
      · have noLonger : ∀ m, m + 1 ≤ (a :: text).length →
            (a :: text).take (m + 1) ∉ r.language := by
          intro m bound
          rw [List.take_succ_cons, ← mem_derive]
          exact noMatch m (Nat.le_of_succ_le_succ bound)
        rw [isNone]
        by_cases isNullable : r.nullable = true
        · simp only [if_pos isNullable]
          refine Or.inl ⟨0, rfl, Nat.zero_le _, (nullable_iff r).mp isNullable, ?_⟩
          intro m bound isMatch
          cases m with
          | zero => exact le_rfl
          | succ m => exact absurd isMatch (noLonger m bound)
        · simp only [if_neg isNullable]
          refine Or.inr ⟨trivial, ?_⟩
          intro m bound isMatch
          cases m with
          | zero => exact isNullable ((nullable_iff r).mpr isMatch)
          | succ m => exact noLonger m bound isMatch

theorem longest_eq_some {r : Regex α} {text : List α} {n : Nat} :
    r.longest text = some n ↔ IsLongest r.language text n := by
  rcases longest_spec r text with ⟨m, isLongest, spec⟩ | ⟨isNone, noMatch⟩
  · rw [isLongest, Option.some.injEq]
    constructor
    · rintro rfl
      exact spec
    · exact fun other => spec.unique other
  · rw [isNone]
    refine iff_of_false (Option.some_ne_none n).symm ?_
    exact fun other => noMatch n other.bound other.isMatch

theorem longest_eq_none {r : Regex α} {text : List α} :
    r.longest text = none ↔ ∀ m, m ≤ text.length → text.take m ∉ r.language := by
  rcases longest_spec r text with ⟨m, isLongest, spec⟩ | ⟨isNone, noMatch⟩
  · rw [isLongest]
    exact iff_of_false (Option.some_ne_none m) fun nothing => nothing m spec.bound spec.isMatch
  · exact iff_of_true isNone noMatch

/-! ## Simple reasons for which nothing is matched -/

/-- A class of the expression has the symbol. -/
def mentions : Regex α → α → Bool
  | empty, _ => false
  | epsilon, _ => false
  | symbol isMember, a => isMember a
  | append first second, a => first.mentions a || second.mentions a
  | union first second, a => first.mentions a || second.mentions a
  | star body, a => body.mentions a

/-- A match may start with the symbol. -/
def starts : Regex α → α → Bool
  | empty, _ => false
  | epsilon, _ => false
  | symbol isMember, a => isMember a
  | append first second, a => first.starts a || (first.nullable && second.starts a)
  | union first second, a => first.starts a || second.starts a
  | star body, a => body.starts a

/-- The expression matches no text that is longer than `n`. -/
def isWithin : Regex α → Nat → Bool
  | empty, _ => true
  | epsilon, _ => true
  | symbol _, n => 1 ≤ n
  | append first second, n =>
      (List.range (n + 1)).any fun k => first.isWithin k && second.isWithin (n - k)
  | union first second, n => first.isWithin n && second.isWithin n
  | star _, _ => false

theorem length_le_of_isWithin {r : Regex α} :
    ∀ {n : Nat} {text : List α}, r.isWithin n = true → text ∈ r.language → text.length ≤ n := by
  induction r with
  | empty => exact fun _ isMatch => absurd isMatch (Language.notMem_zero _)
  | epsilon =>
      intro n text _ isMatch
      rw [(Language.mem_one text).mp isMatch]
      exact Nat.zero_le n
  | symbol isMember =>
      intro n text within isMatch
      obtain ⟨b, _, isSingle⟩ := isMatch
      rw [isSingle]
      exact of_decide_eq_true within
  | append first second firstIH secondIH =>
      intro n text within isMatch
      rw [isWithin, List.any_eq_true] at within
      obtain ⟨k, inRange, parts⟩ := within
      rw [Bool.and_eq_true] at parts
      obtain ⟨left, isLeft, right, isRight, whole⟩ := Language.mem_mul.mp isMatch
      have leftBound := firstIH parts.1 isLeft
      have rightBound := secondIH parts.2 isRight
      rw [List.mem_range] at inRange
      rw [← whole, List.length_append]
      omega
  | union first second firstIH secondIH =>
      intro n text within isMatch
      rw [isWithin, Bool.and_eq_true] at within
      rcases (Language.mem_add _ _ _).mp isMatch with isFirst | isSecond
      · exact firstIH within.1 isFirst
      · exact secondIH within.2 isSecond
  | star body _ => exact fun within _ => absurd within Bool.false_ne_true

theorem mentions_of_mem {r : Regex α} {a : α} :
    ∀ {text : List α}, text ∈ r.language → a ∈ text → r.mentions a = true := by
  induction r with
  | empty => exact fun isMatch _ => absurd isMatch (Language.notMem_zero _)
  | epsilon =>
      intro text isMatch member
      rw [(Language.mem_one text).mp isMatch] at member
      exact absurd member List.not_mem_nil
  | symbol isMember =>
      rintro text ⟨b, accepted, isSingle⟩ member
      rw [isSingle, List.mem_singleton] at member
      exact member ▸ accepted
  | append first second firstIH secondIH =>
      intro text isMatch member
      obtain ⟨left, isLeft, right, isRight, whole⟩ := Language.mem_mul.mp isMatch
      rw [← whole, List.mem_append] at member
      rw [mentions, Bool.or_eq_true]
      exact member.imp (firstIH isLeft) (secondIH isRight)
  | union first second firstIH secondIH =>
      intro text isMatch member
      rw [mentions, Bool.or_eq_true]
      rcases (Language.mem_add _ _ _).mp isMatch with isFirst | isSecond
      · exact Or.inl (firstIH isFirst member)
      · exact Or.inr (secondIH isSecond member)
  | star body bodyIH =>
      intro text isMatch member
      obtain ⟨parts, isFlatten, areParts⟩ := Language.mem_kstar.mp isMatch
      rw [isFlatten, List.mem_flatten] at member
      obtain ⟨part, inParts, inPart⟩ := member
      exact bodyIH (areParts part inParts) inPart

theorem starts_of_mem {r : Regex α} {a : α} :
    ∀ {text : List α}, a :: text ∈ r.language → r.starts a = true := by
  induction r with
  | empty => exact fun isMatch => absurd isMatch (Language.notMem_zero _)
  | epsilon => exact fun isMatch => absurd isMatch (List.cons_ne_nil _ _)
  | symbol isMember =>
      rintro text ⟨b, accepted, isSingle⟩
      rw [List.cons.injEq] at isSingle
      exact isSingle.1 ▸ accepted
  | append first second firstIH secondIH =>
      intro text isMatch
      rw [starts, Bool.or_eq_true, Bool.and_eq_true, nullable_iff]
      rcases cons_mem_mul.mp isMatch with ⟨left, _, _, isLeft, _⟩ | ⟨isEmpty, isSecond⟩
      · exact Or.inl (firstIH isLeft)
      · exact Or.inr ⟨isEmpty, secondIH isSecond⟩
  | union first second firstIH secondIH =>
      intro text isMatch
      rw [starts, Bool.or_eq_true]
      exact ((Language.mem_add _ _ _).mp isMatch).imp firstIH secondIH
  | star body bodyIH =>
      intro text isMatch
      obtain ⟨first, _, _, isFirst, _⟩ := cons_mem_kstar.mp isMatch
      exact bodyIH isFirst

theorem eq_zero_of_starts {r : Regex α} {a : α} {text : List α} {m : Nat}
    (notStarts : r.starts a = false) (isMatch : (a :: text).take m ∈ r.language) : m = 0 := by
  cases m with
  | zero => rfl
  | succ m =>
      have starts := starts_of_mem isMatch
      rw [notStarts] at starts
      cases starts

theorem le_of_mentions {r : Regex α} {a : α} {front back : List α} {m : Nat}
    (notMentions : r.mentions a = false) (isMatch : (front ++ a :: back).take m ∈ r.language) :
    m ≤ front.length := by
  by_contra beyond
  have inside : a ∈ (front ++ a :: back).take m := by
    rw [List.take_append, List.mem_append]
    right
    rw [show m - front.length = (m - front.length - 1) + 1 by omega, List.take_succ_cons]
    exact List.mem_cons_self
  have mentions := mentions_of_mem isMatch inside
  rw [notMentions] at mentions
  cases mentions

theorem le_of_isWithin {r : Regex α} {text : List α} {n m : Nat} (within : r.isWithin n = true)
    (bound : m ≤ text.length) (isMatch : text.take m ∈ r.language) : m ≤ n := by
  have length := length_le_of_isWithin within isMatch
  rw [List.length_take, Nat.min_eq_left bound] at length
  exact length

theorem longest_append {r : Regex α} {text behind : List α}
    (inside : ∀ m, m ≤ (text ++ behind).length → (text ++ behind).take m ∈ r.language →
      m ≤ text.length) :
    r.longest (text ++ behind) = r.longest text := by
  have same : ∀ m, m ≤ text.length → (text ++ behind).take m = text.take m :=
    fun m bound => List.take_append_of_le_length bound
  have longer : ∀ m, m ≤ text.length → m ≤ (text ++ behind).length := by
    intro m bound
    rw [List.length_append]
    exact bound.trans (Nat.le_add_right _ _)
  cases isLongest : r.longest text with
  | none =>
      apply longest_eq_none.mpr
      intro m bound isMatch
      have short := inside m bound isMatch
      rw [same m short] at isMatch
      exact longest_eq_none.mp isLongest m short isMatch
  | some n =>
      have spec := longest_eq_some.mp isLongest
      apply longest_eq_some.mpr
      constructor
      · exact longer n spec.bound
      · rw [same n spec.bound]
        exact spec.isMatch
      · intro m bound isMatch
        have short := inside m bound isMatch
        rw [same m short] at isMatch
        exact spec.longest m short isMatch

end Regex

end Rcgo.Foundation
