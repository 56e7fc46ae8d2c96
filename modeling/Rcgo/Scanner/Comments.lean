import Rcgo.Scanner.CommentRules
import Mathlib.Logic.Relation

/-!
# Comments

A comment is dropped silently up to its closing mark when nothing in its text
outweighs the rules for comments.
-/

namespace Rcgo.Scanner

open Rcgo.Foundation

/-- The text of a comment, before the closing mark and the rest of the input,
is dropped piece by piece. -/
inductive Undisturbed (rest : List Byte) : List Byte → Prop where
  | nil : Undisturbed rest []
  | newline {body : List Byte} (others : Undisturbed rest body) : Undisturbed rest (10 :: body)
  | star {body : List Byte} (notAssign : ∀ more, body ≠ 61 :: more)
      (others : Undisturbed rest body) : Undisturbed rest (42 :: body)
  /-- a line comment hides what follows it on a line that ends before the mark -/
  | line {text body : List Byte} (starts : StartsLine text) (oneLine : 10 ∉ text)
      (others : Undisturbed rest (10 :: body)) : Undisturbed rest (text ++ 10 :: body)
  | piece {text body : List Byte} (isPiece : IsPiece text)
      (stops : Stops (body ++ 42 :: 47 :: rest)) (notLine : ¬StartsLine text)
      (fits : ¬Outgrown text (body ++ 42 :: 47 :: rest)) (others : Undisturbed rest body) :
      Undisturbed rest (text ++ body)

def Unclosed (body : List Byte) : Prop :=
  ¬[42, 47] <:+: body

/-- The scanner drops the comment, goes on behind its closing mark, and counts
its lines. -/
def DroppedAsComment (body rest : List Byte) (line : Nat) : Prop :=
  Relation.ReflTransGen SilentStep ⟨47 :: 42 :: (body ++ 42 :: 47 :: rest), .initial, line⟩
    ⟨rest, .initial, line + body.count 10⟩

theorem Unclosed.of_append {body : List Byte} (first : List Byte)
    (unclosed : Unclosed (first ++ body)) :
    Unclosed body := by
  intro isInfix
  exact unclosed (isInfix.trans (List.suffix_append first body).isInfix)

theorem notClosing_of_unclosed {body rest : List Byte} (unclosed : Unclosed (42 :: body)) :
    ∀ more, body ++ 42 :: 47 :: rest ≠ 47 :: more := by
  intro more isSlash
  cases body with
  | nil => cases isSlash
  | cons b body =>
      rw [List.cons_append, List.cons.injEq] at isSlash
      rw [isSlash.1] at unclosed
      exact unclosed ⟨[], body, rfl⟩

theorem notAssign_append {body rest : List Byte} :
    (∀ more, body ++ 42 :: 47 :: rest ≠ 61 :: more) ↔ ∀ more, body ≠ 61 :: more := by
  cases body with
  | nil => simp
  | cons b body => simp

/-! ## Undisturbed comments are dropped -/

theorem Undisturbed.drops {body rest : List Byte} (undisturbed : Undisturbed rest body)
    (unclosed : Unclosed body) (line : Nat) :
    Relation.ReflTransGen SilentStep ⟨body ++ 42 :: 47 :: rest, .inComment, line⟩
      ⟨rest, .initial, line + body.count 10⟩ := by
  induction undisturbed generalizing line with
  | nil => exact .single (silentStep_closing rest line)
  | @newline body _ inductionHypothesis =>
      have others := inductionHypothesis (unclosed.of_append [10]) (line + 1)
      rw [List.count_cons_self, ← Nat.add_assoc, Nat.add_right_comm]
      exact .head (silentStep_commentNewline _ line) others
  | @star body notAssign _ inductionHypothesis =>
      have others := inductionHypothesis (unclosed.of_append [42]) line
      rw [List.count_cons_of_ne (by decide)]
      exact .head (silentStep_loneStar (notClosing_of_unclosed unclosed)
        (notAssign_append.2 notAssign) line) others
  | @line text body starts oneLine _ inductionHypothesis =>
      have others := inductionHypothesis (unclosed.of_append _) line
      rw [List.count_append, List.count_eq_zero.2 oneLine, Nat.zero_add, List.append_assoc]
      exact .head (silentStep_line starts oneLine (Or.inr ⟨_, rfl⟩) line) others
  | @piece text body isPiece stops notLine fits _ inductionHypothesis =>
      have others := inductionHypothesis (unclosed.of_append _) line
      rw [List.count_append, List.count_eq_zero.2 isPiece.2.2, Nat.zero_add, List.append_assoc]
      exact .head (silentStep_piece isPiece stops notLine fits line) others

/-! ## Dropped comments are undisturbed -/

theorem length_le_of_silentSteps {s target : Scan}
    (steps : Relation.ReflTransGen SilentStep s target) :
    target = s ∨ target.input.length < s.input.length := by
  induction steps with
  | refl => exact Or.inl rfl
  | tail _ step inductionHypothesis =>
      have shorter := length_lt_of_silentStep step
      rcases inductionHypothesis with isSame | isShorter
      · exact Or.inr (isSame ▸ shorter)
      · exact Or.inr (shorter.trans isShorter)

theorem tail_of_run {text rest : List Byte} {line final : Nat} {next : Scan}
    (run : Relation.ReflTransGen SilentStep ⟨text, .inComment, line⟩ ⟨rest, .initial, final⟩)
    (step : SilentStep ⟨text, .inComment, line⟩ next) :
    Relation.ReflTransGen SilentStep next ⟨rest, .initial, final⟩ := by
  rcases run.cases_head with isSame | ⟨other, first, others⟩
  · cases isSame
  · rw [SilentStep, step, Option.some.injEq, Prod.mk.injEq] at first
    rw [first.1]
    exact others

theorem exists_silentStep {text rest : List Byte} {line final : Nat}
    (run : Relation.ReflTransGen SilentStep ⟨text, .inComment, line⟩ ⟨rest, .initial, final⟩) :
    ∃ next, SilentStep ⟨text, .inComment, line⟩ next := by
  rcases run.cases_head with isSame | ⟨other, first, _⟩
  · cases isSame
  · exact ⟨other, first⟩

theorem exists_piece {b : Byte} {body : List Byte} (notStar : b ≠ 42) (notNewline : b ≠ 10) :
    ∃ text others, b :: body = text ++ others ∧ IsPiece text ∧ (∃ more, text = b :: more) ∧
      (others = [] ∨ Stops others) := by
  induction body generalizing b with
  | nil =>
      refine ⟨[b], [], rfl, ⟨List.cons_ne_nil _ _, ?_, ?_⟩, ⟨[], rfl⟩, Or.inl rfl⟩
      · simpa using notStar.symm
      · simpa using notNewline.symm
  | cons c body inductionHypothesis =>
      by_cases isStop : c = 42 ∨ c = 10
      · refine ⟨[b], c :: body, rfl, ⟨List.cons_ne_nil _ _, ?_, ?_⟩, ⟨[], rfl⟩,
          Or.inr ⟨body, ?_⟩⟩
        · simpa using notStar.symm
        · simpa using notNewline.symm
        · exact isStop.imp (fun isStar => by rw [isStar]) (fun isNewline => by rw [isNewline])
      · rw [not_or] at isStop
        obtain ⟨text, others, whole, isPiece, _, stops⟩ := inductionHypothesis isStop.1 isStop.2
        refine ⟨b :: text, others, by rw [whole]; rfl, ⟨List.cons_ne_nil _ _, ?_, ?_⟩,
          ⟨text, rfl⟩, stops⟩
        · rw [List.mem_cons, not_or]
          exact And.intro notStar.symm isPiece.2.1
        · rw [List.mem_cons, not_or]
          exact And.intro notNewline.symm isPiece.2.2

theorem StartsLine.append {text : List Byte} (starts : StartsLine text) (behind : List Byte) :
    StartsLine (text ++ behind) := by
  rcases starts with ⟨more, isText⟩ | ⟨more, isText⟩
  · exact Or.inl ⟨_, by rw [isText]; rfl⟩
  · exact Or.inr ⟨_, by rw [isText]; rfl⟩

theorem StartsLine.length_pos {text : List Byte} (starts : StartsLine text) : 0 < text.length := by
  rcases starts with ⟨more, isText⟩ | ⟨more, isText⟩
  · rw [isText]
    exact Nat.succ_pos _
  · rw [isText]
    exact Nat.succ_pos _

theorem startsLine_before_newline {front back : List Byte} (starts : StartsLine (front ++ 10 :: back)) :
    StartsLine front := by
  cases front with
  | nil =>
      rcases starts with ⟨more, isText⟩ | ⟨more, isText⟩
      · cases isText
      · cases isText
  | cons b front =>
      rcases starts with ⟨more, isText⟩ | ⟨more, isText⟩
      · cases front with
        | nil => cases isText
        | cons c front =>
            rw [List.cons_append, List.cons_append, List.cons.injEq, List.cons.injEq] at isText
            exact Or.inl ⟨front, by rw [isText.1, isText.2.1]⟩
      · rw [List.cons_append, List.cons.injEq] at isText
        exact Or.inr ⟨front, by rw [isText.1]⟩

theorem not_run_of_hidden {text rest : List Byte} {line final : Nat} (starts : StartsLine text)
    (oneLine : 10 ∉ text) :
    ¬Relation.ReflTransGen SilentStep ⟨text ++ 42 :: 47 :: rest, .inComment, line⟩
      ⟨rest, .initial, final⟩ := by
  intro run
  have split : ∃ hidden behind, rest = hidden ++ behind ∧ 10 ∉ hidden ∧ EndsLine behind := by
    by_cases hasNewline : 10 ∈ rest
    · obtain ⟨hidden, behind, isRest, none⟩ := List.eq_append_cons_of_mem hasNewline
      exact ⟨hidden, 10 :: behind, isRest, none, Or.inr ⟨behind, rfl⟩⟩
    · exact ⟨rest, [], (List.append_nil rest).symm, hasNewline, Or.inl rfl⟩
  obtain ⟨hidden, behind, isRest, none, endsLine⟩ := split
  have whole : text ++ 42 :: 47 :: rest = (text ++ 42 :: 47 :: hidden) ++ behind := by
    rw [isRest, List.append_assoc]
    rfl
  have noNewline : 10 ∉ text ++ 42 :: 47 :: hidden := by
    simp only [List.mem_append, List.mem_cons, not_or]
    exact ⟨oneLine, by decide, by decide, none⟩
  rw [whole] at run
  have later := tail_of_run run (silentStep_line (starts.append _) noNewline endsLine line)
  have shorter : behind.length ≤ rest.length := by
    rw [isRest, List.length_append]
    exact Nat.le_add_left _ _
  rcases length_le_of_silentSteps later with isSame | isShorter
  · cases isSame
  · exact absurd isShorter (Nat.not_lt.2 shorter)

theorem stops_append {others rest : List Byte} (stops : others = [] ∨ Stops others) :
    Stops (others ++ 42 :: 47 :: rest) := by
  rcases stops with isEmpty | ⟨more, isStar | isNewline⟩
  · exact ⟨47 :: rest, Or.inl (by rw [isEmpty]; rfl)⟩
  · exact ⟨_, Or.inl (by rw [isStar]; rfl)⟩
  · exact ⟨_, Or.inr (by rw [isNewline]; rfl)⟩

theorem undisturbed_of_run {body rest : List Byte} (unclosed : Unclosed body) {line final : Nat}
    (run : Relation.ReflTransGen SilentStep ⟨body ++ 42 :: 47 :: rest, .inComment, line⟩
      ⟨rest, .initial, final⟩) : Undisturbed rest body := by
  induction isLength : body.length using Nat.strong_induction_on generalizing body line with
  | h length inductionHypothesis =>
      cases body with
      | nil => exact .nil
      | cons b body =>
          have shorter : body.length < length := by
            rw [← isLength]
            exact Nat.lt_succ_self _
          by_cases isNewline : b = 10
          · rw [isNewline] at run unclosed ⊢
            have later := tail_of_run run (silentStep_commentNewline _ line)
            exact .newline (inductionHypothesis body.length shorter
              (unclosed.of_append [10]) later rfl)
          · by_cases isStar : b = 42
            · rw [isStar] at run unclosed ⊢
              have notAssign : ∀ more, body ≠ 61 :: more := by
                intro more isAssign
                rw [isAssign] at run
                obtain ⟨next, step⟩ := exists_silentStep run
                have token := next_assign (more ++ 42 :: 47 :: rest) line
                rw [SilentStep] at step
                cases step.symm.trans token
              have later := tail_of_run run
                (silentStep_loneStar (notClosing_of_unclosed unclosed)
                  (notAssign_append.2 notAssign) line)
              exact .star notAssign (inductionHypothesis body.length shorter
                (unclosed.of_append [42]) later rfl)
            · obtain ⟨text, others, whole, isPiece, ⟨more, isText⟩, stops⟩ :=
                exists_piece isStar isNewline
              rw [whole] at run unclosed ⊢
              rw [whole, List.length_append] at isLength
              have nonempty : 0 < text.length := List.length_pos_iff.2 isPiece.1
              by_cases starts : StartsLine text
              · by_cases hasNewline : 10 ∈ text ++ others
                · obtain ⟨front, back, isSplit, none⟩ := List.eq_append_cons_of_mem hasNewline
                  have startsFront : StartsLine front :=
                    startsLine_before_newline (isSplit ▸ starts.append others)
                  rw [isSplit] at run unclosed ⊢
                  rw [List.append_assoc] at run
                  have later := tail_of_run run
                    (silentStep_line startsFront none (Or.inr ⟨_, rfl⟩) line)
                  have total := congrArg List.length isSplit
                  have positive := startsFront.length_pos
                  rw [List.length_append, List.length_append] at total
                  exact .line startsFront none (inductionHypothesis (10 :: back).length (by omega)
                    (unclosed.of_append _) later rfl)
                · rw [← whole] at run hasNewline
                  exact absurd run (not_run_of_hidden (whole ▸ starts.append others) hasNewline)
              · rw [List.append_assoc] at run
                by_cases outgrown : Outgrown text (others ++ 42 :: 47 :: rest)
                · obtain ⟨next, step⟩ := exists_silentStep run
                  exact absurd step
                    (not_silentStep_of_outgrown isPiece (stops_append stops) outgrown next)
                · have later := tail_of_run run
                    (silentStep_piece isPiece (stops_append stops) starts outgrown line)
                  exact .piece isPiece (stops_append stops) starts outgrown
                    (inductionHypothesis others.length (by omega) (unclosed.of_append _) later rfl)

/-! ## Comments -/

theorem dropped_iff_run {body rest : List Byte} {line : Nat} :
    DroppedAsComment body rest line ↔
      Relation.ReflTransGen SilentStep ⟨body ++ 42 :: 47 :: rest, .inComment, line⟩
        ⟨rest, .initial, line + body.count 10⟩ := by
  constructor
  · intro dropped
    rcases dropped.cases_head with isSame | ⟨next, step, run⟩
    · have lengths := congrArg (fun s : Scan => s.input.length) isSame
      simp only [List.length_cons, List.length_append] at lengths
      omega
    · have opening := silentStep_opening (body ++ 42 :: 47 :: rest) line
      rw [SilentStep, step, Option.some.injEq, Prod.mk.injEq] at opening
      exact opening.1 ▸ run
  · exact fun run => .head (silentStep_opening _ line) run

/-- A comment is dropped exactly when its text is undisturbed. -/
theorem comment_dropped_iff {body rest : List Byte} (unclosed : Unclosed body) (line : Nat) :
    DroppedAsComment body rest line ↔ Undisturbed rest body := by
  rw [dropped_iff_run]
  exact Iff.intro (undisturbed_of_run unclosed) fun undisturbed => undisturbed.drops unclosed line

/-- A comment of two lines. -/
theorem comment_dropped_twoLines : DroppedAsComment [97, 10, 42] [98] 1 := by
  have unclosed : Unclosed [97, 10, 42] := by
    unfold Unclosed
    decide
  apply (comment_dropped_iff unclosed 1).2
  show Undisturbed [98] ([97] ++ [10, 42])
  apply Undisturbed.piece
  · exact ⟨List.cons_ne_nil _ _, by decide, by decide⟩
  · exact ⟨_, Or.inr rfl⟩
  · intro starts
    rcases starts with ⟨more, isText⟩ | ⟨more, isText⟩
    · cases isText
    · cases isText
  · intro outgrown
    rcases outgrown with ⟨inside, isText, _⟩ | ⟨inside, isText, _⟩ | ⟨isText, _⟩
    · cases isText
    · cases isText
    · cases isText
  · exact .newline (.star (fun more isText => by cases isText) .nil)

/-- The comment `/**=*/`. -/
theorem not_dropped_assign : Unclosed [42, 61] ∧ ¬DroppedAsComment [42, 61] [] 1 := by
  constructor
  · unfold Unclosed
    decide
  · intro dropped
    obtain ⟨next, step⟩ := exists_silentStep (dropped_iff_run.1 dropped)
    have token := next_assign [42, 47] 1
    rw [SilentStep] at step
    cases step.symm.trans token

end Rcgo.Scanner
