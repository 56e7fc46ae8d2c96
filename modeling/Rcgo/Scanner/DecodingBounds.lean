import Rcgo.Scanner.Patterns
import Rcgo.Scanner.StringLiterals
import Mathlib.Logic.Relation

/-!
# The bounds of the decoder

A text is a sequence of elements and a rest, which is empty or starts with a
backslash that begins no complete escape sequence.  The decoder leaves such a
backslash to chance: it reports it only when three bytes that it takes for octal
digits happen to make a large number.
-/

namespace Rcgo.Scanner

open Rcgo.Foundation

/-! ## Broken escape sequences -/

/-- A backslash at the position of the loop begins no escape sequence that is
complete before the limit. -/
def BrokenAt (limit : Nat) (s : Decoding) : Prop :=
  s.buffer s.pos = 92 ∧
    ∀ e : Element, Holds s.buffer s.pos e.text → limit < s.pos + e.text.length

/-- The text begins with a backslash and three bytes that are reported as an
octal number above 255. -/
def LargeOctal (text : List Byte) : Prop :=
  ∃ a b c rest, text = 92 :: a :: b :: c :: rest ∧ isOctalDigit a = true ∧
    (octalCode a b c).toInt > 255

theorem LargeOctal.ne_nil {text : List Byte} (large : LargeOctal text) : text ≠ [] := by
  obtain ⟨a, b, c, rest, isText, _⟩ := large
  rw [isText]
  exact List.cons_ne_nil _ _

/-- Every backslash begins a complete escape sequence, or the program stops with
an error message before the first that does not, or at it. -/
def WellEscaped (text : List Byte) : Prop :=
  ∃ es rest, text = Element.source es ++ rest ∧
    ((∃ e ∈ es, e.Rejected) ∨ rest = [] ∨ LargeOctal rest)

def Starts (text : List Byte) : Prop :=
  ∃ e : Element, e.text <+: text

theorem exists_split (text : List Byte) :
    ∃ es rest, text = Element.source es ++ rest ∧ (rest = [] ∨ ¬Starts rest) := by
  induction isLength : text.length using Nat.strong_induction_on generalizing text with
  | h length inductionHypothesis =>
      by_cases starts : Starts text
      · obtain ⟨e, others, isText⟩ := starts
        have positive := e.length_text_pos
        have total := congrArg List.length isText
        rw [List.length_append] at total
        obtain ⟨es, rest, isOthers, stuck⟩ :=
          inductionHypothesis others.length (by omega) others rfl
        refine ⟨e :: es, rest, ?_, stuck⟩
        rw [Element.source_cons, List.append_assoc, ← isOthers, isText]
      · exact ⟨[], text, rfl, Or.inr starts⟩

theorem eq_backslash_of_not_starts {b : Byte} {text : List Byte}
    (stuck : ¬Starts (b :: text)) : b = 92 := by
  by_contra notBackslash
  exact stuck ⟨.plain b notBackslash, text, rfl⟩

/-! ## Iterations at a broken escape sequence -/

/-- The code is not an error message about the literal. -/
def Unreported (code : DecodeFault) : Prop :=
  code.isReport = false

theorem readByte_meets (limit : Nat) (m : Buffer) (pos : Nat) :
    (readByte limit m pos).Meets Unreported fun b => pos < limit ∧ m pos = b := by
  rw [readByte]
  by_cases inside : pos < limit
  · rw [if_pos inside]
    exact And.intro inside rfl
  · rw [if_neg inside]
    exact rfl

theorem writeByte_meets (pos : Nat) (m : Buffer) (out : Nat) (b : Byte) :
    (writeByte pos m out b).Meets Unreported fun _ => True := by
  rw [writeByte]
  by_cases behind : out < pos
  · rw [if_pos behind]
    exact trivial
  · rw [if_neg behind]
    exact rfl

theorem hexvalue_meets (c : Byte) :
    (hexvalue c).Meets Unreported fun _ => isHexadecimalDigit c = true := by
  rw [hexvalue, isHexadecimalDigit, isDecimalDigit]
  by_cases isDecimal : 48 ≤ c ∧ c ≤ 57
  · rw [if_pos isDecimal]
    simp [Outcome.Meets, isDecimal]
  · rw [if_neg isDecimal]
    by_cases isLower : 97 ≤ c ∧ c ≤ 102
    · rw [if_pos isLower]
      simp [Outcome.Meets, isLower]
    · rw [if_neg isLower]
      by_cases isUpper : 65 ≤ c ∧ c ≤ 70
      · rw [if_pos isUpper]
        simp [Outcome.Meets, isUpper]
      · rw [if_neg isUpper]
        exact rfl

def HexAt (limit : Nat) (m : Buffer) (pos : Nat) : Prop :=
  pos < limit ∧ ∃ d : HexDigit, m pos = d.val

theorem readHex_meets (limit : Nat) (m : Buffer) (pos : Nat) :
    (readHex limit m pos).Meets Unreported fun _ => HexAt limit m pos := by
  apply (readByte_meets limit m pos).bind
  intro c read
  apply (hexvalue_meets c).mono
  intro _ isDigit
  exact And.intro read.1 ⟨⟨c, isDigit⟩, read.2⟩

theorem parseHex_meets (limit : Nat) (m : Buffer) (pos : Nat) :
    (parseHex limit m pos).Meets Unreported fun _ => True := by
  apply (readHex_meets limit m pos).bind
  intro a _
  apply (readHex_meets limit m (pos + 1)).bind
  intro b _
  exact trivial

theorem parseOctal_meets {limit : Nat} {m : Buffer} {pos : Nat}
    (notLarge : pos + 2 < limit → ¬(octalCode (m pos) (m (pos + 1)) (m (pos + 2))).toInt > 255) :
    (parseOctal limit m pos).Meets Unreported fun _ => True := by
  apply (readByte_meets limit m pos).bind
  intro a isFirst
  apply (readByte_meets limit m (pos + 1)).bind
  intro b isSecond
  apply (readByte_meets limit m (pos + 2)).bind
  intro c isThird
  have small := notLarge isThird.1
  rw [isFirst.2, isSecond.2, isThird.2] at small
  rw [if_neg small]
  exact trivial

theorem parseU4_meets {limit : Nat} {m : Buffer} {pos : Nat}
    (incomplete : ¬∀ i < 4, HexAt limit m (pos + i)) :
    (parseU4 limit m pos).Meets Unreported fun _ => True := by
  apply (readHex_meets limit m pos).bind
  intro a isFirst
  apply (readHex_meets limit m (pos + 1)).bind
  intro b isSecond
  apply (readHex_meets limit m (pos + 2)).bind
  intro c isThird
  apply (readHex_meets limit m (pos + 3)).bind
  intro d isFourth
  refine absurd ?_ incomplete
  intro i less
  interval_cases i
  · exact isFirst
  · exact isSecond
  · exact isThird
  · exact isFourth

theorem parseU8_meets {limit : Nat} {m : Buffer} {pos : Nat}
    (incomplete : ¬∀ i < 8, HexAt limit m (pos + i)) :
    (parseU8 limit m pos).Meets Unreported fun _ => True := by
  apply (readHex_meets limit m pos).bind
  intro a isFirst
  apply (readHex_meets limit m (pos + 1)).bind
  intro b isSecond
  apply (readHex_meets limit m (pos + 2)).bind
  intro c isThird
  apply (readHex_meets limit m (pos + 3)).bind
  intro d isFourth
  apply (readHex_meets limit m (pos + 4)).bind
  intro e isFifth
  apply (readHex_meets limit m (pos + 5)).bind
  intro f isSixth
  apply (readHex_meets limit m (pos + 6)).bind
  intro g isSeventh
  apply (readHex_meets limit m (pos + 7)).bind
  intro h isEighth
  refine absurd ?_ incomplete
  intro i less
  interval_cases i
  · exact isFirst
  · exact isSecond
  · exact isThird
  · exact isFourth
  · exact isFifth
  · exact isSixth
  · exact isSeventh
  · exact isEighth

theorem step_meets {α : Type} {x : Outcome DecodeFault α} {f : α → Outcome DecodeFault Decoding}
    (first : x.Meets Unreported fun _ => True)
    (rest : ∀ value, (f value).Meets Unreported fun _ => True) :
    (x >>= f).Meets Unreported fun _ => True :=
  first.bind fun value _ => rest value

theorem writeBytes_meets (pos : Nat) (bytes : List Byte) (m : Buffer) (out : Nat) :
    (writeBytes pos m out bytes).Meets Unreported fun _ => True := by
  induction bytes generalizing m out with
  | nil => exact trivial
  | cons b bs inductionHypothesis =>
      apply (writeByte_meets pos m out b).bind
      intro written _
      exact inductionHypothesis _ _

theorem hexAt_incomplete {limit : Nat} {s : Decoding} (broken : BrokenAt limit s)
    (isU : s.buffer (s.pos + 1) = 117) : ¬∀ i < 4, HexAt limit s.buffer (s.pos + 2 + i) := by
  intro digits
  obtain ⟨_, a, isA⟩ := digits 0 (by decide)
  obtain ⟨_, b, isB⟩ := digits 1 (by decide)
  obtain ⟨_, c, isC⟩ := digits 2 (by decide)
  obtain ⟨inside, d, isD⟩ := digits 3 (by decide)
  have beyond := broken.2 (.littleU a b c d)
    ⟨broken.1, isU, isA, isB, isC, isD, trivial⟩
  simp only [Element.text, List.length_cons, List.length_nil] at beyond
  omega

theorem bigHexAt_incomplete {limit : Nat} {s : Decoding} (broken : BrokenAt limit s)
    (isU : s.buffer (s.pos + 1) = 85) : ¬∀ i < 8, HexAt limit s.buffer (s.pos + 2 + i) := by
  intro digits
  obtain ⟨_, a, isA⟩ := digits 0 (by decide)
  obtain ⟨_, b, isB⟩ := digits 1 (by decide)
  obtain ⟨_, c, isC⟩ := digits 2 (by decide)
  obtain ⟨_, d, isD⟩ := digits 3 (by decide)
  obtain ⟨_, e, isE⟩ := digits 4 (by decide)
  obtain ⟨_, f, isF⟩ := digits 5 (by decide)
  obtain ⟨_, g, isG⟩ := digits 6 (by decide)
  obtain ⟨inside, h, isH⟩ := digits 7 (by decide)
  have beyond := broken.2 (.bigU a b c d e f g h)
    ⟨broken.1, isU, isA, isB, isC, isD, isE, isF, isG, isH, trivial⟩
  simp only [Element.text, List.length_cons, List.length_nil] at beyond
  omega

theorem decodeStep_broken {limit : Nat} {s : Decoding} (broken : BrokenAt limit s)
    (notLarge : s.pos + 3 < limit → isOctalDigit (s.buffer (s.pos + 1)) = true →
      ¬(octalCode (s.buffer (s.pos + 1)) (s.buffer (s.pos + 2)) (s.buffer (s.pos + 3))).toInt >
        255) :
    (decodeStep limit s).Meets Unreported fun _ => True := by
  unfold decodeStep
  apply (readByte_meets limit s.buffer s.pos).bind
  intro c isBackslash
  rw [if_neg (not_not.2 (isBackslash.2.symm.trans broken.1))]
  apply (readByte_meets limit s.buffer (s.pos + 1)).bind
  intro c read
  split
  · next isOctal =>
    refine step_meets (parseOctal_meets fun inside => notLarge inside (read.2 ▸ isOctal)) ?_
    exact fun x => step_meets (writeByte_meets _ _ _ _) fun _ => trivial
  · split
    · refine step_meets (parseHex_meets _ _ _) ?_
      exact fun x => step_meets (writeByte_meets _ _ _ _) fun _ => trivial
    · split
      · next isU =>
        refine step_meets (parseU4_meets (hexAt_incomplete broken (read.2.trans isU))) ?_
        exact fun x => step_meets (writeBytes_meets _ _ _ _) fun _ => trivial
      · split
        · next isU =>
          refine step_meets (parseU8_meets (bigHexAt_incomplete broken (read.2.trans isU))) ?_
          exact fun x => step_meets (writeBytes_meets _ _ _ _) fun _ => trivial
        · split
          · exact step_meets (writeByte_meets _ _ _ _) fun _ => trivial
          · exact trivial

theorem decodeStep_largeOctal {limit : Nat} {s : Decoding} {text : List Byte}
    (large : LargeOctal text) (holds : Holds s.buffer s.pos text)
    (inside : s.pos + text.length ≤ limit) : decodeStep limit s = .error .octalRange := by
  obtain ⟨a, b, c, rest, isText, isOctal, isLarge⟩ := large
  rw [isText] at holds inside
  simp only [List.length_cons] at inside
  have read := readEscape limit (by omega) holds.1 holds.2.1
  have second := readByte_of_lt limit (by omega) holds.2.2.1
  have third := readByte_of_lt limit (by omega) holds.2.2.2.1
  rw [decodeStep, read.1, Outcome.ok_bind, if_neg (by decide), read.2, Outcome.ok_bind,
    if_pos isOctal, parseOctal, read.2, Outcome.ok_bind, second, Outcome.ok_bind, third,
    Outcome.ok_bind, if_pos isLarge, Outcome.error_bind]

/-! ## All iterations -/

def Iterates (limit : Nat) (s next : Decoding) : Prop :=
  s.pos ≠ limit ∧ decodeStep limit s = .ok next

/-- The decoder terminates and stays in its buffer, and a backslash that starts
no complete escape sequence is reported. -/
structure StaysInside (limit : Nat) (buffer : Buffer) : Prop where
  ends : ∃ result, Ends (decoding buffer limit) result ∧ result ≠ .outOfFuel ∧
    result ≠ .error .overrun ∧ result ≠ .error .overtaken
  reported : ∀ s, Relation.ReflTransGen (Iterates limit) (Decoding.start buffer) s →
    s.pos ≠ limit → BrokenAt limit s →
      ∃ code, code.isReport = true ∧ decodeStep limit s = .error code

/-- What the loop has before it: elements and a rest. -/
structure Ahead (limit : Nat) (s : Decoding) (es : List Element) (rest : List Byte) : Prop where
  holds : Holds s.buffer s.pos (Element.source es ++ rest)
  total : s.pos + (Element.source es ++ rest).length = limit
  behind : s.out ≤ s.pos

/-- The run comes to no broken escape sequence that is not reported. -/
def Fine (es : List Element) (rest : List Byte) : Prop :=
  (∃ e ∈ es, e.Rejected) ∨ rest = [] ∨ LargeOctal rest

namespace Ahead

variable {limit : Nat} {s : Decoding} {e : Element} {es : List Element} {rest bytes : List Byte}

theorem decodeStep_cons (ahead : Ahead limit s (e :: es) rest) :
    decodeStep limit s = e.decode >>= s.after e := by
  have holds := ahead.holds
  have total := ahead.total
  rw [Element.source_cons, List.append_assoc] at holds total
  rw [List.length_append] at total
  exact decodeStep_element e (Holds.append.1 holds).1 (by omega)

theorem tail (ahead : Ahead limit s (e :: es) rest) (decodes : e.decode = .ok bytes) :
    Ahead limit (s.passed e.text.length bytes) es rest := by
  have holds := ahead.holds
  have total := ahead.total
  have behind := ahead.behind
  have fits := Element.length_decode decodes
  rw [Element.source_cons, List.append_assoc] at holds total
  rw [List.length_append] at total
  constructor
  · exact holds_passed behind fits (Holds.append.1 holds).2
  · exact (Nat.add_assoc _ _ _).trans total
  · exact Nat.add_le_add behind fits

theorem iterates (ahead : Ahead limit s (e :: es) rest) (decodes : e.decode = .ok bytes) :
    Iterates limit s (s.passed e.text.length bytes) := by
  have total := ahead.total
  have positive := e.length_text_pos
  rw [Element.source_cons, List.append_assoc, List.length_append] at total
  constructor
  · omega
  · rw [ahead.decodeStep_cons, decodes, Outcome.ok_bind]
    exact after_eq ahead.behind decodes

theorem reaches (ahead : Ahead limit s es rest) (decodes : Element.decodeAll es = .ok bytes) :
    Relation.ReflTransGen (Iterates limit) s (s.passed (Element.source es).length bytes) ∧
      Ahead limit (s.passed (Element.source es).length bytes) [] rest := by
  induction es generalizing s bytes with
  | nil =>
      cases decodes
      exact And.intro .refl ahead
  | cons e es inductionHypothesis =>
      obtain ⟨first, others, isFirst, areOthers, isBytes⟩ := Element.decodeAll_cons_ok decodes
      have later := inductionHypothesis (ahead.tail isFirst) areOthers
      rw [passed_passed, ← List.length_append, ← Element.source_cons, ← isBytes] at later
      exact And.intro (.head (ahead.iterates isFirst) later.1) later.2

theorem total_nil (ahead : Ahead limit s [] rest) : s.pos + rest.length = limit :=
  ahead.total

theorem pos_ne_iff (ahead : Ahead limit s [] rest) : s.pos ≠ limit ↔ rest ≠ [] := by
  rw [← ahead.total_nil, ne_eq, ne_eq, ← List.length_eq_zero_iff]
  omega

theorem decodeStep_nil (ahead : Ahead limit s [] rest) (fine : Fine [] rest)
    (before : s.pos ≠ limit) : decodeStep limit s = .error .octalRange := by
  rcases fine with ⟨e, member, _⟩ | isEmpty | large
  · exact absurd member List.not_mem_nil
  · exact absurd isEmpty (ahead.pos_ne_iff.1 before)
  · exact decodeStep_largeOctal large ahead.holds ahead.total.le

theorem fine_tail (fine : Fine (e :: es) rest) (decodes : e.decode = .ok bytes) : Fine es rest := by
  rcases fine with ⟨other, member, rejected⟩ | others
  · rcases List.mem_cons.1 member with isHead | isLater
    · obtain ⟨_, code, _, fails⟩ := rejected.reports
      rw [isHead, decodes] at fails
      cases fails
    · exact Or.inl ⟨other, isLater, rejected⟩
  · exact Or.inr others

theorem fine_iterates (ahead : Ahead limit s es rest) (fine : Fine es rest) {next : Decoding}
    (step : Iterates limit s next) :
    ∃ later, Ahead limit next later rest ∧ Fine later rest := by
  cases es with
  | nil =>
      have fails := ahead.decodeStep_nil fine step.1
      rw [step.2] at fails
      cases fails
  | cons e es =>
      have isStep := step.2
      rw [ahead.decodeStep_cons, Outcome.bind_eq_ok] at isStep
      obtain ⟨bytes, decodes, isNext⟩ := isStep
      rw [after_eq ahead.behind decodes] at isNext
      rw [← Outcome.ok.inj isNext]
      exact ⟨es, ahead.tail decodes, fine_tail fine decodes⟩

theorem fine_reaches {start : Decoding} (ahead : Ahead limit start es rest) (fine : Fine es rest)
    (reached : Relation.ReflTransGen (Iterates limit) start s) :
    ∃ later, Ahead limit s later rest ∧ Fine later rest := by
  induction reached with
  | refl => exact ⟨es, ahead, fine⟩
  | tail _ step inductionHypothesis =>
      obtain ⟨before, aheadBefore, fineBefore⟩ := inductionHypothesis
      exact aheadBefore.fine_iterates fineBefore step

theorem not_brokenAt (ahead : Ahead limit s (e :: es) rest) : ¬BrokenAt limit s := by
  intro broken
  have holds := ahead.holds
  have total := ahead.total
  rw [Element.source_cons, List.append_assoc] at holds total
  rw [List.length_append] at total
  have beyond := broken.2 e (Holds.append.1 holds).1
  omega

theorem reported (ahead : Ahead limit s es rest) (fine : Fine es rest) (before : s.pos ≠ limit)
    (broken : BrokenAt limit s) : ∃ code, code.isReport = true ∧ decodeStep limit s = .error code := by
  cases es with
  | nil => exact ⟨.octalRange, rfl, ahead.decodeStep_nil fine before⟩
  | cons e es => exact absurd broken ahead.not_brokenAt

theorem run_eq {buffer : Buffer} (ahead : Ahead limit (Decoding.start buffer) es rest)
    (fuel : Nat) :
    decoding buffer limit (es.length + fuel) =
      Element.decodeAll es >>= fun bytes =>
        parseInterprettedString limit fuel
          ((Decoding.start buffer).passed (Element.source es).length bytes) := by
  have total := ahead.total
  rw [List.length_append] at total
  exact parseInterprettedString_elements es (Holds.append.1 ahead.holds).1 (by omega) ahead.behind
    fuel

theorem ends {buffer : Buffer} (ahead : Ahead limit (Decoding.start buffer) es rest)
    (fine : Fine es rest) :
    (∃ final, Ends (decoding buffer limit) (.ok final)) ∨
      ∃ code, code.isReport = true ∧ Ends (decoding buffer limit) (.error code) := by
  have atDepth : ∀ result, (∀ further, decoding buffer limit (es.length + (further + 1)) = result) →
      Ends (decoding buffer limit) result := by
    intro result isResult
    refine ⟨es.length + 1, ?_⟩
    intro depth enough
    obtain ⟨further, isDepth⟩ := Nat.exists_eq_add_of_le enough
    rw [isDepth, Nat.add_assoc, Nat.add_comm 1 further]
    exact isResult further
  by_cases rejected : ∃ e ∈ es, e.Rejected
  · obtain ⟨_, code, isReport, fails⟩ := Element.decodeAll_reports rejected
    refine Or.inr ⟨code, isReport, atDepth _ ?_⟩
    intro further
    rw [ahead.run_eq, fails]
    rfl
  · obtain ⟨bytes, decodes⟩ := Element.decodeAll_ok rejected
    have aheadRest := (ahead.reaches decodes).2
    rcases fine.resolve_left rejected with isEmpty | large
    · left
      refine ⟨(Decoding.start buffer).passed (Element.source es).length bytes, atDepth _ ?_⟩
      intro further
      have atLimit := mt aheadRest.pos_ne_iff.1 (not_not.2 isEmpty)
      rw [ahead.run_eq, decodes, Outcome.ok_bind, parseInterprettedString, if_neg atLimit]
    · right
      refine ⟨.octalRange, rfl, atDepth _ ?_⟩
      intro further
      have before := aheadRest.pos_ne_iff.2 large.ne_nil
      rw [ahead.run_eq, decodes, Outcome.ok_bind, parseInterprettedString, if_pos before,
        aheadRest.decodeStep_nil (Or.inr (Or.inr large)) before, Outcome.error_bind]

theorem brokenAt (ahead : Ahead limit s [] rest) (stuck : ¬Starts rest) (nonempty : rest ≠ []) :
    BrokenAt limit s := by
  obtain ⟨b, others, isRest⟩ := List.exists_cons_of_ne_nil nonempty
  have holds : Holds s.buffer s.pos rest := ahead.holds
  have total := ahead.total_nil
  constructor
  · rw [isRest] at stuck holds
    rw [holds.1]
    exact eq_backslash_of_not_starts stuck
  · intro e isElement
    by_contra inside
    exact stuck ⟨e, isElement.begins holds (by omega)⟩

theorem largeOctal (ahead : Ahead limit s [] rest) (broken : BrokenAt limit s) {code : DecodeFault}
    (isReport : code.isReport = true) (fails : decodeStep limit s = .error code) :
    LargeOctal rest := by
  have holds : Holds s.buffer s.pos rest := ahead.holds
  have total := ahead.total_nil
  by_contra notLarge
  have meets : (decodeStep limit s).Meets Unreported fun _ => True := by
    apply decodeStep_broken broken
    intro inside isOctal isLarge
    have isRest : [s.buffer s.pos, s.buffer (s.pos + 1), s.buffer (s.pos + 2),
        s.buffer (s.pos + 3)] <+: rest := by
      have standing : Holds s.buffer s.pos [s.buffer s.pos, s.buffer (s.pos + 1),
          s.buffer (s.pos + 2), s.buffer (s.pos + 3)] := ⟨rfl, rfl, rfl, rfl, trivial⟩
      apply standing.begins holds
      simp only [List.length_cons, List.length_nil]
      omega
    obtain ⟨others, whole⟩ := isRest
    rw [broken.1] at whole
    exact notLarge ⟨_, _, _, others, whole.symm, isOctal, isLarge⟩
  have unreported := meets.stops fails
  rw [Unreported, isReport] at unreported
  cases unreported

end Ahead

theorem staysInside_of_fine {limit : Nat} {buffer : Buffer} {es : List Element}
    {rest : List Byte} (ahead : Ahead limit (Decoding.start buffer) es rest) (fine : Fine es rest) :
    StaysInside limit buffer := by
  constructor
  · rcases ahead.ends fine with ⟨final, returns⟩ | ⟨code, isReport, stops⟩
    · exact ⟨_, returns, by simp, by simp, by simp⟩
    · refine ⟨_, stops, by simp, ?_, ?_⟩
      · intro isOverrun
        rw [Outcome.error.inj isOverrun] at isReport
        cases isReport
      · intro isOvertaken
        rw [Outcome.error.inj isOvertaken] at isReport
        cases isReport
  · intro s reached before broken
    obtain ⟨later, aheadLater, fineLater⟩ := ahead.fine_reaches fine reached
    exact aheadLater.reported fineLater before broken

theorem fine_of_staysInside {limit : Nat} {buffer : Buffer} {es : List Element}
    {rest : List Byte} (ahead : Ahead limit (Decoding.start buffer) es rest)
    (stuck : rest = [] ∨ ¬Starts rest) (stays : StaysInside limit buffer) : Fine es rest := by
  by_cases rejected : ∃ e ∈ es, e.Rejected
  · exact Or.inl rejected
  · right
    obtain ⟨bytes, decodes⟩ := Element.decodeAll_ok rejected
    have reached := ahead.reaches decodes
    rcases stuck with isEmpty | notStarts
    · exact Or.inl isEmpty
    · by_cases isEmpty : rest = []
      · exact Or.inl isEmpty
      · right
        have broken := reached.2.brokenAt notStarts isEmpty
        have before := reached.2.pos_ne_iff.2 isEmpty
        obtain ⟨code, isReport, fails⟩ := stays.reported _ reached.1 before broken
        exact reached.2.largeOctal broken isReport fails

theorem eq_quotes_of_stringLiteral {token : List Byte} (isToken : token ∈ stringLiteral.language) :
    ∃ text, token = 34 :: (text ++ [34]) := by
  obtain ⟨text, isText, _⟩ := mem_between.1 isToken
  exact ⟨text, isText⟩

def betweenQuotes (token : List Byte) : List Byte :=
  token.tail.dropLast

/-- The decoder keeps to the text between the quotes exactly when the text is
well escaped. -/
theorem parseInterprettedString_staysInside {token : List Byte} {buffer : Buffer}
    (isToken : token ∈ stringLiteral.language) (holds : Holds buffer 0 token.tail) :
    StaysInside (token.length - 2) buffer ↔ WellEscaped (betweenQuotes token) := by
  obtain ⟨text, isQuoted⟩ := eq_quotes_of_stringLiteral isToken
  have limit : token.length - 2 = text.length := by
    rw [isQuoted, List.length_cons, List.length_append, List.length_singleton]
    omega
  have isText : betweenQuotes token = text := by
    rw [betweenQuotes, isQuoted, List.tail_cons, List.dropLast_concat]
  have holdsText : Holds buffer 0 text := by
    rw [isQuoted, List.tail_cons] at holds
    exact (Holds.append.1 holds).1
  rw [limit, isText]
  have aheadOf : ∀ es rest, text = Element.source es ++ rest →
      Ahead text.length (Decoding.start buffer) es rest := by
    intro es rest isSplit
    constructor
    · exact isSplit ▸ holdsText
    · rw [← isSplit]
      exact Nat.zero_add _
    · exact Nat.zero_le _
  constructor
  · intro stays
    obtain ⟨es, rest, isSplit, stuck⟩ := exists_split text
    exact ⟨es, rest, isSplit, fine_of_staysInside (aheadOf es rest isSplit) stuck stays⟩
  · rintro ⟨es, rest, isSplit, fine⟩
    exact staysInside_of_fine (aheadOf es rest isSplit) fine

/-- The token `"a\n"`. -/
theorem parseInterprettedString_staysInside_newline :
    StaysInside 3 (textBuffer [97, 92, 110, 34]) :=
  have isToken : [34, 97, 92, 110, 34] ∈ stringLiteral.language := mem_of_longest (by decide)
  (parseInterprettedString_staysInside isToken (holds_textBuffer [97, 92, 110, 34])).2
    ⟨[.plain 97 (by decide), .simple .newline], [], rfl, Or.inr (Or.inl rfl)⟩

/-- The token `"\"`, whose closing quote is read as part of an escape sequence. -/
theorem not_staysInside_backslash :
    [34, 92, 34] ∈ stringLiteral.language ∧ ¬StaysInside 1 (textBuffer [92, 34]) := by
  constructor
  · exact mem_of_longest (by decide)
  · intro stays
    obtain ⟨result, returns, _, notOverrun, _⟩ := stays.ends
    have overruns : Ends (decoding (textBuffer [92, 34]) 1) (.error .overrun) := by
      refine ⟨1, ?_⟩
      intro depth enough
      obtain ⟨further, isDepth⟩ := Nat.exists_eq_add_of_le' enough
      rw [isDepth]
      rfl
    exact notOverrun (returns.unique overruns)

end Rcgo.Scanner
