import Rcgo.Scanner.StringMeaning
import Mathlib.Data.List.GetD
import Mathlib.Data.List.Infix

/-!
# String literals without broken escape sequences

The loop of `parseInterprettedString` takes the elements of the text one after
the other.  What it writes lies before what it has still to read, so every
element is read as it stands in the source.
-/

namespace Rcgo.Scanner

open Rcgo.Foundation

/-! ## Bytes in a buffer -/

/-- The bytes stand in the buffer from the position on. -/
def Holds (m : Buffer) : Nat → List Byte → Prop
  | _, [] => True
  | pos, b :: bs => m pos = b ∧ Holds m (pos + 1) bs

def overwrite (m : Buffer) (out : Nat) : List Byte → Buffer
  | [] => m
  | b :: bs => overwrite (Function.update m out b) (out + 1) bs

theorem Holds.append {m : Buffer} {pos : Nat} {first rest : List Byte} :
    Holds m pos (first ++ rest) ↔ Holds m pos first ∧ Holds m (pos + first.length) rest := by
  induction first generalizing pos with
  | nil => simp [Holds]
  | cons b bs inductionHypothesis =>
      simp only [List.cons_append, Holds, inductionHypothesis, List.length_cons, and_assoc]
      rw [show pos + 1 + bs.length = pos + (bs.length + 1) by omega]

theorem Holds.congr {m other : Buffer} {pos : Nat} {bytes : List Byte}
    (same : ∀ i, pos ≤ i → i < pos + bytes.length → other i = m i)
    (holds : Holds m pos bytes) : Holds other pos bytes := by
  induction bytes generalizing pos with
  | nil => exact trivial
  | cons b bs inductionHypothesis =>
      rw [List.length_cons] at same
      constructor
      · rw [same pos le_rfl (by omega)]
        exact holds.1
      · apply inductionHypothesis _ holds.2
        intro i least less
        exact same i (by omega) (by omega)

theorem Holds.begins {m : Buffer} {pos : Nat} {shorter longer : List Byte}
    (holdsShorter : Holds m pos shorter) (holdsLonger : Holds m pos longer)
    (lengths : shorter.length ≤ longer.length) : shorter <+: longer := by
  induction shorter generalizing pos longer with
  | nil => exact List.nil_prefix
  | cons b bs inductionHypothesis =>
      cases longer with
      | nil => exact absurd lengths (Nat.not_succ_le_zero _)
      | cons c cs =>
          have tails := inductionHypothesis holdsShorter.2 holdsLonger.2 (Nat.le_of_succ_le_succ lengths)
          have heads : b = c := by
            rw [← holdsShorter.1, ← holdsLonger.1]
          rw [heads]
          exact (List.prefix_cons_inj c).2 tails

theorem Holds.map_range {m : Buffer} {bytes : List Byte} (holds : Holds m 0 bytes) :
    (List.range bytes.length).map m = bytes := by
  induction bytes generalizing m with
  | nil => rfl
  | cons b bs inductionHypothesis =>
      have shifted : ∀ (rest : List Byte) (pos : Nat), Holds m (pos + 1) rest →
          Holds (fun i => m (i + 1)) pos rest := by
        intro rest
        induction rest with
        | nil => exact fun _ _ => trivial
        | cons c cs tail => exact fun pos both => And.intro both.1 (tail (pos + 1) both.2)
      have tail := inductionHypothesis (shifted bs 0 holds.2)
      rw [List.length_cons, List.range_succ_eq_map, List.map_cons, List.map_map, holds.1]
      exact congrArg (List.cons b) tail

def textBuffer (text : List Byte) : Buffer :=
  fun i => text.getD i 34

theorem holds_textBuffer (text : List Byte) : Holds (textBuffer text) 0 text := by
  suffices general : ∀ rest before : List Byte,
      Holds (textBuffer (before ++ rest)) before.length rest from general text []
  intro rest
  induction rest with
  | nil => exact fun _ => trivial
  | cons b bs inductionHypothesis =>
      intro before
      have tail := inductionHypothesis (before ++ [b])
      rw [List.append_assoc, List.singleton_append, List.length_append] at tail
      constructor
      · rw [textBuffer, List.getD_append_right _ _ _ _ le_rfl, Nat.sub_self, List.getD_cons_zero]
      · exact tail

theorem overwrite_of_lt (bytes : List Byte) (m : Buffer) {out i : Nat} (before : i < out) :
    overwrite m out bytes i = m i := by
  induction bytes generalizing m out with
  | nil => rfl
  | cons b bs inductionHypothesis =>
      rw [overwrite, inductionHypothesis _ (by omega), Function.update_of_ne (by omega)]

theorem overwrite_of_ge (bytes : List Byte) (m : Buffer) {out i : Nat}
    (behind : out + bytes.length ≤ i) : overwrite m out bytes i = m i := by
  induction bytes generalizing m out with
  | nil => rfl
  | cons b bs inductionHypothesis =>
      rw [List.length_cons] at behind
      rw [overwrite, inductionHypothesis _ (by omega), Function.update_of_ne (by omega)]

theorem holds_overwrite (bytes : List Byte) (m : Buffer) (out : Nat) :
    Holds (overwrite m out bytes) out bytes := by
  induction bytes generalizing m out with
  | nil => exact trivial
  | cons b bs inductionHypothesis =>
      constructor
      · rw [overwrite, overwrite_of_lt _ _ (Nat.lt_succ_self out), Function.update_self]
      · exact inductionHypothesis _ _

theorem overwrite_append (first rest : List Byte) (m : Buffer) (out : Nat) :
    overwrite m out (first ++ rest) = overwrite (overwrite m out first) (out + first.length) rest := by
  induction first generalizing m out with
  | nil => rfl
  | cons b bs inductionHypothesis =>
      rw [List.cons_append, overwrite, inductionHypothesis, overwrite, List.length_cons,
        show out + 1 + bs.length = out + (bs.length + 1) by omega]

theorem writeBytes_eq {pos out : Nat} {bytes : List Byte} (m : Buffer)
    (room : out + bytes.length ≤ pos) :
    writeBytes pos m out bytes = .ok (overwrite m out bytes, out + bytes.length) := by
  induction bytes generalizing m out with
  | nil => rfl
  | cons b bs inductionHypothesis =>
      rw [List.length_cons] at room
      rw [writeBytes, writeByte, if_pos (by omega), Outcome.ok_bind]
      dsimp only
      rw [inductionHypothesis _ (by omega), overwrite, List.length_cons,
        show out + 1 + bs.length = out + (bs.length + 1) by omega]

theorem writeBytes_singleton (pos : Nat) (m : Buffer) (out : Nat) (b : Byte) :
    writeBytes pos m out [b] = writeByte pos m out b := by
  rw [writeBytes]
  cases writeByte pos m out b with
  | ok written => rfl
  | error code => rfl
  | outOfFuel => rfl

/-! ## One iteration -/

theorem readByte_of_lt (limit : Nat) {pos : Nat} {m : Buffer} {b : Byte} (inside : pos < limit)
    (isByte : m pos = b) : readByte limit m pos = .ok b := by
  rw [readByte, if_pos inside, isByte]

theorem readHex_digit (limit : Nat) {pos : Nat} {m : Buffer} {d : HexDigit} (inside : pos < limit)
    (isDigit : m pos = d.val) : readHex limit m pos = .ok (BitVec.ofNat 32 d.value) := by
  rw [readHex, readByte_of_lt _ inside isDigit, Outcome.ok_bind, hexvalue_digit]

/-- Where the loop is after an element whose bytes it has written. -/
def Decoding.after (s : Decoding) (e : Element) (bytes : List Byte) :
    Outcome DecodeFault Decoding := do
  let (m, out) ← writeBytes (s.pos + e.text.length) s.buffer s.out bytes
  pure ⟨m, s.pos + e.text.length, out⟩

/-- After a backslash the `switch` looks at the next character. -/
theorem readEscape (limit : Nat) {s : Decoding} {c : Byte} (inside : s.pos + 1 < limit)
    (backslash : s.buffer s.pos = 92) (next : s.buffer (s.pos + 1) = c) :
    readByte limit s.buffer s.pos = .ok 92 ∧ readByte limit s.buffer (s.pos + 1) = .ok c :=
  And.intro (readByte_of_lt _ (by omega) backslash) (readByte_of_lt _ inside next)

theorem decodeStep_plain {limit : Nat} {s : Decoding} {b : Byte} (notBackslash : b ≠ 92)
    (holds : Holds s.buffer s.pos [b]) (inside : s.pos < limit) :
    decodeStep limit s = s.after (.plain b notBackslash) [b] := by
  rw [decodeStep, readByte_of_lt _ inside holds.1, Outcome.ok_bind, if_pos notBackslash,
    Decoding.after, writeBytes_singleton]
  rfl

theorem decodeStep_simple {limit : Nat} {s : Decoding} (escape : SimpleEscape)
    (holds : Holds s.buffer s.pos [92, escape.letter]) (inside : s.pos + 2 ≤ limit) :
    decodeStep limit s = s.after (.simple escape) [escape.meaning] := by
  have read := readEscape limit (by omega) holds.1 holds.2.1
  have notOctal : ¬isOctalDigit escape.letter = true := by
    cases escape <;> decide
  have notLong : escape.letter ≠ 120 ∧ escape.letter ≠ 117 ∧ escape.letter ≠ 85 := by
    cases escape <;> decide
  rw [decodeStep, read.1, Outcome.ok_bind, if_neg (by decide), read.2, Outcome.ok_bind,
    if_neg notOctal, if_neg notLong.1, if_neg notLong.2.1, if_neg notLong.2.2,
    escape.simpleEscape_letter, Decoding.after, writeBytes_singleton]
  rfl

theorem decodeStep_octal {limit : Nat} {s : Decoding} (a b c : OctalDigit)
    (holds : Holds s.buffer s.pos (Element.octal a b c).text) (inside : s.pos + 4 ≤ limit) :
    decodeStep limit s =
      (Element.octal a b c).decode >>= s.after (.octal a b c) := by
  have read := readEscape limit (by omega) holds.1 holds.2.1
  have second := readByte_of_lt limit (by omega) holds.2.2.1
  have third := readByte_of_lt limit (by omega) holds.2.2.2.1
  have small : (Element.octal a b c).value < 2 ^ 31 := by
    have aBound := a.value_lt
    have bBound := b.value_lt
    have cBound := c.value_lt
    simp only [Element.value, Nat.ofDigits_cons, Nat.ofDigits_nil]
    omega
  rw [decodeStep, read.1, Outcome.ok_bind, if_neg (by decide), read.2, Outcome.ok_bind,
    if_pos a.property, parseOctal, read.2, Outcome.ok_bind, second, Outcome.ok_bind, third,
    Outcome.ok_bind, octalCode_digits, toInt_ofNat small, Element.decode]
  by_cases large : (Element.octal a b c).value > 255
  · rw [if_pos (by omega), if_pos large]
    rfl
  · rw [if_neg (by omega), if_neg large, Outcome.ok_bind, Outcome.ok_bind, lowByte_ofNat small,
      Decoding.after, writeBytes_singleton]
    rfl

theorem decodeStep_hex {limit : Nat} {s : Decoding} (a b : HexDigit)
    (holds : Holds s.buffer s.pos (Element.hex a b).text) (inside : s.pos + 4 ≤ limit) :
    decodeStep limit s = s.after (.hex a b) [UInt8.ofNat (Element.hex a b).value] := by
  have read := readEscape limit (by omega) holds.1 holds.2.1
  have first := readHex_digit limit (by omega) holds.2.2.1
  have second := readHex_digit limit (by omega) holds.2.2.2.1
  have small : (Element.hex a b).value < 2 ^ 31 := by
    have aBound := a.value_lt
    have bBound := b.value_lt
    simp only [Element.value, Nat.ofDigits_cons, Nat.ofDigits_nil]
    omega
  rw [decodeStep, read.1, Outcome.ok_bind, if_neg (by decide), read.2, Outcome.ok_bind,
    if_neg (by decide), if_pos rfl, parseHex, first, Outcome.ok_bind, second, Outcome.ok_bind,
    Outcome.pure_eq, Outcome.ok_bind, hexCode_digits, lowByte_ofNat small, Decoding.after,
    writeBytes_singleton]
  rfl

theorem decodeStep_littleU {limit : Nat} {s : Decoding} (a b c d : HexDigit)
    (holds : Holds s.buffer s.pos (Element.littleU a b c d).text) (inside : s.pos + 6 ≤ limit) :
    decodeStep limit s =
      (Element.littleU a b c d).decode >>= s.after (.littleU a b c d) := by
  have read := readEscape limit (by omega) holds.1 holds.2.1
  have digits := holds.2.2
  rw [decodeStep, read.1, Outcome.ok_bind, if_neg (by decide), read.2, Outcome.ok_bind,
    if_neg (by decide), if_neg (by decide), if_pos rfl, parseU4,
    readHex_digit _ (by omega) digits.1, Outcome.ok_bind,
    readHex_digit _ (by omega) digits.2.1, Outcome.ok_bind,
    readHex_digit _ (by omega) digits.2.2.1, Outcome.ok_bind,
    readHex_digit _ (by omega) digits.2.2.2.1, Outcome.ok_bind]
  rw [littleUCode_digits, Element.decode]
  generalize BitVec.ofNat 32 (Element.littleU a b c d).value = x
  dsimp only
  cases validUnicode x with
  | ok _ => rfl
  | error code => rfl
  | outOfFuel => rfl

theorem decodeStep_bigU {limit : Nat} {s : Decoding} (a b c d e f g h : HexDigit)
    (holds : Holds s.buffer s.pos (Element.bigU a b c d e f g h).text)
    (inside : s.pos + 10 ≤ limit) :
    decodeStep limit s =
      (Element.bigU a b c d e f g h).decode >>= s.after (.bigU a b c d e f g h) := by
  have read := readEscape limit (by omega) holds.1 holds.2.1
  have digits := holds.2.2
  have lastDigits := digits.2.2.2.2
  rw [decodeStep, read.1, Outcome.ok_bind, if_neg (by decide), read.2, Outcome.ok_bind,
    if_neg (by decide), if_neg (by decide), if_neg (by decide), if_pos rfl, parseU8,
    readHex_digit _ (by omega) digits.1, Outcome.ok_bind,
    readHex_digit _ (by omega) digits.2.1, Outcome.ok_bind,
    readHex_digit _ (by omega) digits.2.2.1, Outcome.ok_bind,
    readHex_digit _ (by omega) digits.2.2.2.1, Outcome.ok_bind,
    readHex_digit _ (by omega) lastDigits.1, Outcome.ok_bind,
    readHex_digit _ (by omega) lastDigits.2.1, Outcome.ok_bind,
    readHex_digit _ (by omega) lastDigits.2.2.1, Outcome.ok_bind,
    readHex_digit _ (by omega) lastDigits.2.2.2.1, Outcome.ok_bind]
  rw [bigUCode_digits, Element.decode]
  generalize BitVec.ofNat 32 (Element.bigU a b c d e f g h).value = x
  dsimp only
  cases validUnicode x with
  | ok _ => rfl
  | error code => rfl
  | outOfFuel => rfl

theorem decodeStep_element {limit : Nat} {s : Decoding} (e : Element)
    (holds : Holds s.buffer s.pos e.text) (inside : s.pos + e.text.length ≤ limit) :
    decodeStep limit s = e.decode >>= s.after e := by
  cases e with
  | plain b notBackslash => exact decodeStep_plain notBackslash holds inside
  | simple escape => exact decodeStep_simple escape holds inside
  | octal a b c => exact decodeStep_octal a b c holds inside
  | hex a b => exact decodeStep_hex a b holds inside
  | littleU a b c d => exact decodeStep_littleU a b c d holds inside
  | bigU a b c d e f g h => exact decodeStep_bigU a b c d e f g h holds inside

/-! ## The run -/

/-- The state after a text of the given length has been read and the bytes have
been written. -/
def Decoding.passed (s : Decoding) (length : Nat) (bytes : List Byte) : Decoding :=
  ⟨overwrite s.buffer s.out bytes, s.pos + length, s.out + bytes.length⟩

theorem after_eq {s : Decoding} {e : Element} {bytes : List Byte} (behind : s.out ≤ s.pos)
    (decodes : e.decode = .ok bytes) :
    s.after e bytes = .ok (s.passed e.text.length bytes) := by
  have bound := Element.length_decode decodes
  rw [Decoding.after, writeBytes_eq _ (by omega)]
  rfl

theorem holds_passed {s : Decoding} {length : Nat} {bytes rest : List Byte}
    (behind : s.out ≤ s.pos) (fits : bytes.length ≤ length)
    (holds : Holds s.buffer (s.pos + length) rest) :
    Holds (s.passed length bytes).buffer (s.passed length bytes).pos rest := by
  apply holds.congr
  intro i least _
  exact overwrite_of_ge bytes s.buffer (by omega)

theorem passed_passed (s : Decoding) (length further : Nat) (bytes rest : List Byte) :
    (s.passed length bytes).passed further rest =
      s.passed (length + further) (bytes ++ rest) := by
  unfold Decoding.passed
  rw [overwrite_append, List.length_append, Nat.add_assoc, Nat.add_assoc]

theorem parseInterprettedString_elements (es : List Element) {limit : Nat} {s : Decoding}
    (holds : Holds s.buffer s.pos (Element.source es))
    (inside : s.pos + (Element.source es).length ≤ limit) (behind : s.out ≤ s.pos) (fuel : Nat) :
    parseInterprettedString limit (es.length + fuel) s =
      Element.decodeAll es >>= fun bytes =>
        parseInterprettedString limit fuel (s.passed (Element.source es).length bytes) := by
  induction es generalizing s with
  | nil =>
      rw [List.length_nil, Nat.zero_add]
      rfl
  | cons e es inductionHypothesis =>
      rw [Element.source_cons] at holds inside
      rw [List.length_append] at inside
      have parts := Holds.append.1 holds
      have positive := e.length_text_pos
      rw [List.length_cons, show es.length + 1 + fuel = es.length + fuel + 1 by omega,
        parseInterprettedString, if_pos (by omega),
        decodeStep_element e parts.1 (by omega), Element.decodeAll]
      cases decodes : e.decode with
      | error code => rfl
      | outOfFuel => rfl
      | ok bytes =>
          have fits := Element.length_decode decodes
          rw [Outcome.ok_bind, after_eq behind decodes, Outcome.ok_bind, Outcome.ok_bind,
            inductionHypothesis (holds_passed behind fits parts.2)
              (by simp only [Decoding.passed]; omega) (by simp only [Decoding.passed]; omega),
            bind_assoc]
          simp only [passed_passed, Element.source_cons, List.length_append, Outcome.pure_eq,
            Outcome.ok_bind]

def Ends (run : Nat → Outcome DecodeFault Decoding) (result : Outcome DecodeFault Decoding) :
    Prop :=
  ∃ bound, ∀ depth, bound ≤ depth → run depth = result

theorem Ends.unique {run : Nat → Outcome DecodeFault Decoding}
    {first second : Outcome DecodeFault Decoding} (isFirst : Ends run first)
    (isSecond : Ends run second) : first = second := by
  obtain ⟨firstBound, atFirst⟩ := isFirst
  obtain ⟨secondBound, atSecond⟩ := isSecond
  rw [← atFirst _ (Nat.le_max_left firstBound secondBound),
    atSecond _ (Nat.le_max_right firstBound secondBound)]

/-- The call that the scanner makes for a text of the given length. -/
def decoding (buffer : Buffer) (length depth : Nat) : Outcome DecodeFault Decoding :=
  parseInterprettedString length depth (Decoding.start buffer)

/-- The decoder writes the concatenation of what the elements denote, and it
rejects the text if and only if an element denotes nothing. -/
structure DecodedAsMeant (es : List Element) (buffer : Buffer) : Prop where
  produces : ∀ bytes, Element.meaning es = some bytes →
    ∃ final, Ends (decoding buffer (Element.source es).length) (.ok final) ∧ final.result = bytes
  rejects : (∃ code, code.isReport = true ∧
      Ends (decoding buffer (Element.source es).length) (.error code)) ↔
    ∃ e ∈ es, e.denotes = none

theorem decoding_ends {es : List Element} {buffer : Buffer}
    (holds : Holds buffer 0 (Element.source es)) :
    Ends (decoding buffer (Element.source es).length)
      (Element.decodeAll es >>= fun bytes =>
        .ok ((Decoding.start buffer).passed (Element.source es).length bytes)) := by
  refine ⟨es.length + 1, ?_⟩
  intro depth enough
  obtain ⟨further, isDepth⟩ := Nat.exists_eq_add_of_le enough
  rw [isDepth, Nat.add_assoc, decoding,
    parseInterprettedString_elements es (s := Decoding.start buffer) holds
      (Nat.zero_add _).le (Nat.zero_le _), Nat.add_comm 1 further]
  apply congrArg
  funext bytes
  rw [parseInterprettedString]
  exact if_neg (not_not.2 (Nat.zero_add _))

theorem result_passed (buffer : Buffer) (length : Nat) (bytes : List Byte) :
    ((Decoding.start buffer).passed length bytes).result = bytes := by
  have written : Holds (overwrite buffer 0 bytes) 0 bytes := holds_overwrite bytes buffer 0
  simp only [Decoding.result, Decoding.passed, Decoding.start, Nat.zero_add]
  exact written.map_range

/-- Literals are decoded as they are meant, unless a code point is encoded in
too few bytes or taken for a negative number. -/
theorem parseInterprettedString_asMeant {es : List Element} {buffer : Buffer}
    (holds : Holds buffer 0 (Element.source es)) :
    DecodedAsMeant es buffer ↔
      (∃ e ∈ es, e.Rejected) ∨ ∀ e ∈ es, ¬e.Misread := by
  have ends := decoding_ends holds
  by_cases rejected : ∃ e ∈ es, e.Rejected
  · obtain ⟨isNone, code, isReport, fails⟩ := Element.decodeAll_reports rejected
    rw [fails] at ends
    have denotesNothing := Element.meaning_eq_none.1 isNone
    refine iff_of_true ?_ (Or.inl rejected)
    constructor
    · intro bytes isSome
      rw [isNone] at isSome
      exact absurd isSome (Option.some_ne_none _).symm
    · exact iff_of_true ⟨code, isReport, ends⟩ denotesNothing
  · obtain ⟨bytes, decodes⟩ := Element.decodeAll_ok rejected
    rw [decodes, Outcome.ok_bind] at ends
    have notRejected : ¬∃ code, code.isReport = true ∧
        Ends (decoding buffer (Element.source es).length) (.error code) := by
      rintro ⟨code, _, stops⟩
      have isResult := stops.unique ends
      cases isResult
    rw [or_iff_right rejected]
    constructor
    · intro asMeant e member misread
      cases denotes : Element.meaning es with
      | none => exact notRejected (asMeant.rejects.2 (Element.meaning_eq_none.1 denotes))
      | some denoted =>
          obtain ⟨final, returns, isResult⟩ := asMeant.produces denoted denotes
          have isFinal := Outcome.ok.inj (returns.unique ends)
          rw [isFinal, result_passed] at isResult
          have shorter := Element.length_decodeAll_lt ⟨e, member, misread⟩ decodes denotes
          rw [isResult] at shorter
          exact lt_irrefl _ shorter
    · intro read
      have denotes := Element.meaning_of_read read decodes
      constructor
      · intro denoted isDenoted
        rw [denotes] at isDenoted
        exact ⟨_, ends, (result_passed _ _ _).trans (Option.some.inj isDenoted)⟩
      · refine iff_of_false notRejected ?_
        intro denotesNothing
        rw [Element.meaning_eq_none.2 denotesNothing] at denotes
        exact absurd denotes (Option.some_ne_none _).symm

/-- The element with the source text `\u0800`. -/
def firstOfThree : Element :=
  .littleU ⟨48, rfl⟩ ⟨56, rfl⟩ ⟨48, rfl⟩ ⟨48, rfl⟩

/-- The element with the source text `\u00e9`. -/
def eAcute : Element :=
  .littleU ⟨48, rfl⟩ ⟨48, rfl⟩ ⟨101, rfl⟩ ⟨57, rfl⟩

/-- The text `caf\u00e9\n\101\x41`. -/
def mixedText : List Element :=
  [.plain 99 (by decide), .plain 97 (by decide), .plain 102 (by decide), eAcute, .simple .newline,
    .octal ⟨49, rfl⟩ ⟨48, rfl⟩ ⟨49, rfl⟩, .hex ⟨52, rfl⟩ ⟨49, rfl⟩]

theorem mixedText_read : ∀ e ∈ mixedText, ¬e.Misread := by
  intro e member misread
  by_cases isEAcute : e = eAcute
  case pos =>
    rw [isEAcute] at misread
    exact absurd misread.2 (by decide)
  case neg =>
    simp only [mixedText, List.mem_cons, List.not_mem_nil, or_false] at member
    rcases member with is | is | is | is | is | is | is
    case inr.inr.inr.inl => exact isEAcute is
    all_goals
      rw [is] at misread
      exact misread.1

theorem parseInterprettedString_asMeant_mixedText :
    DecodedAsMeant mixedText (textBuffer (Element.source mixedText)) :=
  (parseInterprettedString_asMeant (holds_textBuffer (Element.source mixedText))).2
    (Or.inr mixedText_read)

theorem not_asMeant_firstOfThree :
    ¬DecodedAsMeant [firstOfThree] (textBuffer (Element.source [firstOfThree])) := by
  intro asMeant
  have ends := decoding_ends (holds_textBuffer (Element.source [firstOfThree]))
  have decodes : Element.decodeAll [firstOfThree] = .ok [0xE0, 0x80] := rfl
  obtain ⟨final, returns, isResult⟩ := asMeant.produces [0xE0, 0xA0, 0x80] rfl
  rw [decodes, Outcome.ok_bind] at ends
  have isFinal := Outcome.ok.inj (returns.unique ends)
  rw [isFinal, result_passed] at isResult
  exact absurd isResult (by decide)

end Rcgo.Scanner
