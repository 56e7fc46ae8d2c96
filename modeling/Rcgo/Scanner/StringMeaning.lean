import Rcgo.Scanner.StringElements

/-!
# What the elements of a text denote and what is written for them

The two agree except for code points whose encoding lacks a byte and for values
that are negative as an `int`.  For these too few bytes are written, so no other
element makes up for them.
-/

namespace Rcgo.Scanner

open Rcgo.Foundation

namespace Element

/-- The element stops the program with an error message. -/
def Rejected (e : Element) : Prop :=
  match e with
  | octal _ _ _ => e.value > 255
  | littleU _ _ _ _ => (0xD800 ≤ e.value ∧ e.value ≤ 0xDFFF)
  | bigU _ _ _ _ _ _ _ _ =>
      (0xD800 ≤ e.value ∧ e.value ≤ 0xDFFF) ∨ (0x110000 ≤ e.value ∧ e.value < 2 ^ 31)
  | _ => False

/-- The code point of the element is encoded in too few bytes, or is taken for
a negative number. -/
def Misread (e : Element) : Prop :=
  e.IsUnicode ∧ (LacksByte e.value ∨ 2 ^ 31 ≤ e.value)

/-- The bytes that the elements write. -/
def decodeAll : List Element → Outcome DecodeFault (List Byte)
  | [] => .ok []
  | e :: es => do
      let bytes ← e.decode
      let rest ← decodeAll es
      pure (bytes ++ rest)

/-- The concatenation of what the elements denote, if each denotes something. -/
def meaning : List Element → Option (List Byte)
  | [] => some []
  | e :: es => do
      let bytes ← e.denotes
      let rest ← meaning es
      pure (bytes ++ rest)

def source (es : List Element) : List Byte :=
  es.flatMap text

theorem ofDigits_lt (digits : List HexDigit) :
    Nat.ofDigits 16 (digits.map HexDigit.value) < 16 ^ digits.length := by
  rw [← List.length_map HexDigit.value]
  apply Nat.ofDigits_lt_base_pow_length (by decide)
  intro value isMember
  obtain ⟨digit, _, isValue⟩ := List.mem_map.1 isMember
  rw [← isValue]
  exact digit.value_lt

theorem value_littleU_lt (a b c d : HexDigit) : (littleU a b c d).value < 2 ^ 16 :=
  (ofDigits_lt [d, c, b, a]).trans_eq (by norm_num)

theorem value_bigU_lt (a b c d e f g h : HexDigit) : (bigU a b c d e f g h).value < 2 ^ 32 :=
  (ofDigits_lt [h, g, f, e, d, c, b, a]).trans_eq (by norm_num)

theorem denotes_bigU (a b c d e f g h : HexDigit) :
    (bigU a b c d e f g h).denotes =
      if (bigU a b c d e f g h).value.isValidChar then
        some (String.utf8EncodeChar (Char.ofNat (bigU a b c d e f g h).value))
      else none := by
  rw [denotes]

/-! ## Unicode escapes -/

/-- A negative `int` passes the checks of `validUnicode`. -/
theorem validUnicode_ofNat {v : Nat} (bound : v < 2 ^ 32) :
    validUnicode (BitVec.ofNat 32 v) =
      if 0x110000 ≤ v ∧ v < 2 ^ 31 then .error .unicodeRange
      else if 0xD800 ≤ v ∧ v ≤ 0xDFFF then .error .surrogate
      else .ok () := by
  rw [validUnicode]
  by_cases small : v < 2 ^ 31
  · rw [toInt_ofNat small]
    by_cases large : 0x110000 ≤ v
    · rw [if_pos (by omega), if_pos (And.intro large small)]
    · have inRange : ¬(0x110000 ≤ v ∧ v < 2 ^ 31) := fun both => large both.1
      rw [if_neg (by omega), if_neg inRange]
      by_cases isSurrogate : 0xD800 ≤ v ∧ v ≤ 0xDFFF
      · rw [if_pos (by omega), if_pos isSurrogate]
      · rw [if_neg (by omega), if_neg isSurrogate]
  · have negative : (BitVec.ofNat 32 v).toInt < 0 := by
      rw [BitVec.toInt_eq_toNat_cond, BitVec.toNat_ofNat, Nat.mod_eq_of_lt bound,
        if_neg (by omega)]
      omega
    have inRange : ¬(0x110000 ≤ v ∧ v < 2 ^ 31) := fun both => small both.2
    have notSurrogate : ¬(0xD800 ≤ v ∧ v ≤ 0xDFFF) := by omega
    rw [if_neg (by omega), if_neg (by omega), if_neg inRange, if_neg notSurrogate]

theorem not_isValidChar {v : Nat}
    (isInvalid : (0xD800 ≤ v ∧ v ≤ 0xDFFF) ∨ 0x110000 ≤ v) : ¬v.isValidChar := by
  unfold Nat.isValidChar
  omega

theorem unicode_cases {v : Nat} (bound : v < 2 ^ 32) :
    (((0xD800 ≤ v ∧ v ≤ 0xDFFF) ∨ (0x110000 ≤ v ∧ v < 2 ^ 31)) ∧ ¬v.isValidChar ∧
        ∃ code, code.isReport = true ∧ validUnicode (BitVec.ofNat 32 v) = .error code) ∨
      (validUnicode (BitVec.ofNat 32 v) = .ok () ∧
        (2 ^ 31 ≤ v ∨ (v.isValidChar ∧ v < 2 ^ 31))) := by
  rw [validUnicode_ofNat bound]
  by_cases outOfRange : 0x110000 ≤ v ∧ v < 2 ^ 31
  · rw [if_pos outOfRange]
    exact Or.inl (And.intro (Or.inr outOfRange)
      (And.intro (not_isValidChar (Or.inr outOfRange.1)) ⟨.unicodeRange, rfl, rfl⟩))
  · rw [if_neg outOfRange]
    by_cases isSurrogate : 0xD800 ≤ v ∧ v ≤ 0xDFFF
    · rw [if_pos isSurrogate]
      exact Or.inl (And.intro (Or.inl isSurrogate)
        (And.intro (not_isValidChar (Or.inl isSurrogate)) ⟨.surrogate, rfl, rfl⟩))
    · rw [if_neg isSurrogate]
      apply Or.inr (And.intro rfl _)
      unfold Nat.isValidChar
      omega

/-! ## One element -/

theorem Rejected.reports {e : Element} (rejected : e.Rejected) :
    e.denotes = none ∧ ∃ code, code.isReport = true ∧ e.decode = .error code := by
  cases e with
  | plain b notBackslash => exact rejected.elim
  | simple escape => exact rejected.elim
  | hex a b => exact rejected.elim
  | octal a b c =>
      have large : (octal a b c).value > 255 := rejected
      constructor
      · exact if_neg (by omega)
      · exact ⟨.octalRange, rfl, if_pos large⟩
  | littleU a b c d =>
      have isSurrogate : 0xD800 ≤ (littleU a b c d).value ∧ (littleU a b c d).value ≤ 0xDFFF :=
        rejected
      have bound := value_littleU_lt a b c d
      rcases unicode_cases (lt_trans bound (by norm_num)) with ⟨_, isInvalid, code, isReport, fails⟩ |
        ⟨_, isChar⟩
      · constructor
        · exact if_neg isInvalid
        · exact ⟨code, isReport, by rw [decode, fails]; rfl⟩
      · have isInvalid := not_isValidChar (Or.inl isSurrogate)
        omega
  | bigU a b c d e f g h =>
      have isOut : (0xD800 ≤ (bigU a b c d e f g h).value ∧
          (bigU a b c d e f g h).value ≤ 0xDFFF) ∨
          (0x110000 ≤ (bigU a b c d e f g h).value ∧ (bigU a b c d e f g h).value < 2 ^ 31) :=
        rejected
      rcases unicode_cases (value_bigU_lt a b c d e f g h) with
        ⟨_, isInvalid, code, isReport, fails⟩ | ⟨_, isChar⟩
      · constructor
        · rw [denotes_bigU, if_neg isInvalid]
        · exact ⟨code, isReport, by rw [decode, fails]; rfl⟩
      · have isInvalid : ¬(bigU a b c d e f g h).value.isValidChar :=
          not_isValidChar (isOut.imp_right And.left)
        omega

theorem decode_ok {e : Element} (accepted : ¬e.Rejected) :
    ∃ bytes, e.decode = .ok bytes ∧ bytes.length ≤ e.text.length := by
  cases e with
  | plain b notBackslash => exact ⟨[b], rfl, le_rfl⟩
  | simple escape => exact ⟨[escape.meaning], rfl, Nat.le_succ 1⟩
  | hex a b => exact ⟨[UInt8.ofNat (hex a b).value], rfl, Nat.le_add_left 1 3⟩
  | octal a b c => exact ⟨[UInt8.ofNat (octal a b c).value], if_neg accepted, Nat.le_add_left 1 3⟩
  | littleU a b c d =>
      have bound := value_littleU_lt a b c d
      rcases unicode_cases (lt_trans bound (by norm_num)) with ⟨isOut, _⟩ | ⟨passes, _⟩
      · refine absurd ?_ accepted
        show 0xD800 ≤ (littleU a b c d).value ∧ (littleU a b c d).value ≤ 0xDFFF
        omega
      · exact ⟨_, by rw [decode, passes]; rfl, length_utf8Bytes _⟩
  | bigU a b c d e f g h =>
      rcases unicode_cases (value_bigU_lt a b c d e f g h) with ⟨isOut, _⟩ | ⟨passes, _⟩
      · exact absurd isOut accepted
      · exact ⟨_, by rw [decode, passes]; rfl, (length_utf8Bytes _).trans (Nat.le_add_left 6 4)⟩

theorem unicode_denotes {v : Nat} (bound : v < 2 ^ 32) {bytes : List Byte}
    (decodes : (do
      validUnicode (BitVec.ofNat 32 v)
      pure (utf8Bytes (BitVec.ofNat 32 v))) = Outcome.ok bytes) :
    bytes = utf8Bytes (BitVec.ofNat 32 v) ∧ (2 ^ 31 ≤ v ∨ v.isValidChar) := by
  rcases unicode_cases bound with ⟨_, _, code, _, fails⟩ | ⟨passes, isChar⟩
  · rw [fails] at decodes
    cases decodes
  · rw [passes] at decodes
    cases decodes
    exact And.intro rfl (isChar.imp_right And.left)

theorem decode_denotes {e : Element} (read : ¬e.Misread)
    {bytes : List Byte} (decodes : e.decode = .ok bytes) : e.denotes = some bytes := by
  cases e with
  | plain b notBackslash =>
      cases decodes
      rfl
  | simple escape =>
      cases decodes
      rfl
  | hex a b =>
      cases decodes
      rfl
  | octal a b c =>
      have unfolded : (if (octal a b c).value > 255 then Outcome.error DecodeFault.octalRange
          else Outcome.ok [UInt8.ofNat (octal a b c).value]) = Outcome.ok bytes := decodes
      split at unfolded
      · cases unfolded
      · next small =>
        cases unfolded
        exact if_pos (by omega)
  | littleU a b c d =>
      have split := unicode_denotes (lt_trans (value_littleU_lt a b c d) (by norm_num)) decodes
      have notMisread := not_and.1 read trivial
      have isChar := split.2.resolve_left (fun large => notMisread (Or.inr large))
      rw [split.1, utf8Bytes_eq isChar (fun lacks => notMisread (Or.inl lacks))]
      exact if_pos isChar
  | bigU a b c d e f g h =>
      have split := unicode_denotes (value_bigU_lt a b c d e f g h) decodes
      have notMisread := not_and.1 read trivial
      have isChar := split.2.resolve_left (fun large => notMisread (Or.inr large))
      rw [split.1, utf8Bytes_eq isChar (fun lacks => notMisread (Or.inl lacks)), denotes_bigU,
        if_pos isChar]

theorem length_lt_of_misread {v : Nat} (bound : v < 2 ^ 32)
    (misread : LacksByte v ∨ 2 ^ 31 ≤ v) {bytes denoted : List Byte}
    (decodes : (do
      validUnicode (BitVec.ofNat 32 v)
      pure (utf8Bytes (BitVec.ofNat 32 v))) = Outcome.ok bytes)
    (denotes : (if v.isValidChar then some (String.utf8EncodeChar (Char.ofNat v)) else none) =
      some denoted) :
    bytes.length < denoted.length := by
  have isBytes := (unicode_denotes bound decodes).1
  by_cases isChar : v.isValidChar
  · rw [if_pos isChar] at denotes
    have small : v < 0x110000 := by
      unfold Nat.isValidChar at isChar
      omega
    have lacks := misread.resolve_right (by omega)
    rw [isBytes, ← Option.some.inj denotes, ← length_utf8Bytes_of_lacksByte isChar lacks]
    exact Nat.lt_succ_self _
  · rw [if_neg isChar] at denotes
    exact absurd denotes (Option.some_ne_none _).symm

theorem Misread.shorter {e : Element} (misread : e.Misread) {bytes denoted : List Byte}
    (decodes : e.decode = .ok bytes) (denotes : e.denotes = some denoted) :
    bytes.length < denoted.length := by
  cases e with
  | plain b notBackslash => exact misread.1.elim
  | simple escape => exact misread.1.elim
  | octal a b c => exact misread.1.elim
  | hex a b => exact misread.1.elim
  | littleU a b c d =>
      exact length_lt_of_misread (lt_trans (value_littleU_lt a b c d) (by norm_num)) misread.2
        decodes denotes
  | bigU a b c d e f g h =>
      rw [denotes_bigU] at denotes
      exact length_lt_of_misread (value_bigU_lt a b c d e f g h) misread.2 decodes denotes

theorem length_decode {e : Element} {bytes : List Byte} (decodes : e.decode = .ok bytes) :
    bytes.length ≤ e.text.length := by
  by_cases rejected : e.Rejected
  · obtain ⟨_, code, _, fails⟩ := rejected.reports
    rw [fails] at decodes
    cases decodes
  · obtain ⟨written, isWritten, bound⟩ := decode_ok rejected
    rw [isWritten] at decodes
    cases decodes
    exact bound

/-! ## Sequences of elements -/

theorem length_text_pos (e : Element) : 0 < e.text.length := by
  cases e <;> exact Nat.succ_pos _

theorem source_cons (e : Element) (es : List Element) : source (e :: es) = e.text ++ source es :=
  rfl

theorem decodeAll_cons_ok {e : Element} {es : List Element} {bytes : List Byte}
    (decodes : decodeAll (e :: es) = .ok bytes) :
    ∃ first rest, e.decode = .ok first ∧ decodeAll es = .ok rest ∧ bytes = first ++ rest := by
  rw [decodeAll, Outcome.bind_eq_ok] at decodes
  obtain ⟨first, isFirst, decodes⟩ := decodes
  rw [Outcome.bind_eq_ok] at decodes
  obtain ⟨rest, isRest, isBytes⟩ := decodes
  exact ⟨first, rest, isFirst, isRest, (Outcome.ok.inj isBytes).symm⟩

theorem meaning_cons_some {e : Element} {es : List Element} {bytes : List Byte}
    (denotes : meaning (e :: es) = some bytes) :
    ∃ first rest, e.denotes = some first ∧ meaning es = some rest ∧ bytes = first ++ rest := by
  rw [meaning, Option.bind_eq_bind, Option.bind_eq_some_iff] at denotes
  obtain ⟨first, isFirst, denotes⟩ := denotes
  rw [Option.bind_eq_some_iff] at denotes
  obtain ⟨rest, isRest, isBytes⟩ := denotes
  exact ⟨first, rest, isFirst, isRest, (Option.some.inj isBytes).symm⟩

theorem decodeAll_ok {es : List Element} (accepted : ¬∃ e ∈ es, e.Rejected) :
    ∃ bytes, decodeAll es = .ok bytes := by
  induction es with
  | nil => exact ⟨[], rfl⟩
  | cons e es inductionHypothesis =>
      have firstAccepted : ¬e.Rejected :=
        fun rejected => accepted ⟨e, List.mem_cons_self, rejected⟩
      obtain ⟨first, isFirst, _⟩ := decode_ok firstAccepted
      obtain ⟨rest, isRest⟩ := inductionHypothesis fun ⟨other, member, rejected⟩ =>
        accepted ⟨other, List.mem_cons_of_mem _ member, rejected⟩
      exact ⟨first ++ rest, by rw [decodeAll, isFirst, Outcome.ok_bind, isRest]; rfl⟩

theorem meaning_eq_none {es : List Element} : meaning es = none ↔ ∃ e ∈ es, e.denotes = none := by
  induction es with
  | nil => simp [meaning]
  | cons e es inductionHypothesis =>
      rw [List.exists_mem_cons_iff, ← inductionHypothesis, meaning]
      cases e.denotes with
      | none => simp
      | some bytes => cases meaning es <;> simp

theorem decodeAll_reports {es : List Element} (rejected : ∃ e ∈ es, e.Rejected) :
    meaning es = none ∧ ∃ code, code.isReport = true ∧ decodeAll es = .error code := by
  induction es with
  | nil => exact absurd rejected (by simp)
  | cons e es inductionHypothesis =>
      by_cases firstRejected : e.Rejected
      · obtain ⟨isNone, code, isReport, fails⟩ := firstRejected.reports
        rw [meaning, isNone, decodeAll, fails]
        exact And.intro rfl ⟨code, isReport, rfl⟩
      · have later : ∃ other ∈ es, other.Rejected := by
          obtain ⟨other, member, otherRejected⟩ := rejected
          rcases List.mem_cons.1 member with isFirst | isLater
          · exact absurd (isFirst ▸ otherRejected) firstRejected
          · exact ⟨other, isLater, otherRejected⟩
        obtain ⟨isNone, code, isReport, fails⟩ := inductionHypothesis later
        obtain ⟨first, isFirst, _⟩ := decode_ok firstRejected
        constructor
        · rw [meaning, isNone]
          cases e.denotes <;> rfl
        · exact ⟨code, isReport, by rw [decodeAll, isFirst, Outcome.ok_bind, fails]; rfl⟩

theorem meaning_of_read {es : List Element} (read : ∀ e ∈ es, ¬e.Misread) {bytes : List Byte}
    (decodes : decodeAll es = .ok bytes) : meaning es = some bytes := by
  induction es generalizing bytes with
  | nil =>
      cases decodes
      rfl
  | cons e es inductionHypothesis =>
      obtain ⟨first, rest, isFirst, isRest, isBytes⟩ := decodeAll_cons_ok decodes
      rw [meaning, decode_denotes (read e List.mem_cons_self) isFirst,
        inductionHypothesis (fun other member => read other (List.mem_cons_of_mem _ member)) isRest,
        isBytes]
      rfl

theorem length_le_meaning {e : Element} {bytes denoted : List Byte}
    (decodes : e.decode = .ok bytes) (denotes : e.denotes = some denoted) :
    bytes.length ≤ denoted.length := by
  by_cases misread : e.Misread
  · exact (misread.shorter decodes denotes).le
  · rw [decode_denotes misread decodes] at denotes
    rw [Option.some.inj denotes]

theorem length_decodeAll_le {es : List Element} {bytes denoted : List Byte}
    (decodes : decodeAll es = .ok bytes) (denotes : meaning es = some denoted) :
    bytes.length ≤ denoted.length := by
  induction es generalizing bytes denoted with
  | nil =>
      cases decodes
      exact Nat.zero_le _
  | cons e es inductionHypothesis =>
      obtain ⟨first, rest, isFirst, isRest, isBytes⟩ := decodeAll_cons_ok decodes
      obtain ⟨meant, others, isMeant, areOthers, isDenoted⟩ := meaning_cons_some denotes
      rw [isBytes, isDenoted, List.length_append, List.length_append]
      exact Nat.add_le_add (length_le_meaning isFirst isMeant) (inductionHypothesis isRest areOthers)

theorem length_decodeAll_lt {es : List Element} (misread : ∃ e ∈ es, e.Misread)
    {bytes denoted : List Byte} (decodes : decodeAll es = .ok bytes)
    (denotes : meaning es = some denoted) : bytes.length < denoted.length := by
  induction es generalizing bytes denoted with
  | nil => exact absurd misread (by simp)
  | cons e es inductionHypothesis =>
      obtain ⟨first, rest, isFirst, isRest, isBytes⟩ := decodeAll_cons_ok decodes
      obtain ⟨meant, others, isMeant, areOthers, isDenoted⟩ := meaning_cons_some denotes
      rw [isBytes, isDenoted, List.length_append, List.length_append]
      obtain ⟨other, member, otherMisread⟩ := misread
      rcases List.mem_cons.1 member with isHead | isLater
      · have shorter := (isHead ▸ otherMisread).shorter isFirst isMeant
        exact Nat.add_lt_add_of_lt_of_le shorter (length_decodeAll_le isRest areOthers)
      · have shorter := inductionHypothesis ⟨other, isLater, otherMisread⟩ isRest areOthers
        exact Nat.add_lt_add_of_le_of_lt (length_le_meaning isFirst isMeant) shorter

end Element

end Rcgo.Scanner
