import Rcgo.Foundation.LongestMatch

/-!
# The rules of the scanner

The patterns of `scanner.l` with their start conditions and actions, and the
loop of the generated scanner.  `%s` makes `IN_COMMENT` an inclusive condition:
the rules without a start condition are active in it, too.
-/

namespace Rcgo.Scanner

open Rcgo.Foundation

abbrev Byte :=
  UInt8

abbrev Pattern :=
  Regex Byte

/-- The start conditions. -/
inductive StartCondition where
  | initial
  | inComment
  deriving DecidableEq, Repr

/-- The action of a rule. -/
inductive Action where
  /-- the text is dropped -/
  | discard
  /-- `BEGIN` -/
  | begin (condition : StartCondition)
  /-- `++yylloc` -/
  | newline
  /-- a reserved word or an operator of more than one character -/
  | symbol (name : String)
  /-- `return *yytext` -/
  | character
  | identifier
  | rawString
  | interpretedString
  | integer (base : Nat)
  | float
  | imaginary
  | rune
  /-- the error about an unrecognized character -/
  | unrecognized
  deriving DecidableEq, Repr

/-! ## Patterns -/

def bytes (text : String) : List Byte :=
  text.toList.map Char.toUInt8

/-- `"text"`. -/
def literal (text : String) : Pattern :=
  (bytes text).foldr (fun b rest => .append (.symbol fun c => c == b) rest) .epsilon

/-- `[text]`. -/
def oneOf (text : String) : Pattern :=
  .symbol fun b => (bytes text).contains b

/-- `[^text]`. -/
def noneOf (text : String) : Pattern :=
  .symbol fun b => !(bytes text).contains b

/-- `.`: any character but a newline. -/
def dot : Pattern :=
  noneOf "\n"

/-- `pattern+`. -/
def plus (pattern : Pattern) : Pattern :=
  .append pattern (.star pattern)

/-- `pattern?`. -/
def optional (pattern : Pattern) : Pattern :=
  .union .epsilon pattern

/-- `pattern{count}`. -/
def times (pattern : Pattern) : Nat → Pattern
  | 0 => .epsilon
  | count + 1 => .append pattern (times pattern count)

def sequence (patterns : List Pattern) : Pattern :=
  patterns.foldr .append .epsilon

def alternatives (patterns : List Pattern) : Pattern :=
  patterns.foldr .union .empty

def isOctalDigit (b : Byte) : Bool :=
  48 ≤ b && b ≤ 55

def isDecimalDigit (b : Byte) : Bool :=
  48 ≤ b && b ≤ 57

def isHexadecimalDigit (b : Byte) : Bool :=
  isDecimalDigit b || (97 ≤ b && b ≤ 102) || (65 ≤ b && b ≤ 70)

/-- `[_a-zA-Z]`. -/
def isLetter (b : Byte) : Bool :=
  b == 95 || (97 ≤ b && b ≤ 122) || (65 ≤ b && b ≤ 90)

def octalDigit : Pattern :=
  .symbol isOctalDigit

def decimalDigit : Pattern :=
  .symbol isDecimalDigit

def hexadecimalDigit : Pattern :=
  .symbol isHexadecimalDigit

def decimals : Pattern :=
  plus decimalDigit

def exponent : Pattern :=
  sequence [oneOf "eE", optional (oneOf "+-"), decimals]

def float : Pattern :=
  alternatives
    [sequence [decimals, literal ".", optional decimals, optional exponent],
     sequence [decimals, exponent],
     sequence [literal ".", decimals, optional exponent]]

def octal : Pattern :=
  .append (literal "\\") (times octalDigit 3)

def hex : Pattern :=
  .append (literal "\\x") (times hexadecimalDigit 2)

def littleU : Pattern :=
  .append (literal "\\u") (times hexadecimalDigit 4)

def bigU : Pattern :=
  .append (literal "\\U") (times hexadecimalDigit 8)

def escaped : Pattern :=
  .append (literal "\\") (oneOf "abfnrtv\\\"")

/-- What stands between the quotes of a string literal. -/
def stringContent : Pattern :=
  .star (alternatives [noneOf "\"", octal, hex, littleU, bigU, escaped])

def stringLiteral : Pattern :=
  sequence [literal "\"", stringContent, literal "\""]

def rawStringLiteral : Pattern :=
  sequence [literal "`", .star (noneOf "`"), literal "`"]

def identifier : Pattern :=
  .append (.symbol isLetter) (.star (.symbol fun b => isLetter b || isDecimalDigit b))

def decimalLiteral : Pattern :=
  .append (.symbol fun b => 49 ≤ b && b ≤ 57) (.star decimalDigit)

def octalLiteral : Pattern :=
  .append (literal "0") (.star octalDigit)

def hexadecimalLiteral : Pattern :=
  sequence [literal "0", oneOf "xX", plus hexadecimalDigit]

def quoted (pattern : Pattern) : Pattern :=
  sequence [literal "'", pattern, literal "'"]

def lineComment : Pattern :=
  .append (literal "//") (.star dot)

def hashComment : Pattern :=
  .append (literal "#") (.star dot)

/-- The text of a comment up to the next star or newline. -/
def commentChunk : Pattern :=
  plus (noneOf "*\n")

/-! ## Rules -/

/-- A rule with its start condition, when it has one. -/
structure ScanRule where
  condition : Option StartCondition
  rule : MatchRule Byte Action

def everywhere (pattern : Pattern) (action : Action) : ScanRule :=
  ⟨none, ⟨pattern, action⟩⟩

def within (condition : StartCondition) (pattern : Pattern) (action : Action) : ScanRule :=
  ⟨some condition, ⟨pattern, action⟩⟩

def symbolRule (text : String) : ScanRule :=
  everywhere (literal text) (.symbol text)

def characterRule (text : String) : ScanRule :=
  everywhere (literal text) .character

def lineCommentRules : List ScanRule :=
  [everywhere lineComment .discard, everywhere hashComment .discard]

def openingRule : ScanRule :=
  within .initial (literal "/*") (.begin .inComment)

def closingRule : ScanRule :=
  within .inComment (literal "*/") (.begin .initial)

def chunkRule : ScanRule :=
  within .inComment commentChunk .discard

def loneStarRule : ScanRule :=
  within .inComment (literal "*") .discard

def commentNewlineRule : ScanRule :=
  within .inComment (literal "\n") .newline

def reservedWords : List ScanRule :=
  ["action", "activate", "bind", "break", "case", "change", "component", "const", "continue",
   "default", "else", "fallthrough", "for", "foreign", "func", "getter", "goto", "heap", "if",
   "import", "init", "instance", "interface", "map", "package", "pull", "push", "range",
   "reaction", "return", "struct", "switch", "type", "var"].map symbolRule

/-- The rules for the operators up to the star, and the star. -/
def operatorsBefore : List ScanRule :=
  [characterRule "$", characterRule "+", characterRule "-"]

/-- The rules for the operators between the star and `*=`. -/
def operatorsBetween : List ScanRule :=
  [characterRule "/", characterRule "%", characterRule "&", characterRule "|",
   characterRule "^", symbolRule "<<", symbolRule ">>", symbolRule "&^", symbolRule "+=",
   symbolRule "-="]

/-- The rules for the operators after `*=`. -/
def operatorsAfter : List ScanRule :=
  [symbolRule "/=", symbolRule "%=", symbolRule "&=", symbolRule "|=", symbolRule "^=",
   symbolRule "<<=", symbolRule ">>=", symbolRule "&^=", symbolRule "&&", symbolRule "||",
   symbolRule "<-", symbolRule "->", symbolRule "++", symbolRule "--", symbolRule "==",
   characterRule "<", characterRule ">", characterRule "=", characterRule "!", symbolRule "!=",
   symbolRule "<=", symbolRule ">=", symbolRule ":=", symbolRule "...", characterRule "(",
   characterRule "[", characterRule "\x7b", characterRule ",", characterRule ".",
   characterRule ")", characterRule "]", characterRule "\x7d", characterRule ";",
   characterRule ":"]

def identifierRule : ScanRule :=
  everywhere identifier .identifier

def rawStringRule : ScanRule :=
  everywhere rawStringLiteral .rawString

def stringRule : ScanRule :=
  everywhere stringLiteral .interpretedString

def numberRules : List ScanRule :=
  [everywhere decimalLiteral (.integer 10), everywhere octalLiteral (.integer 8),
   everywhere hexadecimalLiteral (.integer 16), everywhere float .float,
   everywhere (.append (.union decimals float) (literal "i")) .imaginary]

def runeRule : ScanRule :=
  everywhere (quoted (noneOf "'\n")) .rune

/-- The rules for runes that are written as escape sequences. -/
def escapedRuneRules : List ScanRule :=
  [everywhere (quoted (.append (literal "\\") (oneOf "abfnrtv\\'"))) .rune,
   everywhere (quoted octal) .rune, everywhere (quoted hex) .rune,
   everywhere (quoted littleU) .rune, everywhere (quoted bigU) .rune]

def blankRule : ScanRule :=
  everywhere (plus (oneOf " \t")) .discard

def newlineRule : ScanRule :=
  everywhere (oneOf "\n") .newline

def unrecognizedRule : ScanRule :=
  everywhere dot .unrecognized

/-- All rules, in their order. -/
def rules : List ScanRule :=
  lineCommentRules ++
    openingRule :: closingRule :: chunkRule :: loneStarRule :: commentNewlineRule ::
    (reservedWords ++ operatorsBefore ++
      characterRule "*" :: (operatorsBetween ++
        symbolRule "*=" :: (operatorsAfter ++
          identifierRule :: rawStringRule :: stringRule ::
          (numberRules ++
            runeRule :: (escapedRuneRules ++ [blankRule, newlineRule, unrecognizedRule])))))

/-- The rules that are active in a start condition. -/
def activeRules (condition : StartCondition) : List (MatchRule Byte Action) :=
  (rules.filter fun rule => rule.condition.all fun required => required == condition).map
    ScanRule.rule

/-! ## The scanner -/

/-- The input that is left, the start condition and `yylloc`. -/
structure Scan where
  input : List Byte
  condition : StartCondition
  line : Nat
  deriving DecidableEq

namespace Scan

/-- One match; with the action and the text when the scanner returns a token or
reports an error. -/
def next (s : Scan) : Option (Scan × Option (Action × List Byte)) :=
  match MatchRule.select (activeRules s.condition) s.input with
  | none => none
  | some (length, action) =>
      let rest := s.input.drop length
      match action with
      | .discard => some (⟨rest, s.condition, s.line⟩, none)
      | .begin condition => some (⟨rest, condition, s.line⟩, none)
      | .newline => some (⟨rest, s.condition, s.line + 1⟩, none)
      | action => some (⟨rest, s.condition, s.line⟩, some (action, s.input.take length))

end Scan

end Rcgo.Scanner
