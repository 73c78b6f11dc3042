import BlockLang.Token.Scan

/-! # The token language — how a source is cut into pieces

  A source is a row of gaps and pieces.  A gap is as long as it can be.  A
  piece is a word, a number, a string or a mark, and of all words, numbers,
  strings and marks at the front of what is left it is the longest one.  A
  number may not have a point right behind it.

  Nothing here scans: the classes of pieces say what a text is, and a cut
  says where the pieces of a source are.  `Refused` says what stands where no
  cut can go on. -/

namespace BlockLang

/-! ### Characters -/

/-- A letter of the Latin alphabet, or an underscore. -/
def Letter (c : Char) : Prop := ('a' ≤ c ∧ c ≤ 'z') ∨ ('A' ≤ c ∧ c ≤ 'Z') ∨ c = '_'

def Digit (c : Char) : Prop := '0' ≤ c ∧ c ≤ '9'

/-! ### Classes of pieces -/

/-- A letter, and then letters and digits. -/
def IsWord (text : List Char) : Prop :=
  ∃ c more, text = c :: more ∧ Letter c ∧ ∀ d ∈ more, Letter d ∨ Digit d

/-- At least one digit, and nothing else. -/
def IsDigits (text : List Char) : Prop := text ≠ [] ∧ ∀ c ∈ text, Digit c

/-- Digits with a point and digits behind them. -/
def IsDecimal (text : List Char) : Prop :=
  ∃ whole fraction, text = whole ++ '.' :: fraction ∧ IsDigits whole ∧ IsDigits fraction

def IsNumber (text : List Char) : Prop := IsDigits text ∨ IsDecimal text

/-- How a mark is written; other kinds of tokens are written in many ways. -/
def Kind.mark? : Kind → Option (List Char)
  | openBracket => some ['[']
  | closeBracket => some [']']
  | openParen => some ['(']
  | closeParen => some [')']
  | assignment => some ['=']
  | equals => some ['=', '=']
  | not => some ['!']
  | notEquals => some ['!', '=']
  | less => some ['<']
  | lessEquals => some ['<', '=']
  | greater => some ['>']
  | greaterEquals => some ['>', '=']
  | or => some ['|', '|']
  | and => some ['&', '&']
  | bitOr => some ['|']
  | bitAnd => some ['&']
  | semicolon => some [';']
  | colon => some [':']
  | comma => some [',']
  | plus => some ['+']
  | dash => some ['-']
  | slash => some ['/']
  | star => some ['*']
  | percent => some ['%']
  | _ => none

/-- The text spells a token of the kind, with the lexeme. -/
inductive Spells : (text : List Char) → Kind → (lexeme : List Char) → Prop where
  /-- A word is a keyword only as a whole. -/
  | keyword {text kind} : IsWord text → Kind.reserved? (String.ofList text) = some kind →
      Spells text kind text
  | name {text} : IsWord text → Kind.reserved? (String.ofList text) = none →
      Spells text .identifier text
  | integer {text} : IsDigits text → Spells text .integer text
  | float {text} : IsDecimal text → Spells text .float text
  /-- Whatever quotes a string stands in, its lexeme stands in single ones. -/
  | string {quote body} : quote = '"' ∨ quote = '\'' → quote ∉ body →
      Spells (quote :: (body ++ [quote])) .string ('\'' :: body ++ ['\''])
  | mark {kind text} : kind.mark? = some text → Spells text kind text

/-! ### Cuts -/

/-- The text is the piece at the front of itself and the rest. -/
structure IsPiece (text : List Char) (kind : Kind) (lexeme rest : List Char) : Prop where
  spells : Spells text kind lexeme
  longest : ∀ {other kind' lexeme'}, Spells other kind' lexeme' → other <+: text ++ rest →
    other.length ≤ text.length
  /-- No number is directly followed by a point. -/
  bounded : IsNumber text → rest.head? ≠ some '.'

/-- The span covers the bytes of the file from `first` up to `last`. -/
structure Span.Covers (span : Span) (file : String) (first last : Nat) : Prop where
  start_file : span.start.file = file
  start_offset : span.start.offset.toNat = first
  stop_file : span.stop.file = file
  stop_offset : span.stop.offset.toNat = last

/-- The text, which starts at a byte of the file, can be cut into gaps and
    pieces from its start to its end, and the tokens are those of its pieces
    in order. -/
inductive Cut (file : String) : (offset : Nat) → (text : List Char) → List Token → Prop where
  | done {offset} : Cut file offset [] []
  /-- A gap, up to the next character that is none. -/
  | gap {offset run rest tokens} : run ≠ [] → (∀ c ∈ run, isGap c = true) →
      (∀ c, rest.head? = some c → isGap c = false) →
      Cut file (offset + byteSize run) rest tokens → Cut file offset (run ++ rest) tokens
  | piece {offset text kind lexeme span rest tokens} : IsPiece text kind lexeme rest →
      span.Covers file offset (offset + byteSize text) →
      Cut file (offset + byteSize text) rest tokens →
      Cut file offset (text ++ rest) (⟨kind, String.ofList lexeme, span⟩ :: tokens)

/-! ### Where no cut goes on -/

/-- The text can be cut into gaps and pieces from its start to its end, each of
    them as long as it can be when `rest` stands behind the text. -/
inductive CutBefore (rest : List Char) : (text : List Char) → Prop where
  | done : CutBefore rest []
  | gap {run more} : run ≠ [] → (∀ c ∈ run, isGap c = true) →
      (∀ c, (more ++ rest).head? = some c → isGap c = false) →
      CutBefore rest more → CutBefore rest (run ++ more)
  | piece {text kind lexeme more} : IsPiece text kind lexeme (more ++ rest) →
      CutBefore rest more → CutBefore rest (text ++ more)

/-- The number is the longest one at the front of itself and the rest. -/
structure LongestNumber (number rest : List Char) : Prop where
  isNumber : IsNumber number
  longest : ∀ {other}, IsNumber other → other <+: number ++ rest → other.length ≤ number.length

/-- No gap and no piece can be taken off the text, for the given reason. -/
inductive Refused : (text : List Char) → Fault → Prop where
  /-- A quote that does not occur again. -/
  | unterminated {quote rest} : quote = '"' ∨ quote = '\'' → quote ∉ rest →
      Refused (quote :: rest) (.unterminatedString quote)
  /-- A point, with the digits behind it. -/
  | strayPoint {digits rest} : (∀ c ∈ digits, Digit c) →
      (∀ c, rest.head? = some c → ¬ Digit c) →
      Refused ('.' :: (digits ++ rest)) (.malformedNumber (String.ofList ('.' :: digits)))
  /-- A number, as long as it can be, and a point right behind it. -/
  | danglingPoint {number rest} : LongestNumber number ('.' :: rest) →
      Refused (number ++ '.' :: rest) (.malformedNumber (String.ofList (number ++ ['.'])))
  /-- A character that starts nothing else. -/
  | unexpected {c rest} : isGap c = false → c ≠ '.' →
      (∀ {text kind lexeme}, Spells text kind lexeme → text.head? ≠ some c) →
      Refused (c :: rest) (.unexpectedCharacter c)

end BlockLang
