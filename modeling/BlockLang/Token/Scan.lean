import BlockLang.Error
import BlockLang.Text.Bytes
import BlockLang.Token.Basic

/-! # Scanning — a source text as tokens

  A source is cut from left to right into pieces: gaps, words, numbers,
  quoted strings and marks.  The first character of a piece decides what it
  is, and each piece is as long as it can be.  `Piece.first` finds the piece
  at the front of a text, and `tokenize` lists the tokens of a whole source.
  A fault anywhere leaves no tokens at all. -/

namespace BlockLang

/-! ### Characters -/

/-- The characters that separate tokens and are no part of one. -/
def isGap (c : Char) : Bool := c = ' ' || c = '\t' || c = '\r' || c = '\n'

/-- The characters that a word starts with. -/
def isWordStart (c : Char) : Bool := c.isAlpha || c = '_'

/-- The characters that a word goes on with. -/
def isWordPart (c : Char) : Bool := c.isAlphanum || c = '_'

/-- The characters that open a string, each of which only itself closes. -/
def isQuote (c : Char) : Bool := c = '"' || c = '\''

/-! ### Pieces -/

/-- A piece of a source text, without its first character where that one
    stands for itself. -/
inductive Piece where
  /-- A run of characters that separate tokens. -/
  | gap (more : List Char)
  /-- A letter or underscore, and then letters, underscores and digits. -/
  | word (more : List Char)
  /-- A run of digits, and a fraction: nothing, or a point and digits. -/
  | number (more fraction : List Char)
  /-- What stands between two equal quotes. -/
  | quoted (body : List Char)
  /-- An operator or a punctuation mark. -/
  | mark (kind : Kind) (more : List Char)

namespace Piece

/-- The characters of a piece behind its first one, which is `c`. -/
def more (c : Char) : Piece → List Char
  | gap more => more
  | word more => more
  | number more fraction => more ++ fraction
  | quoted body => body ++ [c]
  | mark _ more => more

/-- The kind and the lexeme of a piece that starts with `c`; none for a gap. -/
def token? (c : Char) : Piece → Option (Kind × List Char)
  | gap _ => none
  | word more => some (Kind.ofWord (String.ofList (c :: more)), c :: more)
  | number more fraction =>
      some (if fraction.isEmpty then .integer else .float, c :: more ++ fraction)
  | quoted body => some (.string, '\'' :: body ++ ['\''])
  | mark kind more => some (kind, c :: more)

/-- The point and the digits at the front of a text; nothing when no digit
    follows a point there. -/
def fractionAt : List Char → List Char
  | '.' :: text =>
      let digits := text.takeWhile Char.isDigit
      if digits.isEmpty then [] else '.' :: digits
  | _ => []

/-- The number at the front of a text that starts with the digit `c`.  A point
    right behind a number belongs to nothing. -/
def firstNumber (c : Char) (text : List Char) : Except Fault Piece :=
  let digits := text.takeWhile Char.isDigit
  let fraction := fractionAt (text.dropWhile Char.isDigit)
  if (text.drop (digits ++ fraction).length).head? = some '.' then
    .error (.malformedNumber (String.ofList (c :: digits ++ fraction ++ ['.'])))
  else .ok (.number digits fraction)

/-- The mark at the front of a text that starts with `c`: one of two
    characters if there is one. -/
def firstMark? (c : Char) (text : List Char) : Option Piece :=
  match text.head?.bind (Kind.ofMarkPair? c) with
  | some kind => some (.mark kind (text.take 1))
  | none => (Kind.ofMark? c).map (.mark · [])

/-- The piece at the front of a text that starts with `c`. -/
def first (c : Char) (text : List Char) : Except Fault Piece :=
  -- The classes of first characters are disjoint, so their order is free.
  if isGap c then .ok (.gap (text.takeWhile isGap))
  else if isWordStart c then .ok (.word (text.takeWhile isWordPart))
  else if c.isDigit then firstNumber c text
  else if c = '.' then
    .error (.malformedNumber (String.ofList ('.' :: text.takeWhile Char.isDigit)))
  else if isQuote c then
    if c ∈ text then .ok (.quoted (text.takeWhile (· ≠ c))) else .error (.unterminatedString c)
  else
    match firstMark? c text with
    | some piece => .ok piece
    | none => .error (.unexpectedCharacter c)

/-- Number of bytes of a piece that starts with `c`. -/
def size (c : Char) (piece : Piece) : Nat := byteSize (c :: piece.more c)

/-- The token of a piece that starts with `c` at byte `offset` of `file`;
    none for a gap. -/
def tokenAt? (c : Char) (file : String) (offset : Nat) (piece : Piece) : Option Token :=
  (piece.token? c).map fun (kind, lexeme) =>
    ⟨kind, String.ofList lexeme, ⟨.after file offset, .after file (offset + piece.size c)⟩⟩

/-! ### A piece is what the text starts with -/

/-- A piece is never empty. -/
theorem size_pos (c : Char) (piece : Piece) : 0 < piece.size c := by
  have hc := c.utf8Size_pos
  rw [size, byteSize_cons]
  omega

/-- What is read as a fraction stands at the front of the text. -/
theorem isPrefix_fractionAt (text : List Char) : fractionAt text <+: text := by
  unfold fractionAt
  split
  · rename_i text
    dsimp only
    split
    · exact List.nil_prefix
    · exact List.cons_prefix_cons.mpr ⟨rfl, List.takeWhile_prefix _⟩
  · exact List.nil_prefix

theorem isPrefix_of_firstNumber {c : Char} {text : List Char} {piece : Piece}
    (h : firstNumber c text = .ok piece) : piece.more c <+: text := by
  unfold firstNumber at h
  dsimp only at h
  split at h
  · cases h
  · cases h
    obtain ⟨rest, hrest⟩ := isPrefix_fractionAt (text.dropWhile Char.isDigit)
    refine ⟨rest, ?_⟩
    rw [more, List.append_assoc, hrest, List.takeWhile_append_dropWhile]

theorem isPrefix_of_firstMark? {c : Char} {text : List Char} {piece : Piece}
    (h : firstMark? c text = some piece) : piece.more c <+: text := by
  unfold firstMark? at h
  split at h
  · cases h
    exact List.take_prefix 1 text
  · obtain ⟨kind, -, rfl⟩ := Option.map_eq_some_iff.mp h
    exact List.nil_prefix

/-- A closed string reaches to its closing quote. -/
theorem isPrefix_quoted {c : Char} {text : List Char} (h : c ∈ text) :
    text.takeWhile (· ≠ c) ++ [c] <+: text := by
  induction text with
  | nil => cases h
  | cons d text ih =>
    by_cases hd : d = c
    · subst hd
      exact ⟨text, by simp⟩
    · obtain ⟨rest, hrest⟩ := ih ((List.mem_cons.mp h).resolve_left (Ne.symm hd))
      exact ⟨rest, by simpa [hd] using hrest⟩

/-- The characters of the piece at the front of a text are the text's. -/
theorem isPrefix_of_first {c : Char} {text : List Char} {piece : Piece}
    (h : first c text = .ok piece) : piece.more c <+: text := by
  unfold first at h
  split at h
  · cases h
    exact List.takeWhile_prefix _
  split at h
  · cases h
    exact List.takeWhile_prefix _
  split at h
  · exact isPrefix_of_firstNumber h
  split at h
  · cases h
  split at h
  · split at h
    · rename_i hmem
      cases h
      exact isPrefix_quoted hmem
    · cases h
  · split at h
    · rename_i found hfound
      cases h
      exact isPrefix_of_firstMark? hfound
    · cases h

end Piece

/-! ### Whole texts -/

/-- The tokens of a text that starts at byte `offset` of `file`, behind the
    tokens `before` (latest first).  Each round takes one piece off the text. -/
def tokensFrom (file : String) (before : List Token) (offset : Nat) :
    List Char → Except Error (List Token)
  | [] => .ok before.reverse
  | c :: text =>
    match Piece.first c text with
    | .error fault => .error ⟨fault, .after file offset⟩
    | .ok piece =>
      tokensFrom file ((piece.tokenAt? c file offset).toList ++ before) (offset + piece.size c)
        (text.drop (piece.more c).length)
termination_by text => text.length
decreasing_by simp only [List.length_drop, List.length_cons]; omega

/-- The tokens of a source, or the first fault in it. -/
def tokenize (source file : String) : Except Error (List Token) :=
  tokensFrom file [] 0 source.toList

end BlockLang
