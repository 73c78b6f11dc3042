import BlockLang.Proofs.Token.Seam
import BlockLang.Proofs.Token.Table
import BlockLang.Token.Cursor

/-! # Rounds — the scanner never leaves its source

  A scanner has a cursor and the tokens that it has found.  In a round it looks
  behind the cursor for the first row of its table that matches, and the action
  of the row moves the cursor by the bytes that it counts, or refuses the text.
  Nothing keeps the cursor from a place inside a character, or a text from being
  cut there, but it never happens: every round takes a piece off the text behind
  the cursor, and so the rounds do what `tokenize` does. -/

namespace BlockLang

/-! ### Texts that are cut by bytes -/

/-- Number of bytes of a text, as a word. -/
def lengthOf (text : List Char) : UInt64 := UInt64.ofNat (byteSize text)

/-- A text from one byte to another; `none` where it cannot be cut. -/
def sliceBytes? (start stop : Nat) (text : List Char) : Option (List Char) := do
  let front ← dropBytes? start text
  let back ← dropBytes? stop text
  if stop < start then none else some (front.take (front.length - back.length))

theorem sliceBytes?_append (front middle back : List Char) :
    sliceBytes? (byteSize front) (byteSize front + byteSize middle) (front ++ (middle ++ back)) =
      some middle := by
  have hstart := dropBytes?_byteSize front (middle ++ back)
  have hstop := dropBytes?_byteSize (front ++ middle) back
  rw [byteSize_append, List.append_assoc] at hstop
  have hle : ¬ byteSize front + byteSize middle < byteSize front := by omega
  simp [sliceBytes?, hstart, hstop, hle]

/-! ### Scanners -/

/-- A scanner in the middle of a source. -/
structure Scanner where
  cursor : Cursor
  /-- The tokens so far, latest first. -/
  tokens : List Token

namespace Scanner

/-- A scanner in front of a source. -/
def start (source file : String) : Scanner := ⟨.start source file, []⟩

/-- The scanner behind a token, which it takes the text for. -/
def push (s : Scanner) (kind : Kind) (lexeme text : List Char) : Scanner where
  cursor := s.cursor.advance (lengthOf text)
  tokens := ⟨kind, String.ofList lexeme, s.cursor.spanOf (lengthOf text)⟩ :: s.tokens

/-- What an action makes of a scanner, when `matched` is behind its cursor;
    `none` if it cuts a text where it cannot be cut. -/
def Action.run (s : Scanner) (matched : List Char) : Action → Option (Except Error Scanner)
  | skip => some (.ok { s with cursor := s.cursor.advance (lengthOf matched) })
  | word => some (.ok (s.push (Kind.ofWord (String.ofList matched)) matched matched))
  | number => do
      let rest ← s.cursor.remainder?
      let behind ← dropBytes? (byteSize matched) rest
      if behind.head? = some '.' then
        let fault := .malformedNumber (String.ofList (matched ++ ['.']))
        some (.error ⟨fault, s.cursor.position⟩)
      else
        some (.ok (s.push (if '.' ∈ matched then .float else .integer) matched matched))
  | strayPoint =>
      some (.error ⟨.malformedNumber (String.ofList matched), s.cursor.position⟩)
  | string => do
      let body ← sliceBytes? 1 (byteSize matched - 1) matched
      some (.ok (s.push .string ('\'' :: body ++ ['\'']) matched))
  | unterminated =>
      some (.error ⟨.unterminatedString (matched.head?.getD '"'), s.cursor.position⟩)
  | mark kind text => some (.ok (s.push kind text text))

/-- One round of a scanner: an error, or the scanner further on; `none` if a
    text is cut where it cannot be cut. -/
def round (s : Scanner) : Option (Except Error Scanner) := do
  let rest ← s.cursor.remainder?
  match search rest with
  | some (action, matched) => action.run s matched
  | none => some (.error ⟨.unexpectedCharacter (rest.head?.getD '\x00'), s.cursor.position⟩)

/-- After so many rounds that went well the one scanner has become the other. -/
inductive Rounds (first : Scanner) : Nat → Scanner → Prop where
  | start : Rounds first 0 first
  | next {n : Nat} {s s' : Scanner} : Rounds first n s → s.cursor.atEnd = false →
      s.round = some (.ok s') → Rounds first (n + 1) s'

/-! ### What one round does -/

variable {s : Scanner} {c : Char} {text : List Char} {piece : Piece}

/-- The scanner behind a piece that starts with `c`. -/
def past (s : Scanner) (c : Char) (piece : Piece) : Scanner :=
  match piece.token? c with
  | some (kind, lexeme) => s.push kind lexeme (c :: piece.more c)
  | none => { s with cursor := s.cursor.advance (lengthOf (c :: piece.more c)) }

/-- What is made of the piece or the fault that is behind the cursor. -/
def outcome (s : Scanner) (c : Char) : Except Fault Piece → Except Error Scanner
  | .ok piece => .ok (s.past c piece)
  | .error fault => .error ⟨fault, s.cursor.position⟩

/-- The point of a fraction is the only one in a number. -/
theorem point_mem_iff {digits : List Char} (hdigits : IsDigits digits) (text : List Char) :
    '.' ∈ digits ++ Piece.fractionAt text ↔ (Piece.fractionAt text).isEmpty = false := by
  have hpoint : '.' ∉ digits := fun hmem => plain_point.digit (hdigits.2 '.' hmem)
  obtain ⟨hnone, -⟩ | ⟨fraction, hsome, -⟩ := fractionAt_cases text
  · simp [hnone, hpoint]
  · simp [hsome]

/-- The look-ahead behind a number is behind its characters. -/
theorem run_number (hc : Digit c) (hbehind : s.cursor.remainder? = some (c :: text)) :
    Action.number.run s (c :: (text.takeWhile Char.isDigit ++
        Piece.fractionAt (text.dropWhile Char.isDigit))) =
      some (s.outcome c (Piece.firstNumber c text)) := by
  set digits := text.takeWhile Char.isDigit with hdigits
  set fraction := Piece.fractionAt (text.dropWhile Char.isDigit) with hfraction
  obtain ⟨back, hback⟩ : digits ++ fraction <+: text := by
    obtain ⟨back, hback⟩ := Piece.isPrefix_fractionAt (text.dropWhile Char.isDigit)
    refine ⟨back, ?_⟩
    rw [List.append_assoc, hback, List.takeWhile_append_dropWhile]
  have hdrop : dropBytes? (byteSize (c :: (digits ++ fraction))) (c :: text) = some back := by
    rw [← hback]
    exact dropBytes?_byteSize (c :: (digits ++ fraction)) back
  have hahead : text.drop (digits ++ fraction).length = back := by
    rw [← hback, List.drop_left]
  have hpoint : '.' ∈ c :: (digits ++ fraction) ↔ fraction.isEmpty = false :=
    point_mem_iff (isDigits_takeWhile hc text) _
  have hrun : Action.number.run s (c :: (digits ++ fraction)) =
      if back.head? = some '.' then
        some (.error ⟨.malformedNumber (String.ofList (c :: (digits ++ fraction) ++ ['.'])),
          s.cursor.position⟩)
      else some (.ok (s.push (if '.' ∈ c :: (digits ++ fraction) then .float else .integer)
        (c :: (digits ++ fraction)) (c :: (digits ++ fraction)))) := by
    simp only [Action.run, hbehind, hdrop, Option.bind_eq_bind, Option.bind_some]
  rw [hrun, Piece.firstNumber, ← hdigits, ← hfraction, hahead]
  by_cases hnext : back.head? = some '.'
  · rw [if_pos hnext, if_pos hnext]
    rfl
  · rw [if_neg hnext, if_neg hnext]
    cases hempty : fraction.isEmpty with
    | true =>
      rw [if_neg (by rw [hpoint, hempty]; decide)]
      simp [outcome, past, Piece.token?, Piece.more, hempty]
    | false =>
      rw [if_pos (hpoint.mpr hempty)]
      simp [outcome, past, Piece.token?, Piece.more, hempty]

/-- The body of a string is between its quotes, which have one byte each. -/
theorem run_string {body : List Char} (hc : isQuote c = true) :
    Action.string.run s (c :: (body ++ [c])) = some (.ok (s.past c (.quoted body))) := by
  have hsize : byteSize [c] = 1 := by
    obtain rfl | rfl := isQuote_iff.mp hc <;> rfl
  have hslice := sliceBytes?_append [c] body [c]
  have hstop : byteSize (c :: (body ++ [c])) - 1 = 1 + byteSize body := by
    rw [← List.singleton_append, byteSize_append, byteSize_append, hsize]
    omega
  rw [hsize, List.singleton_append] at hslice
  simp only [Action.run, hstop, hslice, Option.bind_eq_bind, Option.bind_some]
  rfl

theorem exists_of_firstMark? (h : Piece.firstMark? c text = some piece) :
    ∃ kind more, piece = .mark kind more := by
  unfold Piece.firstMark? at h
  split at h
  · cases h
    exact ⟨_, _, rfl⟩
  · obtain ⟨kind, -, rfl⟩ := Option.map_eq_some_iff.mp h
    exact ⟨kind, [], rfl⟩

/-- A round reads the front of the text as it is read by itself. -/
theorem round_eq (hbehind : s.cursor.remainder? = some (c :: text)) :
    s.round = some (s.outcome c (Piece.first c text)) := by
  have hround : s.round = match search (c :: text) with
      | some (action, matched) => action.run s matched
      | none => some (.error ⟨.unexpectedCharacter c, s.cursor.position⟩) := by
    rw [round, hbehind]
    rfl
  rw [hround]
  refine first_cases (motive := fun result => _ = some (s.outcome c result))
    ?gap ?word ?number ?point ?closed ?lone ?mark
  case gap =>
    intro hgap
    rw [search_of_isGap hgap]
    rfl
  case word =>
    intro hletter
    rw [search_of_letter hletter]
    rfl
  case number =>
    intro hdigit
    rw [search_of_digit hdigit]
    exact run_number hdigit hbehind
  case point =>
    rintro rfl
    rw [search_point]
    rfl
  case closed =>
    intro hquote hmem
    rw [search_of_isQuote hquote, if_pos hmem]
    exact run_string hquote
  case lone =>
    intro hquote hmem
    rw [search_of_isQuote hquote, if_neg hmem]
    rfl
  case mark =>
    intro hplain hgap hpoint
    rw [search_mark hplain hgap hpoint]
    cases hmark : Piece.firstMark? c text with
    | some piece =>
      obtain ⟨kind, more, rfl⟩ := exists_of_firstMark? hmark
      rfl
    | none => rfl

/-! ### Where a scanner stands -/

variable {source file : String} {front rest : List Char} {n : Nat} {s' : Scanner}

/-- The scanner has its cursor behind `front`, and `rest` is left. -/
structure StandsAt (s : Scanner) (source file : String) (front rest : List Char) : Prop where
  source_eq : s.cursor.source = source
  file_eq : s.cursor.file = file
  text_eq : source.toList = front ++ rest
  offset_eq : s.cursor.offset.toNat = byteSize front

namespace StandsAt

theorem start (source file : String) : (start source file).StandsAt source file [] source.toList :=
  ⟨rfl, rfl, rfl, rfl⟩

theorem size_eq (h : s.StandsAt source file front rest) :
    source.utf8ByteSize = byteSize front + byteSize rest := by
  rw [← byteSize_toList, h.text_eq, byteSize_append]

theorem remainder?_eq (h : s.StandsAt source file front rest) :
    s.cursor.remainder? = some rest := by
  rw [Cursor.remainder?, h.offset_eq, h.source_eq, h.text_eq]
  exact dropBytes?_byteSize front rest

theorem position_eq (h : s.StandsAt source file front rest) :
    s.cursor.position = .after file (byteSize front) := by
  rw [Cursor.position, h.file_eq, h.offset_eq]

/-- The source ends where no text is left. -/
theorem atEnd_iff (h : s.StandsAt source file front rest) : s.cursor.atEnd = true ↔ rest = [] := by
  rw [Cursor.atEnd, decide_eq_true_iff, h.source_eq, h.size_eq, h.offset_eq]
  constructor
  · intro hle
    cases rest with
    | nil => rfl
    | cons c rest =>
      have hc := c.utf8Size_pos
      rw [byteSize_cons] at hle
      omega
  · rintro rfl
    rw [byteSize_nil, Nat.add_zero]

/-- The cursor may be moved over the text behind it. -/
theorem offset_advance (h : s.StandsAt source file front (text ++ rest))
    (hsize : source.utf8ByteSize < 2 ^ 64) :
    (s.cursor.advance (lengthOf text)).offset.toNat = byteSize front + byteSize text := by
  have hbytes := h.size_eq
  rw [byteSize_append] at hbytes
  have hlength : (lengthOf text).toNat = byteSize text :=
    UInt64.toNat_ofNat_of_lt' (by rw [UInt64.size]; omega)
  show (s.cursor.offset + lengthOf text).toNat = _
  rw [UInt64.toNat_add, h.offset_eq, hlength, Nat.mod_eq_of_lt (by omega)]

theorem past (h : s.StandsAt source file front (c :: (piece.more c ++ rest)))
    (hsize : source.utf8ByteSize < 2 ^ 64) :
    (s.past c piece).StandsAt source file (front ++ (c :: piece.more c)) rest ∧
      (s.past c piece).tokens = (piece.tokenAt? c file (byteSize front)).toList ++ s.tokens := by
  have hoffset : (s.cursor.advance (lengthOf (c :: piece.more c))).offset.toNat =
      byteSize front + byteSize (c :: piece.more c) := h.offset_advance hsize
  have hspan : s.cursor.spanOf (lengthOf (c :: piece.more c)) =
      ⟨.after file (byteSize front), .after file (byteSize front + piece.size c)⟩ := by
    rw [Cursor.spanOf, h.position_eq, Cursor.position, hoffset]
    show Span.mk _ (.after s.cursor.file _) = _
    rw [h.file_eq]
    rfl
  have htext : source.toList = (front ++ (c :: piece.more c)) ++ rest := by
    rw [h.text_eq, List.append_assoc]
    rfl
  rw [← byteSize_append] at hoffset
  unfold Scanner.past Piece.tokenAt?
  cases piece.token? c with
  | none => exact ⟨⟨h.source_eq, h.file_eq, htext, hoffset⟩, rfl⟩
  | some token =>
    refine ⟨⟨h.source_eq, h.file_eq, htext, hoffset⟩, ?_⟩
    show ⟨token.1, String.ofList token.2, s.cursor.spanOf _⟩ :: s.tokens = _
    rw [hspan]
    rfl

/-- A round in front of some text refuses it, or takes a piece off its front. -/
theorem round_cases (h : s.StandsAt source file front (c :: text)) :
    (∃ fault, Piece.first c text = .error fault ∧
        s.round = some (.error ⟨fault, .after file (byteSize front)⟩)) ∨
      ∃ piece rest, Piece.first c text = .ok piece ∧ text = piece.more c ++ rest ∧
        s.round = some (.ok (s.past c piece)) := by
  have hround := round_eq h.remainder?_eq
  cases hfirst : Piece.first c text with
  | error fault =>
    rw [hfirst, outcome, h.position_eq] at hround
    exact .inl ⟨fault, rfl, hround⟩
  | ok piece =>
    obtain ⟨rest, hrest⟩ := Piece.isPrefix_of_first hfirst
    rw [hfirst] at hround
    exact .inr ⟨piece, rest, rfl, hrest.symm, hround⟩

end StandsAt

/-! ### All rounds -/

/-- The token covers one or more of the first `bytes` bytes of the file. -/
def Occupies (token : Token) (file : String) (bytes : Nat) : Prop :=
  ∃ first last, first < last ∧ last ≤ bytes ∧
    token.span = ⟨.after file first, .after file last⟩

/-- Where offsets do not wrap around, such a token starts before it stops. -/
theorem Occupies.start_lt_stop {token : Token} {bytes : Nat} (h : Occupies token file bytes)
    (hbytes : bytes < 2 ^ 32) : token.span.start.offset < token.span.stop.offset := by
  obtain ⟨first, last, hlt, hle, hspan⟩ := h
  rw [hspan]
  show UInt32.ofNat first < UInt32.ofNat last
  rw [UInt32.lt_iff_toNat_lt, UInt32.toNat_ofNat_of_lt' (by rw [UInt32.size]; omega),
    UInt32.toNat_ofNat_of_lt' (by rw [UInt32.size]; omega)]
  exact hlt

/-- Behind `front` and `n` rounds, what is left brings what the source brings. -/
structure Reached (source file : String) (n : Nat) (s : Scanner) (front rest : List Char) :
    Prop where
  stands : s.StandsAt source file front rest
  rounds_le : n ≤ byteSize front
  scan : tokensFrom file s.tokens (byteSize front) rest = tokenize source file
  occupies : ∀ token ∈ s.tokens, Occupies token file (byteSize front)

namespace Reached

theorem start (source file : String) :
    Reached source file 0 (.start source file) [] source.toList :=
  ⟨.start source file, Nat.le_refl 0, rfl, nofun⟩

/-- A round that takes a piece keeps to that. -/
theorem past (h : Reached source file n s front (c :: (piece.more c ++ rest)))
    (hsize : source.utf8ByteSize < 2 ^ 64)
    (hfirst : Piece.first c (piece.more c ++ rest) = .ok piece) :
    Reached source file (n + 1) (s.past c piece) (front ++ (c :: piece.more c)) rest := by
  obtain ⟨hstands, htokens⟩ := h.stands.past hsize
  have hpos : 0 < byteSize (c :: piece.more c) := piece.size_pos c
  refine ⟨hstands, ?_, ?_, ?_⟩
  · have hle := h.rounds_le
    rw [byteSize_append]
    omega
  · have hscan := h.scan
    rw [tokensFrom_cons hfirst, List.drop_left] at hscan
    rw [htokens, byteSize_append]
    exact hscan
  · intro token htoken
    rw [htokens, List.mem_append, Option.mem_toList] at htoken
    rcases htoken with hnew | hold
    · obtain ⟨found, -, rfl⟩ := Option.map_eq_some_iff.mp hnew
      rw [byteSize_append]
      exact ⟨byteSize front, byteSize front + piece.size c, Nat.lt_add_of_pos_right hpos,
        Nat.le_refl _, rfl⟩
    · obtain ⟨first, last, hlt, hle, hspan⟩ := h.occupies token hold
      rw [byteSize_append]
      exact ⟨first, last, hlt, Nat.le_add_right_of_le hle, hspan⟩

end Reached

/-- Whatever rounds have been run, the scanner stands between two characters. -/
theorem Rounds.reached (hsize : source.utf8ByteSize < 2 ^ 64)
    (h : Rounds (.start source file) n s) : ∃ front rest, Reached source file n s front rest := by
  induction h with
  | start => exact ⟨[], source.toList, .start source file⟩
  | @next n s s' _ hend hround ih =>
    obtain ⟨front, rest, hreached⟩ := ih
    cases rest with
    | nil =>
      rw [hreached.stands.atEnd_iff.mpr rfl] at hend
      cases hend
    | cons c text =>
      obtain ⟨fault, -, hfail⟩ | ⟨piece, rest, hfirst, rfl, hmove⟩ := hreached.stands.round_cases
      · rw [hfail] at hround
        cases hround
      · rw [hmove] at hround
        cases hround
        exact ⟨_, rest, hreached.past hsize hfirst⟩

/-- The rounds come to an end, wherever they start. -/
theorem exists_last_round (hsize : source.utf8ByteSize < 2 ^ 64)
    (h : Rounds (.start source file) n s) (hreached : Reached source file n s front rest) :
    ∃ m s', Rounds (.start source file) m s' ∧
      (s'.cursor.atEnd = true ∨ ∃ error, s'.round = some (.error error)) := by
  induction hlength : rest.length using Nat.strong_induction_on generalizing n s front rest with
  | _ length ih =>
    cases rest with
    | nil => exact ⟨n, s, h, .inl (hreached.stands.atEnd_iff.mpr rfl)⟩
    | cons c text =>
      obtain ⟨fault, -, hfail⟩ | ⟨piece, rest, hfirst, rfl, hmove⟩ := hreached.stands.round_cases
      · exact ⟨n, s, h, .inr ⟨_, hfail⟩⟩
      · have hend : s.cursor.atEnd = false := by
          rw [Bool.eq_false_iff, ne_eq, hreached.stands.atEnd_iff]
          exact List.cons_ne_nil _ _
        have hlt : rest.length < length := by
          rw [← hlength, List.length_cons, List.length_append]
          omega
        exact ih rest.length hlt (.next h hend hmove) (hreached.past hsize hfirst) rfl

/-- A round that goes well takes what the table matches off the front of the
    text: the cursor moves by the bytes of that, and a token covers them. -/
def TakesMatch (s : Scanner) (rest : List Char) : Prop :=
  ∃ action matched s', search rest = some (action, matched) ∧ matched ≠ [] ∧ matched <+: rest ∧
    s.round = some (.ok s') ∧
    s'.cursor.offset.toNat = s.cursor.offset.toNat + byteSize matched ∧
    (s'.tokens = s.tokens ∨ ∃ token, s'.tokens = token :: s.tokens ∧
      token.span = ⟨s.cursor.position, s'.cursor.position⟩)

/-- How a scanner stands after `n` rounds: between two characters of its source,
    with tokens that cover some of it, and with a round ahead that is safe. -/
structure Safe (source file : String) (n : Nat) (s : Scanner) (front rest : List Char) : Prop where
  text_eq : source.toList = front ++ rest
  offset_eq : s.cursor.offset.toNat = byteSize front
  remainder?_eq : s.cursor.remainder? = some rest
  occupies : ∀ token ∈ s.tokens, Occupies token file source.utf8ByteSize
  start_lt_stop : source.utf8ByteSize < 2 ^ 32 →
    ∀ token ∈ s.tokens, token.span.start.offset < token.span.stop.offset
  of_end : s.cursor.atEnd = true →
    n ≤ source.utf8ByteSize ∧ tokenize source file = .ok s.tokens.reverse
  of_round : s.cursor.atEnd = false →
    n < source.utf8ByteSize ∧ (s.TakesMatch rest ∨
      ∃ error, s.round = some (.error error) ∧ tokenize source file = .error error)

theorem Reached.takesMatch (h : Reached source file n s front (c :: (piece.more c ++ rest)))
    (hsize : source.utf8ByteSize < 2 ^ 64)
    (hfirst : Piece.first c (piece.more c ++ rest) = .ok piece)
    (hmove : s.round = some (.ok (s.past c piece))) :
    s.TakesMatch (c :: (piece.more c ++ rest)) := by
  obtain ⟨hstands, htokens⟩ := h.stands.past hsize
  refine ⟨actionOf c piece, c :: piece.more c, s.past c piece, search_of_first hfirst,
    List.cons_ne_nil _ _, ⟨rest, rfl⟩, hmove, ?_, ?_⟩
  · rw [hstands.offset_eq, h.stands.offset_eq, byteSize_append]
  · rw [htokens, h.stands.position_eq, hstands.position_eq, byteSize_append, Piece.tokenAt?]
    cases piece.token? c with
    | none => exact .inl rfl
    | some token => exact .inr ⟨_, rfl, rfl⟩

theorem Reached.safe (h : Reached source file n s front rest)
    (hsize : source.utf8ByteSize < 2 ^ 64) : Safe source file n s front rest := by
  have hbytes := h.stands.size_eq
  have hrounds := h.rounds_le
  have hoccupies : ∀ token ∈ s.tokens, Occupies token file source.utf8ByteSize := by
    intro token htoken
    obtain ⟨first, last, hlt, hle, hspan⟩ := h.occupies token htoken
    exact ⟨first, last, hlt, by omega, hspan⟩
  refine ⟨h.stands.text_eq, h.stands.offset_eq, h.stands.remainder?_eq, hoccupies,
    fun hsmall token htoken => (hoccupies token htoken).start_lt_stop hsmall, ?_, ?_⟩
  · intro hend
    obtain rfl := h.stands.atEnd_iff.mp hend
    refine ⟨by omega, ?_⟩
    rw [← h.scan, tokensFrom]
  · intro hend
    cases rest with
    | nil =>
      rw [h.stands.atEnd_iff.mpr rfl] at hend
      cases hend
    | cons c text =>
      have hc := c.utf8Size_pos
      rw [byteSize_cons] at hbytes
      refine ⟨by omega, ?_⟩
      obtain ⟨fault, hfirst, hfail⟩ | ⟨piece, rest, hfirst, rfl, hmove⟩ := h.stands.round_cases
      · refine .inr ⟨_, hfail, ?_⟩
        rw [← h.scan, tokensFrom, hfirst]
      · exact .inl (h.takesMatch hsize hfirst hmove)

end Scanner

/-- Between its rounds a scanner stands between two characters of its source,
    whose length is a word.  At the end it has the source's tokens.  Anywhere
    else the next round cuts no text where it cannot be cut.  It either ends with
    the error of the source or moves the cursor by the bytes of a match, one or
    more, so the rounds come to an end after no more of them than the source has
    bytes. -/
theorem scanner_stays_in_source (source file : String) (hsize : source.utf8ByteSize < 2 ^ 64) :
    (∀ n s, Scanner.Rounds (.start source file) n s →
      ∃ front rest, Scanner.Safe source file n s front rest) ∧
    ∃ n s, Scanner.Rounds (.start source file) n s ∧
      (s.cursor.atEnd = true ∨ ∃ error, s.round = some (.error error)) := by
  constructor
  · intro n s h
    obtain ⟨front, rest, hreached⟩ := h.reached hsize
    exact ⟨front, rest, hreached.safe hsize⟩
  · exact Scanner.exists_last_round hsize .start (.start source file)

/-- A string of characters with two and three bytes, and a fraction. -/
theorem scanner_stays_in_source_of_string :
    "x = 'é…' + 2.5;".utf8ByteSize < 2 ^ 64 ∧
      ∃ n s, Scanner.Rounds (.start "x = 'é…' + 2.5;" "main") n s ∧ n ≤ 18 ∧
        tokenize "x = 'é…' + 2.5;" "main" = .ok s.tokens.reverse := by
  have hsize : "x = 'é…' + 2.5;".utf8ByteSize < 2 ^ 64 := by decide +kernel
  have hbytes : "x = 'é…' + 2.5;".utf8ByteSize = 18 := by decide +kernel
  have hok : (tokenize "x = 'é…' + 2.5;" "main").isOk := by decide +kernel
  obtain ⟨hsafe, n, s, hrounds, hlast⟩ := scanner_stays_in_source _ "main" hsize
  obtain ⟨front, rest, hs⟩ := hsafe n s hrounds
  refine ⟨hsize, n, s, hrounds, ?_⟩
  rw [← hbytes]
  cases hend : s.cursor.atEnd with
  | true => exact hs.of_end hend
  | false =>
    -- The tokens of the source are there, so no round can have ended with an error.
    obtain ⟨-, ⟨_, _, s', -, -, -, hround, -⟩ | ⟨error, -, herror⟩⟩ := hs.of_round hend
    · rcases hlast with hdone | ⟨error, hfail⟩
      · rw [hend] at hdone
        cases hdone
      · rw [hround] at hfail
        cases hfail
    · rw [herror] at hok
      cases hok

end BlockLang
