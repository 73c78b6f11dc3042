import BlockLang.Proofs.Token.Pieces
import Mathlib.Data.List.Basic

/-! # Table — the scanner as rows of patterns and actions

  A scanner has a table.  Each row has a pattern and an action, and the first
  row whose pattern matches the front of a text says what is done with it.  The
  order of the rows matters, and so does that a row for a mark names the mark
  twice.  This module shows that the table finds what `Piece.first` finds. -/

namespace BlockLang

namespace Scanner

/-! ### Patterns -/

/-- What a row asks of the front of a text. -/
inductive Pattern where
  | gap
  | word
  /-- Digits, and a fraction if there is one. -/
  | number
  /-- A point, and any digits behind it. -/
  | point
  /-- A string between two of these quotes. -/
  | closed (quote : Char)
  /-- A quote of either sort. -/
  | lone
  | exactly (mark : List Char)

/-- The front of a text that matches, if one does. -/
def Pattern.match? : Pattern → List Char → Option (List Char)
  | exactly mark, text => if mark.isPrefixOf text then some mark else none
  | _, [] => none
  | gap, c :: text => if isGap c then some (c :: text.takeWhile isGap) else none
  | word, c :: text => if isWordStart c then some (c :: text.takeWhile isWordPart) else none
  | number, c :: text =>
      if c.isDigit then
        some (c :: (text.takeWhile Char.isDigit ++ Piece.fractionAt (text.dropWhile Char.isDigit)))
      else none
  | point, c :: text => if c = '.' then some (c :: text.takeWhile Char.isDigit) else none
  | closed quote, c :: text =>
      if c = quote ∧ quote ∈ text then some (c :: (text.takeWhile (· ≠ quote) ++ [quote])) else none
  | lone, c :: _ => if isQuote c then some [c] else none

/-! ### Rows -/

/-- What is done with a text that matches. -/
inductive Action where
  | skip
  | word
  | number
  | strayPoint
  | string
  | unterminated
  /-- A mark with its own text, whatever the match was. -/
  | mark (kind : Kind) (text : List Char)

structure Row where
  pattern : Pattern
  action : Action

/-- The rows for marks, those of two characters before their beginnings. -/
def marks : List Row :=
  [⟨.exactly ['['], .mark .openBracket ['[']⟩,
   ⟨.exactly [']'], .mark .closeBracket [']']⟩,
   ⟨.exactly ['('], .mark .openParen ['(']⟩,
   ⟨.exactly [')'], .mark .closeParen [')']⟩,
   ⟨.exactly ['=', '='], .mark .equals ['=', '=']⟩,
   ⟨.exactly ['!', '='], .mark .notEquals ['!', '=']⟩,
   ⟨.exactly ['!'], .mark .not ['!']⟩,
   ⟨.exactly ['='], .mark .assignment ['=']⟩,
   ⟨.exactly ['<', '='], .mark .lessEquals ['<', '=']⟩,
   ⟨.exactly ['<'], .mark .less ['<']⟩,
   ⟨.exactly ['>', '='], .mark .greaterEquals ['>', '=']⟩,
   ⟨.exactly ['>'], .mark .greater ['>']⟩,
   ⟨.exactly ['|', '|'], .mark .or ['|', '|']⟩,
   ⟨.exactly ['|'], .mark .bitOr ['|']⟩,
   ⟨.exactly ['&', '&'], .mark .and ['&', '&']⟩,
   ⟨.exactly ['&'], .mark .bitAnd ['&']⟩,
   ⟨.exactly [';'], .mark .semicolon [';']⟩,
   ⟨.exactly [':'], .mark .colon [':']⟩,
   ⟨.exactly [','], .mark .comma [',']⟩,
   ⟨.exactly ['+'], .mark .plus ['+']⟩,
   ⟨.exactly ['-'], .mark .dash ['-']⟩,
   ⟨.exactly ['/'], .mark .slash ['/']⟩,
   ⟨.exactly ['*'], .mark .star ['*']⟩,
   ⟨.exactly ['%'], .mark .percent ['%']⟩]

/-- All rows.  Closed strings stand before the quotes that nothing closes. -/
def table : List Row :=
  [⟨.gap, .skip⟩, ⟨.word, .word⟩, ⟨.number, .number⟩, ⟨.point, .strayPoint⟩,
   ⟨.closed '"', .string⟩, ⟨.closed '\'', .string⟩, ⟨.lone, .unterminated⟩] ++ marks

/-- The action of the row if it matches, with the front that matches. -/
def Row.match? (text : List Char) (row : Row) : Option (Action × List Char) :=
  (row.pattern.match? text).map (row.action, ·)

/-- The action of the first row that matches, with the front that matches. -/
def search (text : List Char) : Option (Action × List Char) := table.findSome? (Row.match? text)

/-! ### Classes of first characters -/

variable {c : Char} {text : List Char}

theorem search_of_isGap (hc : isGap c = true) :
    search (c :: text) = some (.skip, c :: text.takeWhile isGap) := by
  simp [search, table, Row.match?, Pattern.match?, hc]

theorem search_of_letter (hc : Letter c) :
    search (c :: text) = some (.word, c :: text.takeWhile isWordPart) := by
  have hgap : isGap c = false := by
    rw [Bool.eq_false_iff]
    exact fun hgap => (plain_of_isGap hgap).letter hc
  simp [search, table, Row.match?, Pattern.match?, hgap, letter_iff.mpr hc]

theorem search_of_digit (hc : Digit c) :
    search (c :: text) = some (.number, c ::
      (text.takeWhile Char.isDigit ++ Piece.fractionAt (text.dropWhile Char.isDigit))) := by
  have hgap : isGap c = false := by
    rw [Bool.eq_false_iff]
    exact fun hgap => (plain_of_isGap hgap).digit hc
  have hletter : isWordStart c = false := by
    rw [Bool.eq_false_iff]
    exact fun hletter => (letter_iff.mp hletter).not_digit hc
  simp [search, table, Row.match?, Pattern.match?, hgap, hletter, digit_iff.mpr hc]

theorem search_point : search ('.' :: text) =
    some (.strayPoint, '.' :: text.takeWhile Char.isDigit) := rfl

theorem search_of_isQuote (hc : isQuote c = true) :
    search (c :: text) = if c ∈ text then some (.string, c :: (text.takeWhile (· ≠ c) ++ [c]))
      else some (.unterminated, [c]) := by
  obtain rfl | rfl := isQuote_iff.mp hc
  · by_cases hmem : '"' ∈ text
    · rw [if_pos hmem]
      simp [search, table, Row.match?, Pattern.match?, isGap, isWordStart, hmem]
    · rw [if_neg hmem]
      simp [search, table, Row.match?, Pattern.match?, isGap, isWordStart, isQuote, hmem]
  · by_cases hmem : '\'' ∈ text
    · rw [if_pos hmem]
      simp [search, table, Row.match?, Pattern.match?, isGap, isWordStart, hmem]
    · rw [if_neg hmem]
      simp [search, table, Row.match?, Pattern.match?, isGap, isWordStart, isQuote, hmem]

/-- A text that starts with a character of another sort is searched for marks. -/
theorem search_of_plain (hc : Plain c) (hgap : isGap c = false) (hpoint : c ≠ '.') :
    search (c :: text) = marks.findSome? (Row.match? (c :: text)) := by
  have hletter : isWordStart c = false := Bool.eq_false_iff.mpr (mt letter_iff.mp hc.letter)
  have hdigit : c.isDigit = false := Bool.eq_false_iff.mpr (mt digit_iff.mp hc.digit)
  have hquotes : c ≠ '"' ∧ c ≠ '\'' := by
    rw [← not_or, ← isQuote_iff, hc.quote]
    decide
  simp [search, table, Row.match?, Pattern.match?, hgap, hletter, hdigit, hpoint, hquotes, hc.quote]

/-! ### Marks -/

/-- There is one row for every mark, which names the mark both times. -/
theorem mem_marks_iff {row : Row} :
    row ∈ marks ↔ ∃ kind mark, kind.mark? = some mark ∧ row = ⟨.exactly mark, .mark kind mark⟩ := by
  constructor
  · intro h
    simp only [marks, List.mem_cons, List.not_mem_nil, or_false] at h
    rcases h with rfl | rfl | rfl | rfl | rfl | rfl | rfl | rfl | rfl | rfl | rfl | rfl | rfl |
      rfl | rfl | rfl | rfl | rfl | rfl | rfl | rfl | rfl | rfl | rfl
    all_goals exact ⟨_, _, rfl, rfl⟩
  · rintro ⟨kind, mark, hmark, rfl⟩
    cases kind <;> cases hmark <;> simp [marks]

theorem Row.match?_exactly (kind : Kind) (mark : List Char) :
    Row.match? text ⟨.exactly mark, .mark kind mark⟩ =
      if mark <+: text then some (.mark kind mark, mark) else none := by
  rw [Row.match?, Pattern.match?]
  by_cases h : mark <+: text
  · rw [if_pos h, if_pos (List.isPrefixOf_iff_prefix.mpr h)]
    rfl
  · rw [if_neg h, if_neg (mt List.isPrefixOf_iff_prefix.mp h)]
    rfl

/-- Where no mark of two characters stands, only a mark of one is found. -/
theorem eq_of_match?_of_mem_marks {row : Row} {found : Action × List Char}
    (hpair : text.head?.bind (Kind.ofMarkPair? c) = none) (hrow : row ∈ marks)
    (h : row.match? (c :: text) = some found) :
    ∃ kind, Kind.ofMark? c = some kind ∧ found = (.mark kind [c], [c]) := by
  obtain ⟨kind, mark, hmark, rfl⟩ := mem_marks_iff.mp hrow
  rw [Row.match?_exactly] at h
  split at h
  · rename_i hfront
    cases h
    rcases Kind.mark?_eq_some_iff.mp hmark with ⟨a, rfl, hkind⟩ | ⟨a, b, rfl, hkind⟩
    · obtain ⟨rfl, -⟩ := List.cons_prefix_cons.mp hfront
      exact ⟨kind, hkind, rfl⟩
    · obtain ⟨rfl, more, rfl⟩ := List.cons_prefix_cons.mp hfront
      rw [List.singleton_append, List.head?_cons, Option.bind_some, hkind] at hpair
      cases hpair
  · cases h

/-- The rows for marks find the mark at the front of a text. -/
theorem findSome?_marks (c : Char) (text : List Char) :
    marks.findSome? (Row.match? (c :: text)) =
      match text.head?.bind (Kind.ofMarkPair? c) with
      | some kind => some (.mark kind (c :: text.take 1), c :: text.take 1)
      | none => (Kind.ofMark? c).map fun kind => (.mark kind [c], [c]) := by
  cases hpair : text.head?.bind (Kind.ofMarkPair? c) with
  | some kind =>
    obtain ⟨d, hd, hkind⟩ := Option.bind_eq_some_iff.mp hpair
    obtain ⟨more, rfl⟩ : ∃ more, text = d :: more := ⟨text.tail, (List.cons_head?_tail hd).symm⟩
    unfold Kind.ofMarkPair? at hkind
    split at hkind <;> cases hkind <;> rfl
  | none =>
    cases hfound : marks.findSome? (Row.match? (c :: text)) with
    | some found =>
      obtain ⟨row, hrow, htry⟩ := List.exists_of_findSome?_eq_some hfound
      obtain ⟨kind, hkind, rfl⟩ := eq_of_match?_of_mem_marks hpair hrow htry
      rw [hkind]
      rfl
    | none =>
      cases hmark : Kind.ofMark? c with
      | none => rfl
      | some kind =>
        -- The row for this mark would have matched.
        have hrow : ⟨.exactly [c], .mark kind [c]⟩ ∈ marks :=
          mem_marks_iff.mpr ⟨kind, [c], Kind.mark?_eq_some_iff.mpr (.inl ⟨c, rfl, hmark⟩), rfl⟩
        have htry := List.findSome?_eq_none_iff.mp hfound _ hrow
        rw [Row.match?_exactly, if_pos ⟨text, rfl⟩] at htry
        cases htry

/-! ### The table and the pieces -/

/-- The first character of a text decides how its front is read. -/
theorem first_cases {motive : Except Fault Piece → Prop}
    (gap : isGap c = true → motive (.ok (.gap (text.takeWhile isGap))))
    (word : Letter c → motive (.ok (.word (text.takeWhile isWordPart))))
    (number : Digit c → motive (Piece.firstNumber c text))
    (point : c = '.' →
      motive (.error (.malformedNumber (String.ofList ('.' :: text.takeWhile Char.isDigit)))))
    (closed : isQuote c = true → c ∈ text → motive (.ok (.quoted (text.takeWhile (· ≠ c)))))
    (lone : isQuote c = true → c ∉ text → motive (.error (.unterminatedString c)))
    (mark : Plain c → isGap c = false → c ≠ '.' →
      motive (match Piece.firstMark? c text with
        | some piece => .ok piece
        | none => .error (.unexpectedCharacter c))) :
    motive (Piece.first c text) := by
  unfold Piece.first
  split
  · exact gap ‹_›
  rename_i hgap
  split
  · exact word (letter_iff.mp ‹_›)
  rename_i hletter
  split
  · exact number (digit_iff.mp ‹_›)
  rename_i hdigit
  split
  · exact point ‹_›
  rename_i hpoint
  split
  · rename_i hquote
    split
    · exact closed hquote ‹_›
    · exact lone hquote ‹_›
  · rename_i hquote
    exact mark ⟨mt letter_iff.mpr hletter, mt digit_iff.mpr hdigit, Bool.eq_false_iff.mpr hquote⟩
      (Bool.eq_false_iff.mpr hgap) hpoint

/-- What is done with a piece that starts with `c`. -/
def actionOf (c : Char) : Piece → Action
  | .gap _ => .skip
  | .word _ => .word
  | .number _ _ => .number
  | .quoted _ => .string
  | .mark kind more => .mark kind (c :: more)

/-- Behind the other classes, a mark is found or nothing. -/
theorem search_mark (hc : Plain c) (hgap : isGap c = false) (hpoint : c ≠ '.') :
    search (c :: text) = (Piece.firstMark? c text).map fun piece =>
      (actionOf c piece, c :: piece.more c) := by
  rw [search_of_plain hc hgap hpoint, findSome?_marks]
  unfold Piece.firstMark?
  cases text.head?.bind (Kind.ofMarkPair? c) with
  | some kind => rfl
  | none => cases Kind.ofMark? c <;> rfl

/-- The table finds the piece at the front of a text. -/
theorem search_of_first {piece : Piece} (h : Piece.first c text = .ok piece) :
    search (c :: text) = some (actionOf c piece, c :: piece.more c) := by
  revert h
  refine first_cases (motive := fun result => result = .ok piece → _)
    ?gap ?word ?number ?point ?closed ?lone ?mark
  case gap =>
    rintro hgap ⟨⟩
    exact search_of_isGap hgap
  case word =>
    rintro hletter ⟨⟩
    exact search_of_letter hletter
  case number =>
    intro hdigit h
    unfold Piece.firstNumber at h
    dsimp only at h
    split at h
    · cases h
    · cases h
      exact search_of_digit hdigit
  case point => exact fun _ => nofun
  case closed =>
    rintro hquote hmem ⟨⟩
    rw [search_of_isQuote hquote, if_pos hmem]
    rfl
  case lone => exact fun _ _ => nofun
  case mark =>
    intro hplain hgap hpoint h
    rw [search_mark hplain hgap hpoint]
    cases hmark : Piece.firstMark? c text with
    | some found =>
      rw [hmark] at h
      cases h
      rfl
    | none =>
      rw [hmark] at h
      cases h

end Scanner

end BlockLang
