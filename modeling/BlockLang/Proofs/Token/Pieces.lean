import BlockLang.Proofs.Token.Language
import Mathlib.Data.List.TakeWhile
import Mathlib.Tactic.Tauto

/-! # Pieces — scanning finds the longest one

  The first character of a text decides what class of piece can stand at its
  front, so the longest piece of that class is the longest of all.  This
  module shows that `Piece.first` takes it, or a gap up to its end, and that
  it fails exactly where no piece can be taken. -/

namespace BlockLang

/-! ### Characters -/

theorem digit_iff {c : Char} : c.isDigit = true ↔ Digit c := by
  simp [Char.isDigit, Digit, Char.le_def, UInt32.le_iff_toNat_le]

theorem letter_iff {c : Char} : isWordStart c = true ↔ Letter c := by
  have halpha : c.isAlpha = (decide ('A' ≤ c ∧ c ≤ 'Z') || ('a' ≤ c) && (c ≤ 'z')) := rfl
  simp [isWordStart, halpha, Letter]
  tauto

theorem letter_or_digit_iff {c : Char} : isWordPart c = true ↔ Letter c ∨ Digit c := by
  rw [← letter_iff, ← digit_iff]
  simp [isWordPart, isWordStart, Char.isAlphanum]
  tauto

theorem isQuote_iff {c : Char} : isQuote c = true ↔ c = '"' ∨ c = '\'' := by
  simp [isQuote]

instance (c : Char) : Decidable (Letter c) := decidable_of_iff _ letter_iff

instance (c : Char) : Decidable (Digit c) := decidable_of_iff _ digit_iff

theorem Letter.not_digit {c : Char} (h : Letter c) : ¬ Digit c := by
  intro hdigit
  unfold Letter at h
  unfold Digit at hdigit
  simp only [Char.le_def, UInt32.le_iff_toNat_le] at h hdigit
  obtain h | h | rfl := h
  · exact absurd (Nat.le_trans h.1 hdigit.2) (by decide)
  · exact absurd (Nat.le_trans h.1 hdigit.2) (by decide)
  · exact absurd hdigit.2 (by decide)

/-- A character that starts neither a word nor a number nor a string. -/
structure Plain (c : Char) : Prop where
  letter : ¬ Letter c
  digit : ¬ Digit c
  quote : isQuote c = false

theorem plain_of_isGap {c : Char} (h : isGap c = true) : Plain c := by
  simp only [isGap, Bool.or_eq_true, decide_eq_true_eq] at h
  obtain ((rfl | rfl) | rfl) | rfl := h <;> exact ⟨by decide, by decide, by decide⟩

theorem plain_point : Plain '.' := ⟨by decide, by decide, by decide⟩

theorem Letter.isQuote_eq_false {c : Char} (h : Letter c) : isQuote c = false := by
  rw [Bool.eq_false_iff]
  intro hquote
  obtain rfl | rfl := isQuote_iff.mp hquote <;> exact absurd h (by decide)

theorem Digit.isQuote_eq_false {c : Char} (h : Digit c) : isQuote c = false := by
  rw [Bool.eq_false_iff]
  intro hquote
  obtain rfl | rfl := isQuote_iff.mp hquote <;> exact absurd h (by decide)

/-! ### Marks -/

/-- A mark has one character or two. -/
theorem Kind.mark?_eq_some_iff {kind : Kind} {text : List Char} :
    kind.mark? = some text ↔
      (∃ c, text = [c] ∧ Kind.ofMark? c = some kind) ∨
        ∃ c d, text = [c, d] ∧ Kind.ofMarkPair? c d = some kind := by
  constructor
  · intro h
    cases kind <;> cases h <;>
      first | exact .inl ⟨_, rfl, rfl⟩ | exact .inr ⟨_, _, rfl, rfl⟩
  · intro h
    obtain ⟨c, rfl, h⟩ | ⟨c, d, rfl, h⟩ := h
    · unfold Kind.ofMark? at h
      split at h <;> cases h <;> rfl
    · unfold Kind.ofMarkPair? at h
      split at h <;> cases h <;> rfl

/-- What a mark starts with starts nothing else. -/
theorem Kind.plain_of_mark? {kind : Kind} {c : Char} {more : List Char}
    (h : kind.mark? = some (c :: more)) : Plain c ∧ isGap c = false ∧ c ≠ '.' := by
  cases kind <;> cases h <;> exact ⟨⟨by decide, by decide, by decide⟩, by decide, by decide⟩

/-- What a mark starts with is a mark of its own. -/
theorem Kind.exists_ofMark?_of_mark? {kind : Kind} {c : Char} {more : List Char}
    (h : kind.mark? = some (c :: more)) : ∃ kind', Kind.ofMark? c = some kind' := by
  cases kind <;> cases h <;> exact ⟨_, rfl⟩

/-! ### What the first character decides -/

variable {c : Char} {text more rest lexeme : List Char} {kind : Kind}

theorem IsWord.letter (h : IsWord (c :: more)) : Letter c := by
  obtain ⟨d, more', heq, hd, -⟩ := h
  cases heq
  exact hd

theorem IsDigits.digit (h : IsDigits (c :: more)) : Digit c := h.2 c (List.mem_cons_self)

theorem IsNumber.digit (h : IsNumber (c :: more)) : Digit c := by
  obtain h | ⟨whole, fraction, heq, hwhole, -⟩ := h
  · exact h.digit
  · cases whole with
    | nil => exact absurd rfl hwhole.1
    | cons d whole =>
      cases heq
      exact hwhole.digit

theorem Spells.ne_nil (h : Spells text kind lexeme) : text ≠ [] := by
  cases h with
  | keyword hword _ | name hword _ =>
    obtain ⟨c, more, rfl, -⟩ := hword
    exact List.cons_ne_nil c more
  | integer hdigits => exact hdigits.1
  | float hdecimal =>
    obtain ⟨whole, fraction, rfl, -⟩ := hdecimal
    exact List.append_ne_nil_of_right_ne_nil whole (List.cons_ne_nil _ _)
  | string _ _ => exact List.cons_ne_nil _ _
  | mark hmark =>
    rintro rfl
    obtain ⟨c, h, -⟩ | ⟨c, d, h, -⟩ := Kind.mark?_eq_some_iff.mp hmark <;> cases h

theorem Spells.of_letter (h : Spells (c :: more) kind lexeme) (hc : Letter c) :
    IsWord (c :: more) ∧ kind = Kind.ofWord (String.ofList (c :: more)) ∧ lexeme = c :: more := by
  cases h with
  | keyword hword hkind => exact ⟨hword, by rw [Kind.ofWord, hkind]; rfl, rfl⟩
  | name hword hkind => exact ⟨hword, by rw [Kind.ofWord, hkind]; rfl, rfl⟩
  | integer hdigits => exact absurd hdigits.digit hc.not_digit
  | float hdecimal => exact absurd (IsNumber.digit (.inr hdecimal)) hc.not_digit
  | string hquote _ =>
    rw [← isQuote_iff, hc.isQuote_eq_false] at hquote
    cases hquote
  | mark hmark => exact absurd hc (Kind.plain_of_mark? hmark).1.letter

theorem Spells.of_digit (h : Spells (c :: more) kind lexeme) (hc : Digit c) :
    (IsDigits (c :: more) ∧ kind = .integer ∨ IsDecimal (c :: more) ∧ kind = .float) ∧
      lexeme = c :: more := by
  cases h with
  | keyword hword _ => exact absurd hc hword.letter.not_digit
  | name hword _ => exact absurd hc hword.letter.not_digit
  | integer hdigits => exact ⟨.inl ⟨hdigits, rfl⟩, rfl⟩
  | float hdecimal => exact ⟨.inr ⟨hdecimal, rfl⟩, rfl⟩
  | string hquote _ =>
    rw [← isQuote_iff, hc.isQuote_eq_false] at hquote
    cases hquote
  | mark hmark => exact absurd hc (Kind.plain_of_mark? hmark).1.digit

theorem Spells.isNumber (h : Spells (c :: more) kind lexeme) (hc : Digit c) :
    IsNumber (c :: more) :=
  (h.of_digit hc).1.imp And.left And.left

theorem Spells.of_isQuote (h : Spells (c :: more) kind lexeme) (hc : isQuote c = true) :
    ∃ body, c ∉ body ∧ more = body ++ [c] ∧ kind = .string ∧ lexeme = '\'' :: body ++ ['\''] := by
  cases h with
  | keyword hword _ => rw [hword.letter.isQuote_eq_false] at hc; cases hc
  | name hword _ => rw [hword.letter.isQuote_eq_false] at hc; cases hc
  | integer hdigits => rw [hdigits.digit.isQuote_eq_false] at hc; cases hc
  | float hdecimal => rw [(IsNumber.digit (.inr hdecimal)).isQuote_eq_false] at hc; cases hc
  | string _ hbody => exact ⟨_, hbody, rfl, rfl, rfl⟩
  | mark hmark => rw [(Kind.plain_of_mark? hmark).1.quote] at hc; cases hc

theorem Spells.of_plain (h : Spells (c :: more) kind lexeme) (hc : Plain c) :
    kind.mark? = some (c :: more) ∧ lexeme = c :: more := by
  cases h with
  | keyword hword _ => exact absurd hword.letter hc.letter
  | name hword _ => exact absurd hword.letter hc.letter
  | integer hdigits => exact absurd hdigits.digit hc.digit
  | float hdecimal => exact absurd (IsNumber.digit (.inr hdecimal)) hc.digit
  | string hquote _ =>
    rw [← isQuote_iff, hc.quote] at hquote
    cases hquote
  | mark hmark => exact ⟨hmark, rfl⟩

/-- No piece starts with a character of a gap, or with a point. -/
theorem Spells.not_isGap (h : Spells (c :: more) kind lexeme) : isGap c = false ∧ c ≠ '.' := by
  have hmark (hc : Plain c) : isGap c = false ∧ c ≠ '.' :=
    (Kind.plain_of_mark? (h.of_plain hc).1).2
  refine ⟨Bool.eq_false_iff.mpr fun hgap => ?_, fun hpoint => ?_⟩
  · rw [(hmark (plain_of_isGap hgap)).1] at hgap
    cases hgap
  · subst hpoint
    exact (hmark plain_point).2 rfl

theorem IsDecimal.not_isDigits (h : IsDecimal text) : ¬ IsDigits text := by
  obtain ⟨whole, fraction, rfl, -⟩ := h
  intro hdigits
  exact absurd (hdigits.2 '.' (by simp)) plain_point.digit

/-- The text of a piece decides on its kind and its lexeme. -/
theorem Spells.unique {kind' : Kind} {lexeme' : List Char} (h : Spells text kind lexeme)
    (h' : Spells text kind' lexeme') : kind = kind' ∧ lexeme = lexeme' := by
  obtain ⟨c, more, rfl⟩ := List.exists_cons_of_ne_nil h.ne_nil
  by_cases hletter : Letter c
  · obtain ⟨-, rfl, rfl⟩ := h.of_letter hletter
    obtain ⟨-, rfl, rfl⟩ := h'.of_letter hletter
    exact ⟨rfl, rfl⟩
  by_cases hdigit : Digit c
  · obtain ⟨hkind, rfl⟩ := h.of_digit hdigit
    obtain ⟨hkind', rfl⟩ := h'.of_digit hdigit
    refine ⟨?_, rfl⟩
    obtain ⟨hd, rfl⟩ | ⟨hd, rfl⟩ := hkind <;> obtain ⟨hd', rfl⟩ | ⟨hd', rfl⟩ := hkind'
    · rfl
    · exact absurd hd hd'.not_isDigits
    · exact absurd hd' hd.not_isDigits
    · rfl
  by_cases hquote : isQuote c = true
  · obtain ⟨body, -, hmore, rfl, rfl⟩ := h.of_isQuote hquote
    obtain ⟨body', -, hmore', rfl, rfl⟩ := h'.of_isQuote hquote
    obtain rfl : body = body' := List.append_cancel_right (hmore.symm.trans hmore')
    exact ⟨rfl, rfl⟩
  · have hplain : Plain c := ⟨hletter, hdigit, Bool.eq_false_iff.mpr hquote⟩
    obtain ⟨hmark, rfl⟩ := h.of_plain hplain
    obtain ⟨hmark', rfl⟩ := h'.of_plain hplain
    refine ⟨?_, rfl⟩
    -- No two marks are written alike.
    obtain ⟨d, htext, hd⟩ | ⟨d, e, htext, hd⟩ := Kind.mark?_eq_some_iff.mp hmark <;>
      obtain ⟨d', htext', hd'⟩ | ⟨d', e', htext', hd'⟩ := Kind.mark?_eq_some_iff.mp hmark' <;>
      rw [htext] at htext' <;> cases htext'
    · exact Option.some.inj (hd.symm.trans hd')
    · exact Option.some.inj (hd.symm.trans hd')

/-! ### The longest of its class -/

section Longest

variable {p : Char → Bool} {front : List Char}

/-- A front all of whose characters are wanted is within the longest one. -/
theorem length_le_takeWhile (hle : front <+: text) (h : ∀ d ∈ front, p d = true) :
    front.length ≤ (text.takeWhile p).length := by
  obtain ⟨rest, rfl⟩ := hle
  rw [List.takeWhile_append_of_pos h, List.length_append]
  exact Nat.le_add_right _ _

/-- A front of wanted characters is all that is taken if an unwanted one, or
    nothing, stands behind it. -/
theorem takeWhile_append_of_stop (h : ∀ d ∈ front, p d = true)
    (hrest : ∀ d, rest.head? = some d → p d = false) : (front ++ rest).takeWhile p = front := by
  rw [List.takeWhile_append_of_pos h]
  cases rest with
  | nil => exact List.append_nil front
  | cons d rest => rw [List.takeWhile_cons_of_neg (by simp [hrest d rfl]), List.append_nil]

theorem dropWhile_append_of_stop (h : ∀ d ∈ front, p d = true)
    (hrest : ∀ d, rest.head? = some d → p d = false) : (front ++ rest).dropWhile p = rest := by
  rw [List.dropWhile_append_of_pos h]
  cases rest with
  | nil => rfl
  | cons d rest => rw [List.dropWhile_cons_of_neg (by simp [hrest d rfl])]

end Longest

/-- A piece at the front of a text starts with the first character. -/
theorem Spells.exists_cons_of_prefix {other : List Char} (h : Spells other kind lexeme)
    (hfront : other <+: c :: text) : ∃ more, other = c :: more ∧ more <+: text := by
  obtain ⟨d, more, rfl⟩ := List.exists_cons_of_ne_nil h.ne_nil
  obtain ⟨rfl, hmore⟩ := List.cons_prefix_cons.mp hfront
  exact ⟨more, rfl, hmore⟩

theorem isPiece_word (hc : Letter c) (text : List Char) :
    IsPiece (c :: text.takeWhile isWordPart)
      (Kind.ofWord (String.ofList (c :: text.takeWhile isWordPart)))
      (c :: text.takeWhile isWordPart) (text.dropWhile isWordPart) where
  spells := by
    have hword : IsWord (c :: text.takeWhile isWordPart) :=
      ⟨c, _, rfl, hc, fun d hd => letter_or_digit_iff.mp (List.mem_takeWhile_imp hd)⟩
    unfold Kind.ofWord
    cases hkind : Kind.reserved? (String.ofList (c :: text.takeWhile isWordPart)) with
    | none => exact .name hword hkind
    | some kind => exact .keyword hword hkind
  longest := by
    intro other kind' lexeme' hother hfront
    rw [List.cons_append, List.takeWhile_append_dropWhile] at hfront
    obtain ⟨more, rfl, hmore⟩ := hother.exists_cons_of_prefix hfront
    obtain ⟨⟨d, more', heq, -, hparts⟩, -⟩ := hother.of_letter hc
    cases heq
    exact Nat.succ_le_succ
      (length_le_takeWhile hmore fun d hd => letter_or_digit_iff.mpr (hparts d hd))
  bounded := fun hnumber => absurd hnumber.digit hc.not_digit

theorem isPiece_quoted (hc : isQuote c = true) (hmem : c ∈ text) :
    ∃ rest, text = (text.takeWhile (· ≠ c) ++ [c]) ++ rest ∧
      IsPiece (c :: (text.takeWhile (· ≠ c) ++ [c])) .string
        ('\'' :: text.takeWhile (· ≠ c) ++ ['\'']) rest := by
  obtain ⟨rest, hrest⟩ := Piece.isPrefix_quoted hmem
  refine ⟨rest, hrest.symm, ?_, ?_, ?_⟩
  · refine .string (isQuote_iff.mp hc) fun hbody => ?_
    simpa using List.mem_takeWhile_imp hbody
  · intro other kind' lexeme' hother hfront
    rw [List.cons_append, hrest] at hfront
    obtain ⟨more, rfl, rest', hmore⟩ := hother.exists_cons_of_prefix hfront
    obtain ⟨body, hbody, rfl, -⟩ := hother.of_isQuote hc
    -- The first quote of the kind closes either string.
    have htake : text.takeWhile (· ≠ c) = body := by
      rw [← hmore, List.append_assoc, List.singleton_append]
      refine takeWhile_append_of_stop (fun d hd => ?_) (by simp)
      exact decide_eq_true fun (heq : d = c) => hbody (heq ▸ hd)
    rw [htake]
  · intro hnumber
    rw [hnumber.digit.isQuote_eq_false] at hc
    cases hc

theorem isPiece_mark {piece : Piece} (h : Piece.firstMark? c text = some piece) :
    ∃ kind more rest, piece = .mark kind more ∧ text = more ++ rest ∧
      IsPiece (c :: more) kind (c :: more) rest := by
  -- Any other mark at the front is `c`, or `c` and the next character if these are a mark.
  have hother {other lexeme' : List Char} {kind' : Kind} (hc : Plain c)
      (hspells : Spells other kind' lexeme') (hfront : other <+: c :: text) :
      other.length ≤ 1 ∨ other.length = 2 ∧
        text.head?.bind (Kind.ofMarkPair? c) = some kind' := by
    obtain ⟨more, rfl, rest', hmore⟩ := hspells.exists_cons_of_prefix hfront
    obtain ⟨hmark, -⟩ := hspells.of_plain hc
    obtain ⟨d, heq, -⟩ | ⟨d, e, heq, hpair⟩ := Kind.mark?_eq_some_iff.mp hmark
    · exact .inl (by rw [heq]; exact Nat.le_refl 1)
    · cases heq
      exact .inr ⟨rfl, by rw [← hmore]; exact hpair⟩
  unfold Piece.firstMark? at h
  split at h
  · rename_i kind hpair
    cases h
    cases text with
    | nil => cases hpair
    | cons d text =>
      have hmark : kind.mark? = some [c, d] := Kind.mark?_eq_some_iff.mpr (.inr ⟨c, d, rfl, hpair⟩)
      have hc : Plain c := (Kind.plain_of_mark? hmark).1
      refine ⟨kind, [d], text, rfl, rfl, .mark hmark, ?_, fun hn => absurd hn.digit hc.digit⟩
      intro other kind' lexeme' hspells hfront
      obtain hle | ⟨hlen, -⟩ := hother hc hspells hfront
      · exact Nat.le_succ_of_le hle
      · exact Nat.le_of_eq hlen
  · rename_i hpair
    obtain ⟨kind, hsingle, rfl⟩ := Option.map_eq_some_iff.mp h
    have hmark : kind.mark? = some [c] := Kind.mark?_eq_some_iff.mpr (.inl ⟨c, rfl, hsingle⟩)
    have hc : Plain c := (Kind.plain_of_mark? hmark).1
    refine ⟨kind, [], text, rfl, rfl, .mark hmark, ?_, fun hn => absurd hn.digit hc.digit⟩
    intro other kind' lexeme' hspells hfront
    obtain hle | ⟨-, hsome⟩ := hother hc hspells hfront
    · exact hle
    · rw [hpair] at hsome
      cases hsome

/-! ### Numbers -/

/-- What stands behind the digits is either no fraction, or one up to its last
    digit. -/
theorem fractionAt_cases (text : List Char) :
    (Piece.fractionAt text = [] ∧ ∀ fraction, IsDigits fraction → ¬ '.' :: fraction <+: text) ∨
      ∃ fraction, Piece.fractionAt text = '.' :: fraction ∧ IsDigits fraction ∧
        ∀ other, IsDigits other → '.' :: other <+: text → other.length ≤ fraction.length := by
  unfold Piece.fractionAt
  split
  · rename_i text
    dsimp only
    have hle (other : List Char) (hother : IsDigits other) (hfront : '.' :: other <+: '.' :: text) :
        other.length ≤ (text.takeWhile Char.isDigit).length :=
      length_le_takeWhile (List.cons_prefix_cons.mp hfront).2
        fun d hd => digit_iff.mpr (hother.2 d hd)
    split
    · rename_i hempty
      rw [List.isEmpty_iff] at hempty
      refine .inl ⟨rfl, fun fraction hfraction hfront => ?_⟩
      have hlen := hle fraction hfraction hfront
      rw [hempty] at hlen
      exact hfraction.1 (List.length_eq_zero_iff.mp (Nat.le_zero.mp hlen))
    · rename_i hne
      refine .inr ⟨_, rfl, ⟨fun heq => hne (by rw [heq]; rfl), fun d hd => ?_⟩, hle⟩
      exact digit_iff.mp (List.mem_takeWhile_imp hd)
  · rename_i hpoint
    refine .inl ⟨rfl, fun fraction _ hfront => ?_⟩
    obtain ⟨rest, rfl⟩ := hfront
    exact hpoint _ rfl

theorem isDigits_takeWhile (hc : Digit c) (text : List Char) :
    IsDigits (c :: text.takeWhile Char.isDigit) := by
  refine ⟨List.cons_ne_nil _ _, fun d hd => ?_⟩
  obtain rfl | hd := List.mem_cons.mp hd
  · exact hc
  · exact digit_iff.mp (List.mem_takeWhile_imp hd)

/-- Digits with a fraction are a float, without one an integer. -/
theorem spells_number (hc : Digit c) (text : List Char) :
    Spells (c :: text.takeWhile Char.isDigit ++ Piece.fractionAt (text.dropWhile Char.isDigit))
      (if (Piece.fractionAt (text.dropWhile Char.isDigit)).isEmpty then .integer else .float)
      (c :: text.takeWhile Char.isDigit ++
        Piece.fractionAt (text.dropWhile Char.isDigit)) := by
  have hdigits := isDigits_takeWhile hc text
  obtain ⟨hnone, -⟩ | ⟨fraction, hsome, hfraction, -⟩ :=
    fractionAt_cases (text.dropWhile Char.isDigit)
  · rw [hnone, List.append_nil]
    exact .integer hdigits
  · rw [hsome]
    exact .float ⟨_, fraction, rfl, hdigits, hfraction⟩

/-- A digit, the digits behind it and their fraction are the longest number. -/
theorem longestNumber_of_digit (hc : Digit c) (htext : text =
      text.takeWhile Char.isDigit ++ Piece.fractionAt (text.dropWhile Char.isDigit) ++ rest) :
    LongestNumber (c :: text.takeWhile Char.isDigit ++
      Piece.fractionAt (text.dropWhile Char.isDigit)) rest := by
  have hisDigit : c.isDigit = true := digit_iff.mpr hc
  -- A decimal at the front has the digits before its point and a fraction behind them.
  have hdecimal {whole fraction : List Char} (hwhole : IsDigits whole)
      (hfront : whole ++ '.' :: fraction <+: c :: text) :
      whole = c :: text.takeWhile Char.isDigit ∧
        '.' :: fraction <+: text.dropWhile Char.isDigit := by
    obtain ⟨rest', hrest'⟩ := hfront
    rw [List.append_assoc, List.cons_append] at hrest'
    have hall : ∀ d ∈ whole, d.isDigit = true := fun d hd => digit_iff.mpr (hwhole.2 d hd)
    have hpoint (d : Char) (hd : ('.' :: (fraction ++ rest')).head? = some d) :
        d.isDigit = false := by
      cases hd
      rfl
    have htake : (c :: text).takeWhile Char.isDigit = whole := by
      rw [← hrest']
      exact takeWhile_append_of_stop hall hpoint
    have hdrop : (c :: text).dropWhile Char.isDigit = '.' :: (fraction ++ rest') := by
      rw [← hrest']
      exact dropWhile_append_of_stop hall hpoint
    rw [List.takeWhile_cons_of_pos hisDigit] at htake
    rw [List.dropWhile_cons_of_pos hisDigit] at hdrop
    exact ⟨htake.symm, rest', by rw [hdrop, List.cons_append]⟩
  refine ⟨(spells_number hc text).isNumber hc, ?_⟩
  intro other hother hfront
  rw [List.cons_append, List.cons_append, ← htext] at hfront
  rw [List.length_append]
  obtain hother | ⟨whole, fraction, rfl, hwhole, hfraction⟩ := hother
  · have hle : other.length ≤ ((c :: text).takeWhile Char.isDigit).length :=
      length_le_takeWhile hfront fun d hd => digit_iff.mpr (hother.2 d hd)
    rw [List.takeWhile_cons_of_pos hisDigit] at hle
    exact Nat.le_add_right_of_le hle
  · obtain ⟨rfl, hpoint⟩ := hdecimal hwhole hfront
    obtain ⟨-, hno⟩ | ⟨longest, hsome, -, hle⟩ :=
      fractionAt_cases (text.dropWhile Char.isDigit)
    · exact absurd hpoint (hno fraction hfraction)
    · rw [hsome, List.length_append, List.length_cons (a := '.'), List.length_cons (a := '.')]
      exact Nat.add_le_add_left (Nat.succ_le_succ (hle fraction hfraction hpoint)) _

/-- The longest number is a piece unless a point follows it. -/
theorem LongestNumber.isPiece (hc : Digit c) (h : LongestNumber (c :: more) rest)
    (hspells : Spells (c :: more) kind lexeme) (hpoint : rest.head? ≠ some '.') :
    IsPiece (c :: more) kind lexeme rest := by
  refine ⟨hspells, ?_, fun _ => hpoint⟩
  intro other kind' lexeme' hother hfront
  obtain ⟨more', rfl, -⟩ := hother.exists_cons_of_prefix hfront
  exact h.longest (hother.isNumber hc) hfront

/-! ### What stands at the front of a text -/

/-- What the scanner may find at the front of the text that starts with `c`: a
    gap up to its end, a piece, or a fault where no piece can be taken. -/
inductive Front (c : Char) (text : List Char) : Except Fault Piece → Prop where
  | gap : isGap c = true → Front c text (.ok (.gap (text.takeWhile isGap)))
  | piece {piece kind lexeme rest} : piece.token? c = some (kind, lexeme) →
      text = piece.more c ++ rest → IsPiece (c :: piece.more c) kind lexeme rest →
      Front c text (.ok piece)
  | refused {fault} : Refused (c :: text) fault → Front c text (.error fault)

theorem front_firstNumber (hc : Digit c) (text : List Char) :
    Front c text (Piece.firstNumber c text) := by
  unfold Piece.firstNumber
  dsimp only
  have htext : text = text.takeWhile Char.isDigit ++
      Piece.fractionAt (text.dropWhile Char.isDigit) ++
      text.drop (text.takeWhile Char.isDigit ++
        Piece.fractionAt (text.dropWhile Char.isDigit)).length := by
    refine (List.prefix_iff_eq_append.mp ?_).symm
    obtain ⟨rest, hrest⟩ := Piece.isPrefix_fractionAt (text.dropWhile Char.isDigit)
    exact ⟨rest, by rw [List.append_assoc, hrest, List.takeWhile_append_dropWhile]⟩
  have hlongest := longestNumber_of_digit hc htext
  split
  · rename_i hpoint
    obtain ⟨rest, hrest⟩ := List.head?_eq_some_iff.mp hpoint
    rw [hrest] at htext hlongest
    have hrefused := Refused.danglingPoint hlongest
    rw [List.cons_append, List.cons_append, ← htext] at hrefused
    exact .refused hrefused
  · rename_i hpoint
    exact .piece rfl htext (hlongest.isPiece hc (spells_number hc text) hpoint)

/-- Scanning finds a gap, a piece or the fault of what stands there. -/
theorem front_first (c : Char) (text : List Char) : Front c text (Piece.first c text) := by
  unfold Piece.first
  -- By the class of the first character, in the order in which the classes are tried.
  split
  · rename_i hgap
    exact .gap hgap
  rename_i hgap
  split
  · rename_i hletter
    exact .piece rfl List.takeWhile_append_dropWhile.symm
      (isPiece_word (letter_iff.mp hletter) text)
  rename_i hletter
  split
  · rename_i hdigit
    exact front_firstNumber (digit_iff.mp hdigit) text
  rename_i hdigit
  split
  · rename_i hpoint
    subst hpoint
    have hrest := List.head?_dropWhile_not Char.isDigit text
    have hrefused : Refused ('.' :: (text.takeWhile Char.isDigit ++ text.dropWhile Char.isDigit))
        (.malformedNumber (String.ofList ('.' :: text.takeWhile Char.isDigit))) := by
      refine .strayPoint (fun d hd => digit_iff.mp (List.mem_takeWhile_imp hd)) ?_
      intro d hd hdigit
      rw [hd] at hrest
      exact absurd (digit_iff.mpr hdigit) (Bool.eq_false_iff.mp hrest)
    rw [List.takeWhile_append_dropWhile] at hrefused
    exact .refused hrefused
  rename_i hpoint
  split
  · rename_i hquote
    split
    · rename_i hmem
      obtain ⟨rest, htext, hpiece⟩ := isPiece_quoted hquote hmem
      exact .piece rfl htext hpiece
    · rename_i hmem
      exact .refused (.unterminated (isQuote_iff.mp hquote) hmem)
  rename_i hquote
  split
  · rename_i piece hmark
    obtain ⟨kind, more, rest, rfl, htext, hpiece⟩ := isPiece_mark hmark
    exact .piece rfl htext hpiece
  · rename_i hmark
    have hplain : Plain c := ⟨fun h => hletter (letter_iff.mpr h),
      fun h => hdigit (digit_iff.mpr h), Bool.eq_false_iff.mpr hquote⟩
    refine .refused (.unexpected (Bool.eq_false_iff.mpr hgap) hpoint ?_)
    intro text' kind lexeme hspells hhead
    obtain ⟨more, rfl⟩ := List.head?_eq_some_iff.mp hhead
    -- Every mark starts with one that has a single character.
    obtain ⟨hsome, -⟩ := hspells.of_plain hplain
    obtain ⟨kind', hkind'⟩ := Kind.exists_ofMark?_of_mark? hsome
    unfold Piece.firstMark? at hmark
    split at hmark
    · cases hmark
    · rw [hkind'] at hmark
      cases hmark

end BlockLang
