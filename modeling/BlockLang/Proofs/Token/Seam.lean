import BlockLang.Proofs.Token.Cutting

/-! # Seams — a gap separates what stands on its two sides

  No piece reaches across a gap except a string, and a string that is closed
  ends before it.  So a text that scans to its end scans in the same way when
  a gap and any other text follow, and the scan then goes on with that other
  text as if it stood alone, only further on. -/

namespace BlockLang

variable {c w : Char} {text rest : List Char} {file : String} {offset : Nat}
  {tokens before : List Token} {piece : Piece}

/-! ### The character at the seam -/

theorem not_isWordPart_of_isGap (hw : isGap w = true) : isWordPart w = false := by
  rw [Bool.eq_false_iff]
  intro hpart
  obtain hletter | hdigit := letter_or_digit_iff.mp hpart
  · exact (plain_of_isGap hw).letter hletter
  · exact (plain_of_isGap hw).digit hdigit

theorem not_isDigit_of_isGap (hw : isGap w = true) : w.isDigit = false := by
  rw [Bool.eq_false_iff]
  intro hdigit
  exact (plain_of_isGap hw).digit (digit_iff.mp hdigit)

theorem ne_point_of_isGap (hw : isGap w = true) : w ≠ '.' := by
  rintro rfl
  exact absurd hw (by decide)

/-- No mark ends in a gap. -/
theorem ofMarkPair?_of_isGap (c : Char) (hw : isGap w = true) : Kind.ofMarkPair? c w = none := by
  have heq : w ≠ '=' ∧ w ≠ '|' ∧ w ≠ '&' := by
    refine ⟨?_, ?_, ?_⟩ <;> rintro rfl <;> exact absurd hw (by decide)
  unfold Kind.ofMarkPair?
  split <;> first | rfl | simp_all

/-- A run that goes to the end of a text goes no further than that when a
    character of another class follows. -/
theorem takeWhile_append_seam {p : Char → Bool} (hw : p w = false) (text rest : List Char) :
    (text ++ w :: rest).takeWhile p = text.takeWhile p := by
  induction text with
  | nil => exact List.takeWhile_cons_of_neg (by rw [hw]; decide)
  | cons d text ih =>
    rw [List.cons_append, List.takeWhile_cons, List.takeWhile_cons, ih]

theorem dropWhile_append_seam {p : Char → Bool} (hw : p w = false) (text rest : List Char) :
    (text ++ w :: rest).dropWhile p = text.dropWhile p ++ w :: rest := by
  induction text with
  | nil => exact List.dropWhile_cons_of_neg (by rw [hw]; decide)
  | cons d text ih =>
    rw [List.cons_append, List.dropWhile_cons, List.dropWhile_cons, ih]
    split <;> rfl

/-! ### One piece -/

namespace Piece

theorem fractionAt_append (hw : isGap w = true) (text rest : List Char) :
    fractionAt (text ++ w :: rest) = fractionAt text := by
  cases text with
  | nil =>
    have hpoint := ne_point_of_isGap hw
    rw [List.nil_append]
    unfold fractionAt
    split
    · rename_i heq
      exact absurd (List.cons.inj heq).1 hpoint
    · rfl
  | cons d text =>
    rw [List.cons_append]
    by_cases hd : d = '.'
    · subst hd
      show (let digits := (text ++ w :: rest).takeWhile Char.isDigit
        if digits.isEmpty then [] else '.' :: digits) = _
      rw [takeWhile_append_seam (not_isDigit_of_isGap hw)]
      rfl
    · unfold fractionAt
      simp [hd]

/-- What stands first behind a cut in a text is a point whether or not a gap
    and more text follow. -/
theorem head?_drop_append_eq_point_iff (hw : isGap w = true) {n : Nat} (hn : n ≤ text.length)
    (rest : List Char) :
    ((text ++ w :: rest).drop n).head? = some '.' ↔ (text.drop n).head? = some '.' := by
  rw [List.drop_append_of_le_length hn, List.head?_append]
  cases (text.drop n).head? with
  | some d => rfl
  | none =>
    have hpoint := ne_point_of_isGap hw
    simpa using hpoint

/-- A number that stands before a gap is read alone. -/
theorem firstNumber_append (hw : isGap w = true) (c : Char) (text rest : List Char) :
    firstNumber c (text ++ w :: rest) = firstNumber c text := by
  have hdigit := not_isDigit_of_isGap hw
  have htake := takeWhile_append_seam hdigit text rest
  have hfraction : fractionAt ((text ++ w :: rest).dropWhile Char.isDigit) =
      fractionAt (text.dropWhile Char.isDigit) := by
    rw [dropWhile_append_seam hdigit, fractionAt_append hw]
  have hlength : (text.takeWhile Char.isDigit ++
      fractionAt (text.dropWhile Char.isDigit)).length ≤ text.length := by
    obtain ⟨tail, htail⟩ := isPrefix_fractionAt (text.dropWhile Char.isDigit)
    refine List.IsPrefix.length_le ⟨tail, ?_⟩
    rw [List.append_assoc, htail, List.takeWhile_append_dropWhile]
  unfold firstNumber
  dsimp only
  rw [htake, hfraction]
  simp only [head?_drop_append_eq_point_iff hw hlength]

/-- A mark that stands before a gap is read alone. -/
theorem firstMark?_append (hw : isGap w = true) (c : Char) (text rest : List Char) :
    firstMark? c (text ++ w :: rest) = firstMark? c text := by
  cases text with
  | nil =>
    unfold firstMark?
    rw [List.nil_append, List.head?_cons, Option.bind_some, ofMarkPair?_of_isGap c hw]
    rfl
  | cons d text => rfl

/-- The body of a string that is closed within a text. -/
theorem takeWhile_append_of_mem (hmem : c ∈ text) (rest : List Char) :
    (text ++ rest).takeWhile (· ≠ c) = text.takeWhile (· ≠ c) := by
  induction text with
  | nil => cases hmem
  | cons d text ih =>
    by_cases hd : d = c
    · subst hd
      simp
    · have hmem' := (List.mem_cons.mp hmem).resolve_left (Ne.symm hd)
      simpa [hd] using ih hmem'

/-- A quote opens a string that its next occurrence closes. -/
theorem first_of_isQuote (hc : isQuote c = true) (text : List Char) :
    first c text =
      if c ∈ text then .ok (.quoted (text.takeWhile (· ≠ c)))
      else .error (.unterminatedString c) := by
  rcases isQuote_iff.mp hc with rfl | rfl <;> rfl

theorem mem_of_first (h : first c text = .ok piece) (hquote : isQuote c = true) : c ∈ text := by
  rw [first_of_isQuote hquote] at h
  by_contra hmem
  rw [if_neg hmem] at h
  cases h

/-- What stands before a gap is read alone, a fault as well as a piece.  There
    are two exceptions: a run of gaps goes on behind the seam, and a string
    may be closed there. -/
theorem first_append (hc : isGap c = false) (hclosed : isQuote c = true → c ∈ text)
    (hw : isGap w = true) (rest : List Char) : first c (text ++ w :: rest) = first c text := by
  by_cases hquote : isQuote c = true
  · have hmem := hclosed hquote
    rw [first_of_isQuote hquote, first_of_isQuote hquote, if_pos hmem,
      if_pos (List.mem_append_left _ hmem), takeWhile_append_of_mem hmem]
  · have hgap : ¬ isGap c = true := by
      rw [hc]
      decide
    unfold first
    rw [if_neg hgap, if_neg hgap, if_neg hquote, if_neg hquote,
      takeWhile_append_seam (not_isWordPart_of_isGap hw), firstNumber_append hw,
      takeWhile_append_seam (not_isDigit_of_isGap hw), firstMark?_append hw]

end Piece

/-! ### Gaps -/

theorem tokensFrom_cons_of_isGap (hc : isGap c = true) (text : List Char) :
    tokensFrom file before offset (c :: text) =
      tokensFrom file before (offset + byteSize (c :: text.takeWhile isGap))
        (text.dropWhile isGap) := by
  have hfirst : Piece.first c text = .ok (.gap (text.takeWhile isGap)) := by
    unfold Piece.first
    rw [if_pos hc]
  rw [tokensFrom, hfirst]
  dsimp only [Piece.more]
  rw [drop_length_takeWhile]
  rfl

/-- A gap counts for nothing but its bytes, also where more of them follow. -/
theorem tokensFrom_gap (hc : isGap c = true) (text : List Char) :
    tokensFrom file before offset (c :: text) =
      tokensFrom file before (offset + c.utf8Size) text := by
  rw [tokensFrom_cons_of_isGap hc, byteSize_cons, ← Nat.add_assoc]
  cases text with
  | nil => rfl
  | cons d text =>
    by_cases hd : isGap d = true
    · -- Both runs end at the same place.
      rw [tokensFrom_cons_of_isGap hd, List.takeWhile_cons_of_pos hd,
        List.dropWhile_cons_of_pos hd]
    · rw [List.takeWhile_cons_of_neg hd, List.dropWhile_cons_of_neg hd]
      rfl

/-- Gaps are skipped one by one as well as in a run. -/
theorem tokensFrom_gaps (gaps : List Char) (hgaps : ∀ d ∈ gaps, isGap d = true)
    (text : List Char) :
    tokensFrom file before offset (gaps ++ text) =
      tokensFrom file before (offset + byteSize gaps) text := by
  induction gaps generalizing offset with
  | nil => rfl
  | cons d gaps ih =>
    rw [List.cons_append, tokensFrom_gap (hgaps d List.mem_cons_self),
      ih (fun e he => hgaps e (List.mem_cons_of_mem _ he)), byteSize_cons, Nat.add_assoc]

/-! ### Whole texts -/

theorem tokensFrom_cons (h : Piece.first c text = .ok piece) :
    tokensFrom file before offset (c :: text) =
      tokensFrom file ((piece.tokenAt? c file offset).toList ++ before) (offset + piece.size c)
        (text.drop (piece.more c).length) := by
  rw [tokensFrom, h]

/-- A round that finds a piece finds it also before a gap. -/
theorem tokensFrom_cons_append (h : Piece.first c text = .ok piece) (hw : isGap w = true)
    (rest : List Char) :
    tokensFrom file before offset (c :: text ++ w :: rest) =
      tokensFrom file ((piece.tokenAt? c file offset).toList ++ before) (offset + piece.size c)
        (text.drop (piece.more c).length ++ w :: rest) := by
  rw [List.cons_append]
  by_cases hc : isGap c = true
  · -- The run may go on behind the seam, so it is skipped gap by gap.
    have hpiece : piece = .gap (text.takeWhile isGap) := by
      unfold Piece.first at h
      rw [if_pos hc] at h
      exact (Except.ok.inj h).symm
    subst hpiece
    have hrun : ∀ d ∈ text.takeWhile isGap, isGap d = true :=
      fun d hd => List.mem_takeWhile_imp hd
    have htext : text ++ w :: rest =
        text.takeWhile isGap ++ (text.dropWhile isGap ++ w :: rest) := by
      rw [← List.append_assoc, List.takeWhile_append_dropWhile]
    rw [tokensFrom_gap hc, htext, tokensFrom_gaps _ hrun, Piece.more, drop_length_takeWhile,
      Piece.size, byteSize_cons, Nat.add_assoc]
    rfl
  · rw [Bool.not_eq_true] at hc
    have hdrop : (text ++ w :: rest).drop (piece.more c).length =
        text.drop (piece.more c).length ++ w :: rest :=
      List.drop_append_of_le_length (Piece.isPrefix_of_first h).length_le
    have hfirst := Piece.first_append hc (Piece.mem_of_first h) hw rest
    rw [tokensFrom_cons (hfirst.trans h), hdrop]

/-- What scans to its end scans in the same way before a gap, and the scan
    goes on behind the gap. -/
theorem tokensFrom_append (h : tokensFrom file before offset text = .ok tokens)
    (hw : isGap w = true) (rest : List Char) :
    tokensFrom file before offset (text ++ w :: rest) =
      tokensFrom file tokens.reverse (offset + byteSize text + w.utf8Size) rest := by
  fun_induction tokensFrom file before offset text with
  | case1 before offset =>
    cases h
    rw [List.nil_append, tokensFrom_gap hw, List.reverse_reverse]
    rfl
  | case2 before offset c text fault hfirst => cases h
  | case3 before offset c text piece hfirst ih =>
    have hbytes := size_add_byteSize_drop hfirst
    have hlast : offset + piece.size c + byteSize (text.drop (piece.more c).length) + w.utf8Size =
        offset + byteSize (c :: text) + w.utf8Size := by omega
    rw [tokensFrom_cons_append hfirst hw, ih h, hlast]

/-- A text that fails with anything but an open string fails in the same way
    before a gap. -/
theorem tokensFrom_append_of_error {error : Error}
    (h : tokensFrom file before offset text = .error error)
    (hclosed : ∀ quote, error.fault ≠ .unterminatedString quote) (hw : isGap w = true)
    (rest : List Char) :
    tokensFrom file before offset (text ++ w :: rest) = .error error := by
  fun_induction tokensFrom file before offset text with
  | case1 before offset => cases h
  | case2 before offset c text fault hfirst =>
    cases h
    have hmem : isQuote c = true → c ∈ text := by
      intro hquote
      by_contra hmem
      rw [Piece.first_of_isQuote hquote, if_neg hmem] at hfirst
      cases hfirst
      exact hclosed c rfl
    have hgap := (refused_of_first hfirst).not_isGap
    rw [List.cons_append, tokensFrom, Piece.first_append hgap hmem hw, hfirst]
  | case3 before offset c text piece hfirst ih =>
    rw [tokensFrom_cons_append hfirst hw]
    exact ih h

/-! ### Sources -/

/-- The place stands behind the first `bytes` bytes of its text. -/
def Position.Past (bytes : Nat) (position : Position) : Prop := bytes < position.offset.toNat

/-- Both ends of the token stand behind the first `bytes` bytes. -/
structure Token.Past (bytes : Nat) (token : Token) : Prop where
  start : token.span.start.Past bytes
  stop : token.span.stop.Past bytes

/-- No token of a cut starts before the cut does. -/
theorem Cut.past {bytes : Nat} (h : Cut file offset text tokens) (hbytes : bytes < offset) :
    ∀ token ∈ tokens, token.Past bytes := by
  induction h with
  | done => nofun
  | gap hrun hall hhead hrest ih => exact ih (by omega)
  | piece hpiece hspan hrest ih =>
    intro token htoken
    obtain rfl | htoken := List.mem_cons.mp htoken
    · constructor
      · show bytes < _
        rw [hspan.start_offset]
        exact hbytes
      · show bytes < _
        rw [hspan.stop_offset]
        omega
    · exact ih (by omega) token htoken

theorem byteSize_toList (source : String) : byteSize source.toList = source.utf8ByteSize := by
  rw [← utf8ByteSize_ofList, String.ofList_toList]

/-- A source that scans keeps its tokens when a line is added behind it, and
    what the new line brings, tokens or a fault, stands behind the source. -/
theorem tokenize_append {source : String} (h : tokenize source file = .ok tokens) (line : String)
    (hsize : (source ++ "\n" ++ line).utf8ByteSize < 2 ^ 32) :
    (∀ all, tokenize (source ++ "\n" ++ line) file = .ok all →
      ∃ more, all = tokens ++ more ∧ ∀ token ∈ more, token.Past source.utf8ByteSize) ∧
    ∀ error, tokenize (source ++ "\n" ++ line) file = .error error →
      error.position.Past source.utf8ByteSize := by
  have htext : (source ++ "\n" ++ line).toList = source.toList ++ '\n' :: line.toList := by
    simp
  have hgap : isGap '\n' = true := by decide
  have hscan : tokenize (source ++ "\n" ++ line) file =
      tokensFrom file tokens.reverse (source.utf8ByteSize + 1) line.toList := by
    rw [tokenize, htext, tokensFrom_append h hgap, Nat.zero_add, byteSize_toList]
    rfl
  have hbytes : source.utf8ByteSize + 1 + byteSize line.toList < 2 ^ 32 := by
    rw [byteSize_toList]
    rwa [String.utf8ByteSize_append, String.utf8ByteSize_append] at hsize
  rw [hscan]
  constructor
  · intro all hall
    obtain ⟨more, rfl, hcut⟩ := (tokensFrom_eq_ok_iff hbytes).mp hall
    rw [List.reverse_reverse]
    exact ⟨more, rfl, hcut.past (Nat.lt_succ_self _)⟩
  · intro error herror
    obtain ⟨front, rest, hline, hposition, -, -⟩ :=
      exists_cut_of_tokensFrom_eq_error hbytes herror
    have hoffset : source.utf8ByteSize + 1 + byteSize front < 2 ^ 32 := by
      rw [hline, byteSize_append] at hbytes
      omega
    show _ < error.position.offset.toNat
    rw [hposition, Position.after, UInt32.toNat_ofNat_of_lt' hoffset]
    omega

end BlockLang
