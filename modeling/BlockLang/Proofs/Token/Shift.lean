import BlockLang.Proofs.Token.Seam

/-! # Shifts — a text scans in the same way wherever it starts

  The scanner carries an offset along, and looks at it only to place tokens
  and faults.  So the same text further on has the same tokens or the same
  fault, further on by as much.  A text behind a gap is scanned like this: what
  stands before the gap only shifts it.

  Places are 32-bit words, and a shift wraps around as they do. -/

namespace BlockLang

/-! ### Places further on -/

/-- The place as many bytes further on. -/
def Position.shift (bytes : UInt32) (position : Position) : Position :=
  { position with offset := position.offset + bytes }

/-- The span as many bytes further on. -/
def Span.shift (bytes : UInt32) (span : Span) : Span :=
  ⟨span.start.shift bytes, span.stop.shift bytes⟩

/-- The token as many bytes further on. -/
def Token.shift (bytes : UInt32) (token : Token) : Token :=
  { token with span := token.span.shift bytes }

/-- The error as many bytes further on. -/
def Error.shift (bytes : UInt32) (error : Error) : Error :=
  { error with position := error.position.shift bytes }

theorem Position.shift_zero (position : Position) : position.shift 0 = position := by
  rw [shift, UInt32.add_zero]

theorem Span.shift_zero (span : Span) : span.shift 0 = span := by
  rw [shift, span.start.shift_zero, span.stop.shift_zero]

theorem Token.shift_zero (token : Token) : token.shift 0 = token := by
  rw [shift, token.span.shift_zero]

section

variable (a b : UInt32)

theorem Position.shift_shift (position : Position) :
    (position.shift a).shift b = position.shift (a + b) := by
  rw [shift, shift, shift, UInt32.add_assoc]

theorem Span.shift_shift (span : Span) : (span.shift a).shift b = span.shift (a + b) := by
  rw [shift, shift, shift, Position.shift_shift, Position.shift_shift]

theorem Token.shift_shift (token : Token) : (token.shift a).shift b = token.shift (a + b) := by
  rw [shift, shift, shift, Span.shift_shift]

end

theorem Position.after_add (file : String) (bytes offset : Nat) :
    after file (bytes + offset) = (after file offset).shift (.ofNat bytes) := by
  rw [Nat.add_comm, after, UInt32.ofNat_add]
  rfl

namespace Piece

/-- A piece further on has its token further on. -/
theorem tokenAt?_shift (c : Char) (file : String) (bytes offset : Nat) (piece : Piece) :
    piece.tokenAt? c file (bytes + offset) =
      (piece.tokenAt? c file offset).map (Token.shift (.ofNat bytes)) := by
  unfold tokenAt?
  rw [Option.map_map, Nat.add_assoc, Position.after_add, Position.after_add]
  rfl

end Piece

/-! ### Texts further on -/

variable {file : String}

/-- What a scan finds, as many bytes further on and behind other tokens. -/
def shiftScan (before : List Token) (bytes : UInt32) :
    Except Error (List Token) → Except Error (List Token)
  | .ok tokens => .ok (before ++ tokens.map (Token.shift bytes))
  | .error error => .error (error.shift bytes)

/-- The same text behind other tokens is scanned in the same way. -/
theorem tokensFrom_shift (earlier : List Token) (bytes : Nat) (before : List Token)
    (offset : Nat) (text : List Char) :
    tokensFrom file (before.map (Token.shift (.ofNat bytes)) ++ earlier) (bytes + offset) text =
      shiftScan earlier.reverse (.ofNat bytes) (tokensFrom file before offset text) := by
  fun_induction tokensFrom file before offset text with
  | case1 before offset => simp [tokensFrom, shiftScan]
  | case2 before offset c text fault hfirst =>
    rw [tokensFrom, hfirst]
    simp only [shiftScan, Error.shift, Position.after_add]
  | case3 before offset c text piece hfirst ih =>
    rw [tokensFrom_cons hfirst, Piece.tokenAt?_shift, Nat.add_assoc, ← ih]
    cases piece.tokenAt? c file offset <;> rfl

/-- Behind other tokens a text is scanned as it is at its own start. -/
theorem tokensFrom_eq_shiftScan (earlier : List Token) (bytes : Nat) (text : List Char) :
    tokensFrom file earlier bytes text =
      shiftScan earlier.reverse (.ofNat bytes) (tokensFrom file [] 0 text) :=
  tokensFrom_shift earlier bytes [] 0 text

/-! ### Sources -/

variable {source : String} {w : Char} {tokens : List Token}

theorem toList_across_gap (source more : String) (w : Char) :
    (source ++ w.toString ++ more).toList = source.toList ++ w :: more.toList := by
  simp

theorem isGap_of_mem (hw : w ∈ [' ', '\t', '\r', '\n']) : isGap w = true ∧ w.utf8Size = 1 := by
  simp only [List.mem_cons, List.not_mem_nil, or_false] at hw
  rcases hw with rfl | rfl | rfl | rfl <;> exact ⟨rfl, rfl⟩

/-- Behind a source that scans and a gap, a text is scanned as it is alone. -/
theorem tokenize_eq_shiftScan (h : tokenize source file = .ok tokens)
    (hw : w ∈ [' ', '\t', '\r', '\n']) (more : String) :
    tokenize (source ++ w.toString ++ more) file =
      shiftScan tokens (.ofNat (source.utf8ByteSize + 1)) (tokenize more file) := by
  obtain ⟨hgap, hsize⟩ := isGap_of_mem hw
  have hscan := tokensFrom_append h hgap more.toList
  rw [hsize, Nat.zero_add, byteSize_toList] at hscan
  rw [tokenize, toList_across_gap, hscan, tokensFrom_eq_shiftScan, List.reverse_reverse]
  rfl

/-- A gap separates two sources.  If the first one has tokens, these come
    first, and then the tokens or the fault of the second one, further on by
    the size of the first one and the gap.  If the first one has a fault that no
    text behind can mend, the whole has it too. -/
theorem tokenize_across_gap (source more file : String) {w : Char}
    (hw : w ∈ [' ', '\t', '\r', '\n']) :
    (∀ tokens, tokenize source file = .ok tokens →
      (∀ others, tokenize more file = .ok others →
        tokenize (source ++ w.toString ++ more) file =
          .ok (tokens ++ others.map (Token.shift (.ofNat (source.utf8ByteSize + 1))))) ∧
      ∀ error, tokenize more file = .error error →
        tokenize (source ++ w.toString ++ more) file =
          .error (error.shift (.ofNat (source.utf8ByteSize + 1)))) ∧
    ∀ error, tokenize source file = .error error →
      (∃ c, error.fault = .unexpectedCharacter c) ∨ (∃ text, error.fault = .malformedNumber text) →
      tokenize (source ++ w.toString ++ more) file = .error error := by
  constructor
  · intro tokens h
    rw [tokenize_eq_shiftScan h hw]
    constructor
    · intro others hothers
      rw [hothers, shiftScan]
    · intro error herror
      rw [herror, shiftScan]
  · intro error h hfault
    have hclosed : ∀ quote, error.fault ≠ .unterminatedString quote := by
      intro quote heq
      rw [heq] at hfault
      rcases hfault with ⟨c, hc⟩ | ⟨text, htext⟩
      · cases hc
      · cases htext
    rw [tokenize, toList_across_gap]
    exact tokensFrom_append_of_error h hclosed (isGap_of_mem hw).1 more.toList

/-- A line break between `<` and `=` keeps them apart, and the digit on the next
    line is no fraction of the number before. -/
theorem tokenize_across_gap_of_broken_comparison :
    '\n' ∈ [' ', '\t', '\r', '\n'] ∧
      (∃ tokens others, tokenize "i<" defaultFile = .ok tokens ∧
        tokenize "=1" defaultFile = .ok others ∧
        tokenize ("i<" ++ '\n'.toString ++ "=1") defaultFile =
          .ok (tokens ++ others.map (Token.shift (.ofNat ("i<".utf8ByteSize + 1))))) ∧
      ∃ error, tokenize "x = 1." defaultFile = .error error ∧
        error.fault = .malformedNumber "1." ∧
        tokenize ("x = 1." ++ '\n'.toString ++ "5;") defaultFile = .error error := by
  have hw : '\n' ∈ [' ', '\t', '\r', '\n'] := by decide
  refine ⟨hw, ?_, ?_⟩
  · have hok : (tokenize "i<" defaultFile).isOk := by decide +kernel
    have hok' : (tokenize "=1" defaultFile).isOk := by decide +kernel
    obtain ⟨tokens, h⟩ := Result.exists_of_isOk hok
    obtain ⟨others, h'⟩ := Result.exists_of_isOk hok'
    exact ⟨tokens, others, h, h', ((tokenize_across_gap "i<" "=1" _ hw).1 tokens h).1 others h'⟩
  · have h : tokenize "x = 1." defaultFile =
        .error ⟨.malformedNumber "1.", .after defaultFile 4⟩ := by decide +kernel
    exact ⟨_, h, rfl, (tokenize_across_gap "x = 1." "5;" _ hw).2 _ h (.inr ⟨_, rfl⟩)⟩

end BlockLang
