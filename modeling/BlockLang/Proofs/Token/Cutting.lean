import BlockLang.Proofs.Result
import BlockLang.Proofs.Token.Pieces
import Mathlib.Algebra.Ring.Nat

/-! # Cutting — the tokens of a source are those of its cut

  A source has at most one cut, since the piece at the front of a text is
  determined by the text.  Each round of the scanner takes off what the cut
  takes off, so the scanner succeeds exactly on the sources that can be cut.
  Where it fails, what stands before the fault can be cut, and no cut goes on
  behind. -/

namespace BlockLang

variable {c : Char} {text rest lexeme : List Char} {kind : Kind} {file : String}
  {offset : Nat} {tokens before : List Token} {fault : Fault} {piece : Piece}

/-! ### Pieces are determined -/

theorem IsNumber.exists_spells (h : IsNumber text) : ∃ kind, Spells text kind text := by
  obtain h | h := h
  · exact ⟨.integer, .integer h⟩
  · exact ⟨.float, .float h⟩

/-- A text has one piece at its front. -/
theorem IsPiece.unique {text' rest' lexeme' : List Char} {kind' : Kind}
    (h : IsPiece text kind lexeme rest) (h' : IsPiece text' kind' lexeme' rest')
    (heq : text ++ rest = text' ++ rest') :
    text = text' ∧ rest = rest' ∧ kind = kind' ∧ lexeme = lexeme' := by
  have hlen : text.length = text'.length :=
    Nat.le_antisymm (h'.longest h.spells ⟨rest, heq⟩) (h.longest h'.spells ⟨rest', heq.symm⟩)
  obtain ⟨rfl, rfl⟩ := List.append_inj heq hlen
  obtain ⟨rfl, rfl⟩ := h.spells.unique h'.spells
  exact ⟨rfl, rfl, rfl, rfl⟩

/-- A piece stays one when the text behind it is cut short. -/
theorem IsPiece.of_append {more : List Char} (h : IsPiece text kind lexeme (rest ++ more)) :
    IsPiece text kind lexeme rest where
  spells := h.spells
  longest := by
    intro other kind' lexeme' hother hfront
    refine h.longest hother ?_
    rw [← List.append_assoc]
    exact hfront.trans (List.prefix_append _ _)
  bounded := by
    intro hnumber hpoint
    refine h.bounded hnumber ?_
    rw [List.head?_append, hpoint, Option.some_or]

/-- A piece at the front of a text starts with its first character. -/
theorem IsPiece.exists_cons {front : List Char} (h : IsPiece front kind lexeme rest)
    (heq : front ++ rest = c :: text) : ∃ more, front = c :: more ∧ more ++ rest = text := by
  obtain ⟨d, more, rfl⟩ := List.exists_cons_of_ne_nil h.spells.ne_nil
  cases heq
  exact ⟨more, rfl, rfl⟩

/-- No piece starts where a gap does. -/
theorem IsPiece.not_isGap {front : List Char} (h : IsPiece front kind lexeme rest)
    (heq : front ++ rest = c :: text) : isGap c = false := by
  obtain ⟨more, rfl, -⟩ := h.exists_cons heq
  exact h.spells.not_isGap.1

/-- Where no piece can be taken, none is at the front. -/
theorem Refused.not_isPiece {front : List Char} (h : Refused text fault)
    (heq : front ++ rest = text) : ¬ IsPiece front kind lexeme rest := by
  intro hpiece
  cases h with
  | unterminated hquote hmem =>
    obtain ⟨more, rfl, rfl⟩ := hpiece.exists_cons heq
    -- A string at the front would have its closing quote there.
    obtain ⟨body, -, rfl, -⟩ := hpiece.spells.of_isQuote (isQuote_iff.mpr hquote)
    exact hmem (by simp)
  | strayPoint _ _ =>
    obtain ⟨more, rfl, -⟩ := hpiece.exists_cons heq
    exact hpiece.spells.not_isGap.2 rfl
  | danglingPoint hnumber =>
    rename_i number rest'
    obtain ⟨d, digits, rfl⟩ : ∃ d digits, number = d :: digits := by
      obtain ⟨kind', hspells⟩ := hnumber.isNumber.exists_spells
      exact List.exists_cons_of_ne_nil hspells.ne_nil
    have hdigit : Digit d := hnumber.isNumber.digit
    obtain ⟨more, rfl, -⟩ := hpiece.exists_cons heq
    have hfront : IsNumber (d :: more) := hpiece.spells.isNumber hdigit
    -- Both are the longest number, so the point comes right behind the piece.
    have hlen : (d :: more).length = (d :: digits).length := by
      obtain ⟨kind', hspells⟩ := hnumber.isNumber.exists_spells
      exact Nat.le_antisymm (hnumber.longest hfront ⟨rest, heq⟩)
        (hpiece.longest hspells ⟨_, heq.symm⟩)
    obtain ⟨-, rfl⟩ := List.append_inj heq hlen
    exact hpiece.bounded hfront rfl
  | unexpected _ _ hnone =>
    obtain ⟨more, rfl, -⟩ := hpiece.exists_cons heq
    exact hnone hpiece.spells rfl

theorem Refused.not_isGap (h : Refused (c :: text) fault) : isGap c = false := by
  rw [Bool.eq_false_iff]
  intro hgap
  have hplain := plain_of_isGap hgap
  generalize hwhole : c :: text = whole at h
  cases h with
  | unterminated hquote _ =>
    cases hwhole
    rw [← isQuote_iff, hplain.quote] at hquote
    cases hquote
  | strayPoint _ _ =>
    cases hwhole
    exact absurd hgap (by decide)
  | danglingPoint hnumber =>
    rename_i number rest'
    cases number with
    | nil =>
      obtain ⟨kind', hspells⟩ := hnumber.isNumber.exists_spells
      exact hspells.ne_nil rfl
    | cons d digits =>
      cases hwhole
      exact hplain.digit hnumber.isNumber.digit
  | unexpected hnot _ _ =>
    cases hwhole
    rw [hgap] at hnot
    cases hnot

/-! ### Offsets -/

theorem utf8ByteSize_ofList (text : List Char) :
    (String.ofList text).utf8ByteSize = byteSize text := by
  induction text with
  | nil => rfl
  | cons c text ih =>
    rw [byteSize_cons, ← ih, String.ofList_cons, String.utf8ByteSize_append,
      String.utf8ByteSize_singleton]

/-- A span within the words covers its bytes. -/
theorem covers_iff {span : Span} {first last : Nat} (hle : first ≤ last) (hlast : last < 2 ^ 32) :
    span.Covers file first last ↔ span = ⟨.after file first, .after file last⟩ := by
  have hoffset {n : Nat} (hn : n ≤ last) : (UInt32.ofNat n).toNat = n :=
    UInt32.toNat_ofNat_of_lt' (Nat.lt_of_le_of_lt hn hlast)
  constructor
  · intro h
    obtain ⟨⟨first', file'⟩, ⟨last', file''⟩⟩ := span
    obtain ⟨rfl, rfl, hfile, rfl⟩ := h
    simp only at hfile
    rw [hfile, Position.after, Position.after, UInt32.ofNat_toNat, UInt32.ofNat_toNat]
  · rintro rfl
    exact ⟨rfl, hoffset hle, rfl, hoffset (Nat.le_refl _)⟩

/-! ### One round -/

theorem cut_nil_iff : Cut file offset [] tokens ↔ tokens = [] := by
  constructor
  · intro h
    generalize hnil : [] = text at h
    cases h with
    | done => rfl
    | gap hrun _ _ _ => exact absurd (List.append_eq_nil_iff.mp hnil.symm).1 hrun
    | piece hpiece _ _ =>
      exact absurd (List.append_eq_nil_iff.mp hnil.symm).1 hpiece.spells.ne_nil
  · rintro rfl
    exact .done

/-- A gap is taken off as a whole. -/
theorem cut_cons_iff_of_isGap (hc : isGap c = true) :
    Cut file offset (c :: text) tokens ↔
      Cut file (offset + byteSize (c :: text.takeWhile isGap)) (text.dropWhile isGap) tokens := by
  have htake : (c :: text).takeWhile isGap = c :: text.takeWhile isGap :=
    List.takeWhile_cons_of_pos hc
  have hdrop : (c :: text).dropWhile isGap = text.dropWhile isGap := List.dropWhile_cons_of_pos hc
  rw [← htake, ← hdrop]
  constructor
  · intro h
    generalize hwhole : c :: text = whole at h ⊢
    cases h with
    | done => cases hwhole
    | gap hrun hall hhead hrest =>
      rwa [takeWhile_append_of_stop hall hhead, dropWhile_append_of_stop hall hhead]
    | piece hpiece _ _ =>
      obtain ⟨more, rfl, -⟩ := hpiece.exists_cons hwhole.symm
      rw [hpiece.not_isGap hwhole.symm] at hc
      cases hc
  · intro h
    rw [← List.takeWhile_append_dropWhile (p := isGap) (l := c :: text)]
    refine .gap (htake ▸ List.cons_ne_nil _ _) (fun d hd => List.mem_takeWhile_imp hd) ?_ h
    intro d hd
    have hhead := List.head?_dropWhile_not isGap (c :: text)
    rwa [hd] at hhead

/-- A piece is taken off, and its token stands for it. -/
theorem cut_iff_of_isPiece {front : List Char} (hpiece : IsPiece front kind lexeme rest)
    (hsize : offset + byteSize (front ++ rest) < 2 ^ 32) :
    Cut file offset (front ++ rest) tokens ↔
      ∃ more, tokens = ⟨kind, String.ofList lexeme,
          ⟨.after file offset, .after file (offset + byteSize front)⟩⟩ :: more ∧
        Cut file (offset + byteSize front) rest more := by
  have hlast : offset + byteSize front < 2 ^ 32 := by
    rw [byteSize_append] at hsize
    omega
  constructor
  · intro h
    generalize hwhole : front ++ rest = whole at h
    cases h with
    | done =>
      obtain ⟨hnil, -⟩ := List.append_eq_nil_iff.mp hwhole
      exact absurd hnil hpiece.spells.ne_nil
    | gap hrun hall _ _ =>
      obtain ⟨c, run, rfl⟩ := List.exists_cons_of_ne_nil hrun
      have hgap := hpiece.not_isGap hwhole
      rw [hall c List.mem_cons_self] at hgap
      cases hgap
    | piece hpiece' hspan hrest =>
      obtain ⟨rfl, rfl, rfl, rfl⟩ := hpiece.unique hpiece' hwhole
      rw [covers_iff (Nat.le_add_right _ _) hlast] at hspan
      exact ⟨_, by rw [hspan], hrest⟩
  · intro h
    obtain ⟨more, rfl, hrest⟩ := h
    exact .piece hpiece ((covers_iff (Nat.le_add_right _ _) hlast).mpr rfl) hrest

theorem drop_length_takeWhile (p : Char → Bool) (text : List Char) :
    text.drop (text.takeWhile p).length = text.dropWhile p :=
  List.append_cancel_left ((List.prefix_iff_eq_append.mp (List.takeWhile_prefix p)).trans
    List.takeWhile_append_dropWhile.symm)

/-- What the scanner finds is what a cut starts with. -/
theorem cut_iff_of_first (h : Piece.first c text = .ok piece)
    (hsize : offset + byteSize (c :: text) < 2 ^ 32) :
    Cut file offset (c :: text) tokens ↔
      ∃ more, tokens = (piece.tokenAt? c file offset).toList ++ more ∧
        Cut file (offset + piece.size c) (text.drop (piece.more c).length) more := by
  have hfront := front_first c text
  rw [h] at hfront
  cases hfront with
  | gap hc =>
    rw [cut_cons_iff_of_isGap hc, Piece.more, drop_length_takeWhile]
    constructor
    · exact fun hcut => ⟨tokens, rfl, hcut⟩
    · intro h
      obtain ⟨more, rfl, hcut⟩ := h
      exact hcut
  | piece htoken htext hpiece =>
    subst htext
    rw [← List.cons_append] at hsize
    rw [← List.cons_append, cut_iff_of_isPiece hpiece hsize, List.drop_left, Piece.tokenAt?, htoken]
    exact Iff.rfl

/-- What the scanner finds comes before what is cut behind it. -/
theorem CutBefore.of_first {front : List Char} (h : Piece.first c text = .ok piece)
    (hdrop : text.drop (piece.more c).length = front ++ rest) (hcut : CutBefore rest front) :
    CutBefore rest (c :: piece.more c ++ front) := by
  have hfront := front_first c text
  rw [h] at hfront
  cases hfront with
  | gap hc =>
    rw [Piece.more, drop_length_takeWhile] at hdrop
    refine .gap (List.cons_ne_nil _ _) ?_ ?_ hcut
    · intro d hd
      obtain rfl | hd := List.mem_cons.mp hd
      · exact hc
      · exact List.mem_takeWhile_imp hd
    · intro d hd
      have hhead := List.head?_dropWhile_not isGap text
      rwa [hdrop, hd] at hhead
  | piece htoken htext hpiece =>
    rw [htext, List.drop_left] at hdrop
    rw [hdrop] at hpiece
    exact .piece hpiece hcut

/-- What is cut before more text can be cut alone. -/
theorem CutBefore.exists_cut (h : CutBefore rest text) (hsize : offset + byteSize text < 2 ^ 32) :
    ∃ tokens, Cut file offset text tokens := by
  induction h generalizing offset with
  | done => exact ⟨[], .done⟩
  | gap hrun hall hhead _ ih =>
    rw [byteSize_append, ← Nat.add_assoc] at hsize
    obtain ⟨tokens, hcut⟩ := ih hsize
    refine ⟨tokens, .gap hrun hall ?_ hcut⟩
    -- What stopped the gap is still there, if anything is.
    intro d hd
    apply hhead
    rw [List.head?_append, hd, Option.some_or]
  | piece hpiece _ ih =>
    rw [byteSize_append, ← Nat.add_assoc] at hsize
    obtain ⟨tokens, hcut⟩ := ih hsize
    have hlast := Nat.lt_of_le_of_lt (Nat.le_add_right _ _) hsize
    exact ⟨_, .piece hpiece.of_append ((covers_iff (Nat.le_add_right _ _) hlast).mpr rfl) hcut⟩

/-- Where no piece can be taken, nothing can be cut. -/
theorem Refused.not_cut (h : Refused (c :: text) fault) : ¬ Cut file offset (c :: text) tokens := by
  intro hcut
  generalize hwhole : c :: text = whole at hcut
  cases hcut with
  | done => cases hwhole
  | gap hrun hall _ _ =>
    obtain ⟨d, run, rfl⟩ := List.exists_cons_of_ne_nil hrun
    cases hwhole
    have hgap := h.not_isGap
    rw [hall _ List.mem_cons_self] at hgap
    cases hgap
  | piece hpiece _ _ => exact h.not_isPiece hwhole.symm hpiece

theorem refused_of_first (h : Piece.first c text = .error fault) : Refused (c :: text) fault := by
  have hfront := front_first c text
  rw [h] at hfront
  cases hfront with
  | refused hrefused => exact hrefused

/-! ### All rounds -/

/-- A round leaves the bytes behind its piece. -/
theorem size_add_byteSize_drop (h : Piece.first c text = .ok piece) :
    piece.size c + byteSize (text.drop (piece.more c).length) = byteSize (c :: text) := by
  obtain ⟨rest, rfl⟩ := Piece.isPrefix_of_first h
  rw [List.drop_left, Piece.size, ← byteSize_append, List.cons_append]

/-- The scanner gives the tokens of the cut, behind those it has already. -/
theorem tokensFrom_eq_ok_iff (hsize : offset + byteSize text < 2 ^ 32) :
    tokensFrom file before offset text = .ok tokens ↔
      ∃ more, tokens = before.reverse ++ more ∧ Cut file offset text more := by
  fun_induction tokensFrom file before offset text with
  | case1 before offset =>
    constructor
    · intro h
      cases h
      exact ⟨[], (List.append_nil _).symm, .done⟩
    · intro h
      obtain ⟨more, rfl, hcut⟩ := h
      rw [cut_nil_iff.mp hcut, List.append_nil]
  | case2 before offset c text fault hfirst =>
    refine iff_of_false nofun fun h => ?_
    obtain ⟨more, -, hcut⟩ := h
    exact (refused_of_first hfirst).not_cut hcut
  | case3 before offset c text piece hfirst ih =>
    have hbytes := size_add_byteSize_drop hfirst
    have hreverse : (piece.tokenAt? c file offset).toList.reverse =
        (piece.tokenAt? c file offset).toList := by
      cases piece.tokenAt? c file offset <;> rfl
    rw [ih (by omega), List.reverse_append, hreverse]
    simp only [cut_iff_of_first hfirst hsize, List.append_assoc]
    constructor
    · intro h
      obtain ⟨more, rfl, hcut⟩ := h
      exact ⟨_, rfl, more, rfl, hcut⟩
    · intro h
      obtain ⟨_, rfl, more, rfl, hcut⟩ := h
      exact ⟨more, rfl, hcut⟩

/-- Where the scanner fails, it has cut what stands before as far as that goes,
    and nothing more can be taken off. -/
theorem exists_cutBefore_of_tokensFrom_eq_error {error : Error}
    (h : tokensFrom file before offset text = .error error) :
    ∃ front rest, text = front ++ rest ∧
      error.position = .after file (offset + byteSize front) ∧
      CutBefore rest front ∧ Refused rest error.fault := by
  fun_induction tokensFrom file before offset text with
  | case1 => cases h
  | case2 before offset c text fault hfirst =>
    cases h
    exact ⟨[], c :: text, rfl, rfl, .done, refused_of_first hfirst⟩
  | case3 before offset c text piece hfirst ih =>
    obtain ⟨front, rest, hdrop, hposition, hcut, hrefused⟩ := ih h
    refine ⟨c :: piece.more c ++ front, rest, ?_, ?_, .of_first hfirst hdrop hcut, hrefused⟩
    · rw [List.cons_append, List.cons_append, List.append_assoc, ← hdrop,
        List.prefix_iff_eq_append.mp (Piece.isPrefix_of_first hfirst)]
    · rw [hposition, byteSize_append, ← Nat.add_assoc]
      rfl

/-- So a cut ends where the scanner fails. -/
theorem exists_cut_of_tokensFrom_eq_error {error : Error}
    (hsize : offset + byteSize text < 2 ^ 32)
    (h : tokensFrom file before offset text = .error error) :
    ∃ front rest, text = front ++ rest ∧
      error.position = .after file (offset + byteSize front) ∧
      (∃ tokens, Cut file offset front tokens) ∧ Refused rest error.fault := by
  obtain ⟨front, rest, rfl, hposition, hcut, hrefused⟩ :=
    exists_cutBefore_of_tokensFrom_eq_error h
  rw [byteSize_append, ← Nat.add_assoc] at hsize
  have hfront := Nat.lt_of_le_of_lt (Nat.le_add_right _ _) hsize
  exact ⟨front, rest, rfl, hposition, hcut.exists_cut hfront, hrefused⟩

/-! ### Sources -/

theorem tokenize_eq_ok_iff {source : String} (hsize : source.utf8ByteSize < 2 ^ 32) :
    tokenize source file = .ok tokens ↔ Cut file 0 source.toList tokens := by
  rw [tokenize, tokensFrom_eq_ok_iff]
  · simp
  · rwa [Nat.zero_add, ← utf8ByteSize_ofList, String.ofList_toList]

/-- The tokens of a source are those of its cut into maximal gaps and longest
    pieces, and a source that cannot be cut has none.  A fault stands behind a
    front of the source that has tokens on its own, and it is what keeps the
    next piece from being taken. -/
theorem tokenize_cuts_longest_pieces (source file : String)
    (hsize : source.utf8ByteSize < 2 ^ 32) :
    (∀ tokens, tokenize source file = .ok tokens ↔ Cut file 0 source.toList tokens) ∧
    ∀ error, tokenize source file = .error error →
      ∃ front rest, source.toList = front ++ rest ∧
        error.position.file = file ∧ error.position.offset.toNat = byteSize front ∧
        (∃ tokens, tokenize (String.ofList front) file = .ok tokens) ∧
        Refused rest error.fault := by
  refine ⟨fun tokens => tokenize_eq_ok_iff hsize, fun error herror => ?_⟩
  have hbytes : byteSize source.toList < 2 ^ 32 := by
    rwa [← utf8ByteSize_ofList, String.ofList_toList]
  obtain ⟨front, rest, htext, hposition, ⟨tokens, hcut⟩, hrefused⟩ :=
    exists_cut_of_tokensFrom_eq_error (by rwa [Nat.zero_add]) herror
  have hfront : byteSize front < 2 ^ 32 := by
    rw [htext, byteSize_append] at hbytes
    omega
  refine ⟨front, rest, htext, by rw [hposition]; rfl, ?_, ⟨tokens, ?_⟩, hrefused⟩
  · rw [hposition, Nat.zero_add]
    exact UInt32.toNat_ofNat_of_lt' hfront
  · rw [tokenize_eq_ok_iff (by rwa [utf8ByteSize_ofList]), String.toList_ofList]
    exact hcut

/-- A mark of two characters, a decimal and a string with the other quote
    inside are one piece each. -/
theorem tokenize_cuts_longest_pieces_of_comparison :
    "i<=2.5 == \"it's\"".utf8ByteSize < 2 ^ 32 ∧
      ∃ tokens, tokenize "i<=2.5 == \"it's\"" defaultFile = .ok tokens ∧
        Cut defaultFile 0 "i<=2.5 == \"it's\"".toList tokens := by
  have hsize : "i<=2.5 == \"it's\"".utf8ByteSize < 2 ^ 32 := by decide +kernel
  have hok : (tokenize "i<=2.5 == \"it's\"" defaultFile).isOk := by decide +kernel
  obtain ⟨tokens, h⟩ := Result.exists_of_isOk hok
  exact ⟨hsize, tokens, h, ((tokenize_cuts_longest_pieces _ _ hsize).1 tokens).mp h⟩

end BlockLang
