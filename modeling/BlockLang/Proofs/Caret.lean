import BlockLang.Proofs.Diagnosis
import BlockLang.Proofs.Text.Lines

/-! # The caret — a diagnostic points at what it is about

  A diagnostic ends with a line of the source and a caret below it.  The line
  is shown without its indentation and without the white space at its end, and
  the caret is set by counting characters.  A character that is shown has the
  caret of its place right below it, whatever stands around it.  What is
  missing at the end of a source is missing behind the last token, and the
  caret then stands right behind the last character of that token. -/

namespace BlockLang

/-! ### What is shown -/

/-- The character behind `front` belongs to the indentation of its line. -/
def InIndent (front : List Char) (c : Char) : Prop :=
  ∀ d ∈ lineFront front ++ [c], isIndent d = true

/-- The character in front of `back` belongs to the white space at the end of
    its line. -/
def InTrailing (c : Char) (back : List Char) : Prop :=
  ∀ d ∈ (c :: back).takeWhile (· ≠ '\n'), isBlank d = true

instance (front : List Char) (c : Char) : Decidable (InIndent front c) :=
  List.decidableBAll (fun d => isIndent d = true) (lineFront front ++ [c])

instance (c : Char) (back : List Char) : Decidable (InTrailing c back) :=
  List.decidableBAll (fun d => isBlank d = true) ((c :: back).takeWhile (· ≠ '\n'))

/-- What a diagnostic shows of a line before the place behind `front`: the
    number of the line, a bar, and the start of the line without its
    indentation. -/
def shownFront (front : List Char) : List Char :=
  (toString (front.count '\n' + 1)).toList ++ [' ', '|', ' '] ++
    (lineFront front).dropWhile isIndent

/-- The last two lines of the diagnostic are the line of the source that holds
    the character `c` between `front` and `back`, with its number, and one
    caret, which stands `right` columns behind the column of the character. -/
def Error.PointsAt (error : Error) (source : String) (front : List Char) (c : Char)
    (back : List Char) (right : Nat) : Prop :=
  ∃ above shown caret,
    (error.render source).toList = above ++ '\n' :: (shown ++ '\n' :: caret) ∧
    '\n' ∉ shown ∧ '\n' ∉ caret ∧
    shown = shownFront front ++ c :: trimEnd (lineBack back) ∧
    shown[(shownFront front).length]? = some c ∧
    caret[(shownFront front).length + right]? = some '^' ∧ caret.count '^' = 1

/-! ### Indentation and white space -/

section

variable {c : Char} {before after : List Char}

/-- A text with a visible character keeps its first one. -/
theorem trimEnd_cons (h : ∃ d ∈ c :: after, isBlank d = false) :
    trimEnd (c :: after) = c :: trimEnd after := by
  induction after using List.reverseRecOn with
  | nil =>
    obtain ⟨d, hd, hblank⟩ := h
    rw [List.mem_singleton.mp hd] at hblank
    exact List.rdropWhile_concat_neg isBlank [] c (by rw [hblank]; decide)
  | append_singleton after d ih =>
    by_cases hd : isBlank d = true
    · have hmore : ∃ d ∈ c :: after, isBlank d = false := by
        obtain ⟨e, he, hblank⟩ := h
        rw [← List.cons_append, List.mem_append, List.mem_singleton] at he
        rcases he with he | rfl
        · exact ⟨e, he, hblank⟩
        · rw [hd] at hblank
          cases hblank
      have hwhole : trimEnd (c :: after ++ [d]) = trimEnd (c :: after) :=
        List.rdropWhile_concat_pos isBlank _ d hd
      have hrest : trimEnd (after ++ [d]) = trimEnd after :=
        List.rdropWhile_concat_pos isBlank _ d hd
      rw [← List.cons_append, hwhole, hrest, ih hmore]
    · have hwhole : trimEnd (c :: after ++ [d]) = c :: after ++ [d] :=
        List.rdropWhile_concat_neg isBlank _ d hd
      have hrest : trimEnd (after ++ [d]) = after ++ [d] :=
        List.rdropWhile_concat_neg isBlank _ d hd
      rw [← List.cons_append, hwhole, hrest, List.cons_append]

theorem trimEnd_append (before : List Char) (h : ∃ d ∈ c :: after, isBlank d = false) :
    trimEnd (before ++ c :: after) = before ++ c :: trimEnd after := by
  induction before with
  | nil => exact trimEnd_cons h
  | cons d before ih =>
    obtain ⟨e, he, hblank⟩ := h
    have hmore : ∃ e ∈ d :: (before ++ c :: after), isBlank e = false :=
      ⟨e, List.mem_cons_of_mem _ (List.mem_append_right _ he), hblank⟩
    rw [List.cons_append, trimEnd_cons hmore, ih, List.cons_append]

/-- The newline of a line is not shown. -/
theorem newline_notMem_trimEnd_lineBack (text : List Char) : '\n' ∉ trimEnd (lineBack text) := by
  have htaken : '\n' ∉ text.takeWhile (· ≠ '\n') := by
    intro h
    have hne := List.mem_takeWhile_imp h
    simp at hne
  have hkept (line : List Char) : trimEnd line <+: line := List.rdropWhile_prefix isBlank line
  rcases lineBack_eq text with h | h
  · rw [h]
    exact fun hmem => htaken ((hkept _).subset hmem)
  · have htrim : trimEnd (text.takeWhile (· ≠ '\n') ++ ['\n']) =
        trimEnd (text.takeWhile (· ≠ '\n')) :=
      List.rdropWhile_concat_pos isBlank _ '\n' (by decide)
    rw [h, htrim]
    exact fun hmem => htaken ((hkept _).subset hmem)

/-- A character behind the indentation ends it. -/
theorem takeWhile_isIndent (h : ¬ ∀ d ∈ before ++ [c], isIndent d = true) :
    (before ++ c :: after).takeWhile isIndent = before.takeWhile isIndent := by
  induction before with
  | nil =>
    have hc : ¬ isIndent c = true := by simpa using h
    rw [List.nil_append, List.takeWhile_cons_of_neg hc, List.takeWhile_nil]
  | cons d before ih =>
    by_cases hd : isIndent d = true
    · have hmore : ¬ ∀ d ∈ before ++ [c], isIndent d = true := by
        intro hall
        exact h (List.forall_mem_cons.mpr ⟨hd, hall⟩)
      rw [List.cons_append, List.takeWhile_cons_of_pos hd, List.takeWhile_cons_of_pos hd, ih hmore]
    · rw [List.cons_append, List.takeWhile_cons_of_neg hd, List.takeWhile_cons_of_neg hd]

/-! ### The excerpt -/

/-- The line and the caret of a place that stands some characters behind the
    front of the line. -/
theorem Location.excerpt_eq {placed rest : List Char} {right : Nat} (number : Nat)
    (hindent : ¬ ∀ d ∈ before ++ [c], isIndent d = true)
    (hvisible : ∃ d ∈ c :: after, isBlank d = false)
    (hplaced : placed ++ rest = before ++ c :: after)
    (hlength : placed.length = before.length + right) :
    (Location.mk number (before ++ c :: after) (byteSize placed)).excerpt =
      [gutter (toString number),
        toString number ++ " | " ++
          String.ofList (before.dropWhile isIndent ++ c :: trimEnd after),
        gutter (toString number) ++ " " ++ String.ofList
          (List.replicate ((before.dropWhile isIndent).length + right) '-' ++ ['^'])] := by
  have hcolumn : (Location.mk number (before ++ c :: after) (byteSize placed)).charColumn =
      before.length + right := by
    have hdrop : dropBytes? (byteSize placed) (before ++ c :: after) = some rest := by
      rw [← hplaced, dropBytes?_byteSize]
    simp only [charColumn, hdrop]
    rw [← hplaced, List.length_append, Nat.add_sub_cancel, hlength]
  have hline : before ++ c :: after =
      before.takeWhile isIndent ++ (before.dropWhile isIndent ++ c :: after) := by
    rw [← List.append_assoc, List.takeWhile_append_dropWhile]
  have hindented : (Location.mk number (before ++ c :: after) (byteSize placed)).indent =
      (before.takeWhile isIndent).length := by
    rw [indent, takeWhile_isIndent hindent]
  have hcount : before.length + right - (before.takeWhile isIndent).length =
      (before.dropWhile isIndent).length + right := by
    have hlen := congrArg List.length
      (List.takeWhile_append_dropWhile (p := isIndent) (l := before))
    rw [List.length_append] at hlen
    omega
  simp only [excerpt, hcolumn, hindented, hcount]
  rw [hline, List.drop_left, trimEnd_append _ hvisible]

end

/-! ### The last two lines -/

section

variable {source : String} {error : Error} {c : Char} {front back placed rest : List Char}

theorem newline_notMem_toDigits (number : Nat) : '\n' ∉ Nat.toDigits 10 number := by
  intro h
  have hdigit := Nat.isDigit_of_mem_toDigits (by decide) (by decide) h
  exact absurd hdigit (by decide)

/-- A character at the front of its line, or right before the place, is pointed
    at. -/
theorem Error.pointsAt_of_location {right : Nat} (hc : c ≠ '\n')
    (hlocation : nearestLocation? source error.position.offset =
      some ⟨front.count '\n' + 1, lineFront front ++ c :: lineBack back, byteSize placed⟩)
    (hplaced : placed ++ rest = lineFront front ++ c :: lineBack back)
    (hlength : placed.length = (lineFront front).length + right) (hindent : ¬ InIndent front c)
    (hvisible : ∃ d ∈ c :: lineBack back, isBlank d = false) :
    error.PointsAt source front c back right := by
  let number := toString (front.count '\n' + 1)
  let lead := List.replicate (number.length + 1) ' ' ++ ['|', ' '] ++
    List.replicate (((lineFront front).dropWhile isIndent).length + right) '-'
  refine ⟨error.fault.headline.toList ++ '\n' :: ("-> " ++ error.position.file).toList ++
    '\n' :: (gutter number).toList, shownFront front ++ c :: trimEnd (lineBack back),
    lead ++ ['^'], ?_, ?_, ?_, rfl, ?_, ?_, ?_⟩
  · rw [render, hlocation]
    simp only [Location.excerpt_eq _ hindent hvisible hplaced hlength]
    show (error.fault.headline ++ "\n" ++ ("-> " ++ error.position.file) ++ "\n" ++ gutter number ++
      "\n" ++ _ ++ "\n" ++ _).toList = _
    simp [gutter, number, shownFront, lead]
  · have hfront : '\n' ∉ (lineFront front).dropWhile isIndent := fun h =>
      newline_notMem_lineFront front ((List.dropWhile_sublist _).subset h)
    simp [shownFront, hfront, newline_notMem_toDigits, Ne.symm hc,
      newline_notMem_trimEnd_lineBack]
  · simp [lead]
  · simp
  · have hlead : lead.length = (shownFront front).length + right := by
      simp only [lead, number, shownFront, List.length_append, List.length_replicate,
        List.length_cons, List.length_nil, String.length_toList]
      omega
    rw [← hlead, List.getElem?_concat_length]
  · have hnone : '^' ∉ lead := by simp [lead]
    rw [List.count_append, List.count_eq_zero_of_not_mem hnone, List.count_singleton_self]

/-- A character that is no white space at the end of its line is not its newline,
    and something of the line is shown from there on. -/
theorem exists_visible (h : ¬ InTrailing c back) :
    c ≠ '\n' ∧ ∃ d ∈ c :: lineBack back, isBlank d = false := by
  unfold InTrailing at h
  push Not at h
  obtain ⟨d, hd, hblank⟩ := h
  have hc : c ≠ '\n' := by
    rintro rfl
    rw [List.takeWhile_cons_of_neg (by simp)] at hd
    cases hd
  refine ⟨hc, d, ?_, by simpa using hblank⟩
  rw [← lineBack_cons back hc]
  rcases lineBack_eq (c :: back) with hline | hline
  · rwa [hline]
  · rw [hline]
    exact List.mem_append_left _ hd

/-- The place of a character that is shown has the caret below it. -/
theorem Error.pointsAt (hsource : source.toList = front ++ c :: back)
    (hoffset : error.position.offset.toNat = byteSize front) (hindent : ¬ InIndent front c)
    (htrailing : ¬ InTrailing c back) : error.PointsAt source front c back 0 := by
  obtain ⟨hc, hvisible⟩ := exists_visible htrailing
  have hlocation := nearestLocation?_eq hsource hoffset (.inl (List.cons_ne_nil c back))
  rw [lineBack_cons back hc] at hlocation
  exact pointsAt_of_location hc hlocation rfl rfl hindent hvisible

/-- The place right behind a character that is not blank has the caret next to
    it. -/
theorem Error.pointsAt_behind (hsource : source.toList = front ++ c :: back)
    (hoffset : error.position.offset.toNat = byteSize (front ++ [c])) (hblank : isBlank c = false) :
    error.PointsAt source front c back 1 := by
  have hc : c ≠ '\n' := by
    rintro rfl
    exact absurd hblank (by decide)
  have hindent : ¬ InIndent front c := by
    intro h
    have hlast := h c (List.mem_append_right _ (List.mem_singleton_self c))
    simp only [isIndent, Bool.or_eq_true, decide_eq_true_eq] at hlast
    obtain rfl | rfl := hlast <;> exact absurd hblank (by decide)
  have hsource' : source.toList = (front ++ [c]) ++ back := by rw [hsource, List.append_assoc]; rfl
  have hfront : lineFront (front ++ [c]) ≠ [] := by
    rw [lineFront_concat front hc]
    exact List.append_ne_nil_of_right_ne_nil _ (List.cons_ne_nil c [])
  have hlocation := nearestLocation?_eq hsource' hoffset (.inr hfront)
  rw [lineFront_concat front hc, List.count_append, List.count_eq_zero_of_not_mem (l := [c])
    (by simpa using Ne.symm hc), Nat.add_zero, List.append_assoc] at hlocation
  exact pointsAt_of_location hc hlocation (List.append_assoc _ _ _)
    (by rw [List.length_append, List.length_singleton]) hindent ⟨c, List.mem_cons_self, hblank⟩

end

/-! ### The end of the last token -/

/-- A printable character of ASCII other than the space. -/
def Visible (c : Char) : Prop := 0x20 < c.toNat ∧ c.toNat < 0x7f

theorem Visible.isBlank_eq_false {c : Char} (h : Visible c) : isBlank c = false := by
  obtain ⟨hlow, hhigh⟩ := h
  rw [isBlank, whiteSpace, inRanges, if_neg (by omega), decide_eq_false (by omega), Bool.false_or]
  exact inRanges_of_between hlow (by omega)

theorem Letter.visible {c : Char} (h : Letter c) : Visible c := by
  unfold Letter at h
  simp only [Char.le_def, UInt32.le_iff_toNat_le] at h
  obtain h | h | rfl := h
  · exact ⟨Nat.lt_of_lt_of_le (by decide) h.1, Nat.lt_of_le_of_lt h.2 (by decide)⟩
  · exact ⟨Nat.lt_of_lt_of_le (by decide) h.1, Nat.lt_of_le_of_lt h.2 (by decide)⟩
  · exact ⟨by decide, by decide⟩

theorem Digit.visible {c : Char} (h : Digit c) : Visible c := by
  simp only [Digit, Char.le_def, UInt32.le_iff_toNat_le] at h
  exact ⟨Nat.lt_of_lt_of_le (by decide) h.1, Nat.lt_of_le_of_lt h.2 (by decide)⟩

theorem exists_last_of_forall {text : List Char} (hne : text ≠ []) (h : ∀ c ∈ text, Visible c) :
    ∃ front c, text = front ++ [c] ∧ Visible c := by
  refine ⟨text.dropLast, text.getLast hne, (List.dropLast_append_getLast hne).symm, ?_⟩
  exact h _ (List.getLast_mem hne)

/-- A piece ends with a visible character. -/
theorem Spells.exists_last {text lexeme : List Char} {kind : Kind} (h : Spells text kind lexeme) :
    ∃ front c, text = front ++ [c] ∧ Visible c := by
  have hne := h.ne_nil
  cases h with
  | keyword hword _ | name hword _ =>
    obtain ⟨c, more, rfl, hc, hmore⟩ := hword
    refine exists_last_of_forall hne (List.forall_mem_cons.mpr ⟨hc.visible, fun d hd => ?_⟩)
    exact (hmore d hd).elim Letter.visible Digit.visible
  | integer hdigits => exact exists_last_of_forall hne fun c hc => (hdigits.2 c hc).visible
  | float hdecimal =>
    obtain ⟨whole, fraction, rfl, -, hfraction⟩ := hdecimal
    obtain ⟨front, c, rfl, hc⟩ :=
      exists_last_of_forall hfraction.1 fun c hc => (hfraction.2 c hc).visible
    exact ⟨whole ++ '.' :: front, c, by simp, hc⟩
  | @string quote body hquote _ =>
    refine ⟨quote :: body, quote, rfl, ?_⟩
    obtain rfl | rfl := hquote <;> exact ⟨by decide, by decide⟩
  | mark hmark =>
    refine exists_last_of_forall hne ?_
    cases kind <;> cases hmark <;> simp [Visible]

/-- The last token of a cut ends right behind a visible character. -/
theorem Cut.exists_last {file : String} {offset : Nat} {text : List Char} {tokens : List Token}
    {last : Token} (h : Cut file offset text tokens) (hlast : tokens.getLast? = some last) :
    ∃ front c back, text = front ++ c :: back ∧
      last.span.stop.offset.toNat = offset + byteSize (front ++ [c]) ∧ Visible c := by
  induction h with
  | done => cases hlast
  | @gap offset run rest tokens _ _ _ _ ih =>
    obtain ⟨front, c, back, rfl, hstop, hc⟩ := ih hlast
    refine ⟨run ++ front, c, back, (List.append_assoc _ _ _).symm, ?_, hc⟩
    rw [hstop, Nat.add_assoc, ← byteSize_append, List.append_assoc]
  | @piece offset text kind lexeme span rest tokens hpiece hcovers _ ih =>
    cases tokens with
    | nil =>
      cases hlast
      obtain ⟨front, c, rfl, hc⟩ := hpiece.spells.exists_last
      exact ⟨front, c, rest, List.append_assoc _ _ _, hcovers.stop_offset, hc⟩
    | cons token tokens =>
      obtain ⟨front, c, back, rfl, hstop, hc⟩ := ih (by rwa [List.getLast?_cons_cons] at hlast)
      refine ⟨text ++ front, c, back, (List.append_assoc _ _ _).symm, ?_, hc⟩
      rw [hstop, Nat.add_assoc, ← byteSize_append, List.append_assoc]

/-- What is missing at the end of a source is missing behind its last token. -/
theorem exists_last_of_compile {source : String} {options : Options} {error : Error}
    {expected : String} (hsize : source.utf8ByteSize < 2 ^ 32)
    (h : compile source options = .error error) (hfault : error.fault = .unexpectedEnd expected) :
    ∃ tokens last, tokenize source options.file = .ok tokens ∧ tokens.getLast? = some last ∧
      error.position = last.span.stop := by
  have hplace := (truthful_of_compile hsize h).inPlace
  rw [Error.InPlace, hfault] at hplace
  obtain ⟨tokens, q, htokens, -, hbehind, -⟩ := hplace
  rw [hfault] at hbehind
  obtain ⟨last, hlast, hposition⟩ := hbehind trivial
  exact ⟨tokens, last, htokens, hlast, hposition⟩

/-! ### Sources -/

/-- A place in front of a character that is shown has the caret right below the
    character.  What is missing at the end of a source has it right behind the
    last character of the last token. -/
theorem caret_points_at_place (source : String) (error : Error) :
    (∀ front c back, source.toList = front ++ c :: back →
      error.position.offset.toNat = byteSize front → ¬ InIndent front c → ¬ InTrailing c back →
        error.PointsAt source front c back 0) ∧
    ∀ options expected, source.utf8ByteSize < 2 ^ 32 → compile source options = .error error →
      error.fault = .unexpectedEnd expected →
        ∃ tokens last front c back, tokenize source options.file = .ok tokens ∧
          tokens.getLast? = some last ∧ source.toList = front ++ c :: back ∧
          last.span.stop.offset.toNat = byteSize (front ++ [c]) ∧
          error.PointsAt source front c back 1 := by
  refine ⟨fun front c back => Error.pointsAt, fun options expected hsize h hfault => ?_⟩
  obtain ⟨tokens, last, htokens, hlast, hposition⟩ := exists_last_of_compile hsize h hfault
  obtain ⟨front, c, back, hsource, hstop, hc⟩ :=
    Cut.exists_last ((tokenize_eq_ok_iff hsize).mp htokens) hlast
  rw [Nat.zero_add] at hstop
  refine ⟨tokens, last, front, c, back, htokens, hlast, hsource, hstop, ?_⟩
  exact Error.pointsAt_behind hsource (by rw [hposition, hstop]) hc.isBlank_eq_false

/-- A name behind characters of two bytes, on an indented line, and an operand
    that is missing in front of empty lines. -/
theorem caret_points_at_place_of_operands :
    (∃ error front back, compile "var a: int = 1;\n  print 'éé' + b;\n" .standard = .error error ∧
      error.fault = .undeclaredIdentifier "b" ∧
      "var a: int = 1;\n  print 'éé' + b;\n".toList = front ++ 'b' :: back ∧
      error.position.offset.toNat = byteSize front ∧ ¬ InIndent front 'b' ∧
      ¬ InTrailing 'b' back ∧
      error.PointsAt "var a: int = 1;\n  print 'éé' + b;\n" front 'b' back 0) ∧
    ∃ error, "\tprint 1 +  \n\n".utf8ByteSize < 2 ^ 32 ∧
      compile "\tprint 1 +  \n\n" .standard = .error error ∧
      error.fault = .unexpectedEnd "an expression" ∧
      ∃ tokens last front c back, tokenize "\tprint 1 +  \n\n" Options.standard.file = .ok tokens ∧
        tokens.getLast? = some last ∧ "\tprint 1 +  \n\n".toList = front ++ c :: back ∧
        last.span.stop.offset.toNat = byteSize (front ++ [c]) ∧
        error.PointsAt "\tprint 1 +  \n\n" front c back 1 := by
  constructor
  · let source := "var a: int = 1;\n  print 'éé' + b;\n"
    let front := "var a: int = 1;\n  print 'éé' + ".toList
    let error : Error := ⟨.undeclaredIdentifier "b", ⟨33, "shell"⟩⟩
    have h : compile source .standard = .error error :=
      Result.eq_error_of_error? (by decide +kernel)
    have hsource : source.toList = front ++ 'b' :: [';', '\n'] := by decide +kernel
    have hoffset : error.position.offset.toNat = byteSize front := by decide +kernel
    have hindent : ¬ InIndent front 'b' := by decide +kernel
    have htrailing : ¬ InTrailing 'b' [';', '\n'] := by decide +kernel
    refine ⟨error, front, _, h, rfl, hsource, hoffset, hindent, htrailing, ?_⟩
    exact (caret_points_at_place source error).1 front 'b' _ hsource hoffset hindent htrailing
  · let source := "\tprint 1 +  \n\n"
    have hsize : source.utf8ByteSize < 2 ^ 32 := by decide +kernel
    let error : Error := ⟨.unexpectedEnd "an expression", ⟨10, "shell"⟩⟩
    have h : compile source .standard = .error error :=
      Result.eq_error_of_error? (by decide +kernel)
    refine ⟨error, hsize, h, rfl, ?_⟩
    exact (caret_points_at_place source error).2 .standard "an expression" hsize h rfl

end BlockLang
