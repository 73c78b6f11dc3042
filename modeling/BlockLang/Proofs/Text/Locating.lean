import BlockLang.Proofs.Text.Lines
import BlockLang.Proofs.Token.Seam
import Mathlib.Data.List.Infix

/-! # Locating — the line that holds a byte

  A source is cut after each newline.  The pieces of that cut are its lines,
  and there is only one such cut.  A byte of the source is told by its line and
  the bytes of the line before it; the number of the line is one more than
  there are newline bytes before the place.  This holds of every byte, also of
  one inside a character: no byte of a longer character is that of a
  newline. -/

namespace BlockLang

/-! ### Bytes -/

/-- The bytes of a text in UTF-8. -/
def utf8Bytes (text : List Char) : List UInt8 := text.flatMap String.utf8EncodeChar

/-- The byte that a newline is. -/
def newlineByte : UInt8 := 10

theorem toUTF8_eq (source : String) : source.toUTF8.data.toList = utf8Bytes source.toList := by
  have hbytes : source.toUTF8 = source.toList.utf8Encode := by
    conv_lhs => rw [← String.ofList_toList (s := source)]
    exact String.toByteArray_ofList
  rw [hbytes, List.utf8Encode, List.toList_data_toByteArray, utf8Bytes]

theorem utf8Bytes_append (front back : List Char) :
    utf8Bytes (front ++ back) = utf8Bytes front ++ utf8Bytes back := List.flatMap_append

theorem utf8Bytes_newline : utf8Bytes ['\n'] = [newlineByte] := by decide

theorem length_utf8Bytes (text : List Char) : (utf8Bytes text).length = byteSize text := by
  induction text with
  | nil => rfl
  | cons c text ih =>
    rw [byteSize_cons, ← ih, ← String.length_utf8EncodeChar c, ← List.length_append]
    rfl

/-- The bytes of a longer character have their highest bit set. -/
theorem high_of_mem_utf8EncodeChar {c : Char} (hc : 127 < c.val.toNat) {b : UInt8}
    (h : b ∈ String.utf8EncodeChar c) : 128 ≤ b.toNat := by
  rw [String.utf8EncodeChar, if_neg (Nat.not_le.mpr hc)] at h
  split at h
  · rcases List.mem_pair.mp h with rfl | rfl <;> rw [UInt8.toNat_ofNat'] <;> omega
  · split at h
    · simp only [List.mem_cons, List.not_mem_nil, or_false] at h
      rcases h with rfl | rfl | rfl <;> rw [UInt8.toNat_ofNat'] <;> omega
    · simp only [List.mem_cons, List.not_mem_nil, or_false] at h
      rcases h with rfl | rfl | rfl | rfl <;> rw [UInt8.toNat_ofNat'] <;> omega

theorem eq_newline_of_mem_utf8EncodeChar {c : Char} (h : newlineByte ∈ String.utf8EncodeChar c) :
    c = '\n' := by
  by_cases hc : c.val.toNat ≤ 127
  · rw [String.utf8EncodeChar, if_pos hc, List.mem_singleton] at h
    have hbyte : 10 = c.val.toNat % 2 ^ 8 := by
      rw [← UInt8.toNat_ofNat', ← h]
      rfl
    have hval : c.val.toNat = 10 := by omega
    exact Char.ext (UInt32.toNat_inj.mp hval)
  · exact absurd (high_of_mem_utf8EncodeChar (Nat.not_le.mp hc) h) (by decide)

/-- A text without newlines has no byte of one. -/
theorem newlineByte_notMem_utf8Bytes {text : List Char} (h : '\n' ∉ text) :
    newlineByte ∉ utf8Bytes text := by
  intro hmem
  obtain ⟨c, hc, hbyte⟩ := List.mem_flatMap.mp hmem
  rw [eq_newline_of_mem_utf8EncodeChar hbyte] at hc
  exact h hc

/-! ### Lines -/

/-- The pieces are the text, cut after each newline: every piece ends with the
    only newline that it has, but the last one may lack it. -/
inductive CutAtNewlines : (text : List Char) → (pieces : List (List Char)) → Prop where
  | done : CutAtNewlines [] []
  | last {piece} : piece ≠ [] → '\n' ∉ piece → CutAtNewlines piece [piece]
  | line {front rest pieces} : '\n' ∉ front → CutAtNewlines rest pieces →
      CutAtNewlines (front ++ '\n' :: rest) ((front ++ ['\n']) :: pieces)

section

variable {begun text line : List Char} {pieces before after : List (List Char)}

theorem cutAtNewlines_linesFrom (hbegun : '\n' ∉ begun) :
    CutAtNewlines (begun.reverse ++ text) (linesFrom begun text) := by
  induction text generalizing begun with
  | nil =>
    rw [linesFrom, List.append_nil]
    cases begun with
    | nil => exact .done
    | cons c begun => exact .last (by simp) (by rwa [List.mem_reverse])
  | cons c text ih =>
    rw [linesFrom]
    split
    · rename_i hc
      subst hc
      rw [List.reverse_cons]
      exact .line (by rwa [List.mem_reverse]) (ih List.not_mem_nil)
    · rename_i hc
      have hmore := @ih (c :: begun) (by simp [Ne.symm hc, hbegun])
      rwa [List.reverse_cons, List.append_assoc] at hmore

theorem linesFrom_newline {front rest : List Char} (hfront : '\n' ∉ front) :
    linesFrom begun (front ++ '\n' :: rest) =
      (begun.reverse ++ front ++ ['\n']) :: lines rest := by
  induction front generalizing begun with
  | nil => rw [List.nil_append, linesFrom, if_pos rfl, List.reverse_cons, List.append_nil, lines]
  | cons c front ih =>
    obtain ⟨hc, hfront⟩ := not_or.mp (List.mem_cons.not.mp hfront)
    rw [List.cons_append, linesFrom, if_neg (Ne.symm hc), ih hfront, List.reverse_cons,
      List.append_cons begun.reverse c front]

theorem linesFrom_of_notMem (h : '\n' ∉ text) (hne : begun ≠ [] ∨ text ≠ []) :
    linesFrom begun text = [begun.reverse ++ text] := by
  induction text generalizing begun with
  | nil =>
    have hbegun : begun.isEmpty = false := by simpa using hne
    simp [linesFrom, hbegun]
  | cons c text ih =>
    obtain ⟨hc, htext⟩ := not_or.mp (List.mem_cons.not.mp h)
    rw [linesFrom, if_neg (Ne.symm hc), ih htext (.inl (List.cons_ne_nil c begun)),
      List.reverse_cons, List.append_cons begun.reverse c text]

/-- There is one cut of a text, its lines. -/
theorem cutAtNewlines_iff : CutAtNewlines text pieces ↔ pieces = lines text := by
  constructor
  · intro h
    induction h with
    | done => rfl
    | last hne hpiece => rw [lines, linesFrom_of_notMem hpiece (.inr hne)]; rfl
    | line hfront _ ih => rw [lines, linesFrom_newline hfront, ih]; rfl
  · rintro rfl
    exact cutAtNewlines_linesFrom List.not_mem_nil

/-- The lines before a line of the cut hold one newline each, and the line
    itself has none but at its end. -/
theorem CutAtNewlines.newlines (h : CutAtNewlines text (before ++ line :: after)) :
    before.flatten.count '\n' = before.length ∧ '\n' ∉ line.dropLast := by
  induction before generalizing text with
  | nil =>
    refine ⟨rfl, ?_⟩
    cases h with
    | last _ hline => exact fun hmem => hline (List.mem_of_mem_dropLast hmem)
    | line hfront _ => rwa [List.dropLast_concat]
  | cons first before ih =>
    rw [List.cons_append] at h
    generalize hmore : before ++ line :: after = more at h
    cases h with
    | last _ _ => simp at hmore
    | line hfront hrest =>
      obtain ⟨hcount, hline⟩ := ih (hmore ▸ hrest)
      refine ⟨?_, hline⟩
      rw [List.flatten_cons, List.count_append, List.count_append, hcount,
        List.count_eq_zero_of_not_mem hfront, List.length_cons]
      simp [Nat.add_comm]

/-! ### Locations -/

theorem byteSize_flatten (pieces : List (List Char)) :
    byteSize pieces.flatten = (pieces.map byteSize).sum := by
  induction pieces with
  | nil => rfl
  | cons piece pieces ih =>
    rw [List.flatten_cons, byteSize_append, ih, List.map_cons, List.sum_cons]

/-- A location among the lines of a text: some lines before it, and some bytes
    of its own line. -/
theorem locateIn_eq_some_iff {number offset : Nat} {l : Location} :
    locateIn number offset pieces = some l ↔
      ∃ before after, pieces = before ++ l.line :: after ∧ l.number = number + before.length ∧
        byteSize before.flatten + l.column = offset ∧ l.column < byteSize l.line := by
  induction pieces generalizing number offset with
  | nil => simp [locateIn]
  | cons line pieces ih =>
    rw [locateIn]
    split
    · rename_i hlt
      constructor
      · intro h
        cases h
        exact ⟨[], pieces, rfl, rfl, Nat.zero_add _, hlt⟩
      · rintro ⟨before, after, hpieces, hnumber, hoffset, hcolumn⟩
        cases before with
        | nil =>
          cases hpieces
          rw [List.flatten_nil, byteSize_nil, Nat.zero_add] at hoffset
          rw [List.length_nil, Nat.add_zero] at hnumber
          rw [← hoffset, ← hnumber]
        | cons first before =>
          cases hpieces
          rw [List.flatten_cons, byteSize_append] at hoffset
          omega
    · rename_i hge
      rw [ih]
      constructor
      · rintro ⟨before, after, hpieces, hnumber, hoffset, hcolumn⟩
        refine ⟨line :: before, after, by rw [hpieces, List.cons_append], ?_, ?_, hcolumn⟩
        · rw [hnumber, List.length_cons]
          omega
        · rw [List.flatten_cons, byteSize_append]
          omega
      · rintro ⟨before, after, hpieces, hnumber, hoffset, hcolumn⟩
        cases before with
        | nil =>
          cases hpieces
          rw [List.flatten_nil, byteSize_nil, Nat.zero_add] at hoffset
          omega
        | cons first before =>
          cases hpieces
          rw [List.flatten_cons, byteSize_append] at hoffset
          rw [List.length_cons] at hnumber
          exact ⟨before, after, rfl, by omega, by omega, hcolumn⟩

/-- There is a location exactly of what lies inside the lines. -/
theorem locateIn_isSome_iff {number offset : Nat} :
    (locateIn number offset pieces).isSome ↔ offset < byteSize pieces.flatten := by
  induction pieces generalizing number offset with
  | nil => simp [locateIn]
  | cons line pieces ih =>
    rw [locateIn, List.flatten_cons, byteSize_append]
    split
    · rename_i hlt
      simp only [Option.isSome_some, true_iff]
      omega
    · rw [ih]
      omega

/-- The first bytes of a line hold no newline, unless they are all of it. -/
theorem newlineByte_notMem_take (hline : '\n' ∉ line.dropLast) {column : Nat}
    (hcolumn : column < byteSize line) : newlineByte ∉ (utf8Bytes line).take column := by
  by_cases hnewline : '\n' ∈ line
  · -- The newline is the last character, so its byte is the last one.
    obtain ⟨front, c, rfl⟩ := (List.eq_nil_or_concat' line).resolve_left
      (List.ne_nil_of_mem hnewline)
    rw [List.dropLast_concat] at hline
    obtain rfl : '\n' = c := by simpa [hline] using hnewline
    rw [byteSize_append, ← length_utf8Bytes front] at hcolumn
    have hle : column ≤ (utf8Bytes front).length := Nat.le_of_lt_succ hcolumn
    rw [utf8Bytes_append, List.take_append_of_le_length hle]
    exact fun hmem => newlineByte_notMem_utf8Bytes hline (List.mem_of_mem_take hmem)
  · exact fun hmem => newlineByte_notMem_utf8Bytes hnewline (List.mem_of_mem_take hmem)

theorem count_newlineByte (text : List Char) :
    (utf8Bytes text).count newlineByte = text.count '\n' := by
  induction text with
  | nil => rfl
  | cons c text ih =>
    rw [← List.singleton_append, utf8Bytes_append, List.count_append, List.count_append, ih]
    by_cases hc : c = '\n'
    · rw [hc, utf8Bytes_newline]
      rfl
    · have hnone : '\n' ∉ [c] := fun hmem => hc (List.mem_singleton.mp hmem).symm
      rw [List.count_eq_zero_of_not_mem (newlineByte_notMem_utf8Bytes hnone),
        List.count_eq_zero_of_not_mem hnone]

end

/-- The location is the one of the byte at the offset, in a source that is cut
    into the given pieces. -/
structure Location.IsAt (l : Location) (source : String) (pieces : List (List Char))
    (offset : Nat) : Prop where
  number : l.number = 1 + (source.toUTF8.data.toList.take offset).count newlineByte
  line : pieces[l.number - 1]? = some l.line
  /-- The line has at most one newline, and that one at its end. -/
  newline : '\n' ∉ l.line.dropLast
  column : l.column < byteSize l.line
  offset : ((pieces.take (l.number - 1)).map byteSize).sum + l.column = offset

theorem isAt_of_locateIn {source : String} {offset : Nat} {l : Location}
    (h : locateIn 1 offset (lines source.toList) = some l) :
    l.IsAt source (lines source.toList) offset := by
  obtain ⟨before, after, hlines, hnumber, hoffset, hcolumn⟩ := locateIn_eq_some_iff.mp h
  have hcut : CutAtNewlines source.toList (before ++ l.line :: after) :=
    cutAtNewlines_iff.mpr hlines.symm
  obtain ⟨hcount, hnewline⟩ := hcut.newlines
  have hindex : l.number - 1 = before.length := by omega
  -- What stands before the place are the lines before, and some bytes of the line.
  have htext : source.toList = before.flatten ++ (l.line ++ after.flatten) := by
    rw [← flatten_lines source.toList, hlines, List.flatten_append, List.flatten_cons]
  have hbefore : source.toUTF8.data.toList.take offset =
      utf8Bytes before.flatten ++ (utf8Bytes l.line).take l.column := by
    rw [← length_utf8Bytes] at hoffset hcolumn
    rw [toUTF8_eq, htext, utf8Bytes_append, utf8Bytes_append, ← hoffset,
      List.take_length_add_append, List.take_append_of_le_length (Nat.le_of_lt hcolumn)]
  refine ⟨?_, ?_, hnewline, hcolumn, ?_⟩
  · rw [hbefore, List.count_append, count_newlineByte, hcount,
      List.count_eq_zero_of_not_mem (newlineByte_notMem_take hnewline hcolumn), hnumber]
    rfl
  · rw [hlines, hindex, List.getElem?_append_right (Nat.le_refl _), Nat.sub_self,
      List.getElem?_cons_zero]
  · rw [hlines, hindex, List.take_left, ← byteSize_flatten]
    exact hoffset

/-- A byte offset has a location exactly if it lies inside the source.  The
    location names the line that holds the byte by its number, which is one
    more than there are newline bytes before the place, and the bytes of the
    line before the place; the lines are those of the only cut of the source
    after each newline. -/
theorem locate?_exact (source : String) (offset : UInt32) :
    ∃ pieces, (∀ other, CutAtNewlines source.toList other ↔ other = pieces) ∧
      ((locate? source offset).isSome ↔ offset.toNat < source.utf8ByteSize) ∧
      ∀ l, locate? source offset = some l → l.IsAt source pieces offset.toNat := by
  refine ⟨lines source.toList, fun other => cutAtNewlines_iff, ?_, fun l => isAt_of_locateIn⟩
  rw [locate?, locateIn_isSome_iff, flatten_lines, byteSize_toList]

/-- The second byte of a character belongs to the line of the character, and a
    newline to the line that it ends. -/
example : locate? "a\né\n" 3 = some ⟨2, ['é', '\n'], 1⟩ ∧
    locate? "a\né\n" 4 = some ⟨2, ['é', '\n'], 2⟩ := by decide

end BlockLang
