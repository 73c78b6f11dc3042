import BlockLang.Diagnostic
import Mathlib.Data.List.DropRight

/-! # Lines — the line around a place

  A place in a source stands between the characters before it and those behind
  it.  Its line is what stands before it since the last newline, and what
  stands behind it up to the next one.  Its number is one more than there are
  newlines before it.  The place behind all characters belongs to the last line
  if no newline ends that line. -/

namespace BlockLang

/-! ### Parts of lines -/

/-- The end of a text, behind its last newline. -/
def lineFront (text : List Char) : List Char := text.rtakeWhile (· ≠ '\n')

/-- The start of a text, up to its first newline, which belongs to it. -/
def lineBack : List Char → List Char
  | [] => []
  | c :: text => if c = '\n' then [c] else c :: lineBack text

section

variable {c : Char} {text begun : List Char}

theorem newline_notMem_lineFront (text : List Char) : '\n' ∉ lineFront text := by
  intro h
  have hne := List.mem_rtakeWhile_imp h
  simp at hne

theorem lineFront_of_notMem (h : '\n' ∉ text) : lineFront text = text := by
  refine List.rtakeWhile_eq_self_iff.mpr fun c hc => ?_
  simpa using ne_of_mem_of_not_mem hc h

theorem lineFront_concat (front : List Char) (hc : c ≠ '\n') :
    lineFront (front ++ [c]) = lineFront front ++ [c] :=
  List.rtakeWhile_concat_pos _ _ c (by simpa using hc)

/-- Nothing before a newline belongs to the line behind it. -/
theorem lineFront_newline (front text : List Char) :
    lineFront (front ++ '\n' :: text) = lineFront text := by
  induction text using List.reverseRecOn with
  | nil => exact List.rtakeWhile_concat_neg _ front '\n' (by simp)
  | append_singleton text c ih =>
    rw [← List.cons_append, ← List.append_assoc, lineFront, lineFront, List.rtakeWhile_concat,
      List.rtakeWhile_concat]
    split
    · exact congrArg (· ++ [c]) ih
    · rfl

theorem lineBack_cons (text : List Char) (hc : c ≠ '\n') :
    lineBack (c :: text) = c :: lineBack text := by
  rw [lineBack, if_neg hc]

/-- At most the last character of a line is a newline. -/
theorem lineBack_eq (text : List Char) :
    lineBack text = text.takeWhile (· ≠ '\n') ∨
      lineBack text = text.takeWhile (· ≠ '\n') ++ ['\n'] := by
  induction text with
  | nil => exact .inl rfl
  | cons c text ih =>
    by_cases hc : c = '\n'
    · exact .inr (by simp [lineBack, hc])
    · rw [lineBack_cons text hc, List.takeWhile_cons_of_pos (by simpa using hc)]
      rcases ih with ih | ih
      · exact .inl (by rw [ih])
      · exact .inr (by rw [ih, List.cons_append])

/-! ### Lines of a source -/

/-- The first line is what is known of it, and the start of the text. -/
theorem linesFrom_eq_cons (h : begun ≠ [] ∨ text ≠ []) :
    ∃ more, linesFrom begun text = (begun.reverse ++ lineBack text) :: more := by
  induction text generalizing begun with
  | nil =>
    have hbegun : begun.isEmpty = false := by simpa using h
    exact ⟨[], by simp [linesFrom, hbegun, lineBack]⟩
  | cons c text ih =>
    rw [linesFrom, lineBack]
    split
    · exact ⟨_, by rw [List.reverse_cons]⟩
    · obtain ⟨more, hmore⟩ := ih (.inl (List.cons_ne_nil c begun))
      exact ⟨more, by rw [hmore, List.reverse_cons, List.append_assoc]; rfl⟩

/-- A character of a source is found in its line. -/
theorem locateIn_linesFrom (hbegun : '\n' ∉ begun) (number : Nat) (front : List Char) (c : Char)
    (back : List Char) :
    locateIn number (byteSize begun.reverse + byteSize front)
        (linesFrom begun (front ++ c :: back)) =
      some ⟨number + front.count '\n',
        lineFront (begun.reverse ++ front) ++ lineBack (c :: back),
        byteSize (lineFront (begun.reverse ++ front))⟩ := by
  -- On what stands before the character; a newline in it ends the line that has begun.
  induction front generalizing number begun with
  | nil =>
    obtain ⟨more, hmore⟩ : ∃ more, linesFrom begun (c :: back) = _ :: more :=
      linesFrom_eq_cons (.inr (List.cons_ne_nil c back))
    have hfront : lineFront begun.reverse = begun.reverse :=
      lineFront_of_notMem (by rwa [List.mem_reverse])
    have hpos : 0 < byteSize (lineBack (c :: back)) := by
      have hc := c.utf8Size_pos
      rw [lineBack]
      split
      · rw [byteSize_cons]
        omega
      · rw [byteSize_cons]
        omega
    rw [List.nil_append, hmore, locateIn, if_pos (by rw [byteSize_append, byteSize_nil]; omega),
      List.append_nil, hfront]
    rfl
  | cons d front ih =>
    by_cases hd : d = '\n'
    · subst hd
      have hskip : ¬ byteSize begun.reverse + byteSize ('\n' :: front) <
          byteSize ('\n' :: begun).reverse := by
        rw [List.reverse_cons, byteSize_append, byteSize_cons, byteSize_cons, byteSize_nil]
        omega
      have hrest : byteSize begun.reverse + byteSize ('\n' :: front) -
            byteSize ('\n' :: begun).reverse =
          byteSize ([] : List Char).reverse + byteSize front := by
        rw [List.reverse_cons, byteSize_append, byteSize_cons, byteSize_cons, byteSize_nil,
          List.reverse_nil, byteSize_nil]
        omega
      rw [List.cons_append, linesFrom, if_pos rfl, locateIn, if_neg hskip, hrest, ih (by simp),
        lineFront_newline, List.count_cons_self, List.reverse_nil, List.nil_append,
        Nat.add_right_comm, Nat.add_assoc]
    · have hbytes : byteSize begun.reverse + byteSize (d :: front) =
          byteSize (d :: begun).reverse + byteSize front := by
        rw [List.reverse_cons, byteSize_append, byteSize_cons, byteSize_cons, byteSize_nil]
        omega
      have hbegun' : '\n' ∉ d :: begun := by simp [Ne.symm hd, hbegun]
      rw [List.cons_append, linesFrom, if_neg hd, hbytes, ih hbegun', List.reverse_cons,
        List.append_assoc, List.count_cons_of_ne hd]
      rfl

theorem locateIn_eq_none {number offset : Nat} {ls : List (List Char)}
    (h : byteSize ls.flatten ≤ offset) : locateIn number offset ls = none := by
  induction ls generalizing number offset with
  | nil => rfl
  | cons line ls ih =>
    rw [List.flatten_cons, byteSize_append] at h
    rw [locateIn, if_neg (by omega)]
    exact ih (by omega)

/-- The last line of a source that no newline ends. -/
theorem linesFrom_end (hbegun : '\n' ∉ begun) (h : lineFront (begun.reverse ++ text) ≠ []) :
    (linesFrom begun text).getLast? = some (lineFront (begun.reverse ++ text)) ∧
      (linesFrom begun text).length = text.count '\n' + 1 := by
  induction text generalizing begun with
  | nil =>
    have hfront : lineFront begun.reverse = begun.reverse :=
      lineFront_of_notMem (by rwa [List.mem_reverse])
    rw [List.append_nil] at h ⊢
    rw [hfront] at h ⊢
    have hne : begun.isEmpty = false := by simpa using h
    simp [linesFrom, hne]
  | cons c text ih =>
    by_cases hc : c = '\n'
    · subst hc
      rw [lineFront_newline] at h ⊢
      obtain ⟨hlast, hlength⟩ := ih List.not_mem_nil h
      rw [linesFrom, if_pos rfl]
      refine ⟨?_, ?_⟩
      · rw [List.getLast?_cons, hlast]
        rfl
      · rw [List.length_cons, hlength, List.count_cons_self]
    · have hbegun' : '\n' ∉ c :: begun := by simp [Ne.symm hc, hbegun]
      rw [linesFrom, if_neg hc, List.count_cons_of_ne hc]
      have hih := ih hbegun'
      rw [List.reverse_cons, List.append_assoc] at hih
      exact hih h

end

/-! ### Places -/

/-- The location of a place between `front` and `back`.  Behind all characters
    there is one if no newline ends the source. -/
theorem nearestLocation?_eq {source : String} {offset : UInt32} {front back : List Char}
    (hsource : source.toList = front ++ back) (hoffset : offset.toNat = byteSize front)
    (h : back ≠ [] ∨ lineFront front ≠ []) :
    nearestLocation? source offset =
      some ⟨front.count '\n' + 1, lineFront front ++ lineBack back,
        byteSize (lineFront front)⟩ := by
  have hnone : '\n' ∉ ([] : List Char) := List.not_mem_nil
  rw [nearestLocation?, locate?, hsource, hoffset]
  cases back with
  | cons c back =>
    have hlocated := locateIn_linesFrom hnone 1 front c back
    rw [List.reverse_nil, byteSize_nil, Nat.zero_add, List.nil_append, Nat.add_comm 1] at hlocated
    rw [lines, hlocated, Option.some_or]
  | nil =>
    have hne : lineFront ([] ++ front) ≠ [] := h.resolve_left (by simp)
    obtain ⟨hlast, hlength⟩ := linesFrom_end hnone hne
    rw [List.append_nil, locateIn_eq_none (by rw [flatten_lines]), Option.none_or, endLocation?,
      hsource, List.append_nil]
    simp only [lines, hlast, hlength, Option.map_some, List.reverse_nil, List.nil_append, lineBack,
      List.append_nil]
    rw [List.takeWhile_eq_self_iff.mpr]
    intro c hc
    simpa using ne_of_mem_of_not_mem hc (newline_notMem_lineFront front)

end BlockLang
