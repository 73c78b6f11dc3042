/-! # Bytes — how long a text is, and where it may be cut

  Texts are lists of characters, while offsets into them count the bytes of
  their UTF-8 form.  This module relates the two: `byteSize` measures a text,
  and `dropBytes?` cuts a number of bytes off its front, which is possible
  only between two characters. -/

namespace BlockLang

/-- Number of bytes that a text takes in UTF-8. -/
def byteSize (text : List Char) : Nat := text.foldl (fun n c => n + c.utf8Size) 0

theorem foldl_utf8Size (n : Nat) (text : List Char) :
    text.foldl (fun n c => n + c.utf8Size) n = n + byteSize text := by
  unfold byteSize
  induction text generalizing n with
  | nil => rfl
  | cons c text ih => rw [List.foldl_cons, List.foldl_cons, ih, ih (0 + _)]; omega

@[simp] theorem byteSize_nil : byteSize [] = 0 := rfl

@[simp] theorem byteSize_cons (c : Char) (text : List Char) :
    byteSize (c :: text) = c.utf8Size + byteSize text := by
  rw [byteSize, List.foldl_cons, foldl_utf8Size, Nat.zero_add]

@[simp] theorem byteSize_append (front back : List Char) :
    byteSize (front ++ back) = byteSize front + byteSize back := by
  rw [byteSize, List.foldl_append, foldl_utf8Size]; rfl

/-- What is left of a text behind its first `n` bytes; `none` when the text
    is shorter than that, or the cut would fall inside a character. -/
def dropBytes? : (n : Nat) → List Char → Option (List Char)
  | 0, text => some text
  | _ + 1, [] => none
  | n + 1, c :: text =>
      if c.utf8Size ≤ n + 1 then dropBytes? (n + 1 - c.utf8Size) text else none

/-- The bytes of a front of a text can be cut off, and leave the back. -/
theorem dropBytes?_byteSize (front back : List Char) :
    dropBytes? (byteSize front) (front ++ back) = some back := by
  induction front with
  | nil => cases back <;> rfl
  | cons c front ih =>
    obtain ⟨n, hn⟩ : ∃ n, c.utf8Size + byteSize front = n + 1 :=
      Nat.exists_eq_add_one.mpr (by have := c.utf8Size_pos; omega)
    have hc : c.utf8Size ≤ n + 1 := by omega
    have hrest : n + 1 - c.utf8Size = byteSize front := by omega
    simp [hn, dropBytes?, hc, hrest, ih]

end BlockLang
