import BlockLang.Text.Ranges

/-! # Blank — the white space of Unicode

  The characters with the property `White_Space`.  They are what is cut off
  the end of a line that is shown; the blanks that separate tokens are fewer. -/

namespace BlockLang

/-- Code points with the property `White_Space`. -/
def whiteSpace : List (Nat × Nat) :=
  [(0x9, 0xd), (0x20, 0x20), (0x85, 0x85), (0xa0, 0xa0), (0x1680, 0x1680), (0x2000, 0x200a),
   (0x2028, 0x2029), (0x202f, 0x202f), (0x205f, 0x205f), (0x3000, 0x3000)]

/-- Is the character white space? -/
def isBlank (c : Char) : Bool := inRanges c.toNat whiteSpace

/-- A text without the white space at its end. -/
def trimEnd (text : List Char) : List Char := (text.reverse.dropWhile isBlank).reverse

end BlockLang
