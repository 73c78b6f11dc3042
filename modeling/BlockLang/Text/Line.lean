import BlockLang.Text.Bytes

/-! # Lines — finding the line that holds a byte

  A text is cut after each newline, so a line keeps its newline and only the
  last one may lack it.  `locate?` finds the line that holds a byte offset;
  an offset at or behind the end of the text belongs to no line. -/

namespace BlockLang

/-- A byte of a text, told by its line. -/
structure Location where
  /-- Number of the line, counted from 1. -/
  number : Nat
  /-- The line with its newline, if it has one. -/
  line : List Char
  /-- Bytes of the line before the place. -/
  column : Nat
deriving DecidableEq

/-- The lines of a text, when `begun` (latest character first) is already
    known of the first one. -/
def linesFrom (begun : List Char) : List Char → List (List Char)
  | [] => if begun.isEmpty then [] else [begun.reverse]
  | c :: text =>
      if c = '\n' then (c :: begun).reverse :: linesFrom [] text
      else linesFrom (c :: begun) text

/-- A text cut after each newline. -/
def lines (text : List Char) : List (List Char) := linesFrom [] text

/-- No character is lost or moved by cutting a text into lines. -/
theorem flatten_linesFrom (begun text : List Char) :
    (linesFrom begun text).flatten = begun.reverse ++ text := by
  induction text generalizing begun with
  | nil => cases begun <;> simp [linesFrom]
  | cons c text ih => by_cases h : c = '\n' <;> simp [linesFrom, h, ih]

theorem flatten_lines (text : List Char) : (lines text).flatten = text := by
  simp [lines, flatten_linesFrom]

/-- The location of byte `offset`, counted from the start of the first of
    `ls`, whose number is `number`. -/
def locateIn (number offset : Nat) : List (List Char) → Option Location
  | [] => none
  | line :: ls =>
      if offset < byteSize line then some ⟨number, line, offset⟩
      else locateIn (number + 1) (offset - byteSize line) ls

/-- The location of the byte at `offset`, if the source has one there. -/
def locate? (source : String) (offset : UInt32) : Option Location :=
  locateIn 1 offset.toNat (lines source.toList)

end BlockLang
