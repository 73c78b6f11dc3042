import BlockLang.Text.Bytes
import BlockLang.Text.Position

/-! # Cursors — a place in a source that moves by bytes

  A cursor is a byte offset that may be moved anywhere: past the end of its
  source, or inside a character.  At such a place no text can be read. -/

namespace BlockLang

/-- A place in a source text. -/
structure Cursor where
  source : String
  /-- Name of the source. -/
  file : String
  /-- Bytes before the place, a 64-bit word. -/
  offset : UInt64

namespace Cursor

/-- The cursor at the start of a source. -/
def start (source file : String) : Cursor := ⟨source, file, 0⟩

/-- The cursor `bytes` bytes further on. -/
def advance (cursor : Cursor) (bytes : UInt64) : Cursor :=
  { cursor with offset := cursor.offset + bytes }

/-- The text behind the cursor; `none` where no text can be read. -/
def remainder? (cursor : Cursor) : Option (List Char) :=
  dropBytes? cursor.offset.toNat cursor.source.toList

/-- Is no text left behind the cursor? -/
def atEnd (cursor : Cursor) : Bool := cursor.source.utf8ByteSize ≤ cursor.offset.toNat

/-- The place of the cursor. -/
def position (cursor : Cursor) : Position := .after cursor.file cursor.offset.toNat

/-- The span of the next `bytes` bytes. -/
def spanOf (cursor : Cursor) (bytes : UInt64) : Span :=
  ⟨cursor.position, (cursor.advance bytes).position⟩

end Cursor

end BlockLang
