/-! # Positions — where something stands in a source text

  A position is a byte offset into a named text.  Offsets are 32-bit words:
  an offset past the last word wraps around, it is not refused. -/

namespace BlockLang

/-- A place in a source text. -/
structure Position where
  /-- Bytes before the place, modulo `2 ^ 32`. -/
  offset : UInt32
  /-- Name of the text. -/
  file : String
deriving DecidableEq

namespace Position

/-- The place of what comes from no text. -/
def null : Position := ⟨0, "<null>"⟩

/-- The place behind the first `bytes` bytes of `file`. -/
def after (file : String) (bytes : Nat) : Position := ⟨UInt32.ofNat bytes, file⟩

end Position

/-- The stretch of a source text that something covers. -/
structure Span where
  /-- Where it starts. -/
  start : Position
  /-- The first place behind it. -/
  stop : Position
deriving DecidableEq

/-- Name of a text that was given none. -/
def defaultFile : String := "shell"

end BlockLang
