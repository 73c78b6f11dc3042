import BlockLang.Text.Printable

/-! # Quoted — text between quotes in a message

  A quoted text shows printable characters as they are.  The enclosing quote
  and the backslash stand behind a backslash, four controls have a letter of
  their own, and every other character that is not printable is written with
  its code point in hexadecimal, as in `\u{200b}`. -/

namespace BlockLang

/-- The code point of a character, as `\u{…}`. -/
def codePointEscape (c : Char) : List Char :=
  ['\\', 'u', '\x7b'] ++ Nat.toDigits 16 c.toNat ++ ['\x7d']

/-- How a character is written between two `quote`s. -/
def escapeIn (quote c : Char) : List Char :=
  if c = '\x00' then ['\\', '0']
  else if c = '\t' then ['\\', 't']
  else if c = '\r' then ['\\', 'r']
  else if c = '\n' then ['\\', 'n']
  else if c = '\\' || c = quote then ['\\', c]
  else if isPrintable c then [c]
  else codePointEscape c

/-- A text between two `quote`s. -/
def quotedWith (quote : Char) (text : List Char) : String :=
  String.ofList (quote :: text.flatMap (escapeIn quote) ++ [quote])

/-- A string between double quotes. -/
def quotedString (s : String) : String := quotedWith '"' s.toList

/-- A character between single quotes. -/
def quotedChar (c : Char) : String := quotedWith '\'' [c]

end BlockLang
