import BlockLang.Text.Position
import BlockLang.Token.Kind

/-! # Tokens — the words of a program

  A token keeps its text beside its kind.  The text of a string literal is
  the string between single quotes, whichever quotes the source has. -/

namespace BlockLang

/-- A word of a program. -/
structure Token where
  kind : Kind
  /-- The text; a string literal stands between single quotes. -/
  lexeme : String
  /-- The part of the source it was read from. -/
  span : Span
deriving DecidableEq

/-- A token on lines of its own, for people to read. -/
def Token.display (token : Token) : String :=
  "Token \x7b\nkind: " ++ token.kind.name ++ ",\nvalue: " ++ token.lexeme ++ "\x7d"

end BlockLang
