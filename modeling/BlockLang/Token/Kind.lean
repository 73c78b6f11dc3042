/-! # Kinds — the classes of tokens

  A token is a name, a literal, a type name, a mark or a reserved word.  Each
  mark and each reserved word that starts or closes something is a kind of
  its own. -/

namespace BlockLang

/-- The class of a token. -/
inductive Kind where
  | identifier
  | integer
  | float
  | string
  | boolean
  | typeName
  | openBracket
  | closeBracket
  | openParen
  | closeParen
  /-- The mark `=`. -/
  | assignment
  /-- The mark `==`. -/
  | equals
  | not
  | notEquals
  | less
  | lessEquals
  | greater
  | greaterEquals
  /-- The mark `||`. -/
  | or
  /-- The mark `&&`. -/
  | and
  /-- The mark `|`. -/
  | bitOr
  /-- The mark `&`. -/
  | bitAnd
  | semicolon
  | colon
  | comma
  | plus
  | dash
  | slash
  | star
  | percent
  | kwVar
  | kwWhile
  | kwFor
  | kwDo
  | kwEnd
  | kwIf
  | kwElse
  | kwFunc
  | kwPrint
deriving DecidableEq

namespace Kind

/-- The name of a kind in messages. -/
def name : Kind → String
  | identifier => "Identifier"
  | integer => "Integer"
  | float => "Float"
  | string => "String"
  | boolean => "Boolean"
  | typeName => "TypeName"
  | openBracket => "OpenBracket"
  | closeBracket => "CloseBracket"
  | openParen => "OpenParen"
  | closeParen => "CloseParen"
  | assignment => "Assignment"
  | equals => "Equals"
  | not => "Not"
  | notEquals => "NotEquals"
  | less => "Less"
  | lessEquals => "LessEquals"
  | greater => "Greater"
  | greaterEquals => "GreaterEquals"
  | or => "Or"
  | and => "And"
  | bitOr => "BitwiseOr"
  | bitAnd => "BitwiseAnd"
  | semicolon => "Semicolon"
  | colon => "Colon"
  | comma => "Comma"
  | plus => "Plus"
  | dash => "Dash"
  | slash => "Slash"
  | star => "Star"
  | percent => "Percent"
  | kwVar => "Var"
  | kwWhile => "While"
  | kwFor => "For"
  | kwDo => "Do"
  | kwEnd => "End"
  | kwIf => "If"
  | kwElse => "Else"
  | kwFunc => "Func"
  | kwPrint => "Print"

/-- Every kind once. -/
def all : List Kind :=
  [identifier, integer, float, string, boolean, typeName, openBracket, closeBracket, openParen,
   closeParen, assignment, equals, not, notEquals, less, lessEquals, greater, greaterEquals, or,
   and, bitOr, bitAnd, semicolon, colon, comma, plus, dash, slash, star, percent, kwVar, kwWhile,
   kwFor, kwDo, kwEnd, kwIf, kwElse, kwFunc, kwPrint]

/-- The kind with the given name, if there is one. -/
def ofName? (name : String) : Option Kind := all.find? fun kind => kind.name == name

/-- The kind of a reserved word; `none` when the word is free to be a name. -/
def reserved? : String → Option Kind
  | "var" => some kwVar
  | "while" => some kwWhile
  | "for" => some kwFor
  | "do" => some kwDo
  | "end" => some kwEnd
  | "if" => some kwIf
  | "else" => some kwElse
  | "func" => some kwFunc
  | "print" => some kwPrint
  | "int" => some typeName
  | "float" => some typeName
  | "string" => some typeName
  | "bool" => some typeName
  | "true" => some boolean
  | "false" => some boolean
  | _ => none

/-- The kind of a word. -/
def ofWord (word : String) : Kind := (reserved? word).getD identifier

/-- The kind of a mark of two characters. -/
def ofMarkPair? : Char → Char → Option Kind
  | '=', '=' => some equals
  | '!', '=' => some notEquals
  | '<', '=' => some lessEquals
  | '>', '=' => some greaterEquals
  | '|', '|' => some or
  | '&', '&' => some and
  | _, _ => none

/-- The kind of a mark of one character. -/
def ofMark? : Char → Option Kind
  | '[' => some openBracket
  | ']' => some closeBracket
  | '(' => some openParen
  | ')' => some closeParen
  | '=' => some assignment
  | '!' => some not
  | '<' => some less
  | '>' => some greater
  | '|' => some bitOr
  | '&' => some bitAnd
  | ';' => some semicolon
  | ':' => some colon
  | ',' => some comma
  | '+' => some plus
  | '-' => some dash
  | '/' => some slash
  | '*' => some star
  | '%' => some percent
  | _ => none

end Kind

end BlockLang
