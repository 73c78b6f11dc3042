import BlockLang.Text.Position
import BlockLang.Text.Quoted
import BlockLang.Ty

/-! # Errors — what can be wrong with a program

  The first thing wrong ends the work on a program.  A `Fault` is its cause,
  with what the texts about it mention; an `Error` is a fault at a place.
  Each fault belongs to one phase, has a name, a message, and nearly always a
  tip. -/

namespace BlockLang

/-- The part of the work that finds a fault. -/
inductive Phase where
  | lexical
  | syntactic
  | scope
  | semantic
deriving DecidableEq

def Phase.name : Phase → String
  | lexical => "Lexical"
  | syntactic => "Syntactic"
  | scope => "Scope"
  | semantic => "Semantic"

/-- What is wrong. -/
inductive Fault where
  /-- No token starts with the character. -/
  | unexpectedCharacter (character : Char)
  /-- The string that `quote` opens is never closed. -/
  | unterminatedString (quote : Char)
  /-- A point lacks digits on one of its sides. -/
  | malformedNumber (text : String)
  /-- The text of a number token is no number, or one out of range. -/
  | unreadableNumber (text : String)
  /-- Another token was expected. -/
  | unexpectedToken (text expected : String)
  /-- The tokens ended where more was expected. -/
  | unexpectedEnd (expected : String)
  /-- A reserved word whose statement does not exist yet. -/
  | notImplemented (construct : String)
  /-- Expressions and blocks stand inside each other too deeply. -/
  | nestingTooDeep (limit : Nat)
  /-- The name is taken. -/
  | duplicateDeclaration (name : String)
  /-- No declaration of the name is in sight. -/
  | undeclaredIdentifier (name : String)
  /-- A variable is declared with a value of another type. -/
  | declarationMismatch (expected received : Ty)
  /-- A variable is assigned a value of another type. -/
  | assignmentMismatch (expected received : Ty)
  /-- The operator does not apply to values of the category. -/
  | unsupportedOperator (operator : String) (category : Ty)
  /-- Only one operand is a truth value. -/
  | boolOperandMismatch (left right : Ty)
deriving DecidableEq

namespace Fault

/-- The name of a fault in reports. -/
def name : Fault → String
  | unexpectedCharacter _ => "UnexpectedCharacter"
  | unterminatedString _ => "UnterminatedString"
  | malformedNumber _ => "MalformedNumber"
  | unreadableNumber _ => "NumberParseError"
  | unexpectedToken _ _ => "UnexpectedToken"
  | unexpectedEnd _ => "UnexpectedEOF"
  | notImplemented _ => "NotImplemented"
  | nestingTooDeep _ => "NestingTooDeep"
  | duplicateDeclaration _ => "DuplicateDeclaration"
  | undeclaredIdentifier _ => "UndeclaredIdentifier"
  | declarationMismatch _ _ => "DeclarationTypeMismatch"
  | assignmentMismatch _ _ => "AssignmentTypeMismatch"
  | unsupportedOperator _ _ => "UnsupportedOperator"
  | boolOperandMismatch _ _ => "BooleanOperandMismatch"

/-- The phase that finds a fault. -/
def phase : Fault → Phase
  | unexpectedCharacter _ | unterminatedString _ | malformedNumber _ => .lexical
  | unreadableNumber _ | unexpectedToken _ _ | unexpectedEnd _ | notImplemented _
  | nestingTooDeep _ => .syntactic
  | duplicateDeclaration _ => .scope
  | undeclaredIdentifier _ | declarationMismatch _ _ | assignmentMismatch _ _
  | unsupportedOperator _ _ | boolOperandMismatch _ _ => .semantic

/-- What is wrong, in one sentence. -/
def message : Fault → String
  | unexpectedCharacter c => "unexpected character: " ++ quotedChar c
  | unterminatedString quote => "unterminated string, expected closing " ++ quotedChar quote
  | malformedNumber text => "malformed number: " ++ quotedString text
  | unreadableNumber text => "error parsing number: " ++ quotedString text
  | unexpectedToken text expected =>
      "unexpected token " ++ quotedString text ++ ", expected " ++ expected
  | unexpectedEnd expected => "expected " ++ expected ++ " but found end of input"
  | notImplemented construct => quotedString construct ++ " is not implemented"
  | nestingTooDeep limit => "nesting deeper than " ++ toString limit ++ " levels"
  | duplicateDeclaration name => "variable " ++ quotedString name ++ " already declared"
  | undeclaredIdentifier name => "variable " ++ quotedString name ++ " not declared"
  | declarationMismatch expected received =>
      "can't declare a " ++ expected.keyword ++ " and assign it a " ++ received.keyword
  | assignmentMismatch expected received =>
      "can't assign a " ++ received.keyword ++ " to a " ++ expected.keyword
  | unsupportedOperator operator category =>
      "undefined operator " ++ operator ++ " for " ++ category.keyword
  | boolOperandMismatch left right =>
      "both sides of the expression have to be a bool, found " ++ left.keyword ++ " and "
        ++ right.keyword

/-- How a forgotten semicolon is told from other missing tokens. -/
def semicolonName : String := "Semicolon"

/-- What the writer of the program may look for. -/
def tip? : Fault → Option String
  | unexpectedCharacter _ => none
  | unterminatedString quote => some ("String is missing its closing `" ++ quote.toString ++ "`")
  | malformedNumber text =>
      some ("Invalid number: `" ++ text ++ "`, a `.` needs digits on both sides")
  | unreadableNumber text =>
      some ("Invalid number: `" ++ text ++ "`, is it above the integer limit?")
  | unexpectedToken text expected =>
      if expected = semicolonName then
        some ("Unexpected token: `" ++ text ++ "`, did you miss a semicolon?")
      else some ("Expected " ++ expected ++ " but found `" ++ text ++ "`")
  | unexpectedEnd expected => some ("Expected " ++ expected ++ " but the input ended")
  | notImplemented construct => some ("`" ++ construct ++ "` is reserved but not supported yet")
  | nestingTooDeep limit =>
      some ("Expressions and blocks may nest at most " ++ toString limit ++ " levels deep")
  | duplicateDeclaration name => some ("Variable `" ++ name ++ "` already declared")
  | undeclaredIdentifier name => some ("Variable `" ++ name ++ "` not declared")
  | declarationMismatch expected received =>
      some ("Can't declare a `" ++ expected.keyword ++ "` and assign it a `" ++ received.keyword
        ++ "`")
  | assignmentMismatch expected received =>
      some ("Can't assign a `" ++ received.keyword ++ "` to a variable of type `"
        ++ expected.keyword ++ "`")
  | unsupportedOperator operator category =>
      some ("Operator `" ++ operator ++ "` is not defined for `" ++ category.keyword ++ "`")
  | boolOperandMismatch _ _ => some "Both sides of the expression have to be a `bool`"

end Fault

/-- A fault at a place. -/
structure Error where
  fault : Fault
  position : Position
deriving DecidableEq

end BlockLang
