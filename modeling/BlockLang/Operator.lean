import BlockLang.Token.Kind

/-! # Operators — what joins two expressions

  There are ten binary operators and no unary ones.  Each is written as one
  kind of token. -/

namespace BlockLang

/-- A binary operator. -/
inductive Operator where
  | add
  | subtract
  | multiply
  | divide
  | modulo
  | and
  | or
  | equals
  | notEquals
  | less
deriving DecidableEq

namespace Operator

/-- The operator that a kind of token stands for. -/
def ofKind? : Kind → Option Operator
  | .plus => some add
  | .dash => some subtract
  | .star => some multiply
  | .slash => some divide
  | .percent => some modulo
  | .and => some and
  | .or => some or
  | .equals => some equals
  | .notEquals => some notEquals
  | .less => some less
  | _ => none

/-- The operator as it is written in a program. -/
def symbol : Operator → String
  | add => "+"
  | subtract => "-"
  | multiply => "*"
  | divide => "/"
  | modulo => "%"
  | and => "&&"
  | or => "||"
  | equals => "=="
  | notEquals => "!="
  | less => "<"

/-- The operator in words. -/
def name : Operator → String
  | add => "plus"
  | subtract => "minus"
  | multiply => "mult"
  | divide => "div"
  | modulo => "mod"
  | and => "and"
  | or => "or"
  | equals => "equals"
  | notEquals => "not equals"
  | less => "less than"

end Operator

end BlockLang
