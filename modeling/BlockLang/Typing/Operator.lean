import BlockLang.Error
import BlockLang.Operator

/-! # Typing of operators

  A string on either side makes an operation a concatenation, a truth value
  on either side makes it a logical operation, and otherwise it is
  arithmetic. -/

namespace BlockLang

namespace Operator

/-- Does the operator apply to two truth values? -/
def isLogical : Operator → Bool
  | and | or | equals => true
  | _ => false

/-- Does the operator apply to two numbers? -/
def isArithmetic : Operator → Bool
  | add | subtract | multiply | divide | modulo | less => true
  | _ => false

/-- The fault of an operator that does not apply. -/
def unsupported (operator : Operator) (category : Ty) : Fault :=
  .unsupportedOperator operator.symbol category

/-- The type of a result, or why there is none.  A float on either side makes
    any arithmetic result a float, that of a comparison too. -/
def resultType (operator : Operator) (left right : Ty) : Except Fault Ty :=
  if left = .string || right = .string then
    if operator = .add then .ok .string else .error (operator.unsupported .string)
  else if left = .bool || right = .bool then
    if left ≠ right then .error (.boolOperandMismatch left right)
    else if operator.isLogical then .ok .bool
    else .error (operator.unsupported .bool)
  else if !operator.isArithmetic then .error (operator.unsupported .int)
  else if left = .float || right = .float then .ok .float
  else if operator = .less then .ok .bool
  else .ok .int

end Operator

end BlockLang
