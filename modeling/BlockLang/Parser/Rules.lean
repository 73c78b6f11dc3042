import BlockLang.Token.Kind

/-! # Rules — which kinds of tokens start and join what

  The rules of a parser say for each kind of token how a statement that
  starts with it is read, how an operand that starts with it is read, and
  whether it joins two operands, and how tightly.  The standard rules are
  those of the language; a parser may be given others. -/

namespace BlockLang

/-- How tightly an operator binds its operands. -/
inductive Power where
  /-- What every operator exceeds. -/
  | lowest
  | additive
  | multiplicative
deriving DecidableEq

/-- Powers in ascending order. -/
def Power.rank : Power → Nat
  | lowest => 0
  | additive => 1
  | multiplicative => 2

/-- How an operand is read. -/
inductive OperandRule where
  /-- One token: a literal or an identifier. -/
  | primary
  /-- An expression in parentheses. -/
  | grouping
deriving DecidableEq

/-- How a statement is read. -/
inductive StatementRule where
  | declaration
  | assignment
  | whileDo
  | ifThen
  | print
  /-- A reserved word without a statement of its own. -/
  | unsupported
deriving DecidableEq

/-- What a parser does with each kind of token. -/
structure Rules where
  /-- The binding power of the kinds that have one. -/
  power : Kind → Option Power
  /-- The kinds that are read as binary operators. -/
  joins : Kind → Bool
  operand : Kind → Option OperandRule
  statement : Kind → Option StatementRule

namespace Rules

/-! ### Building rules -/

/-- No kind of token has a rule. -/
def empty : Rules := ⟨fun _ => none, fun _ => false, fun _ => none, fun _ => none⟩

/-- Makes a kind a binary operator with the given power. -/
def withOperator (rules : Rules) (kind : Kind) (power : Power) : Rules :=
  { rules with
    power := fun k => if k = kind then some power else rules.power k
    joins := fun k => k = kind || rules.joins k }

/-- Gives operands that start with a kind a rule. -/
def withOperand (rules : Rules) (kind : Kind) (rule : OperandRule) : Rules :=
  { rules with operand := fun k => if k = kind then some rule else rules.operand k }

/-- Gives statements that start with a kind a rule. -/
def withStatement (rules : Rules) (kind : Kind) (rule : StatementRule) : Rules :=
  { rules with statement := fun k => if k = kind then some rule else rules.statement k }

/-! ### The language -/

/-- The power of the language's operators.  Comparisons and logical operators
    bind as loosely as sums. -/
def standardPower? : Kind → Option Power
  | .plus | .dash | .and | .or | .equals | .notEquals | .less => some .additive
  | .star | .slash | .percent => some .multiplicative
  | _ => none

/-- The operands of the language. -/
def standardOperand? : Kind → Option OperandRule
  | .integer | .float | .boolean | .string | .identifier => some .primary
  | .openParen => some .grouping
  | _ => none

/-- The statements of the language. -/
def standardStatement? : Kind → Option StatementRule
  | .kwVar => some .declaration
  | .identifier => some .assignment
  | .kwWhile => some .whileDo
  | .kwIf => some .ifThen
  | .kwPrint => some .print
  | .kwFor | .kwFunc => some .unsupported
  | _ => none

/-- Adds the rules of the language, which replace others for the same kinds. -/
def withStandard (rules : Rules) : Rules where
  power k := (standardPower? k).or (rules.power k)
  joins k := (standardPower? k).isSome || rules.joins k
  operand k := (standardOperand? k).or (rules.operand k)
  statement k := (standardStatement? k).or (rules.statement k)

/-- The rules of the language. -/
def standard : Rules := empty.withStandard

end Rules

end BlockLang
