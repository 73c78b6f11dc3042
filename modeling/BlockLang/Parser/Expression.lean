import BlockLang.Number.Decimal
import BlockLang.Parser.State

/-! # Reading expressions

  An expression is an operand, followed by operators that bind more tightly
  than a given power, each with an operand of its own.  An operator's right
  side is an expression for the power of the operator, so operators of one
  power group to the left.

  Reading one expression opens a nesting level.  Right sides and parentheses
  hold expressions inside, so the functions below take the reader `inner` of
  the next level as an argument, and `expr` ties the knot by recursion on the
  number of levels left.  Nothing but that knot depends on how levels are
  counted: the other readers work in any monad that has the parser's actions. -/

namespace BlockLang

namespace Parser

/-- The expression that one token stands for. -/
def leafOf (token : Token) (id : NodeId) : Except Error Expr :=
  let tag : Tag := ⟨id, token.span⟩
  match token.kind with
  | .integer =>
      match readInt64? token.lexeme with
      | some value => .ok (.literal (.int value) tag)
      | none => .error ⟨.unreadableNumber token.lexeme, token.span.start⟩
  | .float =>
      match readBinary64? token.lexeme with
      | some value => .ok (.literal (.float value) tag)
      | none => .error ⟨.unreadableNumber token.lexeme, token.span.start⟩
  | .boolean => .ok (.literal (.bool (token.lexeme = "true")) tag)
  | .string => .ok (.literal (.string token.lexeme) tag)
  | .identifier => .ok (.identifier ⟨token.lexeme, tag⟩)
  | _ => .error ⟨.unexpectedToken token.lexeme "an expression", token.span.start⟩

/-- Reads an operand of one token.  The identity is drawn even if the token
    turns out to be none. -/
def primary : Parse Expr := do
  let token ← advance
  let id ← freshId
  match leafOf token id with
  | .ok e => return e
  | .error error => throw error

section

variable {m : Type → Type} [Monad m] [MonadLiftT Parse m]

/-- Reads an expression in parentheses. -/
def grouping (inner : Power → m Expr) : m Expr := do
  let _ ← expect .openParen
  let e ← inner .lowest
  let _ ← expect .closeParen
  return e

/-- Reads an operand. -/
def operand (inner : Power → m Expr) : m Expr := do
  let p ← (get : Parse Parser)
  match p.currentKind?.bind p.rules.operand with
  | some .primary => primary
  | some .grouping => grouping inner
  | none => fail (·.unexpected "an expression")

/-- Reads an operator and its right side, whose operators bind more tightly
    than `power`, and joins them to the left side. -/
def binary (inner : Power → m Expr) (left : Expr) (power : Power) : m Expr := do
  let token ← advance
  match Operator.ofKind? token.kind with
  | none => (throw ⟨.unexpectedToken token.lexeme "an operator", token.span.start⟩ : Parse Expr)
  | some operator =>
      let right ← inner power
      let id ← freshId
      return .binary left operator right ⟨id, ⟨left.span.start, right.span.stop⟩⟩

/-- Reads the next operator behind `left` if it binds more tightly than `power`.
    What comes behind it is read by `again`. -/
def climbRound (inner : Power → m Expr) (power : Power) (again : Expr → m Expr) (left : Expr) :
    m Expr := do
  let p ← (get : Parse Parser)
  match p.currentKind? with
  | none => return left
  | some kind =>
      let next := (p.rules.power kind).getD .lowest
      if next.rank ≤ power.rank then return left
      else if p.rules.joins kind then
        let joined ← binary inner left next
        again joined
      else fail (·.unexpected "an operator")

/-- Reads the operators behind `left` that bind more tightly than `power`.
    Each round reads one token at least, so there are no more rounds than
    tokens `ahead` at the start. -/
def climb (inner : Power → m Expr) (power : Power) : (ahead : List Token) → Expr → m Expr
  | [], left => return left
  | _ :: ahead, left => climbRound inner power (climb inner power ahead) left

/-- Reads the operand and the operators of one level. -/
def level (inner : Power → m Expr) (power : Power) : m Expr := do
  let left ← operand inner
  let p ← (get : Parse Parser)
  climb inner power p.rest left

end

/-- Reads an expression whose operators bind more tightly than `power`, when
    `room` levels may still be opened. -/
def expr : (room : Nat) → Power → Parse Expr
  | 0, _ => fail tooDeep
  | room + 1, power => do
      enter
      let e ← level (expr room) power
      leave
      return e

/-- Reads an expression whose operators bind more tightly than `power`. -/
def expression (power : Power) : Parse Expr := fun p => expr p.room power p

end Parser

end BlockLang
