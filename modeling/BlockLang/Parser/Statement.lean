import BlockLang.Parser.Expression
import BlockLang.Program.Stmt

/-! # Reading statements and programs

  A block is a list of statements that ends before an `end`, before an
  `else`, or with the tokens.  Reading a block opens a nesting level.  The
  statements below take the readers `expression` and `block` of the level
  inside them, in any monad that has the parser's actions, and `blockWithin`
  ties the knot by recursion on the number of levels left.  `parse` reads a
  whole program by the rules of the language. -/

namespace BlockLang

namespace Parser

/-! ### Statements -/

section

variable {m : Type → Type} [Monad m] [MonadLiftT Parse m]

/-- Reads `var name : type = value ;`. -/
def declaration (expression : m Expr) : m Stmt := do
  let first ← expect .kwVar
  let name ← expect .identifier
  let _ ← expect .colon
  let typeToken ← expect .typeName
  match Ty.ofKeyword? typeToken.lexeme with
  | none => (throw ⟨.unexpectedToken typeToken.lexeme "a type name", typeToken.span.start⟩ :
      Parse Stmt)
  | some ty =>
      let _ ← expect .assignment
      let target ← identOf name
      let value ← expression
      let _ ← expect .semicolon
      let tag ← closeTag first.span.start
      return .declaration target ty value tag

/-- Reads `name = value ;`. -/
def assignment (expression : m Expr) : m Stmt := do
  let name ← expect .identifier
  let _ ← expect .assignment
  let target ← identOf name
  let value ← expression
  let _ ← expect .semicolon
  let tag ← closeTag name.span.start
  return .assignment target value tag

/-- Reads `print value ;`. -/
def print (expression : m Expr) : m Stmt := do
  let first ← expect .kwPrint
  let value ← expression
  let _ ← expect .semicolon
  let tag ← closeTag first.span.start
  return .print value tag

/-- Reads `while condition do … end`. -/
def whileDo (expression : m Expr) (block : m (List Stmt)) : m Stmt := do
  let first ← expect .kwWhile
  let condition ← expression
  let _ ← expect .kwDo
  let body ← block
  let _ ← expect .kwEnd
  let tag ← closeTag first.span.start
  return .whileDo condition body tag

/-- Reads `if condition do … end` or `if condition do … else … end`.  The
    else branch ends with the same `end`, and gets its identity first. -/
def ifThen (expression : m Expr) (block : m (List Stmt)) : m Stmt := do
  let first ← expect .kwIf
  let condition ← expression
  let _ ← expect .kwDo
  let body ← block
  let p ← (get : Parse Parser)
  if p.currentKind? = some .kwElse then
    -- The branch stands in the block of the `if`, so one `end` closes both.
    let second ← expect .kwElse
    let otherwise ← block
    let _ ← expect .kwEnd
    let elseTag ← closeTag second.span.start
    let tag ← closeTag first.span.start
    return .ifThenElse condition body otherwise elseTag tag
  else
    let _ ← expect .kwEnd
    let tag ← closeTag first.span.start
    return .ifThen condition body tag

/-- Reads a reserved word that starts no statement, and refuses it. -/
def unsupported : Parse Stmt := do
  let token ← advance
  throw ⟨.notImplemented token.lexeme, token.span.start⟩

/-- Reads a statement by the given rule. -/
def statement (expression : m Expr) (block : m (List Stmt)) : StatementRule → m Stmt
  | .declaration => declaration expression
  | .assignment => assignment expression
  | .whileDo => whileDo expression block
  | .ifThen => ifThen expression block
  | .print => print expression
  | .unsupported => unsupported

/-! ### Blocks -/

/-- The kinds that end a block and belong to what is around it. -/
def endsBlock (kind : Kind) : Bool := kind = .kwEnd || kind = .kwElse

/-- Reads the next statement behind those in `before` (latest first), if the block
    does not end here.  What comes behind it is read by `again`. -/
def statementsRound (read : StatementRule → m Stmt) (again : List Stmt → m (List Stmt))
    (before : List Stmt) : m (List Stmt) := do
  let p ← (get : Parse Parser)
  match p.currentKind? with
  | none => return before.reverse
  | some kind =>
      match p.rules.statement kind with
      | some rule =>
          let s ← read rule
          again (s :: before)
      | none =>
          if endsBlock kind then return before.reverse
          else fail (·.unexpected "a statement")

/-- Reads the statements behind those in `before` (latest first).  Each round
    reads one token at least, so there are no more rounds than tokens `ahead`
    at the start. -/
def statements (read : StatementRule → m Stmt) :
    (ahead : List Token) → (before : List Stmt) → m (List Stmt)
  | [], before => return before.reverse
  | _ :: ahead, before => statementsRound read (statements read ahead) before

/-- Reads all statements of a block. -/
def body (read : StatementRule → m Stmt) : m (List Stmt) := do
  let p ← (get : Parse Parser)
  statements read p.rest []

/-- Reads a program, which is a block that takes all tokens. -/
def programOf (block : m (List Stmt)) : m Program := do
  let id ← freshId
  let p ← (get : Parse Parser)
  let body ← block
  let q ← (get : Parse Parser)
  if q.rest.isEmpty then return ⟨body, ⟨id, ⟨p.reached, q.reached⟩⟩⟩
  else fail (·.unexpected "a statement")

end

/-- Reads a block when `room` levels may still be opened. -/
def blockWithin : (room : Nat) → Parse (List Stmt)
  | 0 => fail tooDeep
  | room + 1 => do
      enter
      let ss ← body (statement (expr room .lowest) (blockWithin room))
      leave
      return ss

/-- Reads a block. -/
def block : Parse (List Stmt) := fun p => blockWithin p.room p

/-- Reads a statement by the given rule, with the levels that are left. -/
def statementBy (rule : StatementRule) : Parse Stmt :=
  statement (expression .lowest) block rule

/-! ### Programs -/

/-- Reads a program. -/
def program : Parse Program := programOf block

end Parser

/-- The program that the tokens spell when `limit` levels may be open. -/
def parseWithin (limit : Nat) (tokens : List Token) : Except Error Program :=
  match Parser.program (.start .standard limit tokens) with
  | .ok program _ => .ok program
  | .error error _ => .error error

/-- The program that the tokens spell. -/
def parse (tokens : List Token) : Except Error Program := parseWithin maxNesting tokens

end BlockLang
