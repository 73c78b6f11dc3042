import BlockLang.Number.Decimal
import BlockLang.Number.Integer
import BlockLang.Program.Stmt
import BlockLang.Token.Basic

/-! # Derivations — the grammar of the language

  The grammar, with a `*` for any number of repetitions:

      program := stmt*
      stmt    := Var Identifier Colon TypeName Assignment expr Semicolon
               | Identifier Assignment expr Semicolon
               | Print expr Semicolon
               | While expr Do stmt* End
               | If expr Do stmt* [Else stmt*] End
      expr    := term ((Plus | Dash | And | Or | Equals | NotEquals | Less) term)*
      term    := factor ((Star | Slash | Percent) factor)*
      factor  := Integer | Float | Boolean | String | Identifier
               | OpenParen expr CloseParen

  A derivation is a tree of these rules whose leaves are tokens, each of a
  kind that its rule asks for.  A repetition of operators is derived from the
  left: what stands before an operator is one derivation, and its right side
  is another.  A derivation knows its tokens, the levels that have to be open
  at once to read it, and the program that it spells. -/

namespace BlockLang

/-- Can the text of a token be understood?  A type name has to be one of the
    four, and a number has to be readable; other tokens are not looked into. -/
def Token.Readable (token : Token) : Prop :=
  match token.kind with
  | .typeName => (Ty.ofKeyword? token.lexeme).isSome
  | .integer => (readInt64? token.lexeme).isSome
  | .float => (readBinary64? token.lexeme).isSome
  | _ => True

instance (token : Token) : Decidable token.Readable := by
  unfold Token.Readable
  split <;> infer_instance

namespace Grammar

/-! ### Leaves -/

/-- A token of the given kind. -/
abbrev TokenOf (kind : Kind) : Type := { token : Token // token.kind = kind }

/-- The operators between the factors of a term. -/
def productOperator? : Kind → Option Operator
  | .star => some .multiply
  | .slash => some .divide
  | .percent => some .modulo
  | _ => none

/-- The operators between the terms of an expression. -/
def sumOperator? : Kind → Option Operator
  | .plus => some .add
  | .dash => some .subtract
  | .and => some .and
  | .or => some .or
  | .equals => some .equals
  | .notEquals => some .notEquals
  | .less => some .less
  | _ => none

/-- A token that stands for an operator of a table. -/
structure Sign (table : Kind → Option Operator) where
  token : Token
  operator : Operator
  spells : table token.kind = some operator

/-- A factor of one token. -/
inductive Leaf where
  | integer (token : TokenOf .integer)
  | float (token : TokenOf .float)
  | boolean (token : TokenOf .boolean)
  | string (token : TokenOf .string)
  | identifier (token : TokenOf .identifier)

namespace Leaf

def token : Leaf → Token
  | integer token | float token | boolean token | string token | identifier token => token.1

/-- The expression that a leaf spells.  A number that cannot be read, which no
    program has, counts as zero. -/
def expr (leaf : Leaf) (tag : Tag) : Expr :=
  match leaf with
  | integer token => .literal (.int ((readInt64? token.1.lexeme).getD 0)) tag
  | float token => .literal (.float ((readBinary64? token.1.lexeme).getD ⟨0⟩)) tag
  | boolean token => .literal (.bool (token.1.lexeme = "true")) tag
  | string token => .literal (.string token.1.lexeme) tag
  | identifier token => .identifier ⟨token.1.lexeme, tag⟩

end Leaf

/-! ### Phrases -/

/-- What the rules for expressions are about. -/
inductive Nonterminal where
  | factor
  | term
  | expr

/-- A derivation of a factor, a term or an expression. -/
inductive Phrase : Nonterminal → Type where
  | leaf (leaf : Leaf) : Phrase .factor
  | parens (opening : TokenOf .openParen) (inner : Phrase .expr)
      (closing : TokenOf .closeParen) : Phrase .factor
  | ofFactor (factor : Phrase .factor) : Phrase .term
  | product (left : Phrase .term) (sign : Sign productOperator?)
      (right : Phrase .factor) : Phrase .term
  | ofTerm (term : Phrase .term) : Phrase .expr
  | sum (left : Phrase .expr) (sign : Sign sumOperator?) (right : Phrase .term) : Phrase .expr

namespace Phrase

/-- The tokens of a phrase, in order. -/
def tokens : {nt : Nonterminal} → Phrase nt → List Token
  | _, leaf l => [l.token]
  | _, parens opening inner closing => opening.1 :: (inner.tokens ++ [closing.1])
  | _, ofFactor f => f.tokens
  | _, product left sign right => left.tokens ++ sign.token :: right.tokens
  | _, ofTerm t => t.tokens
  | _, sum left sign right => left.tokens ++ sign.token :: right.tokens

/-- How many levels are open at once inside a phrase: one for each pair of
    parentheses and for each right side around a token. -/
def levels : {nt : Nonterminal} → Phrase nt → Nat
  | _, leaf _ => 0
  | _, parens _ inner _ => inner.levels + 1
  | _, ofFactor f => f.levels
  | _, product left _ right => max left.levels (right.levels + 1)
  | _, ofTerm t => t.levels
  | _, sum left _ right => max left.levels (right.levels + 1)

/-- Number of nodes of the expression. -/
def size : {nt : Nonterminal} → Phrase nt → Nat
  | _, leaf _ => 1
  | _, parens _ inner _ => inner.size
  | _, ofFactor f => f.size
  | _, product left _ right => left.size + right.size + 1
  | _, ofTerm t => t.size
  | _, sum left _ right => left.size + right.size + 1

/-- Joins two expressions by an operator. -/
def join (left : Expr) (operator : Operator) (right : Expr) (id : NodeId) : Expr :=
  .binary left operator right ⟨id, ⟨left.span.start, right.span.stop⟩⟩

/-- The expression of a phrase whose nodes are numbered from `first` on. -/
def expr (first : NodeId) : {nt : Nonterminal} → Phrase nt → Expr
  | _, leaf l => l.expr ⟨first, l.token.span⟩
  | _, parens _ inner _ => inner.expr first
  | _, ofFactor f => f.expr first
  | _, product left sign right =>
      join (left.expr first) sign.operator (right.expr (first + left.size))
        (first + left.size + right.size)
  | _, ofTerm t => t.expr first
  | _, sum left sign right =>
      join (left.expr first) sign.operator (right.expr (first + left.size))
        (first + left.size + right.size)

end Phrase

/-! ### Sentences -/

/-- A derivation of a statement. -/
inductive Sentence where
  | declaration (kwVar : TokenOf .kwVar) (name : TokenOf .identifier) (colon : TokenOf .colon)
      (type : TokenOf .typeName) (equals : TokenOf .assignment) (value : Phrase .expr)
      (semicolon : TokenOf .semicolon)
  | assignment (name : TokenOf .identifier) (equals : TokenOf .assignment)
      (value : Phrase .expr) (semicolon : TokenOf .semicolon)
  | print (kwPrint : TokenOf .kwPrint) (value : Phrase .expr) (semicolon : TokenOf .semicolon)
  | whileDo (kwWhile : TokenOf .kwWhile) (condition : Phrase .expr) (kwDo : TokenOf .kwDo)
      (body : List Sentence) (kwEnd : TokenOf .kwEnd)
  | ifThen (kwIf : TokenOf .kwIf) (condition : Phrase .expr) (kwDo : TokenOf .kwDo)
      (body : List Sentence) (kwEnd : TokenOf .kwEnd)
  | ifThenElse (kwIf : TokenOf .kwIf) (condition : Phrase .expr) (kwDo : TokenOf .kwDo)
      (body : List Sentence) (kwElse : TokenOf .kwElse) (otherwise : List Sentence)
      (kwEnd : TokenOf .kwEnd)

mutual

/-- The tokens of a statement, in order. -/
def Sentence.tokens : Sentence → List Token
  | .declaration kwVar name colon type equals value semicolon =>
      kwVar.1 :: name.1 :: colon.1 :: type.1 :: equals.1 :: (value.tokens ++ [semicolon.1])
  | .assignment name equals value semicolon =>
      name.1 :: equals.1 :: (value.tokens ++ [semicolon.1])
  | .print kwPrint value semicolon => kwPrint.1 :: (value.tokens ++ [semicolon.1])
  | .whileDo kwWhile condition kwDo body kwEnd =>
      kwWhile.1 :: (condition.tokens ++ kwDo.1 :: (blockTokens body ++ [kwEnd.1]))
  | .ifThen kwIf condition kwDo body kwEnd =>
      kwIf.1 :: (condition.tokens ++ kwDo.1 :: (blockTokens body ++ [kwEnd.1]))
  | .ifThenElse kwIf condition kwDo body kwElse otherwise kwEnd =>
      kwIf.1 :: (condition.tokens ++ kwDo.1 :: (blockTokens body
        ++ kwElse.1 :: (blockTokens otherwise ++ [kwEnd.1])))

/-- The tokens of a block, in order. -/
def blockTokens : List Sentence → List Token
  | [] => []
  | s :: ss => s.tokens ++ blockTokens ss

end

mutual

/-- How many levels are open at once inside a statement: its expressions and
    its blocks open one each. -/
def Sentence.levels : Sentence → Nat
  | .declaration _ _ _ _ _ value _ | .assignment _ _ value _ | .print _ value _ =>
      value.levels + 1
  | .whileDo _ condition _ body _ | .ifThen _ condition _ body _ =>
      max (condition.levels + 1) (blockLevels body + 1)
  | .ifThenElse _ condition _ body _ otherwise _ =>
      max (condition.levels + 1) (max (blockLevels body + 1) (blockLevels otherwise + 1))

/-- How many levels are open at once inside a block, its own not counted. -/
def blockLevels : List Sentence → Nat
  | [] => 0
  | s :: ss => max s.levels (blockLevels ss)

end

mutual

/-- Number of nodes of a statement. -/
def Sentence.size : Sentence → Nat
  | .declaration _ _ _ _ _ value _ | .assignment _ _ value _ => value.size + 2
  | .print _ value _ => value.size + 1
  | .whileDo _ condition _ body _ | .ifThen _ condition _ body _ =>
      condition.size + blockSize body + 1
  | .ifThenElse _ condition _ body _ otherwise _ =>
      condition.size + blockSize body + blockSize otherwise + 2

/-- Number of nodes of a block. -/
def blockSize : List Sentence → Nat
  | [] => 0
  | s :: ss => s.size + blockSize ss

end

/-- The name that a token spells. -/
def identOf (token : Token) (id : NodeId) : Ident := ⟨token.lexeme, ⟨id, token.span⟩⟩

/-- The type that a token names.  A token that names none, which no program
    has, counts as `int`. -/
def typeOf (token : TokenOf .typeName) : Ty := (Ty.ofKeyword? token.1.lexeme).getD .int

/-- The span from the start of one token to the end of another. -/
def spanOf (first last : Token) : Span := ⟨first.span.start, last.span.stop⟩

mutual

/-- The statement whose nodes are numbered from `first` on: a target, then a
    value or condition, then the blocks, then an else branch, and the
    statement last. -/
def Sentence.stmt (first : NodeId) : Sentence → Stmt
  | .declaration kwVar name _ type _ value semicolon =>
      .declaration (identOf name.1 first) (typeOf type) (value.expr (first + 1))
        ⟨first + value.size + 1, spanOf kwVar.1 semicolon.1⟩
  | .assignment name _ value semicolon =>
      .assignment (identOf name.1 first) (value.expr (first + 1))
        ⟨first + value.size + 1, spanOf name.1 semicolon.1⟩
  | .print kwPrint value semicolon =>
      .print (value.expr first) ⟨first + value.size, spanOf kwPrint.1 semicolon.1⟩
  | .whileDo kwWhile condition _ body kwEnd =>
      .whileDo (condition.expr first) (blockStmts (first + condition.size) body)
        ⟨first + condition.size + blockSize body, spanOf kwWhile.1 kwEnd.1⟩
  | .ifThen kwIf condition _ body kwEnd =>
      .ifThen (condition.expr first) (blockStmts (first + condition.size) body)
        ⟨first + condition.size + blockSize body, spanOf kwIf.1 kwEnd.1⟩
  | .ifThenElse kwIf condition _ body kwElse otherwise kwEnd =>
      .ifThenElse (condition.expr first) (blockStmts (first + condition.size) body)
        (blockStmts (first + condition.size + blockSize body) otherwise)
        ⟨first + condition.size + blockSize body + blockSize otherwise, spanOf kwElse.1 kwEnd.1⟩
        ⟨first + condition.size + blockSize body + blockSize otherwise + 1, spanOf kwIf.1 kwEnd.1⟩

/-- The statements of a block whose nodes are numbered from `first` on. -/
def blockStmts (first : NodeId) : List Sentence → List Stmt
  | [] => []
  | s :: ss => s.stmt first :: blockStmts (first + s.size) ss

end

/-- The program of a derivation.  Its root is numbered first, and it covers
    the tokens from the first to the last. -/
def program (body : List Sentence) : Program :=
  let tokens := blockTokens body
  ⟨blockStmts 1 body, ⟨0, ⟨(tokens.head?.map (·.span.start)).getD .null,
    (tokens.getLast?.map (·.span.stop)).getD .null⟩⟩⟩

end Grammar

end BlockLang
