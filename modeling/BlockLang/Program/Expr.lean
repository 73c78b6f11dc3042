import BlockLang.Number.Binary64
import BlockLang.Operator
import BlockLang.Text.Position
import BlockLang.Ty

/-! # Expressions — what has a value

  An expression is a literal, an identifier, or an operator between two
  expressions.  Every node of a program carries a `Tag`: an identity that no
  other node of the program has, by which later results refer to it, and the
  part of the source that it covers.  Parentheses leave no node. -/

namespace BlockLang

/-- Identity of a node within one program, counted in parse order. -/
abbrev NodeId : Type := Nat

/-- How an identity is shown. -/
def NodeId.label (id : NodeId) : String := "#" ++ toString id

/-- What every node carries. -/
structure Tag where
  id : NodeId
  span : Span
deriving DecidableEq

/-- A name at a place in a program. -/
structure Ident where
  name : String
  tag : Tag
deriving DecidableEq

/-- A value written out in a program. -/
inductive Literal where
  | int (value : Int64)
  | float (value : Binary64)
  | bool (value : Bool)
  /-- The text of the token, quotes included. -/
  | string (lexeme : String)
deriving DecidableEq

/-- The type of a literal. -/
def Literal.ty : Literal → Ty
  | int _ => .int
  | float _ => .float
  | bool _ => .bool
  | string _ => .string

/-- An expression. -/
inductive Expr where
  | binary (left : Expr) (operator : Operator) (right : Expr) (tag : Tag)
  | identifier (ident : Ident)
  | literal (value : Literal) (tag : Tag)
deriving DecidableEq

namespace Expr

/-- The tag of the topmost node. -/
def tag : Expr → Tag
  | binary _ _ _ tag => tag
  | identifier ident => ident.tag
  | literal _ tag => tag

def id (e : Expr) : NodeId := e.tag.id

def span (e : Expr) : Span := e.tag.span

/-- The type of a literal; an identifier or an operation shows none. -/
def literalType? : Expr → Option Ty
  | literal value _ => some value.ty
  | _ => none

/-- A measure of size in which an operation outweighs its operands together
    with one more unit: what is left of it while one operand is dealt with. -/
def weight : Expr → Nat
  | binary left _ right _ => left.weight + right.weight + 2
  | _ => 1

end Expr

end BlockLang
