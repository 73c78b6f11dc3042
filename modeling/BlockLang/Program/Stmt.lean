import BlockLang.Program.Expr

/-! # Statements — what a program does

  A declaration and an assignment have a target, a name with a tag of its
  own.  The statements `while` and `if` hold blocks: lists of statements that
  open a scope.  The branch behind an `else` is a block inside the block of
  its `if`, and has a tag too. -/

namespace BlockLang

/-- A statement. -/
inductive Stmt where
  /-- `var target : ty = value ;` -/
  | declaration (target : Ident) (ty : Ty) (value : Expr) (tag : Tag)
  /-- `target = value ;` -/
  | assignment (target : Ident) (value : Expr) (tag : Tag)
  /-- `print value ;` -/
  | print (value : Expr) (tag : Tag)
  /-- `while condition do body end` -/
  | whileDo (condition : Expr) (body : List Stmt) (tag : Tag)
  /-- `if condition do body end` -/
  | ifThen (condition : Expr) (body : List Stmt) (tag : Tag)
  /-- `if condition do body else otherwise end` -/
  | ifThenElse (condition : Expr) (body otherwise : List Stmt) (elseTag tag : Tag)

namespace Stmt

/-- The tag of the statement itself. -/
def tag : Stmt → Tag
  | declaration _ _ _ tag => tag
  | assignment _ _ tag => tag
  | print _ tag => tag
  | whileDo _ _ tag => tag
  | ifThen _ _ tag => tag
  | ifThenElse _ _ _ _ tag => tag

def id (s : Stmt) : NodeId := s.tag.id

def span (s : Stmt) : Span := s.tag.span

end Stmt

/-- A whole program. -/
structure Program where
  body : List Stmt
  tag : Tag

end BlockLang
