import BlockLang.Program.Stmt

/-! # Equality — when two programs are the same

  Two programs are the same when they agree in shape, names, tags and
  literals.  Floating-point literals are compared as numbers, so a program
  with a NaN in it is not even the same as itself. -/

namespace BlockLang

/-- Are two literals the same value of the same type? -/
def Literal.same : Literal → Literal → Bool
  | .float x, .float y => x.eq y
  | x, y => x = y

/-- Are two expressions the same? -/
def Expr.same : Expr → Expr → Bool
  | .binary left op right tag, .binary left' op' right' tag' =>
      op = op' && tag = tag' && left.same left' && right.same right'
  | .identifier ident, .identifier ident' => ident = ident'
  | .literal value tag, .literal value' tag' => value.same value' && tag = tag'
  | _, _ => false

mutual

/-- Are two statements the same? -/
def Stmt.same : Stmt → Stmt → Bool
  | .declaration target ty value tag, .declaration target' ty' value' tag' =>
      target = target' && ty = ty' && value.same value' && tag = tag'
  | .assignment target value tag, .assignment target' value' tag' =>
      target = target' && value.same value' && tag = tag'
  | .print value tag, .print value' tag' => value.same value' && tag = tag'
  | .whileDo condition body tag, .whileDo condition' body' tag' =>
      condition.same condition' && sameBlock body body' && tag = tag'
  | .ifThen condition body tag, .ifThen condition' body' tag' =>
      condition.same condition' && sameBlock body body' && tag = tag'
  | .ifThenElse condition body otherwise elseTag tag,
      .ifThenElse condition' body' otherwise' elseTag' tag' =>
      condition.same condition' && sameBlock body body' && sameBlock otherwise otherwise'
        && elseTag = elseTag' && tag = tag'
  | _, _ => false

/-- Are two blocks the same, statement by statement? -/
def sameBlock : List Stmt → List Stmt → Bool
  | [], [] => true
  | s :: ss, s' :: ss' => s.same s' && sameBlock ss ss'
  | _, _ => false

end

/-- Are two programs the same? -/
def Program.same (p q : Program) : Bool := sameBlock p.body q.body && p.tag = q.tag

end BlockLang
