import BlockLang.Proofs.Grammar.Parts

/-! # Outlines — the nodes of a program as a forest

  The nodes of a program form trees: every node is followed by the trees of its
  parts, and then by the trees behind it.  Read from front to back, a forest
  lists its nodes as they are numbered.  Every number has a link from the number
  that its node is a part of, and so the links from a number lead to the parts
  of its node, in order. -/

namespace BlockLang

namespace Graph

/-! ### Forests -/

/-- Trees in a row: a node, the trees of its parts, and the trees behind it. -/
inductive Forest where
  | nil
  | cons (node : Node) (parts rest : Forest)

namespace Forest

/-- The nodes, each before its parts. -/
def nodes : Forest → List Node
  | nil => []
  | cons node parts rest => node :: (parts.nodes ++ rest.nodes)

/-- The nodes with their numbers, which come behind `count`. -/
def numbered (count : Nat) (forest : Forest) : List (Node × Nat) := forest.nodes.zipIdx (count + 1)

variable {count : Nat}

variable {source : Option Nat}

end Forest

/-! ### Programs -/

/-- The trees of the operands of an expression. -/
def exprParts : Expr → Forest
  | .binary left _ right _ =>
      .cons (.expr left) (exprParts left) (.cons (.expr right) (exprParts right) .nil)
  | _ => .nil

mutual

/-- The trees of what is right below a statement. -/
def stmtParts : Stmt → Forest
  | .declaration target _ value _ | .assignment target value _ =>
      .cons (.target target) .nil (.cons (.expr value) (exprParts value) .nil)
  | .print value _ => .cons (.expr value) (exprParts value) .nil
  | .whileDo condition body _ | .ifThen condition body _ =>
      .cons (.expr condition) (exprParts condition) (blockForest .nil body)
  | .ifThenElse condition body otherwise elseTag _ =>
      .cons (.expr condition) (exprParts condition) (blockForest
        (.cons (.elseBranch otherwise elseTag) (blockForest .nil otherwise) .nil) body)

/-- The trees of a block, in front of others. -/
def blockForest (rest : Forest) : List Stmt → Forest
  | [] => rest
  | s :: ss => .cons (.stmt s) (stmtParts s) (blockForest rest ss)

end

theorem nodes_expr (e : Expr) : e.nodes = .expr e :: (exprParts e).nodes := by
  induction e with
  | binary left operator right tag ihl ihr =>
    rw [Expr.nodes_binary, ihl, ihr]
    simp [exprParts, Forest.nodes]
  | identifier ident => rfl
  | literal value tag => rfl

theorem nodes_blockForest (rest : Forest) (body : List Stmt) :
    (blockForest rest body).nodes = blockNodes body ++ rest.nodes := by
  induction body using blockInduction generalizing rest with
  | nil => rfl
  | declaration target ty value tag ss ih | assignment target value tag ss ih
  | print value tag ss ih =>
    simp [blockForest, stmtParts, Forest.nodes, nodes_expr value, ih]
  | whileDo condition body tag ss ihb ih | ifThen condition body tag ss ihb ih =>
    simp [blockForest, stmtParts, Forest.nodes, nodes_expr condition, ihb, ih]
  | ifThenElse condition body otherwise elseTag tag ss ihb iho ih =>
    simp [blockForest, stmtParts, Forest.nodes, nodes_expr condition, ihb, iho, ih]

end Graph

end BlockLang
