import BlockLang.Program.Stmt

/-! # Listing — the nodes of a program in a row

  Each node stands before its parts, and the parts stand in the order of the
  source: target, condition or value, body, else branch; left operand, right
  operand. -/

namespace BlockLang

/-- A node of a program other than its root. -/
inductive Node where
  | stmt (s : Stmt)
  /-- The name that a declaration or an assignment is about. -/
  | target (ident : Ident)
  | expr (e : Expr)
  /-- The branch behind an `else`. -/
  | elseBranch (body : List Stmt) (tag : Tag)

/-- The tag of a node. -/
def Node.tag : Node → Tag
  | stmt s => s.tag
  | target ident => ident.tag
  | expr e => e.tag
  | elseBranch _ tag => tag

/-- The nodes of an expression, before the nodes `rest`. -/
def Expr.nodesOnto (rest : List Node) : Expr → List Node
  | e@(.binary left _ right _) => .expr e :: left.nodesOnto (right.nodesOnto rest)
  | e => .expr e :: rest

mutual

/-- The nodes of a statement, before the nodes `rest`. -/
def Stmt.nodesOnto (rest : List Node) : Stmt → List Node
  | s@(.declaration target _ value _) => .stmt s :: .target target :: value.nodesOnto rest
  | s@(.assignment target value _) => .stmt s :: .target target :: value.nodesOnto rest
  | s@(.print value _) => .stmt s :: value.nodesOnto rest
  | s@(.whileDo condition body _) => .stmt s :: condition.nodesOnto (blockNodesOnto rest body)
  | s@(.ifThen condition body _) => .stmt s :: condition.nodesOnto (blockNodesOnto rest body)
  | s@(.ifThenElse condition body otherwise elseTag _) =>
      .stmt s :: condition.nodesOnto
        (blockNodesOnto (.elseBranch otherwise elseTag :: blockNodesOnto rest otherwise) body)

/-- The nodes of a block, before the nodes `rest`. -/
def blockNodesOnto (rest : List Node) : List Stmt → List Node
  | [] => rest
  | s :: ss => s.nodesOnto (blockNodesOnto rest ss)

end

/-- The nodes of an expression, its own first. -/
def Expr.nodes (e : Expr) : List Node := e.nodesOnto []

/-- The nodes of a statement, its own first. -/
def Stmt.nodes (s : Stmt) : List Node := s.nodesOnto []

/-- The nodes of a block. -/
def blockNodes (body : List Stmt) : List Node := blockNodesOnto [] body

/-- The nodes of a program other than its root. -/
def Program.nodes (p : Program) : List Node := blockNodes p.body

end BlockLang
