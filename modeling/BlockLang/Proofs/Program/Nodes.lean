import BlockLang.Program.Listing

/-! # Nodes — the listing of a program, part by part

  Blocks are nested through lists, so statements about them go by induction
  on a block: its first statement has blocks inside, and more statements come
  behind.  The nodes of a whole are its own node and then the nodes of its
  parts, in a row. -/

namespace BlockLang

/-! ### Blocks as they are built -/

/-- What holds of the empty block, and of a block that starts with a statement
    if it holds of the blocks inside and behind, holds of every block. -/
@[elab_as_elim]
theorem blockInduction {motive : List Stmt → Prop}
    (nil : motive [])
    (declaration : ∀ target ty value tag ss, motive ss →
      motive (.declaration target ty value tag :: ss))
    (assignment : ∀ target value tag ss, motive ss → motive (.assignment target value tag :: ss))
    (print : ∀ value tag ss, motive ss → motive (.print value tag :: ss))
    (whileDo : ∀ condition body tag ss, motive body → motive ss →
      motive (.whileDo condition body tag :: ss))
    (ifThen : ∀ condition body tag ss, motive body → motive ss →
      motive (.ifThen condition body tag :: ss))
    (ifThenElse : ∀ condition body otherwise elseTag tag ss, motive body → motive otherwise →
      motive ss → motive (.ifThenElse condition body otherwise elseTag tag :: ss)) :
    ∀ body, motive body
  | [] => nil
  | .declaration target ty value tag :: ss =>
    declaration target ty value tag ss (blockInduction nil declaration assignment print whileDo
      ifThen ifThenElse ss)
  | .assignment target value tag :: ss =>
    assignment target value tag ss (blockInduction nil declaration assignment print whileDo
      ifThen ifThenElse ss)
  | .print value tag :: ss =>
    print value tag ss (blockInduction nil declaration assignment print whileDo
      ifThen ifThenElse ss)
  | .whileDo condition body tag :: ss =>
    whileDo condition body tag ss (blockInduction nil declaration assignment print whileDo
      ifThen ifThenElse body) (blockInduction nil declaration assignment print whileDo
      ifThen ifThenElse ss)
  | .ifThen condition body tag :: ss =>
    ifThen condition body tag ss (blockInduction nil declaration assignment print whileDo
      ifThen ifThenElse body) (blockInduction nil declaration assignment print whileDo
      ifThen ifThenElse ss)
  | .ifThenElse condition body otherwise elseTag tag :: ss =>
    ifThenElse condition body otherwise elseTag tag ss (blockInduction nil declaration assignment
      print whileDo ifThen ifThenElse body) (blockInduction nil declaration assignment print whileDo
      ifThen ifThenElse otherwise) (blockInduction nil declaration assignment print whileDo
      ifThen ifThenElse ss)

/-! ### Identities of nodes -/

/-- The identity of a node. -/
def Node.id (node : Node) : NodeId := node.tag.id

@[simp] theorem Node.id_stmt (s : Stmt) : (stmt s).id = s.tag.id := rfl

@[simp] theorem Node.id_target (ident : Ident) : (target ident).id = ident.tag.id := rfl

@[simp] theorem Node.id_expr (e : Expr) : (expr e).id = e.tag.id := rfl

@[simp] theorem Node.id_elseBranch (body : List Stmt) (tag : Tag) :
    (elseBranch body tag).id = tag.id := rfl

/-! ### Nodes, part by part -/

theorem Expr.nodesOnto_eq (e : Expr) (rest : List Node) : e.nodesOnto rest = e.nodes ++ rest := by
  induction e generalizing rest with
  | binary left operator right tag ihl ihr =>
    rw [nodes, nodesOnto, nodesOnto, ihl, ihr, ihl, ihr]
    simp
  | identifier ident => rfl
  | literal value tag => rfl

@[simp] theorem Expr.nodes_binary (left : Expr) (operator : Operator) (right : Expr) (tag : Tag) :
    (binary left operator right tag).nodes =
      .expr (binary left operator right tag) :: (left.nodes ++ right.nodes) := by
  show _ :: left.nodesOnto (right.nodesOnto []) = _
  rw [left.nodesOnto_eq, right.nodesOnto_eq, List.append_nil]

@[simp] theorem Expr.nodes_identifier (ident : Ident) :
    (identifier ident).nodes = [.expr (identifier ident)] := rfl

@[simp] theorem Expr.nodes_literal (value : Literal) (tag : Tag) :
    (literal value tag).nodes = [.expr (literal value tag)] := rfl

theorem blockNodesOnto_eq (body : List Stmt) (rest : List Node) :
    blockNodesOnto rest body = blockNodes body ++ rest := by
  induction body using blockInduction generalizing rest with
  | nil => rfl
  | declaration target ty value tag ss ih | assignment target value tag ss ih
  | print value tag ss ih =>
    rw [blockNodes, blockNodesOnto, blockNodesOnto, Stmt.nodesOnto, Stmt.nodesOnto,
      value.nodesOnto_eq, value.nodesOnto_eq, ih, ih]
    simp
  | whileDo condition body tag ss ihb ih | ifThen condition body tag ss ihb ih =>
    rw [blockNodes, blockNodesOnto, blockNodesOnto, Stmt.nodesOnto, Stmt.nodesOnto,
      condition.nodesOnto_eq, condition.nodesOnto_eq, ihb, ih, ihb, ih]
    simp
  | ifThenElse condition body otherwise elseTag tag ss ihb iho ih =>
    rw [blockNodes, blockNodesOnto, blockNodesOnto, Stmt.nodesOnto, Stmt.nodesOnto,
      condition.nodesOnto_eq, condition.nodesOnto_eq, ihb, iho, ih, ihb, iho, ih]
    simp

@[simp] theorem blockNodes_nil : blockNodes [] = [] := rfl

namespace Stmt

variable (target : Ident) (ty : Ty) (value condition : Expr) (body otherwise : List Stmt)
  (elseTag tag : Tag)

theorem nodesOnto_eq (s : Stmt) (rest : List Node) : s.nodesOnto rest = s.nodes ++ rest := by
  cases s <;> simp [nodes, nodesOnto, Expr.nodesOnto_eq, blockNodesOnto_eq]

@[simp] theorem nodes_declaration :
    (declaration target ty value tag).nodes =
      .stmt (declaration target ty value tag) :: .target target :: value.nodes := rfl

@[simp] theorem nodes_assignment :
    (assignment target value tag).nodes =
      .stmt (assignment target value tag) :: .target target :: value.nodes := rfl

@[simp] theorem nodes_print : (print value tag).nodes = .stmt (print value tag) :: value.nodes :=
  rfl

@[simp] theorem nodes_whileDo :
    (whileDo condition body tag).nodes =
      .stmt (whileDo condition body tag) :: (condition.nodes ++ blockNodes body) := by
  show _ :: condition.nodesOnto (blockNodesOnto [] body) = _
  rw [condition.nodesOnto_eq, blockNodesOnto_eq, List.append_nil]

@[simp] theorem nodes_ifThen :
    (ifThen condition body tag).nodes =
      .stmt (ifThen condition body tag) :: (condition.nodes ++ blockNodes body) := by
  show _ :: condition.nodesOnto (blockNodesOnto [] body) = _
  rw [condition.nodesOnto_eq, blockNodesOnto_eq, List.append_nil]

@[simp] theorem nodes_ifThenElse :
    (ifThenElse condition body otherwise elseTag tag).nodes =
      .stmt (ifThenElse condition body otherwise elseTag tag) :: (condition.nodes ++
        (blockNodes body ++ .elseBranch otherwise elseTag :: blockNodes otherwise)) := by
  show _ :: condition.nodesOnto (blockNodesOnto (_ :: blockNodesOnto [] otherwise) body) = _
  rw [condition.nodesOnto_eq, blockNodesOnto_eq body, blockNodesOnto_eq otherwise, List.append_nil]

end Stmt

@[simp] theorem blockNodes_cons (s : Stmt) (ss : List Stmt) :
    blockNodes (s :: ss) = s.nodes ++ blockNodes ss := by
  show s.nodesOnto (blockNodesOnto [] ss) = _
  rw [s.nodesOnto_eq, blockNodesOnto_eq, List.append_nil]

end BlockLang
