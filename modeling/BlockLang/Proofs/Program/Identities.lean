import BlockLang.Proofs.Grammar.Acceptance
import BlockLang.Proofs.Program.Nodes
import Mathlib.Data.List.Nodup
import Mathlib.Data.List.Range

/-! # Identities — no two nodes share one

  The nodes of a program are listed with each node before its parts, while
  identities are drawn when a node is complete, after its parts.  Both orders
  list the same identities.  A parsed program has the identities from zero
  up, so no two of its nodes share one. -/

namespace BlockLang

/-! ### The order of drawing -/

/-- The identities of an expression, in the order in which they are drawn. -/
def Expr.drawn : Expr → List NodeId
  | .binary left _ right tag => left.drawn ++ right.drawn ++ [tag.id]
  | .identifier ident => [ident.tag.id]
  | .literal _ tag => [tag.id]

mutual

/-- The identities of a statement, in the order in which they are drawn. -/
def Stmt.drawn : Stmt → List NodeId
  | .declaration target _ value tag | .assignment target value tag =>
      target.tag.id :: (value.drawn ++ [tag.id])
  | .print value tag => value.drawn ++ [tag.id]
  | .whileDo condition body tag | .ifThen condition body tag =>
      condition.drawn ++ blockDrawn body ++ [tag.id]
  | .ifThenElse condition body otherwise elseTag tag =>
      condition.drawn ++ blockDrawn body ++ blockDrawn otherwise ++ [elseTag.id, tag.id]

/-- The identities of a block, in the order in which they are drawn. -/
def blockDrawn : List Stmt → List NodeId
  | [] => []
  | s :: ss => s.drawn ++ blockDrawn ss

end

/-- The identities of a program, in the order in which they are drawn. -/
def Program.drawn (p : Program) : List NodeId := p.tag.id :: blockDrawn p.body

/-- The identities of a program, its root first and every node before its
    parts. -/
def Program.ids (p : Program) : List NodeId := p.tag.id :: p.nodes.map Node.id

theorem Expr.count_drawn (e : Expr) (id : NodeId) :
    (e.nodes.map Node.id).count id = e.drawn.count id := by
  induction e with
  | binary left operator right tag ihl ihr =>
    simp only [nodes_binary, drawn, List.map_cons, List.map_append, List.count_cons,
      List.count_append, List.count_nil, ihl, ihr, Node.id_expr, Expr.tag]
    -- The node itself is counted first on one side and last on the other.
    omega
  | identifier ident => rfl
  | literal value tag => rfl

theorem count_blockDrawn (body : List Stmt) (id : NodeId) :
    ((blockNodes body).map Node.id).count id = (blockDrawn body).count id := by
  induction body using blockInduction with
  | nil => rfl
  | declaration target ty value tag ss ih | assignment target value tag ss ih
  | print value tag ss ih =>
    simp only [blockNodes_cons, Stmt.nodes_declaration, Stmt.nodes_assignment, Stmt.nodes_print,
      Node.id_stmt, Node.id_target, Stmt.tag, blockDrawn, Stmt.drawn, List.map_append,
      List.map_cons, List.cons_append, List.append_assoc, List.nil_append, List.count_append,
      List.count_cons, value.count_drawn, ih]
    omega
  | whileDo condition body tag ss ihb ih | ifThen condition body tag ss ihb ih =>
    simp only [blockNodes_cons, Stmt.nodes_whileDo, Stmt.nodes_ifThen, Node.id_stmt, Stmt.tag,
      blockDrawn, Stmt.drawn, List.map_append, List.map_cons, List.cons_append, List.append_assoc,
      List.nil_append, List.count_append, List.count_cons, condition.count_drawn, ihb, ih]
    omega
  | ifThenElse condition body otherwise elseTag tag ss ihb iho ih =>
    simp only [blockNodes_cons, Stmt.nodes_ifThenElse, Node.id_stmt, Node.id_elseBranch, Stmt.tag,
      blockDrawn, Stmt.drawn, List.map_append, List.map_cons, List.cons_append, List.append_assoc,
      List.nil_append, List.count_append, List.count_cons, condition.count_drawn, ihb, iho, ih]
    omega

/-- Both orders list the same identities. -/
theorem Program.ids_perm_drawn (p : Program) : p.ids.Perm p.drawn := by
  refine List.Perm.cons _ (List.perm_iff_count.mpr fun id => ?_)
  exact count_blockDrawn p.body id

/-! ### Parsed programs -/

namespace Grammar

/-- A phrase is numbered from its first identity on. -/
theorem Phrase.drawn_expr {nt : Nonterminal} (d : Phrase nt) (first : NodeId) :
    (d.expr first).drawn = List.range' first d.size := by
  induction d generalizing first with
  | leaf l => cases l <;> rfl
  | parens opening inner closing ih => exact ih first
  | ofFactor f ih => exact ih first
  | product left sign right ihl ihr | sum left sign right ihl ihr =>
    rw [expr, join, Expr.drawn, ihl, ihr, size, List.range'_1_concat, ← List.range'_append_1,
      Nat.add_assoc]
  | ofTerm t ih => exact ih first

/-- A target, drawn before a value and a statement. -/
theorem range'_targeted (first size : Nat) :
    first :: (List.range' (first + 1) size ++ [first + size + 1]) =
      List.range' first (size + 2) := by
  rw [List.range'_succ, List.range'_1_concat, Nat.add_right_comm]

mutual

/-- A sentence is numbered from its first identity on. -/
theorem Sentence.drawn_stmt (d : Sentence) (first : NodeId) :
    (d.stmt first).drawn = List.range' first d.size := by
  cases d with
  | declaration kwVar name colon type equals value semicolon =>
    rw [Sentence.stmt, Stmt.drawn, value.drawn_expr, Sentence.size]
    exact range'_targeted first value.size
  | assignment name equals value semicolon =>
    rw [Sentence.stmt, Stmt.drawn, value.drawn_expr, Sentence.size]
    exact range'_targeted first value.size
  | print kwPrint value semicolon =>
    rw [Sentence.stmt, Stmt.drawn, value.drawn_expr, Sentence.size, List.range'_1_concat]
  | whileDo kwWhile condition kwDo body kwEnd | ifThen kwIf condition kwDo body kwEnd =>
    rw [Sentence.stmt, Stmt.drawn, condition.drawn_expr, drawn_blockStmts body, Sentence.size,
      List.range'_1_concat, ← List.range'_append_1, Nat.add_assoc]
  | ifThenElse kwIf condition kwDo body kwElse otherwise kwEnd =>
    rw [Sentence.stmt, Stmt.drawn, condition.drawn_expr, drawn_blockStmts body,
      drawn_blockStmts otherwise, Sentence.size, List.range'_append_1, Nat.add_assoc first,
      List.range'_append_1, List.range'_1_concat, List.range'_1_concat, List.append_assoc]
    simp only [Nat.add_assoc, List.singleton_append]

theorem drawn_blockStmts (ds : List Sentence) (first : NodeId) :
    blockDrawn (blockStmts first ds) = List.range' first (blockSize ds) := by
  cases ds with
  | nil => rfl
  | cons d ds =>
    rw [blockStmts, blockDrawn, Sentence.drawn_stmt d, drawn_blockStmts ds, List.range'_append_1,
      blockSize]

end

/-- The identities of a program are counted from zero. -/
theorem drawn_program (d : List Sentence) :
    (program d).drawn = List.range (blockSize d + 1) := by
  rw [Program.drawn, program, drawn_blockStmts, List.range_eq_range', List.range'_succ]

end Grammar

/-- No two nodes of a parsed program share an identity. -/
theorem Program.nodup_ids_of_parse {ts : List Token} {p : Program} (h : parse ts = .ok p) :
    p.ids.Nodup := by
  obtain ⟨d, rfl⟩ := exists_derivation_of_parse h
  rw [(ids_perm_drawn _).nodup_iff, Grammar.drawn_program]
  exact List.nodup_range

end BlockLang
