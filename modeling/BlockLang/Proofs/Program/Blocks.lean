import BlockLang.Proofs.Program.Nodes

/-! # Blocks — where a program opens scopes, and what lies in them

  A program has a block of its own, and each `while`, `if` and else branch
  has one inside.  The branch behind an `else` lies inside the block of its
  `if`.  Every declaration, target and identifier lies in one block, the
  innermost around it; a condition lies outside of the block that it governs.
  Nothing here depends on how scopes are numbered: a block is known by the
  node that it belongs to. -/

namespace BlockLang

/-! ### Blocks -/

/-- A block. -/
structure Block where
  /-- The node that the block belongs to. -/
  node : NodeId
  /-- The node of the innermost block around it; that of the program has none. -/
  around? : Option NodeId
  body : List Stmt

mutual

/-- The blocks of a statement that stands in the block of `around`, each
    before those inside of it. -/
def Stmt.blocks (around : NodeId) : Stmt → List Block
  | .declaration .. | .assignment .. | .print .. => []
  | .whileDo _ body tag | .ifThen _ body tag =>
      ⟨tag.id, some around, body⟩ :: blocksIn tag.id body
  | .ifThenElse _ body otherwise elseTag tag =>
      ⟨tag.id, some around, body⟩ :: (blocksIn tag.id body ++
        ⟨elseTag.id, some tag.id, otherwise⟩ :: blocksIn elseTag.id otherwise)

/-- The blocks inside the block of `around`, each before those inside of it. -/
def blocksIn (around : NodeId) : List Stmt → List Block
  | [] => []
  | s :: ss => s.blocks around ++ blocksIn around ss

end

/-- The blocks of a program. -/
def Program.blocks (p : Program) : List Block :=
  ⟨p.tag.id, none, p.body⟩ :: blocksIn p.tag.id p.body

/-! ### Declarations -/

/-- What a statement declares in its own block. -/
def Stmt.declares? : Stmt → Option (String × Ty)
  | .declaration target ty _ _ => some (target.name, ty)
  | _ => none

/-- The names declared directly in a block, with their types. -/
def declarations (body : List Stmt) : List (String × Ty) := body.filterMap Stmt.declares?

theorem declarations_cons (s : Stmt) (ss : List Stmt) :
    declarations (s :: ss) = s.declares?.toList ++ declarations ss := by
  rw [declarations, List.filterMap_cons]
  cases s.declares? <;> rfl

/-! ### Placements -/

/-- The identifiers of an expression, in the order of the source. -/
def Expr.idents : Expr → List Ident
  | .binary left _ right _ => left.idents ++ right.idents
  | .identifier ident => [ident]
  | .literal _ _ => []

/-- The nodes of an expression in the block of `around`. -/
def Expr.placements (around : NodeId) (e : Expr) : List (NodeId × NodeId) :=
  e.idents.map fun ident => (ident.tag.id, around)

mutual

/-- The nodes of a statement in the block of `around`, each with the node of
    its block.  A node with a block of its own is placed into that. -/
def Stmt.placements (around : NodeId) : Stmt → List (NodeId × NodeId)
  | .declaration target _ value tag =>
      (tag.id, around) :: (target.tag.id, around) :: value.placements around
  | .assignment target value _ => (target.tag.id, around) :: value.placements around
  | .print value _ => value.placements around
  | .whileDo condition body tag | .ifThen condition body tag =>
      (tag.id, tag.id) :: (condition.placements around ++ placementsIn tag.id body)
  | .ifThenElse condition body otherwise elseTag tag =>
      (tag.id, tag.id) :: (condition.placements around ++ (placementsIn tag.id body ++
        (elseTag.id, elseTag.id) :: placementsIn elseTag.id otherwise))

/-- The nodes in the block of `around` and in the blocks inside of it, each
    with the node of its block. -/
def placementsIn (around : NodeId) : List Stmt → List (NodeId × NodeId)
  | [] => []
  | s :: ss => s.placements around ++ placementsIn around ss

end

/-- The expression of a statement in the block that the statement stands in:
    its value, or its condition. -/
def Stmt.operand : Stmt → Expr
  | .declaration _ _ value _ | .assignment _ value _ | .print value _ => value
  | .whileDo condition _ _ | .ifThen condition _ _ | .ifThenElse condition _ _ _ _ => condition

/-- A statement places its own expression into the block around. -/
theorem Stmt.operand_placements_subset (s : Stmt) (around : NodeId) :
    s.operand.placements around ⊆ s.placements around := by
  intro placed hplaced
  cases s <;> simp_all [operand, placements]

/-- The nodes of a program that lie in a block, each with the node of its
    block. -/
def Program.placements (p : Program) : List (NodeId × NodeId) :=
  (p.tag.id, p.tag.id) :: placementsIn p.tag.id p.body

/-! ### Which nodes these are -/

/-- Does a node have a block of its own? -/
def Node.opens : Node → Bool
  | .stmt (.whileDo _ _ _) => true
  | .stmt (.ifThen _ _ _) => true
  | .stmt (.ifThenElse _ _ _ _ _) => true
  | .stmt _ => false
  | .target _ => false
  | .expr _ => false
  | .elseBranch _ _ => true

/-- Does a node lie in a scope?  Those that have none are assignments, `print`
    statements, literals and operations. -/
def Node.hasScope : Node → Bool
  | .stmt (.assignment _ _ _) => false
  | .stmt (.print _ _) => false
  | .stmt _ => true
  | .target _ => true
  | .expr (.identifier _) => true
  | .expr _ => false
  | .elseBranch _ _ => true

@[simp] theorem Expr.filter_opens_nodes (e : Expr) : e.nodes.filter Node.opens = [] := by
  induction e with
  | binary left operator right tag ihl ihr => simp [Node.opens, ihl, ihr]
  | identifier ident => rfl
  | literal value tag => rfl

/-- The blocks inside a block belong to its nodes that have one, in order. -/
theorem map_node_blocksIn (body : List Stmt) (around : NodeId) :
    (blocksIn around body).map Block.node =
      ((blockNodes body).filter Node.opens).map Node.id := by
  induction body using blockInduction generalizing around with
  | nil => rfl
  | declaration target ty value tag ss ih | assignment target value tag ss ih
  | print value tag ss ih =>
    simp [blocksIn, Stmt.blocks, Node.opens, ih]
  | whileDo condition body tag ss ihb ih | ifThen condition body tag ss ihb ih =>
    simp [blocksIn, Stmt.blocks, List.filter_cons, Node.opens, ih, ihb, Stmt.tag]
  | ifThenElse condition body otherwise elseTag tag ss ihb iho ih =>
    simp [blocksIn, Stmt.blocks, List.filter_cons, Node.opens, ih, ihb, iho, Stmt.tag]

theorem Expr.map_fst_placements (e : Expr) (around : NodeId) :
    (e.placements around).map Prod.fst = (e.nodes.filter Node.hasScope).map Node.id := by
  induction e with
  | binary left operator right tag ihl ihr =>
    simp only [placements, List.map_map] at ihl ihr
    simp [placements, idents, Node.hasScope, ihl, ihr]
  | identifier ident => rfl
  | literal value tag => rfl

/-- The nodes placed into a block or inside of it are its nodes with a scope,
    in order. -/
theorem map_fst_placementsIn (body : List Stmt) (around : NodeId) :
    (placementsIn around body).map Prod.fst =
      ((blockNodes body).filter Node.hasScope).map Node.id := by
  induction body using blockInduction generalizing around with
  | nil => rfl
  | declaration target ty value tag ss ih | assignment target value tag ss ih
  | print value tag ss ih =>
    simp [placementsIn, Stmt.placements, List.filter_cons, Node.hasScope, ih,
      value.map_fst_placements, Stmt.tag]
  | whileDo condition body tag ss ihb ih | ifThen condition body tag ss ihb ih =>
    simp [placementsIn, Stmt.placements, List.filter_cons, Node.hasScope, ih, ihb,
      condition.map_fst_placements, Stmt.tag]
  | ifThenElse condition body otherwise elseTag tag ss ihb iho ih =>
    simp [placementsIn, Stmt.placements, List.filter_cons, Node.hasScope, ih, ihb, iho,
      condition.map_fst_placements, Stmt.tag]

/-- What is placed inside a block is placed into it or into a block inside. -/
theorem mem_of_mem_placementsIn (body : List Stmt) {around node block : NodeId}
    (h : (node, block) ∈ placementsIn around body) :
    block = around ∨ block ∈ (blocksIn around body).map Block.node := by
  -- An expression is placed into one block as a whole.
  have hexpr {e : Expr} {around : NodeId} (h : (node, block) ∈ e.placements around) :
      block = around := by
    obtain ⟨ident, -, h⟩ := List.mem_map.mp h
    exact (Prod.mk.inj h).2.symm
  induction body using blockInduction generalizing around with
  | nil => cases h
  | declaration target ty value tag ss ih =>
    simp only [placementsIn, Stmt.placements, List.mem_append, List.mem_cons, Prod.mk.injEq] at h
    obtain (⟨-, rfl⟩ | ⟨-, rfl⟩ | h) | h := h
    · exact .inl rfl
    · exact .inl rfl
    · exact .inl (hexpr h)
    · exact ih h
  | assignment target value tag ss ih =>
    simp only [placementsIn, Stmt.placements, List.mem_append, List.mem_cons, Prod.mk.injEq] at h
    obtain (⟨-, rfl⟩ | h) | h := h
    · exact .inl rfl
    · exact .inl (hexpr h)
    · exact ih h
  | print value tag ss ih =>
    simp only [placementsIn, Stmt.placements, List.mem_append] at h
    obtain h | h := h
    · exact .inl (hexpr h)
    · exact ih h
  | whileDo condition body tag ss ihb ih | ifThen condition body tag ss ihb ih =>
    simp only [placementsIn, Stmt.placements, List.mem_append, List.mem_cons, Prod.mk.injEq] at h
    simp only [blocksIn, Stmt.blocks, List.map_append, List.map_cons, List.mem_append,
      List.mem_cons]
    obtain (⟨-, rfl⟩ | h | h) | h := h
    · exact .inr (.inl (.inl rfl))
    · exact .inl (hexpr h)
    · exact .inr (.inl (ihb h))
    · exact (ih h).imp_right .inr
  | ifThenElse condition body otherwise elseTag tag ss ihb iho ih =>
    simp only [placementsIn, Stmt.placements, List.mem_append, List.mem_cons, Prod.mk.injEq] at h
    simp only [blocksIn, Stmt.blocks, List.map_append, List.map_cons, List.mem_append,
      List.mem_cons]
    obtain (⟨-, rfl⟩ | h | h | ⟨-, rfl⟩ | h) | h := h
    · exact .inr (.inl (.inl rfl))
    · exact .inl (hexpr h)
    · exact .inr (.inl ((ihb h).imp_right .inl))
    · exact .inr (.inl (.inr (.inr (.inl rfl))))
    · exact .inr (.inl (.inr (.inr (iho h))))
    · exact (ih h).imp_right .inr

end BlockLang
