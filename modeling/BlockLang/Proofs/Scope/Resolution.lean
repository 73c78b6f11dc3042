import BlockLang.Proofs.Scope.Growth

/-! # Resolution — what a block adds to a symbol table

  Resolving a block adds the blocks inside of it, the placements of its nodes
  and the names that it declares, and nothing else.  The proof follows the
  statements of the block.  The block of an `if` stays open while its else
  branch is resolved, so the branch grows inside of it. -/

namespace BlockLang

namespace SymbolTable

variable {number : NodeId → ScopeId} {t t' : SymbolTable} {around : NodeId}

/-! ### Statements -/

/-- Resolving a declaration. -/
theorem grows_of_declaration {target : Ident} {ty : Ty} {value : Expr} {tag : Tag}
    (hopen : t.current < t.size) (hnumber : number around = t.current)
    (h : t.resolveStmt (.declaration target ty value tag) = .ok t') :
    Grows number t t' [] ((Stmt.declaration target ty value tag).placements around)
      [(target.name, ty)] := by
  obtain ⟨t₁, hdeclare, h⟩ := Result.bind_eq_ok_iff.mp h
  cases h
  -- Four steps: the name is bound, then target, value and statement get their scope.
  have h₁ : Grows number t t₁ [] [] [(target.name, ty)] := .of_declare hopen hdeclare
  have hcurrent : t₁.current = t.current := current_eq h₁.inner
  have hopen₁ : t₁.current < t₁.size := h₁.current_lt hopen
  rw [← hcurrent] at hnumber ⊢
  have h₂ := Grows.stamp t₁ target.tag.id hnumber
  have h₃ := Grows.stampExpr (t := t₁.stamp target.tag.id t₁.current) hopen₁ hnumber value
  have hcurrent₃ : ((t₁.stamp target.tag.id t₁.current).stampExpr t₁.current value).current =
    t₁.current := current_eq h₃.inner
  have h₄ := Grows.stamp ((t₁.stamp target.tag.id t₁.current).stampExpr t₁.current value) tag.id
    (hnumber.trans hcurrent₃.symm)
  rw [hcurrent₃] at h₄
  have hall := h₁.trans hopen (h₂.trans hopen₁ (h₃.trans hopen₁ h₄))
  -- The listing has the statement in front of its parts.
  refine hall.of_perm ?_
  rw [Stmt.placements]
  exact List.perm_append_singleton (tag.id, around)
    ((target.tag.id, around) :: value.placements around)

/-- Resolving an assignment. -/
theorem grows_assignment {target : Ident} {value : Expr} {tag : Tag}
    (hopen : t.current < t.size) (hnumber : number around = t.current) :
    Grows number t ((t.stamp target.tag.id t.current).stampExpr t.current value) []
      ((Stmt.assignment target value tag).placements around) [] := by
  rw [Stmt.placements]
  exact (Grows.stamp t target.tag.id hnumber).trans hopen
    (Grows.stampExpr (t := t.stamp target.tag.id t.current) hopen hnumber value)

/-- Resolving a condition and the block that it governs. -/
theorem grows_of_governed {condition : Expr} {body : List Stmt} {node : NodeId}
    {bs : List Block} {ps : List (NodeId × NodeId)}
    (hopen : t.current < t.size) (hnumber : number around = t.current)
    (hnode : number node = t.size)
    (h : Grows number ((t.stampExpr t.current condition).openBlock node) t' bs ps
      (declarations body)) :
    Grows number t t'.closeScope (⟨node, some around, body⟩ :: bs)
      ((node, node) :: (condition.placements around ++ ps)) [] := by
  have h₁ := Grows.stampExpr hopen hnumber condition
  have hcurrent : (t.stampExpr t.current condition).current = t.current := current_eq h₁.inner
  have h₂ := h.nested (h₁.current_lt hopen) (hnumber.trans hcurrent.symm) (hnode.trans h₁.size.symm)
  refine (h₁.trans hopen h₂).of_perm ?_
  exact List.perm_middle

/-! ### Blocks -/

/-- Resolving a statement and then the rest of its block. -/
theorem grows_of_cons {s : Stmt} {ss : List Stmt} (hopen : t.current < t.size)
    (hnumber : number around = t.current)
    (hblocks : NumberedFrom number t.size (blocksIn around (s :: ss)))
    (h : t.resolveBlock (s :: ss) = .ok t')
    (hs : ∀ {t₁}, NumberedFrom number t.size (s.blocks around) → t.resolveStmt s = .ok t₁ →
      Grows number t t₁ (s.blocks around) (s.placements around) s.declares?.toList)
    (hss : ∀ {t₁ : SymbolTable}, t₁.current < t₁.size → number around = t₁.current →
      NumberedFrom number t₁.size (blocksIn around ss) → t₁.resolveBlock ss = .ok t' →
        Grows number t₁ t' (blocksIn around ss) (placementsIn around ss) (declarations ss)) :
    Grows number t t' (blocksIn around (s :: ss)) (placementsIn around (s :: ss))
      (declarations (s :: ss)) := by
  obtain ⟨t₁, h₁, h⟩ := Result.bind_eq_ok_iff.mp h
  rw [blocksIn, numberedFrom_append] at hblocks
  have hgrows := hs hblocks.1 h₁
  rw [blocksIn, placementsIn, declarations_cons]
  exact hgrows.trans hopen (hss (hgrows.current_lt hopen)
    (hnumber.trans (current_eq hgrows.inner).symm) (hgrows.size ▸ hblocks.2) h)

@[simp] theorem size_openBlock (t : SymbolTable) (node : NodeId) :
    (t.openBlock node).size = t.size + 1 := size_openScope t

@[simp] theorem current_openBlock (t : SymbolTable) (node : NodeId) :
    (t.openBlock node).current = t.size := rfl

theorem current_openBlock_lt (t : SymbolTable) (node : NodeId) :
    (t.openBlock node).current < (t.openBlock node).size := by
  rw [size_openBlock]
  exact Nat.lt_succ_self t.size

/-- Resolving a block adds what the block holds. -/
theorem grows_of_resolveBlock (body : List Stmt) (hopen : t.current < t.size)
    (hnumber : number around = t.current)
    (hblocks : NumberedFrom number t.size (blocksIn around body))
    (h : t.resolveBlock body = .ok t') :
    Grows number t t' (blocksIn around body) (placementsIn around body) (declarations body) := by
  -- On the block.  The table, and with it the current scope, differs from statement to
  -- statement and from block to block, so it is generalized.
  induction body using blockInduction generalizing t t' around with
  | nil =>
    cases h
    exact .refl number t
  | declaration target ty value tag ss ih =>
    refine grows_of_cons hopen hnumber hblocks h (fun _ h => ?_) ih
    exact grows_of_declaration hopen hnumber h
  | assignment target value tag ss ih =>
    refine grows_of_cons hopen hnumber hblocks h (fun _ h => ?_) ih
    cases h
    exact grows_assignment hopen hnumber
  | print value tag ss ih =>
    refine grows_of_cons hopen hnumber hblocks h (fun _ h => ?_) ih
    cases h
    exact .stampExpr hopen hnumber value
  | whileDo condition body tag ss ihb ih | ifThen condition body tag ss ihb ih =>
    refine grows_of_cons hopen hnumber hblocks h (fun {t₁} hblocks h => ?_) ih
    obtain ⟨t₂, hbody, h⟩ := Result.bind_eq_ok_iff.mp h
    cases h
    rw [Stmt.blocks, numberedFrom_cons] at hblocks
    have hsize : (t.stampExpr t.current condition).size = t.size :=
      (Grows.stampExpr hopen hnumber condition).size
    refine grows_of_governed hopen hnumber hblocks.1 (ihb (current_openBlock_lt _ _) ?_ ?_ hbody)
    · rw [current_openBlock, hsize, hblocks.1]
    · rw [size_openBlock, hsize]
      exact hblocks.2
  | ifThenElse condition body otherwise elseTag tag ss ihb iho ih =>
    refine grows_of_cons hopen hnumber hblocks h (fun {t₁} hblocks h => ?_) ih
    obtain ⟨t₂, hbody, h⟩ := Result.bind_eq_ok_iff.mp h
    obtain ⟨t₃, hotherwise, h⟩ := Result.bind_eq_ok_iff.mp h
    cases h
    rw [Stmt.blocks, numberedFrom_cons, numberedFrom_append, numberedFrom_cons] at hblocks
    obtain ⟨hnode, hbodyBlocks, helse, hotherwiseBlocks⟩ := hblocks
    have hsize : (t.stampExpr t.current condition).size = t.size :=
      (Grows.stampExpr hopen hnumber condition).size
    have hopen₁ := current_openBlock_lt (t.stampExpr t.current condition) tag.id
    have hnumber₁ : number tag.id =
        ((t.stampExpr t.current condition).openBlock tag.id).current := by
      rw [current_openBlock, hsize, hnode]
    -- The block of the `if` is still open while its branch is resolved.
    have h₁ := ihb hopen₁ hnumber₁ (by rw [size_openBlock, hsize]; exact hbodyBlocks) hbody
    have hsize₂ : t₂.size = t.size + 1 + (blocksIn tag.id body).length := by
      rw [h₁.size, size_openBlock, hsize]
    have h₂ := iho (current_openBlock_lt t₂ elseTag.id)
      (by rw [current_openBlock, hsize₂, helse])
      (by rw [size_openBlock, hsize₂]; exact hotherwiseBlocks) hotherwise
    have h₃ := h₂.nested (h₁.current_lt hopen₁) (hnumber₁.trans (current_eq h₁.inner).symm)
      (helse.trans hsize₂.symm)
    have h₄ := h₁.trans hopen₁ h₃
    rw [List.append_nil] at h₄
    exact grows_of_governed hopen hnumber hnode h₄

end SymbolTable

theorem program_eq_of_resolveWith {t : SymbolTable} {p : Program} {resolved : Resolved}
    (h : resolveWith t p = .ok resolved) : resolved.program = p := by
  obtain ⟨t', -, h⟩ := Result.bind_eq_ok_iff.mp h
  cases h
  rfl

end BlockLang
