import BlockLang.Proofs.Scope.Matching
import BlockLang.Proofs.Typing.Recursion

/-! # Matching — checking two programs side by side

  Programs that match, in tables that match, are given the same types, or the
  check ends with errors that match.  Checking looks up identifiers only, and
  all of them have been put into scopes. -/

namespace BlockLang

variable {c : Correspondence} {base base' t t' : SymbolTable} {nodes : List NodeId}
  {types : TypeTable}

/-! ### Expressions -/

/-- An operator that does not apply is a fault without names. -/
theorem Fault.Matches.of_resultType {operator : Operator} {left right : Ty} {fault : Fault}
    (h : operator.resultType left right = .error fault) : fault.Matches c fault := by
  obtain ⟨category, rfl⟩ | rfl := Operator.eq_of_resultType_eq_error h
  · exact .unsupportedOperator operator.symbol category
  · exact .boolOperandMismatch left right

/-- An operation on the same types has the same type, or is refused at places
    that correspond. -/
theorem rel_operationType {o o' : Operation} (hoperator : o'.operator = o.operator)
    {place place' : Position} (hplace : c.places place place') (left right : Ty) :
    Result.Rel (Error.Matches c) Eq (o.type place left right) (o'.type place' left right) := by
  unfold Operation.type
  rw [hoperator]
  cases h : o.operator.resultType left right with
  | ok ty => exact .ok rfl
  | error fault => exact .error ⟨.of_resultType h, hplace⟩

/-- Identifiers that have been put into scopes are found with the same type. -/
theorem rel_typeOf (h : SymbolTable.Matches c base base' nodes t t') {ident ident' : Ident}
    (hident : ident.Matches c ident') (hmem : ident.tag.id ∈ nodes) :
    Result.Rel (Error.Matches c) Eq (t.typeOf ident) (t'.typeOf ident') := by
  obtain ⟨id, id', hid, hscope, hscope'⟩ := h.placed _ hmem
  unfold SymbolTable.typeOf
  rw [hident.tag.id_eq, hscope, hscope', Option.bind_some, Option.bind_some,
    h.type?_eq hid hident.name]
  cases t.type? id ident.name with
  | some ty => exact .ok rfl
  | none => exact .error ⟨.undeclaredIdentifier hident.name, hident.tag.start⟩

theorem rel_inferExpr (h : SymbolTable.Matches c base base' nodes t t') {e e' : Expr}
    (he : e.Matches c e') (hmem : Node.scopedIds e.nodes ⊆ nodes) :
    Result.Rel (Error.Matches c) Eq (inferExpr t types e) (inferExpr t' types e') := by
  induction he generalizing types with
  | binary operator _ _ htag ihl ihr =>
    rw [Expr.nodes_binary, Node.scopedIds_cons] at hmem
    simp only [Node.hasScope, Bool.false_eq_true, if_false, Node.scopedIds_append,
      List.append_subset] at hmem
    refine (ihl hmem.1).bind ?_
    rintro ⟨leftType, types₁⟩ _ rfl
    refine (ihr hmem.2).bind ?_
    rintro ⟨rightType, types₂⟩ _ rfl
    refine (rel_operationType rfl htag.start leftType rightType).bind ?_
    rintro ty _ rfl
    rw [htag.id_eq]
    exact .ok rfl
  | identifier hident =>
    refine (rel_typeOf h hident (hmem List.mem_cons_self)).bind ?_
    rintro ty _ rfl
    rw [hident.tag.id_eq]
    exact .ok rfl
  | literal value htag =>
    unfold inferExpr
    rw [htag.id_eq]
    exact .ok rfl

/-! ### Statements -/

/-- A typed value, and what is done with it. -/
theorem rel_typeExpr_bind (h : SymbolTable.Matches c base base' nodes t t') {e e' : Expr}
    (he : e.Matches c e') (hmem : Node.scopedIds e.nodes ⊆ nodes)
    {f f' : Ty × TypeTable → Except Error TypeTable}
    (hnext : ∀ ty types₁, Result.Rel (Error.Matches c) Eq (f (ty, types₁)) (f' (ty, types₁))) :
    Result.Rel (Error.Matches c) Eq (typeExpr t types e >>= f) (typeExpr t' types e' >>= f') := by
  rw [typeExpr_eq_inferExpr, typeExpr_eq_inferExpr]
  refine (rel_inferExpr h he hmem).bind ?_
  rintro ⟨ty, types₁⟩ _ rfl
  exact hnext ty types₁

/-- A value of another type than the declared one is refused on both sides. -/
theorem rel_accept {fault : Fault} (hfault : fault.Matches c fault) {e e' : Expr}
    (he : e.Matches c e') (received declared : Ty) :
    Result.Rel (Error.Matches c) Eq
      (if received = declared then return types else throw (Error.mk fault e.span.start))
      (if received = declared then return types else throw (Error.mk fault e'.span.start)) := by
  split
  · exact .ok rfl
  · exact .error ⟨hfault, he.tag.start⟩

/-- A statement and then the rest of its block. -/
theorem rel_checkBlock_cons {s s' : Stmt} {ss ss' : List Stmt}
    (hs : Result.Rel (Error.Matches c) Eq (checkStmt t types s) (checkStmt t' types s'))
    (hss : ∀ {types}, Result.Rel (Error.Matches c) Eq (checkBlock t types ss)
      (checkBlock t' types ss')) :
    Result.Rel (Error.Matches c) Eq (checkBlock t types (s :: ss))
      (checkBlock t' types (s' :: ss')) := by
  refine hs.bind ?_
  rintro types₁ _ rfl
  exact hss

/-- Blocks that match are checked in the same way. -/
theorem rel_checkBlock (h : SymbolTable.Matches c base base' nodes t t') {body body' : List Stmt}
    (hbody : BlockMatches c body body') (hmem : Node.scopedIds (blockNodes body) ⊆ nodes) :
    Result.Rel (Error.Matches c) Eq (checkBlock t types body) (checkBlock t' types body') := by
  induction hbody generalizing types with
  | nil => exact .ok rfl
  | declaration ty _ hvalue _ _ ih =>
    simp only [blockNodes_cons, Stmt.nodes_declaration, Node.scopedIds_append,
      Node.scopedIds_cons, Node.hasScope, if_true, List.append_subset, List.cons_subset] at hmem
    obtain ⟨⟨-, -, hmem⟩, hrest⟩ := hmem
    apply rel_checkBlock_cons _ (ih hrest)
    exact rel_typeExpr_bind h hvalue hmem fun received types₁ =>
      rel_accept (.declarationMismatch ty received) hvalue received ty
  | assignment htarget hvalue _ _ ih =>
    simp only [blockNodes_cons, Stmt.nodes_assignment, Node.scopedIds_append,
      Node.scopedIds_cons, Node.hasScope, if_true, Bool.false_eq_true, if_false,
      List.append_subset, List.cons_subset] at hmem
    obtain ⟨⟨htargetMem, hmem⟩, hrest⟩ := hmem
    apply rel_checkBlock_cons _ (ih hrest)
    refine (rel_typeOf h htarget htargetMem).bind ?_
    rintro declared _ rfl
    exact rel_typeExpr_bind h hvalue hmem fun received types₁ =>
      rel_accept (.assignmentMismatch declared received) hvalue received declared
  | print hvalue _ _ ih =>
    simp only [blockNodes_cons, Stmt.nodes_print, Node.scopedIds_append,
      Node.scopedIds_cons, Node.hasScope, Bool.false_eq_true, if_false,
      List.append_subset] at hmem
    apply rel_checkBlock_cons _ (ih hmem.2)
    exact rel_typeExpr_bind h hvalue hmem.1 fun _ _ => .ok rfl
  | whileDo hcondition _ _ _ ihb ih | ifThen hcondition _ _ _ ihb ih =>
    simp only [blockNodes_cons, Stmt.nodes_whileDo, Stmt.nodes_ifThen, Node.scopedIds_append,
      Node.scopedIds_cons, Node.hasScope, if_true, List.append_subset, List.cons_subset] at hmem
    obtain ⟨⟨-, hmem, hinner⟩, hrest⟩ := hmem
    apply rel_checkBlock_cons _ (ih hrest)
    exact rel_typeExpr_bind h hcondition hmem fun _ _ => ihb hinner
  | ifThenElse hcondition _ _ _ _ _ ihb iho ih =>
    simp only [blockNodes_cons, Stmt.nodes_ifThenElse, Node.scopedIds_append,
      Node.scopedIds_cons, Node.hasScope, if_true, List.append_subset, List.cons_subset] at hmem
    obtain ⟨⟨-, hmem, hinner, -, hotherwise⟩, hrest⟩ := hmem
    apply rel_checkBlock_cons _ (ih hrest)
    refine rel_typeExpr_bind h hcondition hmem fun _ types₁ => (ihb hinner).bind ?_
    rintro types₂ _ rfl
    exact iho hotherwise

/-- Programs that have been resolved in the same way have the same types. -/
theorem rel_inferTypes {r r' : Resolved} (hp : r.program.Matches c r'.program)
    (h : SymbolTable.Matches c base base' nodes r.symbols r'.symbols)
    (hmem : Node.scopedIds r.program.nodes ⊆ nodes) :
    Result.Rel (Error.Matches c) Eq (inferTypes r) (inferTypes r') :=
  rel_checkBlock h hp.body hmem

end BlockLang
