import BlockLang.Proofs.Program.Starts
import BlockLang.Proofs.Typing.Soundness

/-! # Location — where the checker's errors stand

  The checker finds two things wrong: a name that no declaration in sight has,
  or an expression whose type does not fit.  Either is reported at the start
  of the node that it is about, and that is a node of the block that is
  checked. -/

namespace BlockLang

variable {t : SymbolTable} {types types' : TypeTable} {e : Expr} {error : Error} {fault : Fault}

/-! ### What is wrong with a node -/

/-- The fault is that a type does not fit. -/
def Fault.OfTypes (fault : Fault) : Prop :=
  fault.phase = .semantic ∧ ∀ name, fault ≠ .undeclaredIdentifier name

/-- The error is what the checker finds wrong with a node. -/
inductive Node.Wrong : Node → Error → Prop where
  | target {ident : Ident} :
      Wrong (.target ident) ⟨.undeclaredIdentifier ident.name, ident.tag.span.start⟩
  | identifier {ident : Ident} :
      Wrong (.expr (.identifier ident)) ⟨.undeclaredIdentifier ident.name, ident.tag.span.start⟩
  | expr {e : Expr} {fault : Fault} : fault.OfTypes → Wrong (.expr e) ⟨fault, e.span.start⟩

/-- The error is what is wrong with one of the nodes. -/
def Error.FoundIn (error : Error) (nodes : List Node) : Prop :=
  ∃ node ∈ nodes, node.Wrong error

theorem Error.FoundIn.mono {nodes nodes' : List Node} (h : error.FoundIn nodes)
    (hsub : nodes ⊆ nodes') : error.FoundIn nodes' := by
  obtain ⟨node, hnode, hwrong⟩ := h
  exact ⟨node, hsub hnode, hwrong⟩

/-- What is wrong with a node is reported where it starts. -/
theorem Node.Wrong.position_eq {node : Node} (h : node.Wrong error) :
    error.position = node.tag.span.start := by
  cases h with
  | target => rfl
  | identifier => rfl
  | expr _ => rfl

/-- The error stands where one of the nodes starts. -/
def Error.At (error : Error) (nodes : List Node) : Prop :=
  ∃ node ∈ nodes, error.position = node.tag.span.start

theorem Error.FoundIn.at_node {nodes : List Node} (h : error.FoundIn nodes) :
    error.At nodes := by
  obtain ⟨node, hnode, hwrong⟩ := h
  exact ⟨node, hnode, hwrong.position_eq⟩

/-! ### Expressions -/

/-- A name without a type is not declared. -/
theorem eq_undeclared_of_typeOf {ident : Ident} (h : t.typeOf ident = .error error) :
    error = ⟨.undeclaredIdentifier ident.name, ident.tag.span.start⟩ := by
  unfold SymbolTable.typeOf at h
  split at h
  · cases h
  · cases h
    rfl

/-- Operands that an operator does not apply to have types that do not fit. -/
theorem ofTypes_of_resultType {operator : Operator} {left right : Ty}
    (h : operator.resultType left right = .error fault) : fault.OfTypes := by
  obtain ⟨category, rfl⟩ | rfl := Operator.eq_of_resultType_eq_error h
  · exact ⟨rfl, nofun⟩
  · exact ⟨rfl, nofun⟩

/-- An expression without a type has one of its nodes to blame. -/
theorem foundIn_of_inferExpr (h : inferExpr t types e = .error error) :
    error.FoundIn e.nodes := by
  induction e generalizing types with
  | binary left operator right tag ihl ihr =>
    rw [Expr.nodes_binary]
    rcases Result.bind_eq_error_iff.mp h with h | ⟨⟨leftType, types₁⟩, -, h⟩
    · apply (ihl h).mono
      intro node hnode
      exact List.mem_cons_of_mem _ (List.mem_append_left _ hnode)
    rcases Result.bind_eq_error_iff.mp h with h | ⟨⟨rightType, types₂⟩, -, h⟩
    · apply (ihr h).mono
      intro node hnode
      exact List.mem_cons_of_mem _ (List.mem_append_right _ hnode)
    -- The operation itself does not apply to its operands.
    refine ⟨_, List.mem_cons_self, ?_⟩
    rcases Result.bind_eq_error_iff.mp h with h | ⟨ty, -, h⟩
    · unfold Operation.type at h
      split at h
      · cases h
      · rename_i fault hfault
        cases h
        exact .expr (ofTypes_of_resultType hfault)
    · cases h
  | identifier ident =>
    rcases Result.bind_eq_error_iff.mp h with h | ⟨ty, -, h⟩
    · rw [eq_undeclared_of_typeOf h]
      exact ⟨_, List.mem_cons_self, .identifier⟩
    · cases h
  | literal value tag => cases h

/-- A typed value fails in itself, or in what is done with it. -/
theorem foundIn_of_typeExpr_bind {value : Expr} {f : Ty × TypeTable → Except Error TypeTable}
    (h : (typeExpr t types value >>= f) = .error error) :
    error.FoundIn value.nodes ∨ ∃ ty types₁, f (ty, types₁) = .error error := by
  rw [typeExpr_eq_inferExpr] at h
  rcases Result.bind_eq_error_iff.mp h with h | ⟨⟨ty, types₁⟩, -, h⟩
  · exact .inl (foundIn_of_inferExpr h)
  · exact .inr ⟨ty, types₁, h⟩

/-- A value of a wrong type is to blame as a whole. -/
theorem foundIn_of_typeExpr_then {value : Expr} {ty : Ty} {fault : Ty → Fault}
    (h : (do
      let (received, types) ← typeExpr t types value
      if received = ty then return types
      else throw (Error.mk (fault received) value.span.start)) = .error error)
    (hfault : ∀ received, (fault received).OfTypes) :
    error.FoundIn value.nodes := by
  rcases foundIn_of_typeExpr_bind h with h | ⟨received, types₁, h⟩
  · exact h
  · refine ⟨_, value.expr_mem_nodes, ?_⟩
    dsimp only at h
    split at h
    · cases h
    · cases h
      exact .expr (hfault received)

/-! ### Statements and blocks -/

/-- A block fails in its first statement, or in the rest of it. -/
theorem foundIn_of_checkBlock_cons {s : Stmt} {ss : List Stmt}
    (hs : checkStmt t types s = .error error → error.FoundIn s.nodes)
    (hss : ∀ {types₁}, checkBlock t types₁ ss = .error error → error.FoundIn (blockNodes ss))
    (h : checkBlock t types (s :: ss) = .error error) :
    error.FoundIn (blockNodes (s :: ss)) := by
  rw [blockNodes_cons]
  rcases Result.bind_eq_error_iff.mp h with h | ⟨types₁, -, h⟩
  · exact (hs h).mono (List.subset_append_left _ _)
  · exact (hss h).mono (List.subset_append_right _ _)

/-- A block that is not accepted has one of its nodes to blame. -/
theorem foundIn_of_checkBlock {body : List Stmt} (h : checkBlock t types body = .error error) :
    error.FoundIn (blockNodes body) := by
  induction body using blockInduction generalizing types with
  | nil => cases h
  | declaration target ty value tag ss ih =>
    refine foundIn_of_checkBlock_cons (fun hs => ?_) ih h
    rw [Stmt.nodes_declaration]
    apply (foundIn_of_typeExpr_then hs fun _ => ⟨rfl, nofun⟩).mono
    intro node hnode
    simp [hnode]
  | assignment target value tag ss ih =>
    refine foundIn_of_checkBlock_cons (fun hs => ?_) ih h
    rw [Stmt.nodes_assignment]
    rcases Result.bind_eq_error_iff.mp hs with hs | ⟨ty, -, hs⟩
    · rw [eq_undeclared_of_typeOf hs]
      exact ⟨.target target, by simp, .target⟩
    · apply (foundIn_of_typeExpr_then hs fun _ => ⟨rfl, nofun⟩).mono
      intro node hnode
      simp [hnode]
  | print value tag ss ih =>
    refine foundIn_of_checkBlock_cons (fun hs => ?_) ih h
    rw [Stmt.nodes_print]
    rcases foundIn_of_typeExpr_bind hs with hvalue | ⟨ty, types₁, hs⟩
    · exact hvalue.mono (List.subset_cons_self _ _)
    · cases hs
  | whileDo condition body tag ss ihb ih | ifThen condition body tag ss ihb ih =>
    refine foundIn_of_checkBlock_cons (fun hs => ?_) ih h
    simp only [Stmt.nodes_whileDo, Stmt.nodes_ifThen]
    rcases foundIn_of_typeExpr_bind hs with hcondition | ⟨ty, types₁, hs⟩
    · apply hcondition.mono
      intro node hnode
      simp [hnode]
    · apply (ihb hs).mono
      intro node hnode
      simp [hnode]
  | ifThenElse condition body otherwise elseTag tag ss ihb iho ih =>
    refine foundIn_of_checkBlock_cons (fun hs => ?_) ih h
    rw [Stmt.nodes_ifThenElse]
    rcases foundIn_of_typeExpr_bind hs with hcondition | ⟨ty, types₁, hs⟩
    · apply hcondition.mono
      intro node hnode
      simp [hnode]
    rcases Result.bind_eq_error_iff.mp hs with hs | ⟨types₂, -, hs⟩
    · apply (ihb hs).mono
      intro node hnode
      simp [hnode]
    · apply (iho hs).mono
      intro node hnode
      simp [hnode]

end BlockLang
