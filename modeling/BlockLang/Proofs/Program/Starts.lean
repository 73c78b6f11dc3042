import BlockLang.Proofs.Grammar.Derivation
import BlockLang.Proofs.Program.Nodes

/-! # Starts — every node starts where one of its tokens does

  A statement starts with its first token, a target with its name, and an
  operation with its left operand.  So whatever stands at the start of a node
  stands at the start of a token of the derivation, and that token is the
  name of a target, or the first operand of an expression. -/

namespace BlockLang

open Grammar

/-! ### The token that a node starts with -/

/-- The operand that an expression starts with. -/
def Expr.leftmost : Expr → Expr
  | .binary left _ _ _ => left.leftmost
  | e => e

theorem Grammar.Leaf.leftmost_expr (l : Leaf) (tag : Tag) :
    (l.expr tag).leftmost = l.expr tag := by
  cases l <;> rfl

theorem Grammar.Leaf.tag_expr (l : Leaf) (tag : Tag) : (l.expr tag).tag = tag := by
  cases l <;> rfl

/-- The node starts with the token.  A target is the name that it spells, and
    the first operand of an expression is what it stands for. -/
def Node.StartsWith (node : Node) (token : Token) : Prop :=
  match node with
  | .stmt s => s.tag.span.start = token.span.start
  | .elseBranch _ tag => tag.span.start = token.span.start
  | .target ident => token.kind = .identifier ∧ ident = identOf token ident.tag.id
  | .expr e => e.span.start = token.span.start ∧
      ∃ (l : Leaf) (id : NodeId), l.token = token ∧ e.leftmost = l.expr ⟨id, token.span⟩

theorem Node.StartsWith.start {node : Node} {token : Token} (h : node.StartsWith token) :
    node.tag.span.start = token.span.start := by
  cases node with
  | stmt s => exact h
  | elseBranch body tag => exact h
  | target ident =>
    obtain ⟨-, hident⟩ := h
    show ident.tag.span.start = _
    rw [hident]
    rfl
  | expr e => exact h.1

/-- The node starts with one of the tokens. -/
def Node.StartsIn (node : Node) (tokens : List Token) : Prop :=
  ∃ token ∈ tokens, node.StartsWith token

theorem Node.StartsIn.mono {node : Node} {ts us : List Token} (h : node.StartsIn ts)
    (hsub : ts ⊆ us) : node.StartsIn us := by
  obtain ⟨token, htoken, hstart⟩ := h
  exact ⟨token, hsub htoken, hstart⟩

theorem Expr.expr_mem_nodes (e : Expr) : Node.expr e ∈ e.nodes := by
  cases e with
  | binary left operator right tag =>
    rw [nodes_binary]
    exact List.mem_cons_self
  | identifier ident => exact List.mem_cons_self
  | literal value tag => exact List.mem_cons_self

namespace Grammar

/-- The nodes of a phrase start in it. -/
theorem Phrase.startsIn {nt : Nonterminal} (d : Phrase nt) (first : NodeId) :
    ∀ node ∈ (d.expr first).nodes, node.StartsIn d.tokens := by
  induction d generalizing first with
  | leaf l =>
    intro node hnode
    have hnodes : (l.expr ⟨first, l.token.span⟩).nodes =
        [.expr (l.expr ⟨first, l.token.span⟩)] := by cases l <;> rfl
    rw [expr, hnodes, List.mem_singleton] at hnode
    subst hnode
    refine ⟨l.token, List.mem_singleton_self _, ?_, l, first, rfl, l.leftmost_expr _⟩
    rw [Expr.span, l.tag_expr]
  | parens opening inner closing ih =>
    intro node hnode
    apply (ih first node hnode).mono
    intro token htoken
    exact List.mem_cons_of_mem _ (List.mem_append_left _ htoken)
  | ofFactor f ih => exact ih first
  | ofTerm t ih => exact ih first
  | product left sign right ihl ihr | sum left sign right ihl ihr =>
    intro node hnode
    rw [expr, join, Expr.nodes_binary, List.mem_cons, List.mem_append] at hnode
    rw [tokens]
    rcases hnode with rfl | hnode | hnode
    · -- The operation starts with its left operand.
      exact (ihl first _ (Expr.expr_mem_nodes _)).mono (List.subset_append_left _ _)
    · exact (ihl _ node hnode).mono (List.subset_append_left _ _)
    · apply (ihr _ node hnode).mono
      intro token htoken
      exact List.mem_append_right _ (List.mem_cons_of_mem _ htoken)

mutual

/-- The nodes of a sentence start in it. -/
theorem Sentence.startsIn (d : Sentence) (first : NodeId) :
    ∀ node ∈ (d.stmt first).nodes, node.StartsIn d.tokens := by
  intro node hnode
  cases d with
  | declaration kwVar name colon type equals value semicolon =>
    rw [Sentence.stmt, Stmt.nodes_declaration, List.mem_cons, List.mem_cons] at hnode
    rw [Sentence.tokens]
    rcases hnode with rfl | rfl | hnode
    · exact ⟨kwVar.1, by simp, rfl⟩
    · exact ⟨name.1, by simp, name.2, rfl⟩
    · apply (value.startsIn _ node hnode).mono
      intro token htoken
      simp [htoken]
  | assignment name equals value semicolon =>
    rw [Sentence.stmt, Stmt.nodes_assignment, List.mem_cons, List.mem_cons] at hnode
    rw [Sentence.tokens]
    rcases hnode with rfl | rfl | hnode
    · exact ⟨name.1, by simp, rfl⟩
    · exact ⟨name.1, by simp, name.2, rfl⟩
    · apply (value.startsIn _ node hnode).mono
      intro token htoken
      simp [htoken]
  | print kwPrint value semicolon =>
    rw [Sentence.stmt, Stmt.nodes_print, List.mem_cons] at hnode
    rw [Sentence.tokens]
    rcases hnode with rfl | hnode
    · exact ⟨kwPrint.1, by simp, rfl⟩
    · apply (value.startsIn _ node hnode).mono
      intro token htoken
      simp [htoken]
  | whileDo kw condition kwDo body kwEnd | ifThen kw condition kwDo body kwEnd =>
    simp only [Sentence.stmt, Stmt.nodes_whileDo, Stmt.nodes_ifThen, List.mem_cons,
      List.mem_append] at hnode
    rw [Sentence.tokens]
    rcases hnode with rfl | hnode | hnode
    · exact ⟨kw.1, by simp, rfl⟩
    · apply (condition.startsIn _ node hnode).mono
      intro token htoken
      simp [htoken]
    · apply (startsIn_blockStmts body _ node hnode).mono
      intro token htoken
      simp [htoken]
  | ifThenElse kwIf condition kwDo body kwElse otherwise kwEnd =>
    simp only [Sentence.stmt, Stmt.nodes_ifThenElse, List.mem_cons, List.mem_append] at hnode
    rw [Sentence.tokens]
    rcases hnode with rfl | hnode | hnode | rfl | hnode
    · exact ⟨kwIf.1, by simp, rfl⟩
    · apply (condition.startsIn _ node hnode).mono
      intro token htoken
      simp [htoken]
    · apply (startsIn_blockStmts body _ node hnode).mono
      intro token htoken
      simp [htoken]
    · exact ⟨kwElse.1, by simp, rfl⟩
    · apply (startsIn_blockStmts otherwise _ node hnode).mono
      intro token htoken
      simp [htoken]

/-- The nodes of a block start in it. -/
theorem startsIn_blockStmts (ds : List Sentence) (first : NodeId) :
    ∀ node ∈ blockNodes (blockStmts first ds), node.StartsIn (blockTokens ds) := by
  intro node hnode
  cases ds with
  | nil => cases hnode
  | cons d ds =>
    rw [blockStmts, blockNodes_cons, List.mem_append] at hnode
    rw [blockTokens]
    rcases hnode with hnode | hnode
    · exact (Sentence.startsIn d _ node hnode).mono (List.subset_append_left _ _)
    · exact (startsIn_blockStmts ds _ node hnode).mono (List.subset_append_right _ _)

end

end Grammar

end BlockLang
