import BlockLang.Proofs.Grammar.Derivation
import BlockLang.Proofs.Program.Nodes

/-! # Inside — every statement of a program has a derivation of its own

  A statement of a program stands in a block, which may be inside another
  statement.  It is spelled by a sentence, whose tokens stand in a row among
  those of the whole, and which needs no more levels than the whole.  The
  statement covers its sentence, from the first token to the last one. -/

namespace BlockLang

open Grammar

/-- The statement is spelled by a sentence among the tokens, which takes no more
    levels, and it is numbered from `first` or further on. -/
def Stmt.DerivedIn (s : Stmt) (first : NodeId) (tokens : List Token) (levels : Nat) : Prop :=
  ∃ (d : Sentence) (ids : Nat), s = d.stmt (first + ids) ∧ d.tokens <:+: tokens ∧
    d.levels ≤ levels

variable {s : Stmt} {first : NodeId} {ts us : List Token} {m n : Nat}

/-- What is inside a part is inside the whole. -/
theorem Stmt.DerivedIn.mono {ids : Nat} (h : s.DerivedIn (first + ids) ts m) (hts : ts <:+: us)
    (hlevels : m ≤ n) : s.DerivedIn first us n := by
  obtain ⟨d, ids', rfl, htokens, hd⟩ := h
  exact ⟨d, ids + ids', by rw [Nat.add_assoc], htokens.trans hts, Nat.le_trans hd hlevels⟩

/-- The blocks of a statement. -/
def Stmt.bodies : Stmt → List (List Stmt)
  | .whileDo _ body _ | .ifThen _ body _ => [body]
  | .ifThenElse _ body otherwise _ _ => [body, otherwise]
  | _ => []

/-- No statement is inside an expression. -/
theorem Expr.stmt_notMem_nodes (e : Expr) : Node.stmt s ∉ e.nodes := by
  induction e with
  | binary left operator right tag ihl ihr => simp [ihl, ihr]
  | identifier ident => simp
  | literal value tag => simp

/-- A statement inside another one stands in one of its blocks. -/
theorem Stmt.exists_body_of_mem_nodes {t : Stmt} (h : Node.stmt s ∈ t.nodes) (hne : s ≠ t) :
    ∃ body ∈ t.bodies, Node.stmt s ∈ blockNodes body := by
  cases t <;> simp_all [bodies, Expr.stmt_notMem_nodes]

namespace Grammar

/-- A statement covers its sentence. -/
theorem Sentence.exists_ends (d : Sentence) (first : NodeId) :
    ∃ head last, d.tokens.head? = some head ∧ d.tokens.getLast? = some last ∧
      (d.stmt first).span = spanOf head last := by
  cases d with
  | declaration kwVar name colon type equals value semicolon =>
    exact ⟨kwVar.1, semicolon.1, rfl, by simp [Sentence.tokens, List.getLast?_cons], rfl⟩
  | assignment name equals value semicolon =>
    exact ⟨name.1, semicolon.1, rfl, by simp [Sentence.tokens, List.getLast?_cons], rfl⟩
  | print kwPrint value semicolon =>
    exact ⟨kwPrint.1, semicolon.1, rfl, by simp [Sentence.tokens, List.getLast?_cons], rfl⟩
  | whileDo kw condition kwDo body kwEnd | ifThen kw condition kwDo body kwEnd =>
    exact ⟨kw.1, kwEnd.1, rfl, by simp [Sentence.tokens, List.getLast?_cons], rfl⟩
  | ifThenElse kwIf condition kwDo body kwElse otherwise kwEnd =>
    exact ⟨kwIf.1, kwEnd.1, rfl, by simp [Sentence.tokens, List.getLast?_cons], rfl⟩

mutual

/-- The statements inside a statement are spelled inside its sentence. -/
theorem Sentence.derivedIn (d : Sentence) (first : NodeId) (s : Stmt)
    (h : Node.stmt s ∈ (d.stmt first).nodes) : s.DerivedIn first d.tokens d.levels := by
  by_cases hself : s = d.stmt first
  · exact ⟨d, 0, hself, List.infix_rfl, Nat.le_refl _⟩
  obtain ⟨body', hbody, hs⟩ := Stmt.exists_body_of_mem_nodes h hself
  cases d with
  | declaration kwVar name colon type equals value semicolon => cases hbody
  | assignment name equals value semicolon => cases hbody
  | print kwPrint value semicolon => cases hbody
  | whileDo kw condition kwDo body kwEnd | ifThen kw condition kwDo body kwEnd =>
    obtain rfl := List.mem_singleton.mp hbody
    apply (derivedIn_blockStmts body _ s hs).mono
    · exact ⟨kw.1 :: (condition.tokens ++ [kwDo.1]), [kwEnd.1], by simp [Sentence.tokens]⟩
    · rw [Sentence.levels]
      omega
  | ifThenElse kwIf condition kwDo body kwElse otherwise kwEnd =>
    rw [Sentence.stmt, Stmt.bodies, List.mem_cons, List.mem_singleton] at hbody
    rcases hbody with rfl | rfl
    · apply (derivedIn_blockStmts body _ s hs).mono
      · exact ⟨kwIf.1 :: (condition.tokens ++ [kwDo.1]),
          kwElse.1 :: (blockTokens otherwise ++ [kwEnd.1]), by simp [Sentence.tokens]⟩
      · rw [Sentence.levels]
        omega
    · rw [Nat.add_assoc first] at hs
      apply (derivedIn_blockStmts otherwise _ s hs).mono
      · exact ⟨kwIf.1 :: (condition.tokens ++ kwDo.1 :: (blockTokens body ++ [kwElse.1])),
          [kwEnd.1], by simp [Sentence.tokens]⟩
      · rw [Sentence.levels]
        omega

/-- The statements of a block, and those inside them, are spelled inside its
    sentences. -/
theorem derivedIn_blockStmts (ds : List Sentence) (first : NodeId) (s : Stmt)
    (h : Node.stmt s ∈ blockNodes (blockStmts first ds)) :
    s.DerivedIn first (blockTokens ds) (blockLevels ds) := by
  cases ds with
  | nil => cases h
  | cons d ds =>
    rw [blockStmts, blockNodes_cons, List.mem_append] at h
    rw [blockTokens, blockLevels]
    rcases h with h | h
    · have hd : s.DerivedIn (first + 0) d.tokens d.levels := Sentence.derivedIn d first s h
      exact hd.mono List.infix_append_left (Nat.le_max_left _ _)
    · have hds := derivedIn_blockStmts ds _ s h
      exact hds.mono List.infix_append_right (Nat.le_max_right _ _)

end

end Grammar

end BlockLang
