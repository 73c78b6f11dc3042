import BlockLang.Proofs.Grammar.Inside
import BlockLang.Proofs.Program.Starts
import Mathlib.Data.List.Forall2

/-! # Parts — what the nodes of a program stand for in its derivation

  Every node of a program stands for a part of the derivation: a sentence, the
  name of a target, a phrase, or the branch behind an `else`.  A part has a row
  of tokens of its own, among those of the whole, and the node covers the row
  from its first token to its last one.  Parentheses and operators leave no
  node, so the row of a phrase is that of its operands. -/

namespace BlockLang

namespace Grammar

/-! ### Parts -/

/-- What a node can stand for. -/
inductive Part where
  | sentence (d : Sentence)
  | target (name : TokenOf .identifier)
  | phrase {nt : Nonterminal} (d : Phrase nt)
  /-- The branch behind an `else`, up to the `end` that also closes the `if`. -/
  | elseBranch (kwElse : TokenOf .kwElse) (otherwise : List Sentence) (kwEnd : TokenOf .kwEnd)

/-- The operands of a phrase that are one token each, in order. -/
def Phrase.leaves : {nt : Nonterminal} → Phrase nt → List Token
  | _, leaf l => [l.token]
  | _, parens _ inner _ => inner.leaves
  | _, ofFactor f => f.leaves
  | _, product left _ right => left.leaves ++ right.leaves
  | _, ofTerm t => t.leaves
  | _, sum left _ right => left.leaves ++ right.leaves

namespace Part

/-- The tokens of a part. -/
def row : Part → List Token
  | sentence d => d.tokens
  | target name => [name.1]
  | phrase d => d.leaves
  | elseBranch kwElse otherwise kwEnd => kwElse.1 :: (blockTokens otherwise ++ [kwEnd.1])

/-- The node of a part whose nodes are numbered from `first` on. -/
def node (first : NodeId) : Part → Node
  | sentence d => .stmt (d.stmt first)
  | target name => .target (identOf name.1 first)
  | phrase d => .expr (d.expr first)
  | elseBranch kwElse otherwise kwEnd =>
      .elseBranch (blockStmts first otherwise)
        ⟨first + blockSize otherwise, spanOf kwElse.1 kwEnd.1⟩

/-- The kinds of token that a part can end with. -/
def closing : Part → List Kind
  | sentence _ => [.semicolon, .kwEnd]
  | target _ => [.identifier]
  | phrase _ => [.integer, .float, .boolean, .string, .identifier]
  | elseBranch _ _ _ => [.kwEnd]

end Part

/-! ### The parts of a derivation -/

/-- The parts of a phrase, each before those inside it. -/
def Phrase.parts : {nt : Nonterminal} → Phrase nt → List Part
  | _, leaf l => [.phrase (leaf l)]
  | _, parens _ inner _ => inner.parts
  | _, ofFactor f => f.parts
  | _, product left sign right => .phrase (product left sign right) :: (left.parts ++ right.parts)
  | _, ofTerm t => t.parts
  | _, sum left sign right => .phrase (sum left sign right) :: (left.parts ++ right.parts)

mutual

/-- The parts of a sentence, each before those inside it. -/
def Sentence.parts : Sentence → List Part
  | .declaration kwVar name colon type equals value semicolon =>
      .sentence (.declaration kwVar name colon type equals value semicolon) ::
        .target name :: value.parts
  | .assignment name equals value semicolon =>
      .sentence (.assignment name equals value semicolon) :: .target name :: value.parts
  | .print kwPrint value semicolon => .sentence (.print kwPrint value semicolon) :: value.parts
  | .whileDo kwWhile condition kwDo body kwEnd =>
      .sentence (.whileDo kwWhile condition kwDo body kwEnd) ::
        (condition.parts ++ blockParts body)
  | .ifThen kwIf condition kwDo body kwEnd =>
      .sentence (.ifThen kwIf condition kwDo body kwEnd) :: (condition.parts ++ blockParts body)
  | .ifThenElse kwIf condition kwDo body kwElse otherwise kwEnd =>
      .sentence (.ifThenElse kwIf condition kwDo body kwElse otherwise kwEnd) ::
        (condition.parts ++ (blockParts body ++
          .elseBranch kwElse otherwise kwEnd :: blockParts otherwise))

/-- The parts of the sentences in a block. -/
def blockParts : List Sentence → List Part
  | [] => []
  | d :: ds => d.parts ++ blockParts ds

end

end Grammar

open Grammar

/-- The node stands for the part. -/
def Node.StandsFor (node : Node) (part : Part) : Prop := ∃ first, node = part.node first

/-- The nodes are those of the parts, one by one. -/
abbrev StandFor : List Node → List Part → Prop := List.Forall₂ Node.StandsFor

theorem StandFor.exists_part {nodes : List Node} {parts : List Part} (h : StandFor nodes parts)
    {node : Node} (hnode : node ∈ nodes) : ∃ part ∈ parts, node.StandsFor part := by
  induction h with
  | nil => cases hnode
  | @cons first part nodes parts hfirst hnodes ih =>
    rcases List.mem_cons.mp hnode with rfl | hnode
    · exact ⟨part, List.mem_cons_self, hfirst⟩
    · obtain ⟨part', hpart', hstands⟩ := ih hnode
      exact ⟨part', List.mem_cons_of_mem _ hpart', hstands⟩

namespace Grammar

theorem Phrase.standFor_parts {nt : Nonterminal} (d : Phrase nt) (first : NodeId) :
    StandFor (d.expr first).nodes d.parts := by
  induction d generalizing first with
  | leaf l =>
    have hnodes : (l.expr ⟨first, l.token.span⟩).nodes =
        [.expr (l.expr ⟨first, l.token.span⟩)] := by cases l <;> rfl
    rw [expr, hnodes]
    exact .cons ⟨first, rfl⟩ .nil
  | parens opening inner closing ih => exact ih first
  | ofFactor f ih => exact ih first
  | ofTerm t ih => exact ih first
  | product left sign right ihl ihr | sum left sign right ihl ihr =>
    rw [expr, join, Expr.nodes_binary, parts]
    exact .cons ⟨first, rfl⟩ (List.rel_append (ihl first) (ihr _))

mutual

theorem Sentence.standFor_parts (d : Sentence) (first : NodeId) :
    StandFor (d.stmt first).nodes d.parts := by
  cases d with
  | declaration kwVar name colon type equals value semicolon
  | assignment name equals value semicolon =>
    exact .cons ⟨first, rfl⟩ (.cons ⟨first, rfl⟩ (value.standFor_parts _))
  | print kwPrint value semicolon => exact .cons ⟨first, rfl⟩ (value.standFor_parts _)
  | whileDo kw condition kwDo body kwEnd | ifThen kw condition kwDo body kwEnd =>
    rw [Sentence.stmt, Sentence.parts]
    simp only [Stmt.nodes_whileDo, Stmt.nodes_ifThen]
    exact .cons ⟨first, rfl⟩
      (List.rel_append (condition.standFor_parts _) (standFor_blockParts body _))
  | ifThenElse kwIf condition kwDo body kwElse otherwise kwEnd =>
    rw [Sentence.stmt, Stmt.nodes_ifThenElse, Sentence.parts]
    have hbranch : StandFor
        (.elseBranch (blockStmts (first + condition.size + blockSize body) otherwise)
          ⟨first + condition.size + blockSize body + blockSize otherwise,
            spanOf kwElse.1 kwEnd.1⟩ ::
          blockNodes (blockStmts (first + condition.size + blockSize body) otherwise))
        (.elseBranch kwElse otherwise kwEnd :: blockParts otherwise) :=
      .cons ⟨first + condition.size + blockSize body, rfl⟩ (standFor_blockParts otherwise _)
    exact .cons ⟨first, rfl⟩ (List.rel_append (condition.standFor_parts _)
      (List.rel_append (standFor_blockParts body _) hbranch))

/-- The nodes of a block stand for the parts of its sentences, in order. -/
theorem standFor_blockParts (ds : List Sentence) (first : NodeId) :
    StandFor (blockNodes (blockStmts first ds)) (blockParts ds) := by
  cases ds with
  | nil => exact .nil
  | cons d ds =>
    rw [blockStmts, blockNodes_cons, blockParts]
    exact List.rel_append (Sentence.standFor_parts d first) (standFor_blockParts ds _)

end

/-! ### Spans -/

/-- The span runs over the part, from the start of its first token to the end of
    its last one, which is of a kind that the part can end with. -/
def Part.Spans (part : Part) (span : Span) : Prop :=
  ∃ head last, part.row.head? = some head ∧ part.row.getLast? = some last ∧
    last.kind ∈ part.closing ∧ span = spanOf head last

theorem Leaf.kind_mem (l : Leaf) :
    l.token.kind ∈ [Kind.integer, .float, .boolean, .string, .identifier] := by
  cases l with
  | integer token | float token | boolean token | string token | identifier token =>
    rw [Leaf.token, token.2]
    decide

theorem Phrase.spans {nt : Nonterminal} (d : Phrase nt) (first : NodeId) :
    (Part.phrase d).Spans (d.expr first).span := by
  induction d generalizing first with
  | leaf l =>
    refine ⟨l.token, l.token, rfl, rfl, l.kind_mem, ?_⟩
    rw [expr, Expr.span, l.tag_expr]
    rfl
  | parens opening inner closing ih => exact ih first
  | ofFactor f ih => exact ih first
  | ofTerm t ih => exact ih first
  | product left sign right ihl ihr | sum left sign right ihl ihr =>
    obtain ⟨head, middle, hhead, -, -, hleft⟩ := ihl first
    obtain ⟨middle', last, -, hlast, hkind, hright⟩ := ihr (first + left.size)
    replace hhead : left.leaves.head? = some head := hhead
    replace hlast : right.leaves.getLast? = some last := hlast
    refine ⟨head, last, ?_, ?_, hkind, ?_⟩
    · rw [Part.row, leaves, List.head?_append, hhead, Option.some_or]
    · rw [Part.row, leaves, List.getLast?_append, hlast, Option.some_or]
    · show Span.mk (left.expr first).span.start _ = _
      rw [hleft, hright]
      rfl

theorem Sentence.closing_of_getLast? {d : Sentence} {last : Token}
    (h : d.tokens.getLast? = some last) : last.kind ∈ [Kind.semicolon, .kwEnd] := by
  cases d with
  | declaration _ _ _ _ _ _ closing | assignment _ _ _ closing | print _ _ closing
  | whileDo _ _ _ _ closing | ifThen _ _ _ _ closing | ifThenElse _ _ _ _ _ _ closing =>
    have hlast : closing.1 = last := by simpa [Sentence.tokens, List.getLast?_cons] using h
    rw [← hlast, closing.2]
    decide

/-- Every node runs over the part that it stands for. -/
theorem Part.spans_node (part : Part) (first : NodeId) : part.Spans (part.node first).tag.span := by
  cases part with
  | sentence d =>
    obtain ⟨head, last, hhead, hlast, hspan⟩ := d.exists_ends first
    exact ⟨head, last, hhead, hlast, Sentence.closing_of_getLast? hlast, hspan⟩
  | target name =>
    refine ⟨name.1, name.1, rfl, rfl, ?_, rfl⟩
    rw [name.2]
    exact List.mem_singleton_self _
  | phrase d => exact d.spans first
  | elseBranch kwElse otherwise kwEnd =>
    refine ⟨kwElse.1, kwEnd.1, rfl, ?_, ?_, rfl⟩
    · rw [row, ← List.cons_append, List.getLast?_concat]
    · rw [kwEnd.2]
      exact List.mem_singleton_self _

end Grammar

theorem Node.StandsFor.spans {node : Node} {part : Part} (h : node.StandsFor part) :
    part.Spans node.tag.span := by
  obtain ⟨first, rfl⟩ := h
  exact part.spans_node first

/-! ### Parts inside parts -/

/-- The nodes directly below a node, in the order of the source. -/
def Node.children : Node → List Node
  | .stmt (.declaration ident _ value _) | .stmt (.assignment ident value _) =>
      [.target ident, .expr value]
  | .stmt (.print value _) => [.expr value]
  | .stmt (.whileDo condition body _) | .stmt (.ifThen condition body _) =>
      .expr condition :: body.map .stmt
  | .stmt (.ifThenElse condition body otherwise elseTag _) =>
      .expr condition :: (body.map .stmt ++ [.elseBranch otherwise elseTag])
  | .expr (.binary left _ right _) => [.expr left, .expr right]
  | .elseBranch body _ => body.map .stmt
  | _ => []

namespace Grammar

/-- The parts directly inside a phrase. -/
def Phrase.operands : {nt : Nonterminal} → Phrase nt → List Part
  | _, leaf _ => []
  | _, parens _ inner _ => inner.operands
  | _, ofFactor f => f.operands
  | _, product left _ right => [.phrase left, .phrase right]
  | _, ofTerm t => t.operands
  | _, sum left _ right => [.phrase left, .phrase right]

/-- The parts directly inside a part. -/
def Part.children : Part → List Part
  | sentence (.declaration _ name _ _ _ value _) | sentence (.assignment name _ value _) =>
      [.target name, .phrase value]
  | sentence (.print _ value _) => [.phrase value]
  | sentence (.whileDo _ condition _ body _) | sentence (.ifThen _ condition _ body _) =>
      .phrase condition :: body.map .sentence
  | sentence (.ifThenElse _ condition _ body kwElse otherwise kwEnd) =>
      .phrase condition :: (body.map .sentence ++ [.elseBranch kwElse otherwise kwEnd])
  | target _ => []
  | phrase d => d.operands
  | elseBranch _ otherwise _ => otherwise.map .sentence

theorem standFor_sentences (ds : List Sentence) (first : NodeId) :
    StandFor ((blockStmts first ds).map .stmt) (ds.map .sentence) := by
  induction ds generalizing first with
  | nil => exact .nil
  | cons d ds ih => exact .cons ⟨first, rfl⟩ (ih _)

/-- The nodes below a node stand for the parts inside its part. -/
theorem Part.standFor_children (part : Part) (first : NodeId) :
    StandFor (part.node first).children part.children := by
  cases part with
  | target name => exact .nil
  | elseBranch kwElse otherwise kwEnd => exact standFor_sentences otherwise first
  | sentence d =>
    cases d with
    | declaration kwVar name colon type equals value semicolon
    | assignment name equals value semicolon =>
      exact .cons ⟨first, rfl⟩ (.cons ⟨first + 1, rfl⟩ .nil)
    | print kwPrint value semicolon => exact .cons ⟨first, rfl⟩ .nil
    | whileDo kw condition kwDo body kwEnd | ifThen kw condition kwDo body kwEnd =>
      exact .cons ⟨first, rfl⟩ (standFor_sentences body _)
    | ifThenElse kwIf condition kwDo body kwElse otherwise kwEnd =>
      exact .cons ⟨first, rfl⟩ (List.rel_append (standFor_sentences body _)
        (.cons ⟨first + condition.size + blockSize body, rfl⟩ .nil))
  | phrase d =>
    induction d generalizing first with
    | leaf l => cases l <;> exact .nil
    | parens opening inner closing ih => exact ih first
    | ofFactor f ih => exact ih first
    | ofTerm t ih => exact ih first
    | product left sign right _ _ | sum left sign right _ _ =>
      exact .cons ⟨first, rfl⟩ (.cons ⟨first + left.size, rfl⟩ .nil)

/-! ### Rows inside rows -/

theorem Phrase.leaves_sublist {nt : Nonterminal} (d : Phrase nt) : d.leaves.Sublist d.tokens := by
  induction d with
  | leaf l => exact .refl _
  | parens opening inner closing ih => exact .cons _ (ih.trans (List.sublist_append_left _ _))
  | ofFactor f ih => exact ih
  | ofTerm t ih => exact ih
  | product left sign right ihl ihr | sum left sign right ihl ihr =>
    exact ihl.append (.cons _ ihr)

theorem flatMap_row_sentences (ds : List Sentence) :
    (ds.map Part.sentence).flatMap Part.row = blockTokens ds := by
  induction ds with
  | nil => rfl
  | cons d ds ih => rw [List.map_cons, List.flatMap_cons, ih, blockTokens, Part.row]

/-- The rows of the parts inside a part stand one after the other in its row. -/
theorem Part.children_sublist (part : Part) :
    (part.children.flatMap row).Sublist part.row := by
  cases part with
  | target name => exact List.nil_sublist _
  | elseBranch kwElse otherwise kwEnd =>
    rw [children, flatMap_row_sentences]
    exact .cons _ (List.sublist_append_left _ _)
  | sentence d =>
    cases d with
    | declaration kwVar name colon type equals value semicolon =>
      have hvalue := value.leaves_sublist.append (List.nil_sublist [semicolon.1])
      exact .cons _ (.cons_cons _ (.cons _ (.cons _ (.cons _ hvalue))))
    | assignment name equals value semicolon =>
      have hvalue := value.leaves_sublist.append (List.nil_sublist [semicolon.1])
      exact .cons_cons _ (.cons _ hvalue)
    | print kwPrint value semicolon =>
      exact .cons _ (value.leaves_sublist.append (List.nil_sublist [semicolon.1]))
    | whileDo kw condition kwDo body kwEnd | ifThen kw condition kwDo body kwEnd =>
      rw [children, List.flatMap_cons, flatMap_row_sentences]
      exact .cons _ (condition.leaves_sublist.append (.cons _ (List.sublist_append_left _ _)))
    | ifThenElse kwIf condition kwDo body kwElse otherwise kwEnd =>
      rw [children, List.flatMap_cons, List.flatMap_append, flatMap_row_sentences,
        List.flatMap_singleton]
      exact .cons _ (condition.leaves_sublist.append (.cons _ (.refl _)))
  | phrase d =>
    induction d with
    | leaf l => exact List.nil_sublist _
    | parens opening inner closing ih => exact ih
    | ofFactor f ih => exact ih
    | ofTerm t ih => exact ih
    | product left sign right _ _ | sum left sign right _ _ =>
      simp [children, Phrase.operands, row, Phrase.leaves]

/-- The parts of a phrase have rows in it. -/
theorem Phrase.row_sublist {nt : Nonterminal} (d : Phrase nt) :
    ∀ part ∈ d.parts, part.row.Sublist d.leaves := by
  induction d with
  | leaf l =>
    intro part hpart
    rw [List.mem_singleton.mp hpart]
    exact .refl _
  | parens opening inner closing ih => exact ih
  | ofFactor f ih => exact ih
  | ofTerm t ih => exact ih
  | product left sign right ihl ihr | sum left sign right ihl ihr =>
    intro part hpart
    rw [parts, List.mem_cons, List.mem_append] at hpart
    rcases hpart with rfl | hpart | hpart
    · exact .refl _
    · exact (ihl part hpart).trans (List.sublist_append_left _ _)
    · exact (ihr part hpart).trans (List.sublist_append_right _ _)

theorem Part.row_sublist_flatMap {part : Part} {parts : List Part} (h : part ∈ parts) :
    part.row.Sublist (parts.flatMap row) := by
  rw [List.flatMap_def]
  exact List.sublist_flatten_of_mem (List.mem_map_of_mem h)

/-- A part directly inside another one has its row there. -/
theorem Part.row_sublist_of_mem {part inner : Part} (h : inner ∈ part.children) :
    inner.row.Sublist part.row :=
  (Part.row_sublist_flatMap h).trans part.children_sublist

mutual

/-- The parts of a sentence have rows in it. -/
theorem Sentence.row_sublist (d : Sentence) : ∀ part ∈ d.parts, part.row.Sublist d.tokens := by
  intro part hpart
  -- What is further inside has its row in a part that is directly inside.
  have hinner (inner : Part) (h : inner ∈ (Part.sentence d).children) :
      inner.row.Sublist d.tokens := Part.row_sublist_of_mem h
  cases d with
  | declaration kwVar name colon type equals value semicolon
  | assignment name equals value semicolon =>
    rw [Sentence.parts, List.mem_cons, List.mem_cons] at hpart
    rcases hpart with rfl | rfl | hpart
    · exact .refl _
    · exact hinner (.target name) (by simp [Part.children])
    · exact (value.row_sublist part hpart).trans (hinner (.phrase value) (by simp [Part.children]))
  | print kwPrint value semicolon =>
    rw [Sentence.parts, List.mem_cons] at hpart
    rcases hpart with rfl | hpart
    · exact .refl _
    · exact (value.row_sublist part hpart).trans (hinner (.phrase value) (by simp [Part.children]))
  | whileDo kw condition kwDo body kwEnd | ifThen kw condition kwDo body kwEnd =>
    rw [Sentence.parts, List.mem_cons, List.mem_append] at hpart
    rcases hpart with rfl | hpart | hpart
    · exact .refl _
    · exact (condition.row_sublist part hpart).trans
        (hinner (.phrase condition) (by simp [Part.children]))
    · refine (row_sublist_blockTokens body part hpart).trans ?_
      exact .cons _ (.trans (.cons _ (List.sublist_append_left _ _))
        (List.sublist_append_right _ _))
  | ifThenElse kwIf condition kwDo body kwElse otherwise kwEnd =>
    have hbranch := hinner (.elseBranch kwElse otherwise kwEnd) (by simp [Part.children])
    rw [Sentence.parts, List.mem_cons, List.mem_append, List.mem_append, List.mem_cons] at hpart
    rcases hpart with rfl | hpart | hpart | rfl | hpart
    · exact .refl _
    · exact (condition.row_sublist part hpart).trans
        (hinner (.phrase condition) (by simp [Part.children]))
    · refine (row_sublist_blockTokens body part hpart).trans ?_
      exact .cons _ (.trans (.cons _ (List.sublist_append_left _ _))
        (List.sublist_append_right _ _))
    · exact hbranch
    · refine ((row_sublist_blockTokens otherwise part hpart).trans ?_).trans hbranch
      exact .cons _ (List.sublist_append_left _ _)

/-- The parts of a block have rows in it. -/
theorem row_sublist_blockTokens (ds : List Sentence) :
    ∀ part ∈ blockParts ds, part.row.Sublist (blockTokens ds) := by
  intro part hpart
  cases ds with
  | nil => cases hpart
  | cons d ds =>
    rw [blockParts, List.mem_append] at hpart
    rw [blockTokens]
    rcases hpart with hpart | hpart
    · exact (Sentence.row_sublist d part hpart).trans (List.sublist_append_left _ _)
    · exact (row_sublist_blockTokens ds part hpart).trans (List.sublist_append_right _ _)

end

end Grammar

end BlockLang
