import BlockLang.Compile
import BlockLang.Proofs.Program.Identities
import BlockLang.Proofs.Result

/-! # Numbering — identities are dense, and a node ends its own range

  The identities of a parsed program are the numbers from zero on, one for
  each node.  The root has the first, and the others are numbered as their
  nodes are complete: the parts of a node in the order of the source, and
  then the node.  So what is inside a node is a range of numbers that ends
  with the node's own. -/

namespace BlockLang

/-! ### What is inside a node -/

/-- The identities of a node and of what is inside it, in the order in which
    they are drawn. -/
def Node.drawn : Node → List NodeId
  | stmt s => s.drawn
  | target ident => [ident.tag.id]
  | expr e => e.drawn
  | elseBranch body tag => blockDrawn body ++ [tag.id]

/-- The nodes inside a node, itself first. -/
def Node.inside : Node → List Node
  | stmt s => s.nodes
  | target ident => [.target ident]
  | expr e => e.nodes
  | elseBranch body tag => .elseBranch body tag :: blockNodes body

/-- A node is complete when all that is inside it is. -/
theorem Node.exists_drawn_eq (node : Node) : ∃ front, node.drawn = front ++ [node.id] := by
  cases node with
  | stmt s =>
    cases s with
    | declaration target ty value tag => exact ⟨target.tag.id :: value.drawn, rfl⟩
    | assignment target value tag => exact ⟨target.tag.id :: value.drawn, rfl⟩
    | print value tag => exact ⟨value.drawn, rfl⟩
    | whileDo condition body tag => exact ⟨condition.drawn ++ blockDrawn body, rfl⟩
    | ifThen condition body tag => exact ⟨condition.drawn ++ blockDrawn body, rfl⟩
    | ifThenElse condition body otherwise elseTag tag =>
      refine ⟨condition.drawn ++ blockDrawn body ++ blockDrawn otherwise ++ [elseTag.id], ?_⟩
      rw [List.append_assoc _ [elseTag.id]]
      rfl
  | target ident => exact ⟨[], rfl⟩
  | expr e =>
    cases e with
    | binary left operator right tag => exact ⟨left.drawn ++ right.drawn, rfl⟩
    | identifier ident => exact ⟨[], rfl⟩
    | literal value tag => exact ⟨[], rfl⟩
  | elseBranch body tag => exact ⟨blockDrawn body, rfl⟩

/-- Each node inside is drawn once for each time that it is listed. -/
theorem Node.inside_perm_drawn (node : Node) : (node.inside.map Node.id).Perm node.drawn := by
  rw [List.perm_iff_count]
  intro id
  cases node with
  | stmt s =>
    have h := count_blockDrawn [s] id
    rwa [blockNodes_cons, blockNodes_nil, List.append_nil, blockDrawn, blockDrawn,
      List.append_nil] at h
  | target ident => rfl
  | expr e => exact e.count_drawn id
  | elseBranch body tag =>
    rw [inside, drawn, List.map_cons, List.count_cons, List.count_append, count_blockDrawn,
      List.count_singleton]
    rfl

/-! ### Nodes as parts of a program -/

theorem Expr.drawn_contiguous {e : Expr} {node : Node} (h : node ∈ e.nodes) :
    node.drawn <:+: e.drawn := by
  induction e with
  | binary left operator right tag ihl ihr =>
    rw [nodes_binary, List.mem_cons, List.mem_append] at h
    obtain rfl | h | h := h
    · exact List.infix_rfl
    · exact List.infix_append_of_infix_left (List.infix_append_of_infix_left (ihl h))
    · exact List.infix_append_of_infix_left (List.infix_append_of_infix_right (ihr h))
  | identifier ident => rw [List.mem_singleton.mp h]; exact List.infix_rfl
  | literal value tag => rw [List.mem_singleton.mp h]; exact List.infix_rfl

/-- What is inside a node of a block stands in a row in the order of drawing. -/
theorem blockDrawn_contiguous {node : Node} {body : List Stmt} (h : node ∈ blockNodes body) :
    node.drawn <:+: blockDrawn body := by
  -- A node of the first statement is the statement itself, or a node of one of its
  -- parts, and the parts stand in a row inside the statement.
  induction body using blockInduction with
  | nil => cases h
  | declaration target ty value tag ss ih | assignment target value tag ss ih =>
    simp only [blockNodes_cons, Stmt.nodes_declaration, Stmt.nodes_assignment, List.mem_append,
      List.mem_cons] at h
    rw [blockDrawn]
    obtain (rfl | rfl | h) | h := h
    · exact List.infix_append_left
    · exact (List.prefix_append [target.tag.id] _).isInfix
    · have hvalue : node.drawn <:+: value.drawn ++ [tag.id] :=
        List.infix_append_of_infix_left (Expr.drawn_contiguous h)
      exact List.infix_append_of_infix_left (List.infix_cons hvalue)
    · exact List.infix_append_of_infix_right (ih h)
  | print value tag ss ih =>
    simp only [blockNodes_cons, Stmt.nodes_print, List.mem_append, List.mem_cons] at h
    rw [blockDrawn]
    obtain (rfl | h) | h := h
    · exact List.infix_append_left
    · refine List.infix_append_of_infix_left ?_
      exact List.infix_append_of_infix_left (Expr.drawn_contiguous h)
    · exact List.infix_append_of_infix_right (ih h)
  | whileDo condition body tag ss ihb ih | ifThen condition body tag ss ihb ih =>
    simp only [blockNodes_cons, Stmt.nodes_whileDo, Stmt.nodes_ifThen, List.mem_append,
      List.mem_cons] at h
    rw [blockDrawn]
    obtain (rfl | h | h) | h := h
    · exact List.infix_append_left
    · refine List.infix_append_of_infix_left (List.infix_append_of_infix_left ?_)
      exact List.infix_append_of_infix_left (Expr.drawn_contiguous h)
    · refine List.infix_append_of_infix_left (List.infix_append_of_infix_left ?_)
      exact List.infix_append_of_infix_right (ihb h)
    · exact List.infix_append_of_infix_right (ih h)
  | ifThenElse condition body otherwise elseTag tag ss ihb iho ih =>
    simp only [blockNodes_cons, Stmt.nodes_ifThenElse, List.mem_append, List.mem_cons] at h
    rw [blockDrawn]
    obtain (rfl | h | h | rfl | h) | h := h
    · exact List.infix_append_left
    · refine List.infix_append_of_infix_left (List.infix_append_of_infix_left ?_)
      refine List.infix_append_of_infix_left ?_
      exact List.infix_append_of_infix_left (Expr.drawn_contiguous h)
    · refine List.infix_append_of_infix_left (List.infix_append_of_infix_left ?_)
      refine List.infix_append_of_infix_left ?_
      exact List.infix_append_of_infix_right (ihb h)
    · -- The branch ends in front of the last identity.
      refine List.infix_append_of_infix_left ⟨condition.drawn ++ blockDrawn body, [tag.id], ?_⟩
      simp only [Node.drawn, Stmt.drawn, List.append_assoc, List.cons_append, List.nil_append]
    · refine List.infix_append_of_infix_left (List.infix_append_of_infix_left ?_)
      exact List.infix_append_of_infix_right (iho h)
    · exact List.infix_append_of_infix_right (ih h)

/-! ### Ranges -/

/-- What stands in a row in a range is a range, and ends with its last number. -/
theorem exists_range'_of_infix {ids front : List Nat} {id count : Nat}
    (h : ids <:+: List.range' 0 count) (hids : ids = front ++ [id]) :
    ∃ first, ids = List.range' first ids.length ∧ id + 1 = first + ids.length := by
  obtain ⟨before, after, h⟩ := h
  obtain ⟨reach, -, hreach, -⟩ := List.range'_eq_append_iff.mp h.symm
  obtain ⟨skip, -, -, hrange⟩ := List.range'_eq_append_iff.mp hreach.symm
  have hlen : ids.length = reach - skip := by rw [hrange, List.length_range']
  rw [← hlen] at hrange
  refine ⟨_, hrange, ?_⟩
  -- The last of `ids` is the last of the range.
  obtain ⟨rest, hrest, -, hlast⟩ := List.range'_eq_append_iff.mp (hrange.symm.trans hids)
  have hone : ids.length - rest = 1 := by
    have hlength := congrArg List.length hlast
    rw [List.length_range'] at hlength
    exact hlength.symm
  rw [hone, List.range'_one] at hlast
  have hid := (List.cons.inj hlast).1
  omega

/-! ### Parsed programs -/

/-- The identities of a parsed program are the numbers from zero on, each of
    one node.  The root has zero, and the others are drawn in post-order.
    What is inside a node is a range that ends with the node's own number. -/
theorem identities_dense_of_parse {ts : List Token} {p : Program} (h : parse ts = .ok p) :
    p.ids.Perm (List.range p.ids.length) ∧ p.drawn = List.range p.ids.length ∧ p.tag.id = 0 ∧
    ∀ node ∈ p.nodes, ∃ first,
      (node.inside.map Node.id).Perm (List.range' first node.inside.length) ∧
        node.drawn = List.range' first node.inside.length ∧
        node.id + 1 = first + node.inside.length := by
  obtain ⟨d, rfl⟩ := exists_derivation_of_parse h
  have hperm := (Grammar.program d).ids_perm_drawn
  have hdrawn : (Grammar.program d).drawn = List.range (Grammar.program d).ids.length := by
    have hlen := hperm.length_eq
    rw [Grammar.drawn_program, List.length_range] at hlen
    rw [Grammar.drawn_program, hlen]
  refine ⟨hdrawn ▸ hperm, hdrawn, rfl, fun node hnode => ?_⟩
  have hinfix : node.drawn <:+: List.range' 0 (Grammar.program d).ids.length := by
    rw [← List.range_eq_range', ← hdrawn]
    exact List.infix_cons (blockDrawn_contiguous hnode)
  obtain ⟨front, hfront⟩ := node.exists_drawn_eq
  obtain ⟨first, hrange, hlast⟩ := exists_range'_of_infix hinfix hfront
  have hinside := node.inside_perm_drawn
  have hlen : node.drawn.length = node.inside.length := by
    rw [← hinside.length_eq, List.length_map]
  rw [hlen] at hrange hlast
  exact ⟨first, hrange ▸ hinside, hrange, hlast⟩

/-- A branch with a grouped product has thirteen nodes. -/
theorem identities_dense_of_branch :
    ∃ ts p, tokenize "if a do x = (1 + 2) * b; else print c; end" defaultFile = .ok ts ∧
      parse ts = .ok p ∧ p.drawn = List.range 13 ∧ p.ids.Perm (List.range 13) := by
  let source := "if a do x = (1 + 2) * b; else print c; end"
  have hok : (readProgram source defaultFile).isOk := by decide +kernel
  obtain ⟨p, hread⟩ := Result.exists_of_isOk hok
  obtain ⟨ts, htokens, hparse⟩ := Result.bind_eq_ok_iff.mp hread
  have hcount : (readProgram source defaultFile).toOption.map (·.ids.length) = some 13 := by
    decide +kernel
  rw [hread] at hcount
  have hlen : p.ids.length = 13 := Option.some.inj hcount
  obtain ⟨hperm, hdrawn, -⟩ := identities_dense_of_parse hparse
  rw [hlen] at hperm hdrawn
  exact ⟨ts, p, htokens, hparse, hdrawn, hperm⟩

end BlockLang
