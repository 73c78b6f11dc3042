import BlockLang.Proofs.Graph.Arrows
import BlockLang.Proofs.Graph.Work

/-! # Drawing — the text that a program is drawn as

  A drawing grows piece by piece, and every piece is the text of some marks.
  An expression is drawn as the marks of its tree, a statement as those of its
  own, and a block as those of its trees below the node that it belongs to.  So
  the text of a program is that of the lines of its forest. -/

namespace BlockLang

namespace Graph

/-! ### Marks of trees -/

/-- The marks of a tree behind `count` nodes. -/
def treeMarks (count : Nat) (node : Node) (parts : Forest) : List Mark :=
  .vertex (vertexOf node (count + 1)) ::
    parts.marks (vertexOf node (count + 1)) (count + 1) (standsAlone node)

theorem marks_cons (parent : Vertex) (count : Nat) (again : Bool) (node : Node)
    (parts rest : Forest) :
    (Forest.cons node parts rest).marks parent count again =
      (if again then [.stop ';', .stop '\n', .vertex parent] else []) ++
        .arrow :: (treeMarks count node parts ++
          rest.marks parent (count + 1 + parts.nodes.length) true) := by
  rw [Forest.marks, treeMarks]
  rfl

/-- The trees behind a block are drawn behind it. -/
theorem marks_blockForest (parent : Vertex) (count : Nat) (rest : Forest) (body : List Stmt) :
    (blockForest rest body).marks parent count true =
      (blockForest .nil body).marks parent count true ++
        rest.marks parent (count + (blockForest .nil body).nodes.length) true := by
  induction body generalizing count with
  | nil => rfl
  | cons s ss ih =>
    rw [blockForest, blockForest, marks_cons, marks_cons, ih, Forest.nodes]
    simp [Nat.add_assoc, Nat.add_comm, Nat.add_left_comm]

/-! ### Texts -/

theorem toList_nodeText (node : Node) (number : Nat) :
    (nodeText number (labelOf node)).toList = (vertexOf node number).text := by
  have hdigits : (toString number).toList = Nat.toDigits 10 number := Nat.toList_repr
  simp only [nodeText, String.toList_append, toList_escapeLabel, hdigits, vertexOf, Vertex.text]
  simp [labelStart, labelStop]

theorem toList_edges (parent left right : String) :
    (edges parent [left, right]).toList = parent.toList ++ arrow.toList ++ left.toList ++
      (separator.toList ++ parent.toList ++ arrow.toList ++ right.toList) := by
  simp [edges]

/-- Drawn by recursion, an expression has the marks of its tree. -/
theorem render_eq (count : Nat) (e : Expr) :
    (render count e).1 = count + 1 + (exprParts e).nodes.length ∧
      (render count e).2.toList =
        (treeMarks count (.expr e) (exprParts e)).flatMap Mark.text := by
  induction e generalizing count with
  | binary left operator right tag ihl ihr =>
    obtain ⟨hlcount, hltext⟩ := ihl (count + 1)
    obtain ⟨hrcount, hrtext⟩ := ihr (render (count + 1) left).1
    have hnode : (nodeText (count + 1) operator.name).toList = _ :=
      toList_nodeText (.expr (.binary left operator right tag)) (count + 1)
    rw [hlcount] at hrcount hrtext
    simp only [render, hlcount]
    constructor
    · rw [hrcount]
      simp [exprParts, Forest.nodes]
      omega
    · rw [toList_edges, hltext, hrtext, hnode]
      simp [treeMarks, exprParts, marks_cons, Forest.marks, Mark.text, standsAlone, separator]
  | identifier ident =>
    refine ⟨rfl, ?_⟩
    rw [treeMarks, List.flatMap_cons]
    exact (toList_nodeText (.expr (.identifier ident)) _).trans (List.append_nil _).symm
  | literal value tag =>
    refine ⟨rfl, ?_⟩
    rw [render, literalLabel_eq, treeMarks, List.flatMap_cons]
    exact (toList_nodeText (.expr (.literal value tag)) _).trans (List.append_nil _).symm

/-! ### Drawings -/

/-- The text of a drawing. -/
def Drawing.text (d : Drawing) : List Char := d.pieces.reverse.flatMap String.toList

/-- The drawing has so many nodes, and its text is that of the marks, behind
    `before`. -/
structure Drawing.Shows (d : Drawing) (before : List Char) (count : Nat) (marks : List Mark) :
    Prop where
  count_eq : d.count = count
  text_eq : d.text = before ++ marks.flatMap Mark.text

namespace Drawing.Shows

variable {d : Drawing} {before : List Char} {count : Nat} {marks : List Mark} {parent : String}
  {v : Vertex}

theorem congr (h : d.Shows before count marks) {count' : Nat} {marks' : List Mark}
    (hcount : count = count') (hmarks : marks = marks') : d.Shows before count' marks' :=
  hcount ▸ hmarks ▸ h

theorem put (h : d.Shows before count marks) (piece : String) (more : List Mark)
    (hpiece : piece.toList = more.flatMap Mark.text) :
    (d.put piece).Shows before count (marks ++ more) := by
  refine ⟨h.count_eq, ?_⟩
  rw [text, Drawing.put, List.reverse_cons, List.flatMap_append, ← text, h.text_eq,
    List.flatMap_singleton, hpiece, List.flatMap_append, List.append_assoc]

theorem vertex (h : d.Shows before count marks) (hparent : parent.toList = v.text) :
    (d.put parent).Shows before count (marks ++ [.vertex v]) := by
  apply h.put
  rw [List.flatMap_singleton, hparent]
  rfl

theorem firstArrow (h : d.Shows before count marks) (hparent : parent.toList = v.text) :
    (d.firstArrow parent).Shows before count (marks ++ [.vertex v, .arrow]) := by
  have harrow := (h.vertex hparent).put arrow [.arrow] rfl
  rwa [List.append_assoc] at harrow

theorem nextArrow (h : d.Shows before count marks) (hparent : parent.toList = v.text) :
    (d.nextArrow parent).Shows before count
      (marks ++ [.stop ';', .stop '\n', .vertex v, .arrow]) := by
  have harrow := (h.put separator [.stop ';', .stop '\n'] rfl).firstArrow hparent
  rwa [List.append_assoc] at harrow

theorem fresh (h : d.Shows before count marks) (label : String) :
    (d.fresh label).2.Shows before (count + 1) marks := by
  refine ⟨?_, h.text_eq⟩
  rw [← h.count_eq]
  rfl

/-- The text of a node that is new. -/
theorem toList_fresh (h : d.Shows before count marks) (node : Node) :
    (d.fresh (labelOf node)).1.toList = (vertexOf node (count + 1)).text := by
  rw [← h.count_eq]
  exact toList_nodeText node (d.count + 1)

theorem leaf (h : d.Shows before count marks) (node : Node) :
    (d.leaf (labelOf node)).Shows before (count + 1)
      (marks ++ [.vertex (vertexOf node (count + 1))]) :=
  (h.fresh (labelOf node)).vertex (h.toList_fresh node)

/-- An expression is drawn as its tree. -/
theorem expr (h : d.Shows before count marks) (e : Expr) :
    (drawExpr d e).Shows before (count + 1 + (exprParts e).nodes.length)
      (marks ++ treeMarks count (.expr e) (exprParts e)) := by
  obtain ⟨hcount, htext⟩ := render_eq d.count e
  rw [h.count_eq] at hcount htext
  rw [drawExpr_eq, h.count_eq]
  refine ⟨hcount, ?_⟩
  rw [text, List.reverse_cons, List.flatMap_append, ← text, h.text_eq, List.flatMap_singleton,
    htext, List.flatMap_append, List.append_assoc]

mutual

/-- A statement is drawn as its tree. -/
theorem stmt {d : Drawing} {before : List Char} {count : Nat} {marks : List Mark}
    (h : d.Shows before count marks) (s : Stmt) :
    (drawStmt d s).Shows before (count + 1 + (stmtParts s).nodes.length)
      (marks ++ treeMarks count (.stmt s) (stmtParts s)) := by
  have hparent := h.toList_fresh (.stmt s)
  have hfresh := h.fresh (labelOf (.stmt s))
  cases s with
  | declaration target ty value tag | assignment target value tag =>
    have htarget := (hfresh.firstArrow hparent).leaf (.target target)
    refine ((htarget.nextArrow hparent).expr value).congr ?_ ?_
    · simp [stmtParts, Forest.nodes]
      omega
    · simp [treeMarks, stmtParts, marks_cons, Forest.marks, Forest.nodes, standsAlone]
  | print value tag =>
    refine ((hfresh.firstArrow hparent).expr value).congr ?_ ?_
    · simp [stmtParts, Forest.nodes]
      omega
    · simp [treeMarks, stmtParts, marks_cons, Forest.marks, standsAlone]
  | whileDo condition body tag | ifThen condition body tag =>
    have hcondition := ((hfresh.vertex hparent).nextArrow hparent).expr condition
    refine (parts hcondition hparent body).congr ?_ ?_
    · simp [stmtParts, Forest.nodes]
      omega
    · simp [treeMarks, stmtParts, marks_cons, standsAlone]
  | ifThenElse condition body otherwise elseTag tag =>
    have hcondition := ((hfresh.vertex hparent).nextArrow hparent).expr condition
    have hbody := (parts hcondition hparent body).nextArrow hparent
    -- The branch is a node of its own, and what is in it hangs below that.
    let branch : Node := .elseBranch otherwise elseTag
    have hbranch := hbody.toList_fresh branch
    have hotherwise := (hbody.fresh (labelOf branch)).vertex hbranch
    refine (parts hotherwise hbranch otherwise).congr ?_ ?_
    · simp [stmtParts, Forest.nodes, nodes_blockForest]
      omega
    · have hmarks := marks_blockForest (vertexOf
          (.stmt (.ifThenElse condition body otherwise elseTag tag)) (count + 1))
        (count + 1 + 1 + (exprParts condition).nodes.length)
        (.cons branch (blockForest .nil otherwise) .nil) body
      simp [treeMarks, stmtParts, marks_cons, standsAlone, hmarks, Forest.marks, branch]

/-- A block is drawn as its trees below the node that it belongs to. -/
theorem parts {d : Drawing} {before : List Char} {count : Nat} {marks : List Mark}
    (h : d.Shows before count marks) {parent : String} {v : Vertex}
    (hparent : parent.toList = v.text) (ss : List Stmt) :
    (drawParts d parent ss).Shows before (count + (blockForest .nil ss).nodes.length)
      (marks ++ (blockForest .nil ss).marks v count true) := by
  cases ss with
  | nil =>
    rw [blockForest, Forest.marks, List.append_nil]
    exact h
  | cons s ss =>
    have hs := stmt (h.nextArrow hparent) s
    refine (parts hs hparent ss).congr ?_ ?_
    · simp [blockForest, Forest.nodes]
      omega
    · simp [blockForest, marks_cons]

end

/-- The statements of a program are drawn line by line. -/
theorem top (h : d.Shows before count marks) (ss : List Stmt) :
    (drawTop d ss).Shows before (count + (blockForest .nil ss).nodes.length)
      (marks ++ (blockForest .nil ss).lines count) := by
  induction ss generalizing d count marks with
  | nil =>
    rw [blockForest, Forest.lines, List.append_nil]
    exact h
  | cons s ss ih =>
    have hroot : "program".toList = Vertex.root.text := rfl
    have hline := ((h.firstArrow hroot).stmt s).put "\n" [.stop '\n'] rfl
    refine (ih hline).congr ?_ ?_
    · simp [blockForest, Forest.nodes]
      omega
    · simp [blockForest, Forest.lines, treeMarks, Forest.marks]

end Drawing.Shows

/-! ### Programs -/

end Graph

end BlockLang
