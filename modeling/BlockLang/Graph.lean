import BlockLang.Number.Shortest
import BlockLang.Program.Stmt

/-! # Graphs — a program drawn as a directed graph

  The drawing is a text in the language of graph descriptions.  Nodes are
  numbered from 1 in the order in which they are drawn, each before its parts,
  and hold a label; an arrow leads from every node to each of its parts, and
  from the word `program` to every statement of the program.  The parent of
  an arrow is written out again for each of its parts.

  Operator chains can be of any length, so the drawing of an expression keeps
  its own list of tasks instead of following the tree by recursion, and a stack
  of texts that are still to be joined. -/

namespace BlockLang

namespace Graph

/-! ### Pieces of text -/

/-- A label in a graph description: a double quote stands behind a backslash. -/
def escapeLabel (label : String) : String :=
  String.ofList (label.toList.flatMap fun c => if c = '"' then ['\\', '"'] else [c])

/-- A node with its number and label. -/
def nodeText (number : Nat) (label : String) : String :=
  "\x7b" ++ toString number ++ "[label=\"" ++ escapeLabel label ++ "\"]\x7d"

/-- What stands between a node and one of its parts. -/
def arrow : String := " -> "

/-- What stands between two arrows. -/
def separator : String := ";\n"

/-- The label of a literal. -/
def literalLabel : Literal → String
  | .int value => toString value.toInt
  | .float value => value.text
  | .bool value => if value then "true" else "false"
  | .string lexeme => lexeme

/-- A drawing that has been begun. -/
structure Drawing where
  /-- Number of nodes drawn so far. -/
  count : Nat
  /-- The text so far in pieces, latest first. -/
  pieces : List String

/-- Adds a piece of text. -/
def Drawing.put (d : Drawing) (piece : String) : Drawing := { d with pieces := piece :: d.pieces }

/-- Counts one more node and gives its text, which is not added yet. -/
def Drawing.fresh (d : Drawing) (label : String) : String × Drawing :=
  (nodeText (d.count + 1) label, { d with count := d.count + 1 })

/-- Adds a node without parts. -/
def Drawing.leaf (d : Drawing) (label : String) : Drawing :=
  let (text, d) := d.fresh label
  d.put text

/-- Adds the arrow from `parent` to its first part. -/
def Drawing.firstArrow (d : Drawing) (parent : String) : Drawing := (d.put parent).put arrow

/-- Adds the arrow from `parent` to a further part. -/
def Drawing.nextArrow (d : Drawing) (parent : String) : Drawing :=
  (d.put separator).firstArrow parent

/-! ### Expressions -/

/-- The arrows from `parent` to its parts, whose texts are there already. -/
def edges (parent : String) (parts : List String) : String :=
  separator.intercalate (parts.map fun part => parent ++ arrow ++ part)

/-- What is still to be done for an expression. -/
inductive Task where
  | visit (e : Expr)
  /-- To join the last two texts below `parent`. -/
  | join (parent : String)

/-- A measure of what is still to be done. -/
def Task.weight : Task → Nat
  | visit e => e.weight
  | join _ => 1

/-- An expression that is being drawn. -/
structure Work where
  /-- Number of nodes drawn so far. -/
  count : Nat
  /-- What is still to be done, next task first. -/
  tasks : List Task
  /-- The texts that are not joined yet, latest first. -/
  texts : List String

namespace Work

/-- A measure of what is still to be done. -/
def weight (w : Work) : Nat := w.tasks.foldr (·.weight + ·) 0

/-- Draws a node without parts. -/
def leaf (w : Work) (label : String) (tasks : List Task) : Work :=
  ⟨w.count + 1, tasks, nodeText (w.count + 1) label :: w.texts⟩

/-- Joins the last two texts below `parent`.  A text that is missing, which
    never happens, is empty. -/
def join (w : Work) (parent : String) (tasks : List Task) : Work :=
  let right := w.texts.head?.getD ""
  let left := w.texts.tail.head?.getD ""
  ⟨w.count, tasks, edges parent [left, right] :: w.texts.tail.tail⟩

/-- Does the next task, if there is one. -/
def step? (w : Work) : Option Work :=
  match w.tasks with
  | [] => none
  | .visit (.binary left operator right _) :: tasks =>
      let parent := nodeText (w.count + 1) operator.name
      some ⟨w.count + 1, .visit left :: .visit right :: .join parent :: tasks, w.texts⟩
  | .visit (.identifier ident) :: tasks => some (w.leaf ident.name tasks)
  | .visit (.literal value _) :: tasks => some (w.leaf (literalLabel value) tasks)
  | .join parent :: tasks => some (w.join parent tasks)

theorem weight_lt_of_step? {w w' : Work} (h : w.step? = some w') : w'.weight < w.weight := by
  obtain ⟨count, tasks, texts⟩ := w
  unfold step? at h
  split at h
  all_goals cases h
  all_goals
    rename_i htasks
    cases htasks
    simp [weight, leaf, join, Task.weight, Expr.weight]
  omega

/-- Does all tasks. -/
def run (w : Work) : Work :=
  match _h : w.step? with
  | none => w
  | some w' => w'.run
termination_by w.weight
decreasing_by exact weight_lt_of_step? ‹_›

end Work

/-- Draws an expression. -/
def drawExpr (d : Drawing) (e : Expr) : Drawing :=
  let w := Work.run ⟨d.count, [.visit e], []⟩
  ⟨w.count, w.texts.head?.getD "" :: d.pieces⟩

/-! ### Statements -/

mutual

/-- Draws a statement. -/
def drawStmt (d : Drawing) : Stmt → Drawing
  | .declaration target _ value _ =>
      let (parent, d) := d.fresh "decl"
      drawExpr (((d.firstArrow parent).leaf target.name).nextArrow parent) value
  | .assignment target value _ =>
      let (parent, d) := d.fresh "eq"
      drawExpr (((d.firstArrow parent).leaf target.name).nextArrow parent) value
  | .print value _ =>
      let (parent, d) := d.fresh "print"
      drawExpr (d.firstArrow parent) value
  | .whileDo condition body _ =>
      let (parent, d) := d.fresh "while"
      drawParts (drawExpr ((d.put parent).nextArrow parent) condition) parent body
  | .ifThen condition body _ =>
      let (parent, d) := d.fresh "if"
      drawParts (drawExpr ((d.put parent).nextArrow parent) condition) parent body
  | .ifThenElse condition body otherwise _ _ =>
      let (parent, d) := d.fresh "if"
      let d := drawParts (drawExpr ((d.put parent).nextArrow parent) condition) parent body
      let (branch, d) := (d.nextArrow parent).fresh "else"
      drawParts (d.put branch) branch otherwise

/-- Draws the statements of a block as further parts of `parent`. -/
def drawParts (d : Drawing) (parent : String) : List Stmt → Drawing
  | [] => d
  | s :: ss => drawParts (drawStmt (d.nextArrow parent) s) parent ss

end

/-! ### Programs -/

/-- Draws the statements of a program, each on lines of its own. -/
def drawTop (d : Drawing) : List Stmt → Drawing
  | [] => d
  | s :: ss => drawTop ((drawStmt (d.firstArrow "program") s).put "\n") ss

end Graph

/-- The program as a graph description. -/
def Program.graph (p : Program) : String :=
  let d := Graph.drawTop ⟨0, ["digraph ast \x7b\n"]⟩ p.body
  String.join (d.put "\n\x7d").pieces.reverse

end BlockLang
