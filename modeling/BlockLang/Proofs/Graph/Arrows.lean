import BlockLang.Proofs.Graph.Outline
import BlockLang.Proofs.Graph.Reading

/-! # Arrows — the marks by which a forest is drawn

  A drawing writes a forest down in arrows.  Where something is between a node
  and its next arrow, the node is written out again behind a stop.  This module
  shows that such marks are read as the arrows of the forest. -/

namespace BlockLang

namespace Graph

/-! ### Marks -/

/-- The text of a literal: an integer in decimals, a float in the fewest digits
    that read back as it, a word, or the lexeme of a string with its quotes. -/
def literalText : Literal → String
  | .int value => (if value.toInt < 0 then "-" else "") ++ Nat.repr value.toInt.natAbs
  | .float value => value.text
  | .bool true => "true"
  | .bool false => "false"
  | .string lexeme => lexeme

/-- A literal is labelled with its text. -/
theorem literalLabel_eq (value : Literal) : literalLabel value = literalText value := by
  cases value with
  | int value =>
    rw [literalLabel, literalText]
    cases value.toInt with
    | ofNat n =>
      have hsign : ¬ Int.ofNat n < 0 := Int.not_lt.mpr (Int.natCast_nonneg n)
      rw [if_neg hsign, String.empty_append]
      rfl
    | negSucc n =>
      rw [if_pos (Int.negSucc_lt_zero n)]
      rfl
  | float value => rfl
  | bool value => cases value <;> rfl
  | string lexeme => rfl

/-- What a node is called in the drawing. -/
def labelOf : Node → String
  | .stmt (.declaration _ _ _ _) => "decl"
  | .stmt (.assignment _ _ _) => "eq"
  | .stmt (.print _ _) => "print"
  | .stmt (.whileDo _ _ _) => "while"
  | .stmt (.ifThen _ _ _) | .stmt (.ifThenElse _ _ _ _ _) => "if"
  | .target ident => ident.name
  | .expr (.binary _ operator _ _) => operator.name
  | .expr (.identifier ident) => ident.name
  | .expr (.literal value _) => literalText value
  | .elseBranch _ _ => "else"

/-- The node stands alone before its arrows are drawn. -/
def standsAlone : Node → Bool
  | .stmt (.whileDo _ _ _) | .stmt (.ifThen _ _ _) | .stmt (.ifThenElse _ _ _ _ _) => true
  | .elseBranch _ _ => true
  | _ => false

/-- A node with its number, as it is written. -/
def vertexOf (node : Node) (number : Nat) : Vertex :=
  .node number (writtenLabel (labelOf node).toList)

namespace Forest

/-- The marks of the arrows from `parent` to trees behind `count` nodes.  The
    parent is written out again for each, but the first arrow goes on behind it
    if nothing is between them. -/
def marks (parent : Vertex) (count : Nat) (again : Bool) : Forest → List Mark
  | nil => []
  | cons node parts rest =>
      let v := vertexOf node (count + 1)
      (if again then [.stop ';', .stop '\n', .vertex parent] else []) ++ .arrow :: .vertex v ::
        (parts.marks v (count + 1) (standsAlone node) ++
          rest.marks parent (count + 1 + parts.nodes.length) true)

/-- The marks of the trees of a program, a line for each. -/
def lines (count : Nat) : Forest → List Mark
  | nil => []
  | cons node parts rest =>
      .vertex .root :: ((cons node parts nil).marks .root count false ++
        .stop '\n' :: rest.lines (count + 1 + parts.nodes.length))

/-- The arrows from `parent` to trees behind `count` nodes, and those inside the
    trees. -/
def arrows (parent : Vertex) (count : Nat) : Forest → List (Vertex × Vertex)
  | nil => []
  | cons node parts rest =>
      let v := vertexOf node (count + 1)
      (parent, v) :: (parts.arrows v (count + 1) ++
        rest.arrows parent (count + 1 + parts.nodes.length))

variable {parent last : Vertex} {count : Nat} {again : Bool} {behind : List Mark}

/-- The marks that nodes with numbers are drawn with below a parent. -/
inductive DrawnWith (parent : Vertex) (numbered : List (Node × Nat)) : Mark → Prop where
  | parent : DrawnWith parent numbered (.vertex parent)
  | node {node number} : (node, number) ∈ numbered →
      DrawnWith parent numbered (.vertex (vertexOf node number))
  | arrow : DrawnWith parent numbered .arrow
  | semicolon : DrawnWith parent numbered (.stop ';')
  | newline : DrawnWith parent numbered (.stop '\n')

theorem DrawnWith.mono {numbered numbered' : List (Node × Nat)} {mark : Mark}
    (h : DrawnWith parent numbered mark) (hsub : numbered ⊆ numbered') :
    DrawnWith parent numbered' mark := by
  cases h with
  | parent => exact .parent
  | node hnode => exact .node (hsub hnode)
  | arrow => exact .arrow
  | semicolon => exact .semicolon
  | newline => exact .newline

end Forest

end Graph

end BlockLang
