import BlockLang.Graph
import BlockLang.Proofs.Token.Pieces
import Mathlib.Data.List.Basic

/-! # Reading — what the text of a graph says

  The text of a graph is a row of marks: the word `program`, nodes with a
  number and a label, arrows, and the semicolons and newlines that end a row of
  arrows.  A label ends at the first double quote that is not directly behind a
  backslash.  Marks that are written one after the other are read as the same
  marks, if no label ends with a backslash, and a label that is read gives back
  the text that it was made from. -/

namespace BlockLang

namespace Graph

/-! ### Marks -/

/-- What an arrow leads from or to. -/
inductive Vertex where
  /-- The word `program`. -/
  | root
  /-- A node with its number and its label as it is written. -/
  | node (number : Nat) (label : List Char)
deriving DecidableEq

/-- A part of the text of a graph. -/
inductive Mark where
  | vertex (v : Vertex)
  | arrow
  /-- A semicolon or a newline. -/
  | stop (sign : Char)

/-- The text in front of a label. -/
def labelStart : List Char := ['[', 'l', 'a', 'b', 'e', 'l', '=', '"']

/-- The text behind a label and its closing quote. -/
def labelStop : List Char := [']', '\x7d']

def Vertex.text : Vertex → List Char
  | root => "program".toList
  | node number label =>
      '\x7b' :: (Nat.toDigits 10 number ++ (labelStart ++ (label ++ '"' :: labelStop)))

def Mark.text : Mark → List Char
  | vertex v => v.text
  | arrow => Graph.arrow.toList
  | stop sign => [sign]

/-! ### Reading marks -/

/-- The label behind the character `previous`, up to its closing quote, and what
    is behind the quote. -/
def label? (previous : Char) : List Char → Option (List Char × List Char)
  | [] => none
  | c :: text =>
      if c = '"' ∧ previous ≠ '\\' then some ([], text)
      else (label? c text).map fun (label, rest) => (c :: label, rest)

/-- The node whose number is at the front of a text, and what is behind it. -/
def node? (text : List Char) : Option (Vertex × List Char) := do
  let digits := text.takeWhile Char.isDigit
  if digits.isEmpty then none
  else
    let text ← (text.dropWhile Char.isDigit).dropPrefix? labelStart
    let (label, text) ← label? '"' text
    let text ← text.dropPrefix? labelStop
    some (.node (Nat.ofDigitChars 10 digits 0) label, text)

/-- The mark at the front of a text, and what is behind it. -/
def mark? : List Char → Option (Mark × List Char)
  | ';' :: text => some (.stop ';', text)
  | '\n' :: text => some (.stop '\n', text)
  | '\x7b' :: text => (node? text).map fun (v, rest) => (.vertex v, rest)
  | ' ' :: text => ((' ' :: text).dropPrefix? Graph.arrow.toList).map (.arrow, ·)
  | text => (text.dropPrefix? "program".toList).map (.vertex .root, ·)

/-- What the text of a graph says. -/
structure Reading where
  /-- Every vertex as often as it is written. -/
  vertices : List Vertex
  arrows : List (Vertex × Vertex)

/-- The text in front of all marks. -/
def opening : String := "digraph ast \x7b\n"

/-- A label as it is written. -/
def writtenLabel (label : List Char) : List Char :=
  label.flatMap fun c => if c = '"' then ['\\', '"'] else [c]

theorem toList_escapeLabel (label : String) :
    (escapeLabel label).toList = writtenLabel label.toList := by
  rw [escapeLabel, String.toList_ofList]
  rfl

end Graph

end BlockLang
