import BlockLang.Compile
import BlockLang.Diagnostic
import BlockLang.Graph
import BlockLang.Program.Equality
import BlockLang.Token.Cursor
import BlockLang.Proofs.Token.Cutting
import BlockLang.Proofs.Grammar.Shape
import BlockLang.Proofs.Grammar.Completion
import BlockLang.Proofs.Grammar.Nesting
import BlockLang.Proofs.Program.CallStack
import BlockLang.Proofs.Program.Numbering
import BlockLang.Proofs.Scope.Binding
import BlockLang.Proofs.Typing.DeclarationOrder
import BlockLang.Proofs.Appending
import BlockLang.Proofs.Scope.Run
import BlockLang.Proofs.Reuse
import BlockLang.Proofs.Renaming
import BlockLang.Proofs.Diagnosis
import BlockLang.Proofs.Token.Shift
import BlockLang.Proofs.Token.Canonical
import BlockLang.Proofs.Token.Values
import BlockLang.Proofs.Lexemes
import BlockLang.Proofs.Token.Table
import BlockLang.Proofs.Text.Locating
import BlockLang.Proofs.Grammar.Ahead
import BlockLang.Proofs.Grammar.Shift
import BlockLang.Proofs.Grammar.Concatenation
import BlockLang.Proofs.Grammar.Inside
import BlockLang.Proofs.Token.Slice
import BlockLang.Proofs.Slicing
import BlockLang.Proofs.Grammar.Calls
import BlockLang.Proofs.Typing.Checks
import BlockLang.Proofs.Spans
import BlockLang.Proofs.Caret
import BlockLang.Proofs.Token.Rounds
import BlockLang.Proofs.Graph.Work
import BlockLang.Proofs.Graph.Outline
import BlockLang.Proofs.Graph.Arrows
import BlockLang.Proofs.Graph.Description
