import BlockLang.Parser.Statement
import BlockLang.Token.Scan
import BlockLang.Typing.Checked

/-! # Compiling — from a source to a checked program

  The four phases in a row: tokens, program, scopes, types.  The first error
  ends the work. -/

namespace BlockLang

/-- How a source is compiled. -/
structure Options where
  /-- Name of the source in errors. -/
  file : String
  /-- May a declaration reuse a name of a scope around its own? -/
  shadowing : Bool

/-- No name is given, and shadowing is allowed. -/
def Options.standard : Options := ⟨defaultFile, true⟩

/-- The program that a source spells. -/
def readProgram (source file : String) : Except Error Program := do
  let tokens ← tokenize source file
  parse tokens

/-- Compiles a source. -/
def compile (source : String) (options : Options) : Except Error Checked := do
  let program ← readProgram source options.file
  let resolved ← resolveWith (SymbolTable.new.withShadowing options.shadowing) program
  check resolved

end BlockLang
