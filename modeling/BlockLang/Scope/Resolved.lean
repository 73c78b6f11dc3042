import BlockLang.Program.Stmt
import BlockLang.Scope.Table

/-! # Resolved programs — each name put into its scope

  Resolving a program opens a scope for each of its blocks, binds the names
  that are declared there, and notes the scope of every block, target and
  identifier.  A condition lies outside the block that it governs; an else
  branch lies inside the block of its `if`.  A declaration binds its name
  before its value is looked at. -/

namespace BlockLang

/-- A program with the scopes of its nodes. -/
structure Resolved where
  program : Program
  symbols : SymbolTable

namespace SymbolTable

/-- Puts the identifiers of an expression into a scope. -/
def stampExpr (table : SymbolTable) (id : ScopeId) : Expr → SymbolTable
  | .binary left _ right _ => (table.stampExpr id right).stampExpr id left
  | .identifier ident => table.stamp ident.tag.id id
  | .literal _ _ => table

/-- Opens the scope of a block and puts the block's node into it. -/
def openBlock (table : SymbolTable) (node : NodeId) : SymbolTable :=
  let table := table.openScope
  table.stamp node table.current

mutual

/-- Resolves a statement in the current scope. -/
def resolveStmt (table : SymbolTable) : Stmt → Except Error SymbolTable
  | .declaration target ty value tag => do
      -- The name is bound first: it is in sight of its own value.
      let here := table.current
      let table ← table.declare target ty
      return ((table.stamp target.tag.id here).stampExpr here value).stamp tag.id here
  | .assignment target value _ =>
      return (table.stamp target.tag.id table.current).stampExpr table.current value
  | .print value _ => return table.stampExpr table.current value
  | .whileDo condition body tag => do
      let table ← resolveBlock ((table.stampExpr table.current condition).openBlock tag.id) body
      return table.closeScope
  | .ifThen condition body tag => do
      let table ← resolveBlock ((table.stampExpr table.current condition).openBlock tag.id) body
      return table.closeScope
  | .ifThenElse condition body otherwise elseTag tag => do
      let table ← resolveBlock ((table.stampExpr table.current condition).openBlock tag.id) body
      -- The scope of the `if` is still open, so the branch sees its names.
      let table ← resolveBlock (table.openBlock elseTag.id) otherwise
      return table.closeScope.closeScope

/-- Resolves the statements of a block in the current scope. -/
def resolveBlock (table : SymbolTable) : List Stmt → Except Error SymbolTable
  | [] => return table
  | s :: ss => do
      let table ← resolveStmt table s
      resolveBlock table ss

end

end SymbolTable

/-- Resolves a program on top of a table, whose root may hold names already.
    Scopes that the table has open are closed first. -/
def resolveWith (table : SymbolTable) (program : Program) : Except Error Resolved := do
  let table ← (table.closeAll.stamp program.tag.id SymbolTable.root).resolveBlock program.body
  return ⟨program, table⟩

/-- Resolves a program on its own. -/
def resolve (program : Program) : Except Error Resolved := resolveWith .new program

end BlockLang
