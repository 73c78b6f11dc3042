import BlockLang.Program.Expr
import BlockLang.Scope.Basic

/-! # Symbol tables — the scopes of a program

  A symbol table holds all scopes of a program and tells for nodes of the
  program which scope they are in.  Scopes are numbered in the order in which
  they are opened, so a scope has a greater number than the one around it.
  While a program is resolved, some scopes are open; the root always is. -/

namespace BlockLang

/-- The scopes of a program. -/
structure SymbolTable where
  /-- Every scope, by its number. -/
  scopes : Array Scope
  /-- The open scopes inside the root, innermost first. -/
  inner : List ScopeId
  /-- The scope of each node that has one. -/
  nodeScopes : Std.ExtTreeMap NodeId ScopeId
  /-- May a declaration reuse a name of a scope around its own? -/
  shadowing : Bool

namespace SymbolTable

/-- The number of the root. -/
def root : ScopeId := 0

/-- A table with an empty root. -/
def new : SymbolTable := ⟨#[.inside none], [], ∅, true⟩

/-- The table with shadowing allowed or not. -/
def withShadowing (table : SymbolTable) (allow : Bool) : SymbolTable :=
  { table with shadowing := allow }

/-- The innermost open scope. -/
def current (table : SymbolTable) : ScopeId := table.inner.head?.getD root

/-- The scope with the given number. -/
def scope? (table : SymbolTable) (id : ScopeId) : Option Scope := table.scopes[id]?

/-- Number of scopes, the root among them. -/
def size (table : SymbolTable) : Nat := table.scopes.size

/-! ### Opening and closing -/

/-- Opens a new scope inside the current one. -/
def openScope (table : SymbolTable) : SymbolTable :=
  { table with
    scopes := table.scopes.push (.inside (some table.current))
    inner := table.size :: table.inner }

/-- Closes the current scope; the root stays open. -/
def closeScope (table : SymbolTable) : SymbolTable := { table with inner := table.inner.tail }

/-- Closes all scopes but the root. -/
def closeAll (table : SymbolTable) : SymbolTable := { table with inner := [] }

/-! ### Names -/

/-- The type of a name as seen from a scope: of all scopes from there to the
    root, the first that binds the name gives its type. -/
def type? (table : SymbolTable) (id : ScopeId) (name : String) : Option Ty :=
  match table.scope? id with
  | none => none
  | some scope =>
      match scope.type? name, scope.parent? with
      | some ty, _ => some ty
      | none, some parent => if parent < id then table.type? parent name else none
      | none, none => none
termination_by id

/-- Binds a name in the scope with the given number. -/
def declareIn (table : SymbolTable) (id : ScopeId) (name : String) (ty : Ty)
    (position : Position) : Except Error SymbolTable :=
  match table.scope? id with
  | none => .ok table
  | some scope => do
      let scope ← scope.declare name ty position
      return { table with scopes := table.scopes.setIfInBounds id scope }

/-- Binds a name in the root, before a program is resolved. -/
def declareRoot (table : SymbolTable) (name : String) (ty : Ty) (position : Position) :
    Except Error SymbolTable :=
  table.declareIn root name ty position

/-- Binds the name of an identifier in the current scope.  Without shadowing,
    a name that can be seen from there is taken. -/
def declare (table : SymbolTable) (ident : Ident) (ty : Ty) : Except Error SymbolTable :=
  if !table.shadowing && (table.type? table.current ident.name).isSome then
    .error ⟨.duplicateDeclaration ident.name, ident.tag.span.start⟩
  else table.declareIn table.current ident.name ty ident.tag.span.start

/-! ### Nodes -/

/-- Puts a node into a scope. -/
def stamp (table : SymbolTable) (node : NodeId) (id : ScopeId) : SymbolTable :=
  { table with nodeScopes := table.nodeScopes.insert node id }

/-- The scope of a node. -/
def scopeOf? (table : SymbolTable) (node : NodeId) : Option ScopeId := table.nodeScopes[node]?

/-! ### What the operations change -/

@[simp] theorem size_openScope (table : SymbolTable) : table.openScope.size = table.size + 1 :=
  Array.size_push _

/-- Opening a scope adds one that is empty and lies inside the current one. -/
theorem scope?_openScope (table : SymbolTable) (id : ScopeId) :
    table.openScope.scope? id =
      if id = table.size then some (.inside (some table.current)) else table.scope? id := by
  exact Array.getElem?_push

/-- A node is in the scope that it was put into last. -/
theorem scopeOf?_stamp (table : SymbolTable) (node other : NodeId) (id : ScopeId) :
    (table.stamp node id).scopeOf? other =
      if node = other then some id else table.scopeOf? other := by
  rw [stamp, scopeOf?, Std.ExtTreeMap.getElem?_insert]
  simp only [Std.LawfulEqCmp.compare_eq_iff_eq, scopeOf?]

end SymbolTable

end BlockLang
