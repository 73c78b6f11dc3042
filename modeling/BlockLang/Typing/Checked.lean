import BlockLang.Scope.Resolved
import BlockLang.Typing.Operator

/-! # Checked programs — a type for every expression

  Checking a program gives every expression in it a type, and compares the
  types of values with those of the variables they go into.  A condition may
  have any type.  The first error in source order ends the check; a target is
  looked up before its value is checked.

  Operators group to the left, so an expression may be very deep on its left
  side.  It is checked from its leftmost operand outwards: `typeDown` goes
  down to that operand and lists the operations above it, and `typeUp` works
  through them. -/

namespace BlockLang

/-- The types of expressions, by their identities. -/
abbrev TypeTable : Type := Std.ExtTreeMap NodeId Ty

/-- An operation whose left operand is being dealt with. -/
structure Operation where
  operator : Operator
  right : Expr
  tag : Tag

/-- A measure of operations that are still to be finished. -/
def Operation.weight (o : Operation) : Nat := o.right.weight + 1

/-- The declared type of an identifier, as seen from its scope. -/
def SymbolTable.typeOf (symbols : SymbolTable) (ident : Ident) : Except Error Ty :=
  match (symbols.scopeOf? ident.tag.id).bind (symbols.type? · ident.name) with
  | some ty => .ok ty
  | none => .error ⟨.undeclaredIdentifier ident.name, ident.tag.span.start⟩

/-- The type of an operation whose operands have types. -/
def Operation.type (o : Operation) (start : Position) (left right : Ty) : Except Error Ty :=
  match o.operator.resultType left right with
  | .ok ty => .ok ty
  | .error fault => .error ⟨fault, start⟩

/-! ### Expressions -/

mutual

/-- Types an expression and then the operations around it, of which it is the
    left operand (innermost first). -/
def typeDown (symbols : SymbolTable) (types : TypeTable) (around : List Operation) :
    Expr → Except Error (Ty × TypeTable)
  | .binary left operator right tag =>
      typeDown symbols types (⟨operator, right, tag⟩ :: around) left
  | .identifier ident => do
      let ty ← symbols.typeOf ident
      typeUp symbols (types.insert ident.tag.id ty) ty around
  | .literal value tag => typeUp symbols (types.insert tag.id value.ty) value.ty around
termination_by e => e.weight + around.foldr (·.weight + ·) 0
decreasing_by all_goals simp [Expr.weight, Operation.weight]; try omega

/-- Types the operations around a left operand of type `left`. -/
def typeUp (symbols : SymbolTable) (types : TypeTable) (left : Ty) :
    List Operation → Except Error (Ty × TypeTable)
  | [] => return (left, types)
  | o :: around => do
      -- A right operand is typed on its own before its operator is looked at.
      let (right, types) ← typeDown symbols types [] o.right
      let ty ← o.type o.tag.span.start left right
      typeUp symbols (types.insert o.tag.id ty) ty around
termination_by around => around.foldr (·.weight + ·) 0
decreasing_by all_goals simp [Operation.weight]; try omega

end

/-- Types an expression: its type, and the table with the types of all its
    nodes. -/
def typeExpr (symbols : SymbolTable) (types : TypeTable) (e : Expr) :
    Except Error (Ty × TypeTable) :=
  typeDown symbols types [] e

/-! ### Statements -/

mutual

/-- Checks a statement. -/
def checkStmt (symbols : SymbolTable) (types : TypeTable) : Stmt → Except Error TypeTable
  | .declaration _ declared value _ => do
      let (received, types) ← typeExpr symbols types value
      if received = declared then return types
      else throw ⟨.declarationMismatch declared received, value.span.start⟩
  | .assignment target value _ => do
      let declared ← symbols.typeOf target
      let (received, types) ← typeExpr symbols types value
      if received = declared then return types
      else throw ⟨.assignmentMismatch declared received, value.span.start⟩
  | .print value _ => do
      let (_, types) ← typeExpr symbols types value
      return types
  | .whileDo condition body _ => do
      let (_, types) ← typeExpr symbols types condition
      checkBlock symbols types body
  | .ifThen condition body _ => do
      let (_, types) ← typeExpr symbols types condition
      checkBlock symbols types body
  | .ifThenElse condition body otherwise _ _ => do
      let (_, types) ← typeExpr symbols types condition
      let types ← checkBlock symbols types body
      checkBlock symbols types otherwise

/-- Checks the statements of a block. -/
def checkBlock (symbols : SymbolTable) (types : TypeTable) :
    List Stmt → Except Error TypeTable
  | [] => return types
  | s :: ss => do
      let types ← checkStmt symbols types s
      checkBlock symbols types ss

end

/-! ### Programs -/

/-- A program that is resolved and whose types fit. -/
structure Checked where
  resolved : Resolved
  types : TypeTable

/-- The types of all expressions of a resolved program. -/
def inferTypes (resolved : Resolved) : Except Error TypeTable :=
  checkBlock resolved.symbols ∅ resolved.program.body

/-- Checks a resolved program. -/
def check (resolved : Resolved) : Except Error Checked := do
  let types ← inferTypes resolved
  return ⟨resolved, types⟩

end BlockLang
