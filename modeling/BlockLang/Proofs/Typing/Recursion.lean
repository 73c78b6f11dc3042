import BlockLang.Proofs.Result
import BlockLang.Typing.Checked

/-! # Recursion — typing an expression part by part

  An expression is typed from its leftmost operand outwards.  The result is
  that of the plain recursion: the left operand, then the right operand, then
  the operation.  Errors come in the same order, and the table is the same. -/

namespace BlockLang

/-- An operator is refused for a kind of operands, or because a truth value meets
    something else. -/
theorem Operator.eq_of_resultType_eq_error {operator : Operator} {left right : Ty} {fault : Fault}
    (h : operator.resultType left right = .error fault) :
    (∃ category, fault = operator.unsupported category) ∨
      fault = .boolOperandMismatch left right := by
  unfold resultType at h
  repeat' split at h
  all_goals cases h
  · exact .inl ⟨.string, rfl⟩
  · exact .inr rfl
  · exact .inl ⟨.bool, rfl⟩
  · exact .inl ⟨.int, rfl⟩

/-- Types an expression: its left part, its right part, and then itself. -/
def inferExpr (symbols : SymbolTable) (types : TypeTable) : Expr → Except Error (Ty × TypeTable)
  | .binary left operator right tag => do
      let (leftType, types) ← inferExpr symbols types left
      let (rightType, types) ← inferExpr symbols types right
      let ty ← Operation.type ⟨operator, right, tag⟩ tag.span.start leftType rightType
      return (ty, types.insert tag.id ty)
  | .identifier ident => do
      let ty ← symbols.typeOf ident
      return (ty, types.insert ident.tag.id ty)
  | .literal value tag => return (value.ty, types.insert tag.id value.ty)

/-- Typing downwards is typing the expression and then the operations around. -/
theorem typeDown_eq (symbols : SymbolTable) (types : TypeTable) (around : List Operation)
    (e : Expr) :
    typeDown symbols types around e =
      inferExpr symbols types e >>= fun (ty, types) => typeUp symbols types ty around := by
  induction e generalizing types around with
  | binary left operator right tag ihl ihr =>
    -- The operation joins those that wait around the left side.
    rw [typeDown, ihl, inferExpr]
    cases inferExpr symbols types left with
    | error error => rfl
    | ok typed =>
      obtain ⟨leftType, types₁⟩ := typed
      simp only [bind, Except.bind]
      rw [typeUp, ihr]
      cases inferExpr symbols types₁ right with
      | error error => rfl
      | ok typed =>
        obtain ⟨rightType, types₂⟩ := typed
        show (typeUp symbols types₂ rightType [] >>= _) = _
        rw [typeUp]
        simp only [pure, Except.pure, bind, Except.bind]
        cases Operation.type ⟨operator, right, tag⟩ tag.span.start leftType rightType <;> rfl
  | identifier ident =>
    rw [typeDown, inferExpr, bind_assoc]
    rfl
  | literal value tag =>
    rw [typeDown, inferExpr]
    rfl

/-- Typing an expression is the plain recursion. -/
theorem typeExpr_eq_inferExpr (symbols : SymbolTable) (types : TypeTable) (e : Expr) :
    typeExpr symbols types e = inferExpr symbols types e := by
  rw [typeExpr, typeDown_eq]
  cases inferExpr symbols types e with
  | error error => rfl
  | ok typed =>
    show typeUp symbols typed.2 typed.1 [] = _
    rw [typeUp]
    rfl

end BlockLang
