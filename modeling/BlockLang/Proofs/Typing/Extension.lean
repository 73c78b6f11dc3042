import BlockLang.Proofs.Scope.Extension
import BlockLang.Proofs.Typing.Soundness

/-! # Typing in an extension

  In a table that extends another one a block that was accepted is accepted
  again, with the same types: every name that was looked up still has its
  type. -/

namespace BlockLang

variable {t t' : SymbolTable} {types types' : TypeTable} {e : Expr}

/-- An expression that has a type keeps it. -/
theorem inferExpr_of_extends (h : t.Extends t') {ty : Ty}
    (he : inferExpr t types e = .ok (ty, types')) : inferExpr t' types e = .ok (ty, types') := by
  induction e generalizing types types' ty with
  | binary left operator right tag ihl ihr =>
    obtain ⟨⟨leftType, types₁⟩, hleft, he⟩ := Result.bind_eq_ok_iff.mp he
    obtain ⟨⟨rightType, types₂⟩, hright, he⟩ := Result.bind_eq_ok_iff.mp he
    apply Result.bind_eq_ok_iff.mpr
    refine ⟨(leftType, types₁), ihl hleft, ?_⟩
    apply Result.bind_eq_ok_iff.mpr
    exact ⟨(rightType, types₂), ihr hright, he⟩
  | identifier ident =>
    obtain ⟨found, hfound, he⟩ := Result.bind_eq_ok_iff.mp he
    apply Result.bind_eq_ok_iff.mpr
    exact ⟨found, h.typeOf_eq_ok hfound, he⟩
  | literal value tag => exact he

/-- A statement that is accepted again, and then the rest of its block. -/
theorem checkBlock_cons_of_extends {s : Stmt} {ss : List Stmt}
    (hs : ∀ {types₁}, checkStmt t types s = .ok types₁ → checkStmt t' types s = .ok types₁)
    (hss : ∀ {types types'}, checkBlock t types ss = .ok types' →
      checkBlock t' types ss = .ok types')
    (hbody : checkBlock t types (s :: ss) = .ok types') :
    checkBlock t' types (s :: ss) = .ok types' := by
  obtain ⟨types₁, hfirst, hrest⟩ := checkBlock_cons_eq_ok_iff.mp hbody
  exact checkBlock_cons_eq_ok_iff.mpr ⟨types₁, hs hfirst, hss hrest⟩

/-- A block that is accepted is accepted in an extension, with the same types. -/
theorem checkBlock_of_extends (h : t.Extends t') {body : List Stmt}
    (hbody : checkBlock t types body = .ok types') : checkBlock t' types body = .ok types' := by
  induction body using blockInduction generalizing types types' with
  | nil => exact hbody
  | declaration target ty value tag ss ih =>
    refine checkBlock_cons_of_extends (fun hs => ?_) ih hbody
    rw [checkStmt_declaration_eq_ok_iff] at hs ⊢
    exact inferExpr_of_extends h hs
  | assignment target value tag ss ih =>
    refine checkBlock_cons_of_extends (fun hs => ?_) ih hbody
    rw [checkStmt_assignment_eq_ok_iff] at hs ⊢
    obtain ⟨ty, htarget, hvalue⟩ := hs
    exact ⟨ty, h.typeOf_eq_ok htarget, inferExpr_of_extends h hvalue⟩
  | print value tag ss ih =>
    refine checkBlock_cons_of_extends (fun hs => ?_) ih hbody
    rw [checkStmt_print_eq_ok_iff] at hs ⊢
    obtain ⟨ty, hvalue⟩ := hs
    exact ⟨ty, inferExpr_of_extends h hvalue⟩
  | whileDo condition body tag ss ihb ih =>
    refine checkBlock_cons_of_extends (fun hs => ?_) ih hbody
    rw [checkStmt_whileDo_eq_ok_iff] at hs ⊢
    obtain ⟨ty, types₂, hcondition, hinner⟩ := hs
    exact ⟨ty, types₂, inferExpr_of_extends h hcondition, ihb hinner⟩
  | ifThen condition body tag ss ihb ih =>
    refine checkBlock_cons_of_extends (fun hs => ?_) ih hbody
    rw [checkStmt_ifThen_eq_ok_iff] at hs ⊢
    obtain ⟨ty, types₂, hcondition, hinner⟩ := hs
    exact ⟨ty, types₂, inferExpr_of_extends h hcondition, ihb hinner⟩
  | ifThenElse condition body otherwise elseTag tag ss ihb iho ih =>
    refine checkBlock_cons_of_extends (fun hs => ?_) ih hbody
    rw [checkStmt_ifThenElse_eq_ok_iff] at hs ⊢
    obtain ⟨ty, types₂, types₃, hcondition, hinner, hotherwise⟩ := hs
    exact ⟨ty, types₂, types₃, inferExpr_of_extends h hcondition, ihb hinner, iho hotherwise⟩

theorem checkBlock_append (t : SymbolTable) (types : TypeTable) (ss rest : List Stmt) :
    checkBlock t types (ss ++ rest) = checkBlock t types ss >>= (checkBlock t · rest) := by
  induction ss generalizing types with
  | nil => rfl
  | cons s ss ih =>
    rw [List.cons_append, checkBlock, checkBlock, bind_assoc]
    exact congrArg (checkStmt t types s >>= ·) (funext fun types₁ => ih types₁)

end BlockLang
