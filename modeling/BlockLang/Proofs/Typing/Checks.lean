import BlockLang.Proofs.Program.Identities
import BlockLang.Proofs.Typing.Recursion

/-! # Checks — what a program can be refused for, in source order

  Typing a program comes down to a row of checks.  Each node of an expression
  is checked behind its operands, the left one first; a value is compared with
  the variable behind its nodes, a target is looked up before its value, and
  what a block holds comes behind the condition.  A check looks at the program
  and its scopes, and at no table of types.

  The first check of the row that fails is the error of the program.  If none
  fails, the nodes of the expressions are recorded in the order of the row. -/

namespace BlockLang

/-! ### Expressions by themselves -/

section

variable (symbols : SymbolTable)

/-- The type of an expression, if its parts have types that go together. -/
def Expr.type? : Expr → Option Ty
  | .binary left operator right _ => do
      let leftType ← left.type?
      let rightType ← right.type?
      (operator.resultType leftType rightType).toOption
  | .identifier ident => (symbols.typeOf ident).toOption
  | .literal value _ => some value.ty

/-- What is wrong with the topmost node of an expression whose operands have
    types. -/
def Expr.topError? : Expr → Option Error
  | .binary left operator right tag =>
      match left.type? symbols, right.type? symbols with
      | some leftType, some rightType =>
          (Result.error? (operator.resultType leftType rightType)).map (⟨·, tag.span.start⟩)
      | _, _ => none
  | .identifier ident => Result.error? (symbols.typeOf ident)
  | .literal _ _ => none

/-! ### Checks -/

/-- A reason to refuse a program. -/
inductive Check where
  /-- The topmost node of an expression. -/
  | node (e : Expr)
  /-- The target of an assignment. -/
  | target (ident : Ident)
  /-- The value of a declaration against the type that is declared. -/
  | declared (ty : Ty) (value : Expr)
  /-- The value of an assignment against the type of its target. -/
  | assigned (ident : Ident) (value : Expr)

/-- The error of a check that fails. -/
def Check.error? : Check → Option Error
  | .node e => e.topError? symbols
  | .target ident => Result.error? (symbols.typeOf ident)
  | .declared ty value => do
      let received ← value.type? symbols
      if received = ty then none else some ⟨.declarationMismatch ty received, value.span.start⟩
  | .assigned ident value => do
      let ty ← (symbols.typeOf ident).toOption
      let received ← value.type? symbols
      if received = ty then none else some ⟨.assignmentMismatch ty received, value.span.start⟩

/-- What a check records if it does not fail. -/
def Check.recorded? : Check → Option (NodeId × Ty)
  | .node e => do
      let ty ← e.type? symbols
      return (e.id, ty)
  | _ => none

/-- The first error of checks in a row. -/
def firstError? (checks : List Check) : Option Error := checks.findSome? (·.error? symbols)

/-- What checks in a row record. -/
def entries (checks : List Check) : List (NodeId × Ty) := checks.filterMap (·.recorded? symbols)

end

/-- Writes entries into a table, one after the other. -/
def TypeTable.record (types : TypeTable) (row : List (NodeId × Ty)) : TypeTable :=
  row.foldl (fun types entry => types.insert entry.1 entry.2) types

/-! ### The checks of a program -/

/-- The checks of an expression: the left operand, the right operand, the
    operation. -/
def Expr.checks : Expr → List Check
  | .binary left operator right tag =>
      left.checks ++ right.checks ++ [.node (.binary left operator right tag)]
  | .identifier ident => [.node (.identifier ident)]
  | .literal value tag => [.node (.literal value tag)]

mutual

/-- The checks of a statement. -/
def Stmt.checks : Stmt → List Check
  | .declaration _ ty value _ => value.checks ++ [.declared ty value]
  | .assignment target value _ => .target target :: (value.checks ++ [.assigned target value])
  | .print value _ => value.checks
  | .whileDo condition body _ | .ifThen condition body _ => condition.checks ++ blockChecks body
  | .ifThenElse condition body otherwise _ _ =>
      condition.checks ++ (blockChecks body ++ blockChecks otherwise)

/-- The checks of a block. -/
def blockChecks : List Stmt → List Check
  | [] => []
  | s :: ss => s.checks ++ blockChecks ss

end

/-! ### Checks in a row -/

/-- Makes checks in a row: the first error, or the table with what they record. -/
def checkAll (symbols : SymbolTable) (types : TypeTable) (checks : List Check) :
    Except Error TypeTable :=
  match firstError? symbols checks with
  | some error => .error error
  | none => .ok (types.record (entries symbols checks))

section

variable {symbols : SymbolTable} {types : TypeTable} {cs cs' : List Check}

theorem firstError?_append :
    firstError? symbols (cs ++ cs') = (firstError? symbols cs).or (firstError? symbols cs') :=
  List.findSome?_append

theorem entries_append :
    entries symbols (cs ++ cs') = entries symbols cs ++ entries symbols cs' :=
  List.filterMap_append

theorem TypeTable.record_append (types : TypeTable) (row row' : List (NodeId × Ty)) :
    types.record (row ++ row') = (types.record row).record row' :=
  List.foldl_append

/-- More checks are made on the table that the first ones leave. -/
theorem checkAll_append :
    checkAll symbols types (cs ++ cs') =
      checkAll symbols types cs >>= fun types => checkAll symbols types cs' := by
  simp only [checkAll, firstError?_append, entries_append, TypeTable.record_append]
  cases firstError? symbols cs <;> rfl

end

/-! ### Expressions -/

section

variable {symbols : SymbolTable} {types : TypeTable}

theorem firstError?_node (e : Expr) : firstError? symbols [.node e] = e.topError? symbols := by
  rw [firstError?, List.findSome?_singleton, Check.error?]

theorem entries_node {e : Expr} {ty : Ty} (h : e.type? symbols = some ty) :
    entries symbols [.node e] = [(e.id, ty)] := by
  have hentry : (Check.node e).recorded? symbols = some (e.id, ty) := by
    rw [Check.recorded?, h]
    rfl
  rw [entries, List.filterMap_cons_some hentry, List.filterMap_nil]

/-- Typing an expression makes its checks.  If none fails, the expression has
    a type. -/
theorem inferExpr_eq (symbols : SymbolTable) (types : TypeTable) (e : Expr) :
    match firstError? symbols e.checks with
    | some error => inferExpr symbols types e = .error error
    | none => ∃ ty, e.type? symbols = some ty ∧
        inferExpr symbols types e = .ok (ty, types.record (entries symbols e.checks)) := by
  induction e generalizing types with
  | literal value tag => exact ⟨value.ty, rfl, rfl⟩
  | identifier ident =>
    rw [Expr.checks, firstError?_node, Expr.topError?, inferExpr]
    cases hty : symbols.typeOf ident with
    | error error => rfl
    | ok ty =>
      have htype : (Expr.identifier ident).type? symbols = some ty := by
        rw [Expr.type?, hty]
        rfl
      rw [entries_node htype]
      exact ⟨ty, htype, rfl⟩
  | binary left operator right tag ihl ihr =>
    rw [Expr.checks, firstError?_append, firstError?_append, entries_append, entries_append,
      TypeTable.record_append, TypeTable.record_append, inferExpr]
    have hleft := ihl types
    cases hfirst : firstError? symbols left.checks with
    | some error =>
      rw [hfirst] at hleft
      rw [hleft]
      rfl
    | none =>
      rw [hfirst] at hleft
      obtain ⟨leftType, hleftType, hleft⟩ := hleft
      rw [hleft]
      have hright := ihr (types.record (entries symbols left.checks))
      cases hsecond : firstError? symbols right.checks with
      | some error =>
        rw [hsecond] at hright
        simp only [bind, Except.bind, hright]
        rfl
      | none =>
        rw [hsecond] at hright
        obtain ⟨rightType, hrightType, hright⟩ := hright
        simp only [bind, Except.bind, hright, firstError?_node, Option.none_or]
        -- Both operands have types, so it is up to the operation.
        rw [Expr.topError?, hleftType, hrightType]
        have htype : (Expr.binary left operator right tag).type? symbols =
            (operator.resultType leftType rightType).toOption := by
          rw [Expr.type?, hleftType, hrightType]
          rfl
        cases hop : operator.resultType leftType rightType with
        | error fault =>
          simp only [hop, Operation.type]
          rfl
        | ok ty =>
          rw [hop] at htype
          simp only [hop, Operation.type, entries_node htype]
          exact ⟨ty, htype, rfl⟩

/-- Each node of an expression whose checks do not fail is recorded once. -/
theorem map_fst_entries {e : Expr} (h : firstError? symbols e.checks = none) :
    (entries symbols e.checks).map Prod.fst = e.drawn := by
  have hnode {e : Expr} (h : firstError? symbols e.checks = none) :
      (entries symbols [.node e]).map Prod.fst = [e.id] := by
    have hinfer := inferExpr_eq symbols ∅ e
    rw [h] at hinfer
    obtain ⟨ty, hty, -⟩ := hinfer
    rw [entries_node hty]
    rfl
  induction e with
  | literal value tag => exact hnode h
  | identifier ident => exact hnode h
  | binary left operator right tag ihl ihr =>
    have hself := hnode h
    rw [Expr.checks, firstError?_append, firstError?_append, Option.or_eq_none_iff,
      Option.or_eq_none_iff] at h
    rw [Expr.checks, entries_append, entries_append, List.map_append, List.map_append, hself,
      ihl h.1.1, ihr h.1.2]
    rfl

/-! ### Statements -/

/-- Typing an expression and going on with checks that may use its type. -/
theorem typeExpr_bind_eq_checkAll {e : Expr} {f : Ty × TypeTable → Except Error TypeTable}
    {cs : List Check}
    (hf : ∀ ty types, e.type? symbols = some ty → f (ty, types) = checkAll symbols types cs) :
    typeExpr symbols types e >>= f = checkAll symbols types (e.checks ++ cs) := by
  rw [typeExpr_eq_inferExpr, checkAll_append, checkAll]
  have hinfer := inferExpr_eq symbols types e
  cases hfirst : firstError? symbols e.checks with
  | some error =>
    rw [hfirst] at hinfer
    rw [hinfer]
    rfl
  | none =>
    rw [hfirst] at hinfer
    obtain ⟨ty, hty, hinfer⟩ := hinfer
    rw [hinfer]
    exact hf ty _ hty

theorem checkAll_single {c : Check} (hentry : c.recorded? symbols = none) :
    checkAll symbols types [c] = match c.error? symbols with
      | some error => .error error
      | none => .ok types := by
  rw [checkAll, firstError?, List.findSome?_singleton, entries, List.filterMap_cons_none hentry]
  rfl

theorem typeExpr_then_eq_checkAll (symbols : SymbolTable) (types : TypeTable) (e : Expr) :
    (do let (_, types) ← typeExpr symbols types e; return types) =
      checkAll symbols types e.checks := by
  rw [← List.append_nil e.checks]
  exact typeExpr_bind_eq_checkAll fun _ _ _ => rfl

theorem checkStmt_declaration_eq (target : Ident) (ty : Ty) (value : Expr) (tag : Tag) :
    checkStmt symbols types (.declaration target ty value tag) =
      checkAll symbols types (Stmt.declaration target ty value tag).checks := by
  rw [checkStmt, Stmt.checks]
  refine typeExpr_bind_eq_checkAll fun received types hreceived => ?_
  rw [checkAll_single rfl, Check.error?, hreceived]
  show (if received = ty then Except.ok types else .error _) = _
  by_cases heq : received = ty
  · simp [heq]
  · simp [heq]

/-- A target without a type ends the check before its value is looked at. -/
theorem checkStmt_assignment_eq (target : Ident) (value : Expr) (tag : Tag) :
    checkStmt symbols types (.assignment target value tag) =
      checkAll symbols types (Stmt.assignment target value tag).checks := by
  rw [checkStmt, Stmt.checks, ← List.singleton_append, checkAll_append, checkAll_single rfl,
    Check.error?]
  cases hty : symbols.typeOf target with
  | error error => rfl
  | ok ty =>
    refine typeExpr_bind_eq_checkAll fun received types hreceived => ?_
    rw [checkAll_single rfl, Check.error?, hreceived, hty]
    show (if received = ty then Except.ok types else .error _) = _
    by_cases heq : received = ty
    · simp [heq, Except.toOption]
    · simp [heq, Except.toOption]

/-! ### Blocks -/

theorem checkBlock_cons_eq {s : Stmt} {ss : List Stmt}
    (hs : ∀ types, checkStmt symbols types s = checkAll symbols types s.checks)
    (hss : ∀ types, checkBlock symbols types ss = checkAll symbols types (blockChecks ss)) :
    checkBlock symbols types (s :: ss) = checkAll symbols types (blockChecks (s :: ss)) := by
  rw [checkBlock, blockChecks, checkAll_append, hs]
  simp only [hss]

/-- Checking a block makes its checks. -/
theorem checkBlock_eq_checkAll (symbols : SymbolTable) (types : TypeTable) (body : List Stmt) :
    checkBlock symbols types body = checkAll symbols types (blockChecks body) := by
  induction body using blockInduction generalizing types with
  | nil => rfl
  | declaration target ty value tag ss ih =>
    exact checkBlock_cons_eq (fun _ => checkStmt_declaration_eq target ty value tag) ih
  | assignment target value tag ss ih =>
    exact checkBlock_cons_eq (fun _ => checkStmt_assignment_eq target value tag) ih
  | print value tag ss ih =>
    exact checkBlock_cons_eq (fun types => typeExpr_then_eq_checkAll symbols types value) ih
  | whileDo condition body tag ss ihb ih | ifThen condition body tag ss ihb ih =>
    refine checkBlock_cons_eq (fun types => ?_) ih
    exact typeExpr_bind_eq_checkAll fun _ types _ => ihb types
  | ifThenElse condition body otherwise elseTag tag ss ihb iho ih =>
    refine checkBlock_cons_eq (fun types => ?_) ih
    refine typeExpr_bind_eq_checkAll fun _ types _ => ?_
    show checkBlock symbols types body >>= _ = _
    rw [ihb, checkAll_append]
    simp only [iho]

end

/-- Typing an expression from its leftmost operand outwards is the plain
    recursion, on any table.  It fails with the first error among the checks of
    the expression; otherwise it gives the type of the expression and records
    each of its nodes once.  A program fails with the first error among its
    checks in the order of the source. -/
theorem first_error_in_source_order :
    (∀ (symbols : SymbolTable) (types : TypeTable) (e : Expr),
      typeExpr symbols types e = inferExpr symbols types e ∧
      match firstError? symbols e.checks with
      | some error => typeExpr symbols types e = .error error
      | none => ∃ ty, e.type? symbols = some ty ∧
          typeExpr symbols types e = .ok (ty, types.record (entries symbols e.checks)) ∧
          (entries symbols e.checks).map Prod.fst = e.drawn) ∧
    ∀ resolved : Resolved,
      inferTypes resolved =
        match firstError? resolved.symbols (blockChecks resolved.program.body) with
        | some error => .error error
        | none => .ok (TypeTable.record ∅
            (entries resolved.symbols (blockChecks resolved.program.body))) := by
  refine ⟨fun symbols types e => ⟨typeExpr_eq_inferExpr symbols types e, ?_⟩, fun resolved => ?_⟩
  · rw [typeExpr_eq_inferExpr]
    have hinfer := inferExpr_eq symbols types e
    cases hfirst : firstError? symbols e.checks with
    | some error =>
      rwa [hfirst] at hinfer
    | none =>
      rw [hfirst] at hinfer
      obtain ⟨ty, hty, hinfer⟩ := hinfer
      exact ⟨ty, hty, hinfer, map_fst_entries hfirst⟩
  · exact checkBlock_eq_checkAll resolved.symbols ∅ resolved.program.body

end BlockLang
