import BlockLang.Compile
import BlockLang.Proofs.Typing.WellTyped

/-! # Soundness — checking finds the assignment that fits

  Checking a program succeeds exactly when some assignment fits it.  The table
  that it gives is that assignment, on the expressions of the program and on
  nothing else.  Both directions follow the statements of a block: in the
  scopes that mirror the program, a name that is looked up has the type that
  it has in the blocks around. -/

namespace BlockLang

/-! ### Expressions among nodes -/

/-- Is a node an expression? -/
def Node.isExpr : Node → Bool
  | .stmt _ => false
  | .target _ => false
  | .expr _ => true
  | .elseBranch _ _ => false

/-- The identities of the expressions among nodes. -/
def exprIds (nodes : List Node) : List NodeId := (nodes.filter Node.isExpr).map Node.id

section

variable {ns ns' : List Node}

@[simp] theorem exprIds_nil : exprIds [] = [] := rfl

@[simp] theorem exprIds_append : exprIds (ns ++ ns') = exprIds ns ++ exprIds ns' := by
  rw [exprIds, List.filter_append, List.map_append, exprIds, exprIds]

@[simp] theorem exprIds_stmt (s : Stmt) : exprIds (.stmt s :: ns) = exprIds ns := rfl

@[simp] theorem exprIds_target (ident : Ident) : exprIds (.target ident :: ns) = exprIds ns := rfl

@[simp] theorem exprIds_elseBranch (body : List Stmt) (tag : Tag) :
    exprIds (.elseBranch body tag :: ns) = exprIds ns := rfl

@[simp] theorem exprIds_expr (e : Expr) : exprIds (.expr e :: ns) = e.id :: exprIds ns := rfl

@[simp] theorem exprIds_nodes (e : Expr) : exprIds e.nodes = e.ids := by
  rw [exprIds, Expr.ids]
  congr 1
  rw [List.filter_eq_self]
  induction e with
  | binary left operator right tag ihl ihr =>
    simp only [Expr.nodes_binary, List.forall_mem_cons, List.forall_mem_append]
    exact ⟨rfl, ihl, ihr⟩
  | identifier ident => simp [Node.isExpr]
  | literal value tag => simp [Node.isExpr]

theorem mem_exprIds {id : NodeId} : id ∈ exprIds ns ↔ ∃ e, Node.expr e ∈ ns ∧ e.id = id := by
  rw [exprIds, List.mem_map]
  constructor
  · intro h
    obtain ⟨node, hnode, rfl⟩ := h
    obtain ⟨hmem, hexpr⟩ := List.mem_filter.mp hnode
    cases node with
    | expr e => exact ⟨e, hmem, rfl⟩
    | stmt s => cases hexpr
    | target ident => cases hexpr
    | elseBranch body tag => cases hexpr
  · intro h
    obtain ⟨e, hmem, rfl⟩ := h
    exact ⟨.expr e, List.mem_filter.mpr ⟨hmem, rfl⟩, rfl⟩

end

section

variable (target : Ident) (ty : Ty) (value condition : Expr) (body otherwise ss : List Stmt)
  (elseTag tag : Tag)

theorem exprIds_cons_declaration :
    exprIds (blockNodes (.declaration target ty value tag :: ss)) =
      value.ids ++ exprIds (blockNodes ss) := by
  simp

theorem exprIds_cons_assignment :
    exprIds (blockNodes (.assignment target value tag :: ss)) =
      value.ids ++ exprIds (blockNodes ss) := by
  simp

theorem exprIds_cons_print :
    exprIds (blockNodes (.print value tag :: ss)) = value.ids ++ exprIds (blockNodes ss) := by
  simp

theorem exprIds_cons_whileDo :
    exprIds (blockNodes (.whileDo condition body tag :: ss)) =
      condition.ids ++ (exprIds (blockNodes body) ++ exprIds (blockNodes ss)) := by
  simp

theorem exprIds_cons_ifThen :
    exprIds (blockNodes (.ifThen condition body tag :: ss)) =
      condition.ids ++ (exprIds (blockNodes body) ++ exprIds (blockNodes ss)) := by
  simp

theorem exprIds_cons_ifThenElse :
    exprIds (blockNodes (.ifThenElse condition body otherwise elseTag tag :: ss)) =
      condition.ids ++ (exprIds (blockNodes body) ++
        (exprIds (blockNodes otherwise) ++ exprIds (blockNodes ss))) := by
  simp

end

/-! ### Statements -/

section

variable {symbols : SymbolTable} {types types' : TypeTable} {ty : Ty} {target : Ident}
  {value condition : Expr} {body otherwise ss : List Stmt} {elseTag tag : Tag} {s : Stmt}

theorem checkBlock_cons_eq_ok_iff :
    checkBlock symbols types (s :: ss) = .ok types' ↔
      ∃ types₁, checkStmt symbols types s = .ok types₁ ∧
        checkBlock symbols types₁ ss = .ok types' :=
  Result.bind_eq_ok_iff

/-- What is done with a typed value goes on from the table its typing leaves. -/
theorem typeExpr_bind_eq_ok_iff {f : Ty × TypeTable → Except Error TypeTable} :
    (typeExpr symbols types value >>= f) = .ok types' ↔
      ∃ ty types₁, inferExpr symbols types value = .ok (ty, types₁) ∧
        f (ty, types₁) = .ok types' := by
  rw [Result.bind_eq_ok_iff, typeExpr_eq_inferExpr, Prod.exists]

/-- A value is accepted when it has the type that is asked for. -/
theorem typeExpr_then_eq_ok_iff (fault : Ty → Error) :
    (do
      let (received, types) ← typeExpr symbols types value
      if received = ty then return types else throw (fault received)) = .ok types' ↔
        inferExpr symbols types value = .ok (ty, types') := by
  rw [Result.bind_eq_ok_iff, typeExpr_eq_inferExpr]
  constructor
  · intro h
    obtain ⟨⟨received, types₁⟩, hvalue, h⟩ := h
    by_cases hreceived : received = ty
    · simp only [hreceived, if_true] at h
      cases h
      rw [hvalue, hreceived]
    · simp only [hreceived, if_false] at h
      cases h
  · intro hvalue
    exact ⟨_, hvalue, if_pos rfl⟩

theorem checkStmt_declaration_eq_ok_iff :
    checkStmt symbols types (.declaration target ty value tag) = .ok types' ↔
      inferExpr symbols types value = .ok (ty, types') := by
  exact typeExpr_then_eq_ok_iff fun received => ⟨.declarationMismatch ty received, value.span.start⟩

theorem checkStmt_assignment_eq_ok_iff :
    checkStmt symbols types (.assignment target value tag) = .ok types' ↔
      ∃ ty, symbols.typeOf target = .ok ty ∧ inferExpr symbols types value = .ok (ty, types') := by
  refine Result.bind_eq_ok_iff.trans ?_
  refine exists_congr fun ty => and_congr_right fun _ => ?_
  exact typeExpr_then_eq_ok_iff fun received => ⟨.assignmentMismatch ty received, value.span.start⟩

theorem checkStmt_print_eq_ok_iff :
    checkStmt symbols types (.print value tag) = .ok types' ↔
      ∃ ty, inferExpr symbols types value = .ok (ty, types') := by
  refine typeExpr_bind_eq_ok_iff.trans ?_
  constructor
  · intro h
    obtain ⟨ty, types₁, hvalue, hreturn⟩ := h
    cases Result.pure_eq_ok_iff.mp hreturn
    exact ⟨ty, hvalue⟩
  · intro h
    obtain ⟨ty, hvalue⟩ := h
    exact ⟨ty, types', hvalue, rfl⟩

theorem checkStmt_whileDo_eq_ok_iff :
    checkStmt symbols types (.whileDo condition body tag) = .ok types' ↔
      ∃ ty types₁, inferExpr symbols types condition = .ok (ty, types₁) ∧
        checkBlock symbols types₁ body = .ok types' :=
  typeExpr_bind_eq_ok_iff

theorem checkStmt_ifThen_eq_ok_iff :
    checkStmt symbols types (.ifThen condition body tag) = .ok types' ↔
      ∃ ty types₁, inferExpr symbols types condition = .ok (ty, types₁) ∧
        checkBlock symbols types₁ body = .ok types' :=
  typeExpr_bind_eq_ok_iff

theorem checkStmt_ifThenElse_eq_ok_iff :
    checkStmt symbols types (.ifThenElse condition body otherwise elseTag tag) = .ok types' ↔
      ∃ ty types₁ types₂, inferExpr symbols types condition = .ok (ty, types₁) ∧
        checkBlock symbols types₁ body = .ok types₂ ∧
        checkBlock symbols types₂ otherwise = .ok types' := by
  refine typeExpr_bind_eq_ok_iff.trans ?_
  simp only [Result.bind_eq_ok_iff, exists_and_left]

end

/-! ### Blocks -/

section

variable {symbols : SymbolTable} {types types' : TypeTable} {p : Program} {node : NodeId}
  {around : Surroundings} {A : Assignment}

/-- Checking a block records a type for each of its expressions. -/
theorem annotates_of_checkBlock (body : List Stmt)
    (h : checkBlock symbols types body = .ok types') :
    Annotates (exprIds (blockNodes body)) types types' := by
  induction body using blockInduction generalizing types types' with
  | nil =>
    cases h
    exact .nil types
  | declaration target ty value tag ss ih =>
    obtain ⟨types₁, hs, h⟩ := checkBlock_cons_eq_ok_iff.mp h
    have hvalue := checkStmt_declaration_eq_ok_iff.mp hs
    rw [exprIds_cons_declaration]
    exact (annotates_of_inferExpr hvalue).1.trans (ih h)
  | assignment target value tag ss ih =>
    obtain ⟨types₁, hs, h⟩ := checkBlock_cons_eq_ok_iff.mp h
    obtain ⟨ty, -, hvalue⟩ := checkStmt_assignment_eq_ok_iff.mp hs
    rw [exprIds_cons_assignment]
    exact (annotates_of_inferExpr hvalue).1.trans (ih h)
  | print value tag ss ih =>
    obtain ⟨types₁, hs, h⟩ := checkBlock_cons_eq_ok_iff.mp h
    obtain ⟨ty, hvalue⟩ := checkStmt_print_eq_ok_iff.mp hs
    rw [exprIds_cons_print]
    exact (annotates_of_inferExpr hvalue).1.trans (ih h)
  | whileDo condition body tag ss ihb ih =>
    obtain ⟨types₁, hs, h⟩ := checkBlock_cons_eq_ok_iff.mp h
    obtain ⟨ty, types₂, hcondition, hbody⟩ := checkStmt_whileDo_eq_ok_iff.mp hs
    rw [exprIds_cons_whileDo]
    exact (annotates_of_inferExpr hcondition).1.trans ((ihb hbody).trans (ih h))
  | ifThen condition body tag ss ihb ih =>
    obtain ⟨types₁, hs, h⟩ := checkBlock_cons_eq_ok_iff.mp h
    obtain ⟨ty, types₂, hcondition, hbody⟩ := checkStmt_ifThen_eq_ok_iff.mp hs
    rw [exprIds_cons_ifThen]
    exact (annotates_of_inferExpr hcondition).1.trans ((ihb hbody).trans (ih h))
  | ifThenElse condition body otherwise elseTag tag ss ihb iho ih =>
    obtain ⟨types₁, hs, h⟩ := checkBlock_cons_eq_ok_iff.mp h
    obtain ⟨ty, types₂, types₃, hcondition, hbody, hotherwise⟩ :=
      checkStmt_ifThenElse_eq_ok_iff.mp hs
    rw [exprIds_cons_ifThenElse]
    exact (annotates_of_inferExpr hcondition).1.trans
      ((ihb hbody).trans ((iho hotherwise).trans (ih h)))

/-- What checking records fits the block. -/
theorem blockWellTyped_of_checkBlock (body : List Stmt)
    (hstands : Stands symbols p node around body)
    (h : checkBlock symbols types body = .ok types') (hnodup : (exprIds (blockNodes body)).Nodup)
    (hholds : Holds A (exprIds (blockNodes body)) types') : blockWellTyped A around body := by
  -- On the block.  A part records its types in an earlier table than the last, but the
  -- parts behind it keep them, as they record other nodes.
  induction body using blockInduction generalizing types types' node around with
  | nil => trivial
  | declaration target ty value tag ss ih =>
    obtain ⟨types₁, hs, h⟩ := checkBlock_cons_eq_ok_iff.mp h
    have hvalue := checkStmt_declaration_eq_ok_iff.mp hs
    rw [exprIds_cons_declaration] at hnodup hholds
    obtain ⟨⟨hholdsv, hnodupv⟩, hholds, hnodup⟩ :=
      hholds.split hnodup (annotates_of_checkBlock ss h)
    obtain ⟨hwell, hty⟩ := wellTyped_of_inferExpr hvalue hstands.looks hnodupv hholdsv
    exact ⟨⟨hwell, hty⟩, ih hstands.tail h hnodup hholds⟩
  | assignment target value tag ss ih =>
    obtain ⟨types₁, hs, h⟩ := checkBlock_cons_eq_ok_iff.mp h
    obtain ⟨ty, htarget, hvalue⟩ := checkStmt_assignment_eq_ok_iff.mp hs
    rw [exprIds_cons_assignment] at hnodup hholds
    obtain ⟨⟨hholdsv, hnodupv⟩, hholds, hnodup⟩ :=
      hholds.split hnodup (annotates_of_checkBlock ss h)
    obtain ⟨hwell, hty⟩ := wellTyped_of_inferExpr hvalue hstands.looks hnodupv hholdsv
    refine ⟨⟨hwell, ?_⟩, ih hstands.tail h hnodup hholds⟩
    rw [hty]
    exact (hstands.typeOf_iff List.mem_cons_self ty).mp htarget
  | print value tag ss ih =>
    obtain ⟨types₁, hs, h⟩ := checkBlock_cons_eq_ok_iff.mp h
    obtain ⟨ty, hvalue⟩ := checkStmt_print_eq_ok_iff.mp hs
    rw [exprIds_cons_print] at hnodup hholds
    obtain ⟨⟨hholdsv, hnodupv⟩, hholds, hnodup⟩ :=
      hholds.split hnodup (annotates_of_checkBlock ss h)
    have hwell := (wellTyped_of_inferExpr hvalue hstands.looks hnodupv hholdsv).1
    exact ⟨hwell, ih hstands.tail h hnodup hholds⟩
  | whileDo condition body tag ss ihb ih =>
    obtain ⟨types₁, hs, h⟩ := checkBlock_cons_eq_ok_iff.mp h
    obtain ⟨ty, types₂, hcondition, hbody⟩ := checkStmt_whileDo_eq_ok_iff.mp hs
    rw [exprIds_cons_whileDo] at hnodup hholds
    have hannss := annotates_of_checkBlock ss h
    obtain ⟨⟨hholdsc, hnodupc⟩, hholds, hnodup⟩ :=
      hholds.split hnodup ((annotates_of_checkBlock body hbody).trans hannss)
    obtain ⟨⟨hholdsb, hnodupb⟩, hholds, hnodup⟩ := hholds.split hnodup hannss
    have hwell := (wellTyped_of_inferExpr hcondition hstands.looks hnodupc hholdsc).1
    exact ⟨⟨hwell, ihb hstands.whileDo hbody hnodupb hholdsb⟩, ih hstands.tail h hnodup hholds⟩
  | ifThen condition body tag ss ihb ih =>
    obtain ⟨types₁, hs, h⟩ := checkBlock_cons_eq_ok_iff.mp h
    obtain ⟨ty, types₂, hcondition, hbody⟩ := checkStmt_ifThen_eq_ok_iff.mp hs
    rw [exprIds_cons_ifThen] at hnodup hholds
    have hannss := annotates_of_checkBlock ss h
    obtain ⟨⟨hholdsc, hnodupc⟩, hholds, hnodup⟩ :=
      hholds.split hnodup ((annotates_of_checkBlock body hbody).trans hannss)
    obtain ⟨⟨hholdsb, hnodupb⟩, hholds, hnodup⟩ := hholds.split hnodup hannss
    have hwell := (wellTyped_of_inferExpr hcondition hstands.looks hnodupc hholdsc).1
    exact ⟨⟨hwell, ihb hstands.ifThen hbody hnodupb hholdsb⟩, ih hstands.tail h hnodup hholds⟩
  | ifThenElse condition body otherwise elseTag tag ss ihb iho ih =>
    obtain ⟨types₁, hs, h⟩ := checkBlock_cons_eq_ok_iff.mp h
    obtain ⟨ty, types₂, types₃, hcondition, hbody, hotherwise⟩ :=
      checkStmt_ifThenElse_eq_ok_iff.mp hs
    rw [exprIds_cons_ifThenElse] at hnodup hholds
    have hannss := annotates_of_checkBlock ss h
    have hanno := (annotates_of_checkBlock otherwise hotherwise).trans hannss
    obtain ⟨⟨hholdsc, hnodupc⟩, hholds, hnodup⟩ :=
      hholds.split hnodup ((annotates_of_checkBlock body hbody).trans hanno)
    obtain ⟨⟨hholdsb, hnodupb⟩, hholds, hnodup⟩ := hholds.split hnodup hanno
    obtain ⟨⟨hholdso, hnodupo⟩, hholds, hnodup⟩ := hholds.split hnodup hannss
    have hwell := (wellTyped_of_inferExpr hcondition hstands.looks hnodupc hholdsc).1
    exact ⟨⟨hwell, ihb hstands.ifThenElse hbody hnodupb hholdsb,
      iho hstands.branch hotherwise hnodupo hholdso⟩, ih hstands.tail h hnodup hholds⟩

/-- A block that some assignment fits is accepted, with the types of the
    assignment. -/
theorem checkBlock_of_blockWellTyped (body : List Stmt)
    (hstands : Stands symbols p node around body) (h : blockWellTyped A around body)
    (types : TypeTable) :
    ∃ types', checkBlock symbols types body = .ok types' ∧
      Holds A (exprIds (blockNodes body)) types' := by
  -- On the block, from any table: what was recorded before does not matter.
  induction body using blockInduction generalizing types node around with
  | nil => exact ⟨types, rfl, nofun⟩
  | declaration target ty value tag ss ih =>
    obtain ⟨⟨hwell, hty⟩, h⟩ := h
    obtain ⟨types₁, hvalue, hholdsv⟩ :=
      inferExpr_of_wellTyped (e := value) hstands.looks hwell types
    obtain ⟨types', hss, hholds⟩ := ih hstands.tail h types₁
    rw [hty] at hvalue
    refine ⟨types', checkBlock_cons_eq_ok_iff.mpr
      ⟨types₁, checkStmt_declaration_eq_ok_iff.mpr hvalue, hss⟩, ?_⟩
    rw [exprIds_cons_declaration]
    exact hholdsv.append hholds (annotates_of_checkBlock ss hss)
  | assignment target value tag ss ih =>
    obtain ⟨⟨hwell, hty⟩, h⟩ := h
    obtain ⟨types₁, hvalue, hholdsv⟩ :=
      inferExpr_of_wellTyped (e := value) hstands.looks hwell types
    obtain ⟨types', hss, hholds⟩ := ih hstands.tail h types₁
    have htarget := (hstands.typeOf_iff List.mem_cons_self (A value.id)).mpr hty
    refine ⟨types', checkBlock_cons_eq_ok_iff.mpr
      ⟨types₁, checkStmt_assignment_eq_ok_iff.mpr ⟨_, htarget, hvalue⟩, hss⟩, ?_⟩
    rw [exprIds_cons_assignment]
    exact hholdsv.append hholds (annotates_of_checkBlock ss hss)
  | print value tag ss ih =>
    obtain ⟨hwell, h⟩ := h
    obtain ⟨types₁, hvalue, hholdsv⟩ :=
      inferExpr_of_wellTyped (e := value) hstands.looks hwell types
    obtain ⟨types', hss, hholds⟩ := ih hstands.tail h types₁
    refine ⟨types', checkBlock_cons_eq_ok_iff.mpr
      ⟨types₁, checkStmt_print_eq_ok_iff.mpr ⟨_, hvalue⟩, hss⟩, ?_⟩
    rw [exprIds_cons_print]
    exact hholdsv.append hholds (annotates_of_checkBlock ss hss)
  | whileDo condition body tag ss ihb ih =>
    obtain ⟨⟨hwell, hbody⟩, h⟩ := h
    obtain ⟨types₁, hcondition, hholdsc⟩ :=
      inferExpr_of_wellTyped (e := condition) hstands.looks hwell types
    obtain ⟨types₂, hb, hholdsb⟩ := ihb hstands.whileDo hbody types₁
    obtain ⟨types', hss, hholds⟩ := ih hstands.tail h types₂
    refine ⟨types', checkBlock_cons_eq_ok_iff.mpr
      ⟨types₂, checkStmt_whileDo_eq_ok_iff.mpr ⟨_, types₁, hcondition, hb⟩, hss⟩, ?_⟩
    have hannss := annotates_of_checkBlock ss hss
    rw [exprIds_cons_whileDo]
    exact hholdsc.append (hholdsb.append hholds hannss)
      ((annotates_of_checkBlock body hb).trans hannss)
  | ifThen condition body tag ss ihb ih =>
    obtain ⟨⟨hwell, hbody⟩, h⟩ := h
    obtain ⟨types₁, hcondition, hholdsc⟩ :=
      inferExpr_of_wellTyped (e := condition) hstands.looks hwell types
    obtain ⟨types₂, hb, hholdsb⟩ := ihb hstands.ifThen hbody types₁
    obtain ⟨types', hss, hholds⟩ := ih hstands.tail h types₂
    refine ⟨types', checkBlock_cons_eq_ok_iff.mpr
      ⟨types₂, checkStmt_ifThen_eq_ok_iff.mpr ⟨_, types₁, hcondition, hb⟩, hss⟩, ?_⟩
    have hannss := annotates_of_checkBlock ss hss
    rw [exprIds_cons_ifThen]
    exact hholdsc.append (hholdsb.append hholds hannss)
      ((annotates_of_checkBlock body hb).trans hannss)
  | ifThenElse condition body otherwise elseTag tag ss ihb iho ih =>
    obtain ⟨⟨hwell, hbody, hotherwise⟩, h⟩ := h
    obtain ⟨types₁, hcondition, hholdsc⟩ :=
      inferExpr_of_wellTyped (e := condition) hstands.looks hwell types
    obtain ⟨types₂, hb, hholdsb⟩ := ihb hstands.ifThenElse hbody types₁
    obtain ⟨types₃, ho, hholdso⟩ := iho hstands.branch hotherwise types₂
    obtain ⟨types', hss, hholds⟩ := ih hstands.tail h types₃
    refine ⟨types', checkBlock_cons_eq_ok_iff.mpr ⟨types₃, checkStmt_ifThenElse_eq_ok_iff.mpr
      ⟨_, types₁, types₂, hcondition, hb, ho⟩, hss⟩, ?_⟩
    have hannss := annotates_of_checkBlock ss hss
    have hanno := (annotates_of_checkBlock otherwise ho).trans hannss
    rw [exprIds_cons_ifThenElse]
    exact hholdsc.append (hholdsb.append (hholdso.append hholds hannss) hanno)
      ((annotates_of_checkBlock body hb).trans hanno)

end

/-! ### Programs -/

theorem check_eq_ok_iff {resolved : Resolved} {checked : Checked} :
    check resolved = .ok checked ↔
      checkBlock resolved.symbols ∅ resolved.program.body = .ok checked.types ∧
        checked.resolved = resolved := by
  simp only [check, inferTypes, Result.bind_eq_ok_iff, Result.pure_eq_ok_iff]
  constructor
  · intro h
    obtain ⟨types, h, rfl⟩ := h
    exact ⟨h, rfl⟩
  · intro h
    obtain ⟨h, rfl⟩ := h
    exact ⟨checked.types, h, rfl⟩

theorem Program.nodup_exprIds {p : Program} (h : p.ids.Nodup) : (exprIds p.nodes).Nodup :=
  (List.nodup_cons.mp h).2.sublist (List.filter_sublist.map Node.id)

section

variable {resolved : Resolved} {checked : Checked}

/-- Exactly the expressions of the program get a type. -/
theorem isSome_types_iff (h : check resolved = .ok checked) (id : NodeId) :
    (checked.types[id]?).isSome ↔ id ∈ exprIds resolved.program.nodes := by
  have hann := annotates_of_checkBlock _ (check_eq_ok_iff.mp h).1
  refine ⟨fun hsome => ?_, hann.typed⟩
  by_contra hid
  rw [hann.kept hid, Std.ExtTreeMap.getElem?_empty] at hsome
  cases hsome

/-- An assignment fits a checked program when the types are its own. -/
theorem wellTyped_iff_holds (hmirrors : resolved.symbols.Mirrors resolved.program)
    (hids : resolved.program.ids.Nodup) (h : check resolved = .ok checked) (A : Assignment) :
    resolved.program.WellTyped A ↔ Holds A (exprIds resolved.program.nodes) checked.types := by
  have hstands := Stands.root hmirrors hids
  have hblock := (check_eq_ok_iff.mp h).1
  constructor
  · intro hwell
    obtain ⟨types, htypes, hholds⟩ := checkBlock_of_blockWellTyped _ hstands hwell ∅
    rw [hblock] at htypes
    cases htypes
    exact hholds
  · exact blockWellTyped_of_checkBlock _ hstands hblock (Program.nodup_exprIds hids)

/-- Some assignment fits a program that passes the check. -/
theorem exists_wellTyped_of_check (hmirrors : resolved.symbols.Mirrors resolved.program)
    (hids : resolved.program.ids.Nodup) (h : check resolved = .ok checked) :
    ∃ A, resolved.program.WellTyped A := by
  -- Identities of other nodes may have any type.
  refine ⟨fun id => (checked.types[id]?).getD .int,
    (wellTyped_iff_holds hmirrors hids h _).mpr fun id hid => ?_⟩
  obtain ⟨ty, hty⟩ := Option.isSome_iff_exists.mp ((isSome_types_iff h id).mpr hid)
  rw [hty, Option.getD_some]

/-- A program that some assignment fits passes the check. -/
theorem exists_check_of_wellTyped (hmirrors : resolved.symbols.Mirrors resolved.program)
    (hids : resolved.program.ids.Nodup) {A : Assignment} (hwell : resolved.program.WellTyped A) :
    ∃ checked, check resolved = .ok checked := by
  obtain ⟨types, htypes, -⟩ :=
    checkBlock_of_blockWellTyped _ (Stands.root hmirrors hids) hwell ∅
  exact ⟨⟨resolved, types⟩, check_eq_ok_iff.mpr ⟨htypes, rfl⟩⟩

end

/-- Once a program is resolved, with or without shadowing, it passes the check
    exactly when some assignment of types fits it.  The types that the check
    gives are then those of the assignment, and exactly the expressions of the
    program have one. -/
theorem check_succeeds_iff_wellTyped {source file : String} {p : Program} {allow : Bool}
    {resolved : Resolved} (hread : readProgram source file = .ok p)
    (hresolve : resolveWith (SymbolTable.new.withShadowing allow) p = .ok resolved) :
    ((∃ checked, check resolved = .ok checked) ↔ ∃ A, p.WellTyped A) ∧
    ∀ checked, check resolved = .ok checked →
      (∀ id, (checked.types[id]?).isSome ↔ ∃ e, Node.expr e ∈ p.nodes ∧ e.id = id) ∧
      ∀ A, p.WellTyped A ↔
        ∀ e, Node.expr e ∈ p.nodes → checked.types[e.id]? = some (A e.id) := by
  obtain ⟨ts, -, hparse⟩ := Result.bind_eq_ok_iff.mp hread
  have hids := Program.nodup_ids_of_parse hparse
  obtain ⟨rfl, hmirrors⟩ := SymbolTable.mirrors_of_resolveWith hids hresolve
  refine ⟨⟨?_, ?_⟩, fun checked h => ⟨fun id => (isSome_types_iff h id).trans mem_exprIds,
    fun A => (wellTyped_iff_holds hmirrors hids h A).trans ⟨?_, ?_⟩⟩⟩
  · intro h
    obtain ⟨checked, h⟩ := h
    exact exists_wellTyped_of_check hmirrors hids h
  · intro h
    obtain ⟨A, hwell⟩ := h
    exact exists_check_of_wellTyped hmirrors hids hwell
  · intro hholds e he
    exact hholds e.id (mem_exprIds.mpr ⟨e, he, rfl⟩)
  · intro hall id hid
    obtain ⟨e, he, rfl⟩ := mem_exprIds.mp hid
    exact hall e he

/-- A name that an inner block declares anew has another type inside. -/
theorem check_succeeds_iff_wellTyped_of_shadowing :
    ∃ p resolved,
      readProgram "var x:int = 1; if x < 2 do var x:string = 'a'; print x + 'b'; end" "" = .ok p ∧
      resolveWith (SymbolTable.new.withShadowing true) p = .ok resolved ∧
      ∃ A, p.WellTyped A := by
  let source := "var x:int = 1; if x < 2 do var x:string = 'a'; print x + 'b'; end"
  have hok : (readProgram source "" >>= fun p =>
      resolveWith (SymbolTable.new.withShadowing true) p >>= check).isOk := by
    decide +kernel
  obtain ⟨checked, hchecked⟩ := Result.exists_of_isOk hok
  obtain ⟨p, hread, hchecked⟩ := Result.bind_eq_ok_iff.mp hchecked
  obtain ⟨resolved, hresolve, hchecked⟩ := Result.bind_eq_ok_iff.mp hchecked
  exact ⟨p, resolved, hread, hresolve,
    (check_succeeds_iff_wellTyped hread hresolve).1.mp ⟨checked, hchecked⟩⟩

end BlockLang
