import BlockLang.Proofs.Scope.Sight
import BlockLang.Proofs.Typing.Recursion

/-! # Well-typed programs — an assignment of types that fits

  An assignment gives the nodes of expressions types.  It fits a program when
  every literal has its own type, every identifier the type of its name in
  the blocks around it, every operation the type of its result, and every
  value the type of the variable that it goes into.  The blocks around are
  known by what they declare; no scope and no table is mentioned. -/

namespace BlockLang

/-- Types for nodes, by their identities. -/
abbrev Assignment : Type := NodeId → Ty

/-! ### What fits -/

/-- The assignment fits an expression that stands in the given surroundings. -/
def Expr.WellTyped (A : Assignment) (around : Surroundings) : Expr → Prop
  | .binary left operator right tag =>
      left.WellTyped A around ∧ right.WellTyped A around ∧
        operator.resultType (A left.id) (A right.id) = .ok (A tag.id)
  | .identifier ident => around.type? ident.name = some (A ident.tag.id)
  | .literal value tag => A tag.id = value.ty

mutual

/-- The assignment fits a statement that stands in the given surroundings. -/
def Stmt.WellTyped (A : Assignment) (around : Surroundings) : Stmt → Prop
  | .declaration _ ty value _ => value.WellTyped A around ∧ A value.id = ty
  | .assignment target value _ =>
      value.WellTyped A around ∧ around.type? target.name = some (A value.id)
  | .print value _ => value.WellTyped A around
  | .whileDo condition body _ | .ifThen condition body _ =>
      condition.WellTyped A around ∧ blockWellTyped A (declarations body :: around) body
  | .ifThenElse condition body otherwise _ _ =>
      condition.WellTyped A around ∧ blockWellTyped A (declarations body :: around) body ∧
        blockWellTyped A (declarations otherwise :: declarations body :: around) otherwise

/-- The assignment fits the statements of a block.  What the block declares is
    the first of the surroundings. -/
def blockWellTyped (A : Assignment) (around : Surroundings) : List Stmt → Prop
  | [] => True
  | s :: ss => s.WellTyped A around ∧ blockWellTyped A around ss

end

/-- The assignment fits a program. -/
def Program.WellTyped (A : Assignment) (p : Program) : Prop :=
  blockWellTyped A [declarations p.body] p.body

/-! ### Tables -/

/-- Exactly the given nodes get a type. -/
structure Annotates (ids : List NodeId) (types types' : TypeTable) : Prop where
  kept : ∀ {id}, id ∉ ids → types'[id]? = types[id]?
  typed : ∀ {id}, id ∈ ids → (types'[id]?).isSome

/-- The given nodes have the types of the assignment. -/
def Holds (A : Assignment) (ids : List NodeId) (types : TypeTable) : Prop :=
  ∀ id ∈ ids, types[id]? = some (A id)

section

variable {A : Assignment} {ids ids' : List NodeId} {types types' types'' : TypeTable}

theorem Annotates.nil (types : TypeTable) : Annotates [] types types := ⟨fun _ => rfl, nofun⟩

theorem Annotates.trans (h₁ : Annotates ids types types') (h₂ : Annotates ids' types' types'') :
    Annotates (ids ++ ids') types types'' where
  kept hid := by
    rw [List.mem_append, not_or] at hid
    rw [h₂.kept hid.2, h₁.kept hid.1]
  typed {id} hid := by
    by_cases hid' : id ∈ ids'
    · exact h₂.typed hid'
    · rw [h₂.kept hid']
      exact h₁.typed ((List.mem_append.mp hid).resolve_right hid')

theorem getElem?_insert_eq (types : TypeTable) (id other : NodeId) (ty : Ty) :
    (types.insert id ty)[other]? = if id = other then some ty else types[other]? := by
  rw [Std.ExtTreeMap.getElem?_insert]
  simp only [Std.LawfulEqCmp.compare_eq_iff_eq]

theorem annotates_insert (types : TypeTable) (id : NodeId) (ty : Ty) :
    Annotates [id] types (types.insert id ty) where
  kept {other} h := by
    rw [getElem?_insert_eq, if_neg (Ne.symm (List.ne_of_not_mem_cons h))]
  typed {other} h := by
    rw [getElem?_insert_eq, if_pos (List.mem_singleton.mp h).symm]
    rfl

theorem Annotates.of_perm (h : Annotates ids types types') (hperm : ids.Perm ids') :
    Annotates ids' types types' :=
  ⟨fun hid => h.kept (mt hperm.mem_iff.mp hid), fun hid => h.typed (hperm.mem_iff.mpr hid)⟩

theorem holds_append :
    Holds A (ids ++ ids') types ↔ Holds A ids types ∧ Holds A ids' types :=
  List.forall_mem_append

/-- A node that was just recorded has the type that it was given. -/
theorem holds_insert_iff {id : NodeId} {ty : Ty} :
    Holds A [id] (types.insert id ty) ↔ A id = ty := by
  rw [Holds, List.forall_mem_singleton, getElem?_insert_eq, if_pos rfl, Option.some.injEq, eq_comm]

/-- What is recorded last stands in both tables or is recorded there anew. -/
theorem Holds.append (h : Holds A ids types) (h' : Holds A ids' types')
    (hann : Annotates ids' types types') : Holds A (ids ++ ids') types' := by
  refine holds_append.mpr ⟨fun id hid => ?_, h'⟩
  by_cases hid' : id ∈ ids'
  · exact h' id hid'
  · rw [hann.kept hid', h id hid]

/-- Nodes that are not recorded anew had their types before. -/
theorem Holds.split (h : Holds A (ids ++ ids') types') (hnodup : (ids ++ ids').Nodup)
    (hann : Annotates ids' types types') :
    (Holds A ids types ∧ ids.Nodup) ∧ Holds A ids' types' ∧ ids'.Nodup := by
  obtain ⟨hfirst, hsecond⟩ := holds_append.mp h
  obtain ⟨hnodup₁, hnodup₂, hdisjoint⟩ := List.nodup_append'.mp hnodup
  refine ⟨⟨fun id hid => ?_, hnodup₁⟩, hsecond, hnodup₂⟩
  rw [← hann.kept (hdisjoint hid)]
  exact hfirst id hid

theorem Holds.of_perm (h : Holds A ids types) (hperm : ids.Perm ids') : Holds A ids' types :=
  fun id hid => h id (hperm.mem_iff.mpr hid)

end

/-! ### Expressions -/

theorem Operation.type_eq_ok_iff {o : Operation} {start : Position} {left right ty : Ty} :
    o.type start left right = .ok ty ↔ o.operator.resultType left right = .ok ty := by
  rw [Operation.type]
  cases o.operator.resultType left right <;> simp

/-- The identities of an expression. -/
def Expr.ids (e : Expr) : List NodeId := e.nodes.map Node.id

/-- The right part is numbered apart from the left part, and the operation from
    both. -/
theorem Expr.ids_binary_perm (left : Expr) (operator : Operator) (right : Expr) (tag : Tag) :
    (binary left operator right tag).ids.Perm (left.ids ++ (right.ids ++ [tag.id])) := by
  rw [ids, nodes_binary, List.map_cons, List.map_append, ← List.append_assoc]
  exact (List.perm_append_singleton tag.id (left.ids ++ right.ids)).symm

section

variable {symbols : SymbolTable} {types types' : TypeTable} {A : Assignment}
  {around : Surroundings} {e : Expr} {ty : Ty}

theorem inferExpr_binary_eq_ok_iff {left right : Expr} {operator : Operator} {tag : Tag} :
    inferExpr symbols types (.binary left operator right tag) = .ok (ty, types') ↔
      ∃ leftType types₁ rightType types₂, inferExpr symbols types left = .ok (leftType, types₁) ∧
        inferExpr symbols types₁ right = .ok (rightType, types₂) ∧
        operator.resultType leftType rightType = .ok ty ∧ types₂.insert tag.id ty = types' := by
  simp only [inferExpr, Result.bind_eq_ok_iff, Result.pure_eq_ok_iff, Operation.type_eq_ok_iff,
    Prod.exists, Prod.mk.injEq]
  constructor
  · intro h
    obtain ⟨leftType, types₁, hleft, rightType, types₂, hright, ty', hty, rfl, rfl⟩ := h
    exact ⟨leftType, types₁, rightType, types₂, hleft, hright, hty, rfl⟩
  · intro h
    obtain ⟨leftType, types₁, rightType, types₂, hleft, hright, hty, rfl⟩ := h
    exact ⟨leftType, types₁, hleft, rightType, types₂, hright, ty, hty, rfl, rfl⟩

/-- Typing an expression records a type for each of its nodes, its own last. -/
theorem annotates_of_inferExpr (h : inferExpr symbols types e = .ok (ty, types')) :
    Annotates e.ids types types' ∧ types'[e.id]? = some ty := by
  induction e generalizing types types' ty with
  | binary left operator right tag ihl ihr =>
    obtain ⟨leftType, types₁, rightType, types₂, hleft, hright, -, rfl⟩ :=
      inferExpr_binary_eq_ok_iff.mp h
    -- The table grows by the left side, by the right side, and by the operation.
    have hall := (ihl hleft).1.trans ((ihr hright).1.trans (annotates_insert types₂ tag.id ty))
    refine ⟨hall.of_perm (Expr.ids_binary_perm left operator right tag).symm, ?_⟩
    rw [getElem?_insert_eq]
    exact if_pos rfl
  | identifier ident =>
    obtain ⟨ty', -, h⟩ := Result.bind_eq_ok_iff.mp h
    cases h
    exact ⟨annotates_insert types ident.tag.id ty, by rw [getElem?_insert_eq]; exact if_pos rfl⟩
  | literal value tag =>
    cases h
    exact ⟨annotates_insert types tag.id value.ty, by rw [getElem?_insert_eq]; exact if_pos rfl⟩

/-- What typing records fits the expression. -/
theorem wellTyped_of_inferExpr (h : inferExpr symbols types e = .ok (ty, types'))
    (hlook : Looks symbols around e) (hnodup : e.ids.Nodup) (hholds : Holds A e.ids types') :
    e.WellTyped A around ∧ A e.id = ty := by
  induction e generalizing types types' ty with
  | binary left operator right tag ihl ihr =>
    obtain ⟨leftType, types₁, rightType, types₂, hleft, hright, hty, rfl⟩ :=
      inferExpr_binary_eq_ok_iff.mp h
    have hperm := Expr.ids_binary_perm left operator right tag
    have hself := annotates_insert types₂ tag.id ty
    -- No identity occurs twice, so what is recorded for one part stays when the next is
    -- recorded.
    obtain ⟨⟨hholdsl, hnodupl⟩, hholds, hnodup⟩ := (hholds.of_perm hperm).split
      (hperm.nodup_iff.mp hnodup) ((annotates_of_inferExpr hright).1.trans hself)
    obtain ⟨⟨hholdsr, hnodupr⟩, hholds, -⟩ := hholds.split hnodup hself
    obtain ⟨hlookl, hlookr⟩ := looks_binary_iff.mp hlook
    obtain ⟨hwelll, hl⟩ := ihl hleft hlookl hnodupl hholdsl
    obtain ⟨hwellr, hr⟩ := ihr hright hlookr hnodupr hholdsr
    have htag : A tag.id = ty := holds_insert_iff.mp hholds
    refine ⟨⟨hwelll, hwellr, ?_⟩, htag⟩
    rw [hl, hr, hty, htag]
  | identifier ident =>
    obtain ⟨ty', hty, h⟩ := Result.bind_eq_ok_iff.mp h
    cases h
    have hself : A ident.tag.id = ty := holds_insert_iff.mp hholds
    refine ⟨?_, hself⟩
    rw [Expr.WellTyped, (hlook List.mem_cons_self).mp hty, hself]
  | literal value tag =>
    cases h
    have hself : A tag.id = value.ty := holds_insert_iff.mp hholds
    exact ⟨hself, hself⟩

/-- An expression that some assignment fits is typed, with the types of the
    assignment. -/
theorem inferExpr_of_wellTyped (hlook : Looks symbols around e) (h : e.WellTyped A around)
    (types : TypeTable) :
    ∃ types', inferExpr symbols types e = .ok (A e.id, types') ∧ Holds A e.ids types' := by
  induction e generalizing types with
  | binary left operator right tag ihl ihr =>
    obtain ⟨hwelll, hwellr, hty⟩ := h
    obtain ⟨hlookl, hlookr⟩ := looks_binary_iff.mp hlook
    obtain ⟨types₁, hleft, hholdsl⟩ := ihl hlookl hwelll types
    obtain ⟨types₂, hright, hholdsr⟩ := ihr hlookr hwellr types₁
    refine ⟨types₂.insert tag.id (A tag.id), inferExpr_binary_eq_ok_iff.mpr
      ⟨_, types₁, _, types₂, hleft, hright, hty, rfl⟩, ?_⟩
    have hself := annotates_insert types₂ tag.id (A tag.id)
    have hholdsSelf : Holds A [tag.id] (types₂.insert tag.id (A tag.id)) :=
      holds_insert_iff.mpr rfl
    have hann := (annotates_of_inferExpr hright).1.trans hself
    exact (hholdsl.append (hholdsr.append hholdsSelf hself) hann).of_perm
      (Expr.ids_binary_perm left operator right tag).symm
  | identifier ident =>
    have hty := (hlook List.mem_cons_self).mpr h
    refine ⟨types.insert ident.tag.id (A ident.tag.id), ?_, ?_⟩
    · rw [inferExpr, Result.bind_of_ok hty]
      rfl
    · exact holds_insert_iff.mpr rfl
  | literal value tag =>
    refine ⟨types.insert tag.id value.ty, ?_, ?_⟩
    · rw [inferExpr, show A (Expr.literal value tag).id = value.ty from h]
      rfl
    · exact holds_insert_iff.mpr h

end

end BlockLang
