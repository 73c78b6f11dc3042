import BlockLang.Compile
import BlockLang.Proofs.Program.Nodes
import BlockLang.Proofs.Scope.Action
import BlockLang.Proofs.Scope.Growth
import Mathlib.Data.List.Chain
import Mathlib.Logic.Relation

/-! # Runs — what callers can do with a symbol table

  A caller starts from an empty table and applies actions to it, in any
  order: whole programs may be resolved on it, and scopes opened, closed and
  filled by hand.

  Every action is a row of edits, the least changes of a table; this holds of
  resolving a program too, and an action that fails makes none.  So the
  invariant is shown edit by edit:

  - the root lies in no scope, and every other scope lies in one with a
    smaller number, so a walk from scope to scope comes to an end;
  - the open scopes lie in each other, and the outermost is the root;
  - scopes keep their numbers, the scopes around them, and their names. -/

namespace BlockLang

namespace SymbolTable

/-! ### Steps -/

/-- The caller has the table `t`, does `a`, and has `t'`. -/
inductive Step (t : SymbolTable) (a : Action) : SymbolTable → Prop where
  | done {t'} : a.run t = .ok () t' → Step t a t'
  /-- After an error the caller goes on with what the action has left. -/
  | failed {error t'} : a.run t = .error error t' → Step t a t'

theorem Step.of_result {t t' : SymbolTable} {a : Action} (h : a.result t = .ok t') :
    t.Step a t' :=
  .done (Action.run_eq_ok_iff.mpr h)

/-- Some actions, one after the other, lead from the one table to the other. -/
abbrev Reaches : SymbolTable → SymbolTable → Prop :=
  Relation.ReflTransGen fun t t' => ∃ a, Step t a t'

/-- A caller can come to the table. -/
def Reachable (t : SymbolTable) : Prop := Reaches new t

/-! ### Edits -/

/-- The least changes of a table. -/
inductive Edit (t : SymbolTable) : SymbolTable → Prop where
  | withShadowing (allow : Bool) : Edit t (t.withShadowing allow)
  | openScope : Edit t t.openScope
  | closeScope : Edit t t.closeScope
  | stamp (node : NodeId) (id : ScopeId) : Edit t (t.stamp node id)
  | declareIn {id name ty position t'} : t.declareIn id name ty position = .ok t' → Edit t t'

/-- The one table comes from the other by a row of edits. -/
abbrev Edits : SymbolTable → SymbolTable → Prop := Relation.ReflTransGen Edit

section

variable {t t' t'' : SymbolTable} {id : ScopeId} {name : String} {ty : Ty} {position : Position}

/-- A declaration changes one scope, or none where there is no such scope. -/
theorem declareIn_eq_ok (h : t.declareIn id name ty position = .ok t') :
    t'.inner = t.inner ∧ t'.size = t.size ∧ t'.nodeScopes = t.nodeScopes ∧
      (t' = t ∨ ∃ s s', t.scope? id = some s ∧ s.declare name ty position = .ok s' ∧
        ∀ k, t'.scope? k = if id = k then some s' else t.scope? k) := by
  unfold declareIn at h
  cases hs : t.scope? id with
  | none =>
    rw [hs] at h
    cases h
    exact ⟨rfl, rfl, rfl, .inl rfl⟩
  | some s =>
    rw [hs] at h
    obtain ⟨s', hdeclare, h⟩ := Result.bind_eq_ok_iff.mp h
    cases h
    exact ⟨rfl, Array.size_setIfInBounds .., rfl, .inr ⟨s, s', rfl, hdeclare, scope?_set hs⟩⟩

theorem edit_of_declare {ident : Ident} (h : t.declare ident ty = .ok t') : t.Edit t' := by
  unfold declare at h
  split at h
  · cases h
  · exact .declareIn h

theorem edits_stampExpr (t : SymbolTable) (id : ScopeId) (e : Expr) :
    t.Edits (t.stampExpr id e) := by
  induction e generalizing t with
  | binary left operator right tag ihl ihr => exact (ihr t).trans (ihl _)
  | identifier ident => exact .single (.stamp ident.tag.id id)
  | literal value tag => exact .refl

theorem edits_openBlock (t : SymbolTable) (node : NodeId) : t.Edits (t.openBlock node) :=
  .tail (.single .openScope) (.stamp node _)

/-- A condition is put into the current scope, and then a block is opened. -/
theorem edits_govern (t : SymbolTable) (condition : Expr) (node : NodeId) :
    t.Edits ((t.stampExpr t.current condition).openBlock node) :=
  (edits_stampExpr t t.current condition).trans (edits_openBlock _ node)

/-- A statement and then the rest of its block. -/
theorem edits_cons {s : Stmt} {ss : List Stmt}
    (hs : ∀ {t₁}, t.resolveStmt s = .ok t₁ → t.Edits t₁)
    (hss : ∀ {t₁ : SymbolTable}, t₁.resolveBlock ss = .ok t' → t₁.Edits t')
    (h : t.resolveBlock (s :: ss) = .ok t') : t.Edits t' := by
  obtain ⟨t₁, hfirst, hrest⟩ := Result.bind_eq_ok_iff.mp h
  exact (hs hfirst).trans (hss hrest)

/-- Resolving a block is a row of edits. -/
theorem edits_of_resolveBlock {body : List Stmt} (h : t.resolveBlock body = .ok t') :
    t.Edits t' := by
  induction body using blockInduction generalizing t t' with
  | nil =>
    cases h
    exact .refl
  | declaration target ty value tag ss ih =>
    refine edits_cons (fun hs => ?_) ih h
    obtain ⟨t₁, hdeclare, hs⟩ := Result.bind_eq_ok_iff.mp hs
    cases hs
    have hbound : t.Edits (t₁.stamp target.tag.id t.current) :=
      .tail (.single (edit_of_declare hdeclare)) (.stamp target.tag.id t.current)
    exact (hbound.trans (edits_stampExpr _ t.current value)).tail (.stamp tag.id t.current)
  | assignment target value tag ss ih =>
    refine edits_cons (fun hs => ?_) ih h
    cases hs
    exact .trans (.single (.stamp target.tag.id t.current)) (edits_stampExpr _ t.current value)
  | print value tag ss ih =>
    refine edits_cons (fun hs => ?_) ih h
    cases hs
    exact edits_stampExpr t t.current value
  | whileDo condition body tag ss ihb ih | ifThen condition body tag ss ihb ih =>
    refine edits_cons (fun hs => ?_) ih h
    obtain ⟨t₁, hbody, hs⟩ := Result.bind_eq_ok_iff.mp hs
    cases hs
    exact ((edits_govern t condition tag.id).trans (ihb hbody)).tail .closeScope
  | ifThenElse condition body otherwise elseTag tag ss ihb iho ih =>
    refine edits_cons (fun hs => ?_) ih h
    obtain ⟨t₁, hbody, hs⟩ := Result.bind_eq_ok_iff.mp hs
    obtain ⟨t₂, hotherwise, hs⟩ := Result.bind_eq_ok_iff.mp hs
    cases hs
    have hbranch : t₁.Edits t₂ := (edits_openBlock t₁ elseTag.id).trans (iho hotherwise)
    have hall : t.Edits t₂ := ((edits_govern t condition tag.id).trans (ihb hbody)).trans hbranch
    exact (hall.tail .closeScope).tail .closeScope

/-- Closing all scopes is closing one after the other. -/
theorem edits_closeAll (t : SymbolTable) : t.Edits t.closeAll := by
  obtain ⟨scopes, inner, nodeScopes, shadowing⟩ := t
  induction inner with
  | nil => exact .refl
  | cons id inner ih => exact .head .closeScope ih

/-- Resolving a program is a row of edits. -/
theorem edits_of_resolveWith {p : Program} {resolved : Resolved}
    (h : resolveWith t p = .ok resolved) : t.Edits resolved.symbols := by
  obtain ⟨t₁, hbody, h⟩ := Result.bind_eq_ok_iff.mp h
  cases h
  exact ((edits_closeAll t).tail (.stamp p.tag.id root)).trans (edits_of_resolveBlock hbody)

/-- Every step is a row of edits. -/
theorem Step.edits {a : Action} (h : t.Step a t') : t.Edits t' := by
  cases h with
  | failed h =>
    rw [Action.eq_of_run_eq_error h]
  | done h =>
    rw [Action.run_eq_ok_iff] at h
    cases a with
    | withShadowing allow =>
      cases h
      exact .single (.withShadowing allow)
    | declareRoot name ty position => exact .single (.declareIn h)
    | openScope =>
      cases h
      exact .single .openScope
    | closeScope =>
      cases h
      exact .single .closeScope
    | declare ident ty => exact .single (edit_of_declare h)
    | stamp node id =>
      cases h
      exact .single (.stamp node id)
    | resolve program =>
      obtain ⟨resolved, hresolve, h⟩ := Result.bind_eq_ok_iff.mp h
      cases h
      exact edits_of_resolveWith hresolve

theorem Reaches.edits (h : t.Reaches t') : t.Edits t' := by
  induction h with
  | refl => exact .refl
  | tail _ hstep ih =>
    obtain ⟨a, hstep⟩ := hstep
    exact ih.trans hstep.edits

/-! ### What is kept -/

/-- Scopes keep their numbers and the scopes around them, and names that are
    bound keep their types. -/
def KeptBy (t t' : SymbolTable) : Prop :=
  ∀ id s, t.scope? id = some s → ∃ s', t'.scope? id = some s' ∧ s'.parent? = s.parent? ∧
    ∀ name ty, s.type? name = some ty → s'.type? name = some ty

theorem KeptBy.of_scopes_eq (h : t'.scopes = t.scopes) : t.KeptBy t' := by
  intro id s hs
  refine ⟨s, ?_, rfl, fun _ _ hty => hty⟩
  rw [scope?, h]
  exact hs

theorem KeptBy.trans (h₁ : t.KeptBy t') (h₂ : t'.KeptBy t'') : t.KeptBy t'' := by
  intro id s hs
  obtain ⟨s', hs', hparent, hnames⟩ := h₁ id s hs
  obtain ⟨s'', hs'', hparent', hnames'⟩ := h₂ id s' hs'
  refine ⟨s'', hs'', hparent'.trans hparent, ?_⟩
  intro name ty hty
  exact hnames' name ty (hnames name ty hty)

/-- A name that a scope binds cannot be declared in it again. -/
theorem keptBy_of_declareIn (h : t.declareIn id name ty position = .ok t') : t.KeptBy t' := by
  obtain ⟨-, -, -, rfl | ⟨s, s', hs, hdeclare, hscopes⟩⟩ := declareIn_eq_ok h
  · exact .of_scopes_eq rfl
  · intro k u hu
    rw [hscopes]
    by_cases hk : id = k
    · subst hk
      rw [hs] at hu
      cases hu
      have hbinds := Scope.Binds.of_declare hdeclare
      rw [if_pos rfl]
      refine ⟨s', rfl, hbinds.parent?, ?_⟩
      intro x xty hx
      exact (hbinds.type?_iff x xty).mpr (.inl hx)
    · rw [if_neg hk]
      exact ⟨u, hu, rfl, fun _ _ hty => hty⟩

theorem keptBy_openScope (t : SymbolTable) : t.KeptBy t.openScope := by
  intro id s hs
  refine ⟨s, ?_, rfl, fun _ _ hty => hty⟩
  rw [scope?_openScope, if_neg (Nat.ne_of_lt (lt_size_of_scope? hs)), hs]

theorem Edit.keptBy (h : t.Edit t') : t.KeptBy t' := by
  cases h with
  | withShadowing allow => exact .of_scopes_eq rfl
  | openScope => exact keptBy_openScope t
  | closeScope => exact .of_scopes_eq rfl
  | stamp node id => exact .of_scopes_eq rfl
  | declareIn h => exact keptBy_of_declareIn h

theorem Edits.keptBy (h : t.Edits t') : t.KeptBy t' := by
  induction h with
  | refl => exact .of_scopes_eq rfl
  | tail _ hedit ih => exact ih.trans hedit.keptBy

/-! ### The invariant -/

/-- The scope `id` lies directly in the scope `outer`. -/
def LiesIn (t : SymbolTable) (id outer : ScopeId) : Prop :=
  ∃ s, t.scope? id = some s ∧ s.parent? = some outer

/-- The open scopes, innermost first. -/
def path (t : SymbolTable) : List ScopeId := t.inner ++ [root]

/-- The scopes form a tree below the root, and the open ones a path in it. -/
structure WellFormed (t : SymbolTable) : Prop where
  root : ∃ s, t.scope? root = some s ∧ s.parent? = none
  below : ∀ {id}, id ≠ SymbolTable.root → id < t.size → ∃ outer < id, t.LiesIn id outer
  /-- The current scope and all around it exist, -/
  inside : ∀ id ∈ t.path, id < t.size
  /-- and each lies in the next one. -/
  nested : t.path.IsChain t.LiesIn

theorem LiesIn.keptBy {outer : ScopeId} (hin : t.LiesIn id outer) (h : t.KeptBy t') :
    t'.LiesIn id outer := by
  obtain ⟨s, hs, hparent⟩ := hin
  obtain ⟨s', hs', hparent', -⟩ := h id s hs
  exact ⟨s', hs', hparent'.trans hparent⟩

theorem wellFormed_new : new.WellFormed where
  root := ⟨.inside none, rfl, rfl⟩
  below := by
    intro id hid hlt
    exact absurd (Nat.lt_one_iff.mp hlt) hid
  inside := by
    intro id hid
    rw [List.mem_singleton.mp hid]
    exact Nat.one_pos
  nested := .singleton _

namespace WellFormed

theorem size_pos (h : t.WellFormed) : 0 < t.size := by
  obtain ⟨s, hs, -⟩ := h.root
  exact lt_size_of_scope? hs

theorem current_mem_path (t : SymbolTable) : t.current ∈ t.path := by
  unfold current path
  cases t.inner with
  | nil => exact List.mem_singleton_self _
  | cons id inner => exact List.mem_cons_self

theorem current_lt (h : t.WellFormed) : t.current < t.size := h.inside _ (current_mem_path t)

/-- An edit that adds no scope and keeps those that are there, and opens none. -/
theorem of_keptBy (h : t.WellFormed) (hkept : t.KeptBy t') (hsize : t'.size = t.size)
    (hpath : t'.path <:+ t.path) : t'.WellFormed where
  root := by
    obtain ⟨s, hs, hparent⟩ := h.root
    obtain ⟨s', hs', hparent', -⟩ := hkept _ s hs
    exact ⟨s', hs', hparent'.trans hparent⟩
  below := by
    intro id hid hlt
    obtain ⟨outer, houter, hin⟩ := h.below hid (hsize ▸ hlt)
    exact ⟨outer, houter, hin.keptBy hkept⟩
  inside := by
    intro id hid
    rw [hsize]
    exact h.inside id (hpath.subset hid)
  nested := (h.nested.suffix hpath).imp fun _ _ hin => hin.keptBy hkept

/-- A new scope lies in the current one. -/
theorem openScope (h : t.WellFormed) : t.openScope.WellFormed where
  root := by
    obtain ⟨s, hs, hparent⟩ := h.root
    obtain ⟨s', hs', hparent', -⟩ := keptBy_openScope t _ s hs
    exact ⟨s', hs', hparent'.trans hparent⟩
  below := by
    intro id hid hlt
    rw [size_openScope] at hlt
    by_cases hnew : id = t.size
    · refine ⟨t.current, hnew ▸ h.current_lt, .inside (some t.current), ?_, rfl⟩
      rw [scope?_openScope, if_pos hnew]
    · obtain ⟨outer, houter, hin⟩ := h.below hid
        (Nat.lt_of_le_of_ne (Nat.lt_succ_iff.mp hlt) hnew)
      exact ⟨outer, houter, hin.keptBy (keptBy_openScope t)⟩
  inside := by
    intro id hid
    rw [size_openScope]
    rcases List.mem_cons.mp hid with rfl | hid
    · exact Nat.lt_succ_self _
    · exact Nat.lt_succ_of_lt (h.inside id hid)
  nested := by
    have hin : t.openScope.LiesIn t.size t.current := by
      refine ⟨.inside (some t.current), ?_, rfl⟩
      rw [scope?_openScope, if_pos rfl]
    have hold : t.path.IsChain t.openScope.LiesIn :=
      h.nested.imp fun _ _ hin => hin.keptBy (keptBy_openScope t)
    show (t.size :: t.path).IsChain t.openScope.LiesIn
    -- The scope that was current so far comes next on the path.
    unfold path at hold ⊢
    unfold current at hin
    cases hinner : t.inner with
    | nil =>
      rw [hinner] at hold hin
      exact .cons_cons hin hold
    | cons id inner =>
      rw [hinner] at hold hin
      exact .cons_cons hin hold

/-- An edit keeps the invariant. -/
theorem edit (h : t.WellFormed) (hedit : t.Edit t') : t'.WellFormed := by
  have hkept := hedit.keptBy
  cases hedit with
  | withShadowing allow => exact h.of_keptBy hkept rfl (List.suffix_refl _)
  | openScope => exact h.openScope
  | closeScope =>
    refine h.of_keptBy hkept rfl ?_
    show t.inner.tail ++ [SymbolTable.root] <:+ t.inner ++ [SymbolTable.root]
    cases t.inner with
    | nil => exact List.suffix_refl _
    | cons id inner => exact List.suffix_cons id _
  | stamp node id => exact h.of_keptBy hkept rfl (List.suffix_refl _)
  | declareIn hdeclare =>
    obtain ⟨hinner, hsize, -⟩ := declareIn_eq_ok hdeclare
    have hpath : t'.path = t.path := congrArg (· ++ [SymbolTable.root]) hinner
    exact h.of_keptBy hkept hsize (hpath ▸ List.suffix_refl t.path)

theorem edits (h : t.WellFormed) (hedits : t.Edits t') : t'.WellFormed := by
  induction hedits with
  | refl => exact h
  | tail _ hedit ih => exact ih.edit hedit

end WellFormed

theorem Reachable.wellFormed (h : t.Reachable) : t.WellFormed := wellFormed_new.edits h.edits

/-! ### Lookups -/

/-- The scopes that a lookup from the given number passes, one after the other:
    the scope itself, the scope around it, and so on.  The walk ends at a scope
    that lies in none, or where there is no scope with the number. -/
inductive Walk (t : SymbolTable) : ScopeId → List Scope → Prop where
  | outside {k : ScopeId} : t.scope? k = none → Walk t k []
  | last {k : ScopeId} {s} : t.scope? k = some s → s.parent? = none → Walk t k [s]
  | outward {k outer : ScopeId} {s scopes} : t.scope? k = some s → s.parent? = some outer →
      Walk t outer scopes → Walk t k (s :: scopes)

/-- There is one walk from a number. -/
theorem Walk.unique {scopes scopes' : List Scope} (h : t.Walk id scopes)
    (h' : t.Walk id scopes') : scopes = scopes' := by
  induction h generalizing scopes' with
  | outside hs =>
    cases h' with
    | outside _ => rfl
    | last hs' _ => cases hs.symm.trans hs'
    | outward hs' _ _ => cases hs.symm.trans hs'
  | last hs hparent =>
    cases h' with
    | outside hs' => cases hs.symm.trans hs'
    | last hs' _ =>
      cases hs.symm.trans hs'
      rfl
    | outward hs' hparent' _ =>
      cases hs.symm.trans hs'
      cases hparent.symm.trans hparent'
  | outward hs hparent _ ih =>
    cases h' with
    | outside hs' => cases hs.symm.trans hs'
    | last hs' hparent' =>
      cases hs.symm.trans hs'
      cases hparent.symm.trans hparent'
    | outward hs' hparent' hrest =>
      cases hs.symm.trans hs'
      cases hparent.symm.trans hparent'
      rw [ih hrest]

/-- From a scope that lies in none only its own names are seen. -/
theorem type?_of_parent?_eq_none {s : Scope} (hs : t.scope? id = some s)
    (hparent : s.parent? = none) (name : String) : t.type? id name = s.type? name := by
  rw [type?, hs]
  simp only [hparent]
  cases s.type? name <;> rfl

/-- A lookup walks outwards, and gives the type in the first scope that binds
    the name. -/
theorem WellFormed.exists_walk (h : t.WellFormed) (id : ScopeId) :
    ∃ scopes, t.Walk id scopes ∧ scopes.length ≤ id + 1 ∧
      ∀ name, t.type? id name = scopes.findSome? (·.type? name) := by
  -- On the number, which gets smaller from a scope to the one around it.
  induction id using Nat.strongRecOn with
  | _ id ih =>
    cases hs : t.scope? id with
    | none =>
      refine ⟨[], .outside hs, Nat.zero_le _, ?_⟩
      intro name
      rw [type?, hs]
      rfl
    | some s =>
      cases hparent : s.parent? with
      | none =>
        refine ⟨[s], .last hs hparent, Nat.le_add_left 1 id, ?_⟩
        intro name
        rw [type?_of_parent?_eq_none hs hparent, List.findSome?_cons]
        cases s.type? name <;> rfl
      | some outer =>
        have hid : id ≠ SymbolTable.root := by
          rintro rfl
          obtain ⟨s', hs', hnone⟩ := h.root
          cases hs.symm.trans hs'
          cases hparent.symm.trans hnone
        obtain ⟨outer', hlt, s', hs', hparent'⟩ := h.below hid (lt_size_of_scope? hs)
        cases hs.symm.trans hs'
        cases hparent.symm.trans hparent'
        obtain ⟨scopes, hwalk, hlength, hscopes⟩ := ih outer hlt
        refine ⟨s :: scopes, .outward hs hparent hwalk, ?_, ?_⟩
        · exact Nat.succ_le_succ (Nat.le_trans hlength hlt)
        · intro name
          rw [type?, hs, List.findSome?_cons]
          simp only [hparent]
          cases s.type? name with
          | some ty => rfl
          | none => simp only [if_pos hlt, hscopes]

end

/-- Every table that a caller can come to is a tree of scopes with a path of
    open ones: the current scope exists, and closing leaves the root alone.
    Whatever is done later on keeps its scopes and names, and an action that
    fails changes nothing.  A lookup passes finitely many scopes, all the
    scopes around the first one in their order, and gives the type of the name
    in the first of them that binds it. -/
theorem invariant_of_reachable {t : SymbolTable} (h : t.Reachable) :
    t.WellFormed ∧ (∃ s, t.scope? t.current = some s) ∧ (t.path = [root] → t.closeScope = t) ∧
    (∀ t', t.Reaches t' → t.KeptBy t') ∧
    (∀ a error t', Action.run a t = .error error t' → t' = t) ∧
    (∀ id, ∃ scopes, t.Walk id scopes ∧ (∀ other, t.Walk id other → other = scopes) ∧
      ∀ name, t.type? id name = scopes.findSome? (·.type? name)) ∧
    ∀ id name, t.size ≤ id → t.type? id name = none := by
  have hwf := h.wellFormed
  refine ⟨hwf, exists_scope?_of_lt hwf.current_lt, ?_, ?_, ?_, ?_, ?_⟩
  · intro hpath
    have hinner : t.inner = [] := List.append_left_eq_self.mp hpath
    unfold closeScope
    rw [hinner]
    show SymbolTable.mk t.scopes [] t.nodeScopes t.shadowing = t
    rw [← hinner]
  · intro t' hreaches
    exact hreaches.edits.keptBy
  · intro a error t' herror
    exact Action.eq_of_run_eq_error herror
  · intro id
    obtain ⟨scopes, hwalk, -, htype⟩ := hwf.exists_walk id
    refine ⟨scopes, hwalk, ?_, htype⟩
    intro other hother
    exact hother.unique hwalk
  · intro id name hid
    have hnone : t.scope? id = none := Array.getElem?_eq_none hid
    rw [type?, hnone]

/-- A scope is opened and filled by hand, a program is resolved, which closes
    that scope, and another scope is opened: it lies in the root. -/
theorem invariant_of_reachable_of_program :
    ∃ t : SymbolTable, t.Reachable ∧ t.WellFormed ∧ t.path = [3, 0] ∧ t.size = 4 ∧
      t.type? 1 "x" = some .int ∧ t.type? 3 "x" = none ∧ t.type? 3 "y" = some .bool := by
  let x : Ident := ⟨"x", ⟨7, ⟨.null, .null⟩⟩⟩
  let run : Except Error SymbolTable := do
    let program ← readProgram "var y:bool = true; while y do y = false; end" "main"
    let bound ← new.openScope.declare x .int
    let resolved ← resolveWith bound program
    return resolved.symbols.openScope
  have hrun : run.toOption.map (fun t : SymbolTable =>
      (t.path, t.size, t.type? 1 "x", t.type? 3 "x", t.type? 3 "y")) =
        some ([3, 0], 4, some .int, none, some .bool) := by decide +kernel
  cases ht : run with
  | error error =>
    rw [ht] at hrun
    cases hrun
  | ok t =>
    rw [ht] at hrun
    obtain ⟨program, -, hsteps⟩ := Result.bind_eq_ok_iff.mp ht
    obtain ⟨bound, hbound, hsteps⟩ := Result.bind_eq_ok_iff.mp hsteps
    obtain ⟨resolved, hresolve, hsteps⟩ := Result.bind_eq_ok_iff.mp hsteps
    cases hsteps
    have hreaches : Reaches new resolved.symbols.openScope :=
      Relation.ReflTransGen.refl.tail ⟨.openScope, .of_result rfl⟩
        |>.tail ⟨.declare x .int, .of_result hbound⟩
        |>.tail ⟨.resolve program, .of_result (Result.bind_of_ok hresolve _)⟩
        |>.tail ⟨.openScope, .of_result rfl⟩
    have hresult := Option.some.inj hrun
    simp only [Prod.mk.injEq] at hresult
    exact ⟨_, hreaches, (invariant_of_reachable hreaches).1, hresult⟩

end SymbolTable

end BlockLang
