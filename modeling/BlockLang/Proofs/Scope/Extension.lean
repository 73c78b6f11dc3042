import BlockLang.Proofs.Scope.Binding
import BlockLang.Proofs.Scope.Layout
import BlockLang.Typing.Checked

/-! # Extension — a table that only gains

  A table extends another one if it keeps its scopes and the scopes of its
  nodes, and binds more names in the root at most.  What could be seen in the
  first table is then seen in the second one with the same type: a new name
  in the root is seen last.  Resolving more statements at the top level
  extends the table, since the nodes that it puts into scopes are new. -/

namespace BlockLang

/-! ### Rows of statements, one after the other -/

section

variable (around : NodeId) (ss rest : List Stmt)

theorem blocksIn_append :
    blocksIn around (ss ++ rest) = blocksIn around ss ++ blocksIn around rest := by
  induction ss with
  | nil => rfl
  | cons s ss ih => rw [List.cons_append, blocksIn, blocksIn, ih, List.append_assoc]

theorem blockNodes_append : blockNodes (ss ++ rest) = blockNodes ss ++ blockNodes rest := by
  induction ss with
  | nil => rfl
  | cons s ss ih =>
    rw [List.cons_append, blockNodes_cons, blockNodes_cons, ih, List.append_assoc]

end

namespace SymbolTable

variable {t t' : SymbolTable} {name : String} {ty : Ty}

theorem resolveBlock_append (t : SymbolTable) (ss rest : List Stmt) :
    t.resolveBlock (ss ++ rest) = t.resolveBlock ss >>= (·.resolveBlock rest) := by
  induction ss generalizing t with
  | nil => rfl
  | cons s ss ih =>
    rw [List.cons_append, resolveBlock, resolveBlock, bind_assoc]
    exact congrArg (t.resolveStmt s >>= ·) (funext fun t₁ => ih t₁)

/-- A name is found in the scope itself, or else from the scope around it. -/
theorem type?_eq_some_iff {id : ScopeId} :
    t.type? id name = some ty ↔ ∃ s, t.scope? id = some s ∧
      (s.type? name = some ty ∨ s.type? name = none ∧
        ∃ parent, s.parent? = some parent ∧ parent < id ∧ t.type? parent name = some ty) := by
  rw [type?]
  cases t.scope? id with
  | none => simp
  | some s =>
    cases hname : s.type? name with
    | some found => simp [hname]
    | none =>
      cases hparent : s.parent? with
      | none => simp [hname, hparent]
      | some parent => simp [hname, hparent]

/-! ### Extensions -/

/-- The table `t'` has all that `t` has: the scopes and the scopes of nodes are
    kept, and only the root may bind more names. -/
structure Extends (t t' : SymbolTable) : Prop where
  kept : ∀ {id s}, id ≠ root → t.scope? id = some s → t'.scope? id = some s
  grown : ∀ {s}, t.scope? root = some s → ∃ s', t'.scope? root = some s' ∧
    ∀ {name ty}, s.type? name = some ty → s'.type? name = some ty
  stays : ∀ {node id}, t.scopeOf? node = some id → t'.scopeOf? node = some id

/-- What is seen from a scope is seen from it in an extension too, with the
    same type. -/
theorem Extends.type?_eq_some (h : t.Extends t') {id : ScopeId}
    (hty : t.type? id name = some ty) : t'.type? id name = some ty := by
  -- On the number of the scope, which is above that of the scope around it.
  induction id using Nat.strongRecOn with
  | _ id ih =>
    obtain ⟨s, hs, hname⟩ := type?_eq_some_iff.mp hty
    by_cases hroot : id = root
    · subst hroot
      obtain ⟨s', hs', hnames⟩ := h.grown hs
      refine type?_eq_some_iff.mpr ⟨s', hs', .inl ?_⟩
      rcases hname with hname | ⟨-, parent, -, hlt, -⟩
      · exact hnames hname
      · exact absurd hlt (Nat.not_lt_zero parent)
    · refine type?_eq_some_iff.mpr ⟨s, h.kept hroot hs, ?_⟩
      rcases hname with hname | ⟨hnone, parent, hparent, hlt, hname⟩
      · exact .inl hname
      · exact .inr ⟨hnone, parent, hparent, hlt, ih parent hlt hname⟩

theorem typeOf_eq_ok_iff {ident : Ident} :
    t.typeOf ident = .ok ty ↔
      ∃ id, t.scopeOf? ident.tag.id = some id ∧ t.type? id ident.name = some ty := by
  rw [typeOf]
  cases t.scopeOf? ident.tag.id with
  | none => simp
  | some id =>
    simp only [Option.bind_some, Option.some.injEq, exists_eq_left']
    cases t.type? id ident.name <;> simp

/-- A name that has a type keeps it. -/
theorem Extends.typeOf_eq_ok (h : t.Extends t') {ident : Ident}
    (hty : t.typeOf ident = .ok ty) : t'.typeOf ident = .ok ty := by
  obtain ⟨id, hscope, htype⟩ := typeOf_eq_ok_iff.mp hty
  exact typeOf_eq_ok_iff.mpr ⟨id, h.stays hscope, h.type?_eq_some htype⟩

/-! ### Growths that extend -/

section

variable {number : NodeId → ScopeId} {bs : List Block} {ps : List (NodeId × NodeId)}
  {ds : List (String × Ty)}

/-- A node that a growth does not place stays where it is, or without a scope. -/
theorem Grows.scopeOf?_eq (h : Grows number t t' bs ps ds) {node : NodeId}
    (hnode : node ∉ ps.map Prod.fst) : t'.scopeOf? node = t.scopeOf? node := by
  have hplaced {id : ScopeId} (hid : t'.scopeOf? node = some id) : t.scopeOf? node = some id := by
    rcases h.placed hid with hold | ⟨block, hmem, -⟩
    · exact hold
    · exact absurd (List.mem_map_of_mem hmem) hnode
  cases hid : t'.scopeOf? node with
  | some id => exact (hplaced hid).symm
  | none =>
    rw [eq_comm, ← Option.not_isSome_iff_eq_none]
    intro hsome
    have hstays := h.stays (.inl hsome)
    rw [hid] at hstays
    cases hstays

/-- A growth of the root that places only new nodes is an extension. -/
theorem Grows.extends (h : Grows number t t' bs ps ds) (hcurrent : t.current = root)
    (hnew : ∀ node ∈ ps.map Prod.fst, t.scopeOf? node = none) : t.Extends t' where
  kept hid hs := h.kept (hcurrent ▸ hid) hs
  grown hs := by
    rw [← hcurrent] at hs ⊢
    obtain ⟨s', hs', hbinds⟩ := h.bound hs
    exact ⟨s', hs', fun hty => (hbinds.type?_iff _ _).mpr (.inl hty)⟩
  stays {node id} hnode := by
    rw [h.scopeOf?_eq, hnode]
    intro hmem
    rw [hnew node hmem] at hnode
    cases hnode

end

end SymbolTable

/-! ### Longer programs -/

/-- The program `p'` is `p` with more statements behind it, and its identities
    are unique. -/
structure Program.Continues (p p' : Program) (more : List Stmt) : Prop where
  body : p'.body = p.body ++ more
  id : p'.tag.id = p.tag.id
  nodup : p'.ids.Nodup

namespace Program.Continues

open SymbolTable

variable {p p' : Program} {more : List Stmt} {allow : Bool} {resolved : Resolved}
  {t : SymbolTable}

theorem ids_eq (h : p.Continues p' more) :
    p'.ids = p.ids ++ (blockNodes more).map Node.id := by
  unfold ids nodes
  rw [h.id, h.body, blockNodes_append, List.map_append, List.cons_append]

theorem nodup_ids (h : p.Continues p' more) : p.ids.Nodup := by
  have hnodup := h.nodup
  rw [h.ids_eq] at hnodup
  exact hnodup.of_append_left

/-- No node behind has an identity of the program. -/
theorem not_mem (h : p.Continues p' more) {node : NodeId} (hnode : node ∈ p.ids) :
    node ∉ (blockNodes more).map Node.id := by
  have hnodup := h.nodup
  rw [h.ids_eq] at hnodup
  exact List.disjoint_of_nodup_append hnodup hnode

/-- What is placed behind belongs to the nodes behind. -/
theorem mem_of_placed {node around : NodeId}
    (hnode : node ∈ (placementsIn around more).map Prod.fst) :
    node ∈ (blockNodes more).map Node.id := by
  rw [map_fst_placementsIn] at hnode
  exact (List.filter_sublist.map Node.id).subset hnode

/-- Resolving goes on behind the program, from the table that it leaves. -/
theorem resolveWith_eq (h : p.Continues p' more)
    (hresolve : resolveWith (new.withShadowing allow) p = .ok resolved) :
    resolveWith (new.withShadowing allow) p' =
      resolved.symbols.resolveBlock more >>= fun t => .ok ⟨p', t⟩ := by
  obtain ⟨t, ht, heq⟩ := Result.bind_eq_ok_iff.mp hresolve
  cases heq
  unfold resolveWith
  rw [h.body, h.id, resolveBlock_append, Result.bind_of_ok ht]
  rfl

/-- Only nodes of the program have a scope. -/
theorem mem_ids_of_scopeOf? (hmirrors : resolved.symbols.Mirrors p) {node : NodeId} {id : ScopeId}
    (hid : resolved.symbols.scopeOf? node = some id) : node ∈ p.ids := by
  obtain ⟨block, hmem, -⟩ := hmirrors.placed.mp hid
  have hplaced := List.mem_map_of_mem (f := Prod.fst) hmem
  rw [Program.map_fst_placements] at hplaced
  exact ((List.filter_sublist.map Node.id).cons_cons p.tag.id).subset hplaced

theorem current_eq_root (hmirrors : resolved.symbols.Mirrors p) :
    resolved.symbols.current = root := by
  rw [current, hmirrors.inner]
  rfl

/-- What the statements behind add to the table is what they hold. -/
theorem grows (h : p.Continues p' more) (hmirrors : resolved.symbols.Mirrors p)
    (hmore : resolved.symbols.resolveBlock more = .ok t) :
    Grows p'.number resolved.symbols t (blocksIn p.tag.id more) (placementsIn p.tag.id more)
      (declarations more) := by
  have hcurrent := current_eq_root hmirrors
  have hsize : resolved.symbols.size = 1 + (blocksIn p.tag.id p.body).length := by
    rw [hmirrors.size, Program.blocks, List.length_cons, Nat.add_comm]
  have hopen : resolved.symbols.current < resolved.symbols.size := by
    rw [hcurrent, hsize]
    exact Nat.lt_of_lt_of_le Nat.one_pos (Nat.le_add_right 1 _)
  have hnumber : p'.number p.tag.id = resolved.symbols.current := by
    rw [← h.id, number_root h.nodup, hcurrent]
    rfl
  have hblocks := numberedFrom_blocksIn h.nodup
  rw [h.id, h.body, blocksIn_append, numberedFrom_append, ← hsize] at hblocks
  exact grows_of_resolveBlock more hopen hnumber hblocks.2 hmore

theorem extends_symbols (h : p.Continues p' more) (hmirrors : resolved.symbols.Mirrors p)
    (hmore : resolved.symbols.resolveBlock more = .ok t) : resolved.symbols.Extends t := by
  apply (h.grows hmirrors hmore).extends (current_eq_root hmirrors)
  intro node hnode
  rw [Option.eq_none_iff_forall_ne_some]
  intro id hid
  exact h.not_mem (mem_ids_of_scopeOf? hmirrors hid) (mem_of_placed hnode)

/-- The nodes of the program stay where they are, with or without a scope. -/
theorem scopeOf?_eq (h : p.Continues p' more) (hmirrors : resolved.symbols.Mirrors p)
    (hmore : resolved.symbols.resolveBlock more = .ok t) {node : NodeId} (hnode : node ∈ p.ids) :
    t.scopeOf? node = resolved.symbols.scopeOf? node := by
  apply (h.grows hmirrors hmore).scopeOf?_eq
  intro hplaced
  exact h.not_mem hnode (mem_of_placed hplaced)

/-- The root binds what is declared behind the program, and keeps its names. -/
theorem binds_root (h : p.Continues p' more) (hmirrors : resolved.symbols.Mirrors p)
    (hmore : resolved.symbols.resolveBlock more = .ok t) :
    ∃ s s', resolved.symbols.scope? root = some s ∧ t.scope? root = some s' ∧
      s.Binds s' (declarations more) := by
  have hlt : root < resolved.symbols.size := by
    rw [hmirrors.size]
    exact Nat.succ_pos _
  obtain ⟨s, hs⟩ := exists_scope?_of_lt hlt
  have hbound := (h.grows hmirrors hmore).bound (s := s)
  rw [current_eq_root hmirrors] at hbound
  obtain ⟨s', hs', hbinds⟩ := hbound hs
  exact ⟨s, s', hs, hs', hbinds⟩

/-- What is wrong with the scopes of the longer program is a declaration behind
    the program. -/
theorem exists_target_of_error
    (hresolve : resolveWith (new.withShadowing allow) p = .ok resolved) {error : Error}
    (hmore : resolved.symbols.resolveBlock more = .error error) :
    ∃ ident, Node.target ident ∈ blockNodes more ∧
      error = ⟨.duplicateDeclaration ident.name, ident.tag.span.start⟩ := by
  obtain ⟨t, ht, heq⟩ := Result.bind_eq_ok_iff.mp hresolve
  cases heq
  have hroot : (new.withShadowing allow).scope? root = some (.inside none) := rfl
  have hinside := (detects_resolveBlock p.body (inside_start hroot p.tag.id)).of_ok ht
  obtain ⟨before, b, behind, hbinders, -, -, rfl⟩ :=
    (detects_resolveBlock more hinside).of_error hmore
  have hb : b ∈ blockBinders ([] ++ declaredNames p.body) [] more := by
    rw [hbinders]
    exact List.mem_append_right before List.mem_cons_self
  exact ⟨b.target, target_mem_of_mem_blockBinders hb, rfl⟩

end Program.Continues

end BlockLang
