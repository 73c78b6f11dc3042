import BlockLang.Proofs.Program.Blocks
import BlockLang.Proofs.Result
import BlockLang.Scope.Resolved

/-! # Growth — what resolving adds to a symbol table

  Resolving a part of a program leaves the open scopes as they were.  It
  binds the names declared there in the current scope, adds one scope for
  each block inside, in order, and puts nodes into scopes.  All other scopes
  stay as they are.  `Grows` says exactly that, for an arbitrary numbering of
  the blocks: it is shown for each operation on tables, for two growths in a
  row, and for a growth inside a new block, and so for every part of a
  program. -/

namespace BlockLang

/-! ### Scopes -/

/-- The scope `s'` is `s` with the names `declared` bound, and no others. -/
structure Scope.Binds (s s' : Scope) (declared : List (String × Ty)) : Prop where
  parent? : s'.parent? = s.parent?
  type?_iff : ∀ name ty,
    s'.type? name = some ty ↔ s.type? name = some ty ∨ (name, ty) ∈ declared

namespace Scope.Binds

variable {s s' s'' : Scope} {ds es : List (String × Ty)}

theorem refl (s : Scope) : s.Binds s [] := ⟨rfl, by simp⟩

theorem trans (h₁ : s.Binds s' ds) (h₂ : s'.Binds s'' es) : s.Binds s'' (ds ++ es) where
  parent? := h₂.parent?.trans h₁.parent?
  type?_iff name ty := by rw [h₂.type?_iff, h₁.type?_iff, List.mem_append, or_assoc]

/-- A declaration binds its name, which was free. -/
theorem of_declare {name : String} {ty : Ty} {position : Position}
    (h : s.declare name ty position = .ok s') : s.Binds s' [(name, ty)] := by
  obtain ⟨hfree, hs'⟩ := declare_eq_ok_iff.mp h
  refine ⟨by rw [← hs'], fun x xty => ?_⟩
  rw [type?_of_declare h, List.mem_singleton, Prod.mk.injEq]
  by_cases hx : name = x
  · subst hx
    rw [if_pos rfl, hfree]
    simp [eq_comm]
  · rw [if_neg hx]
    simp [Ne.symm hx]

end Scope.Binds

/-! ### Numbered blocks -/

/-- The numbering counts the blocks one after the other, from `first` on. -/
def NumberedFrom (number : NodeId → ScopeId) (first : ScopeId) (blocks : List Block) : Prop :=
  blocks.map (fun b => number b.node) = List.range' first blocks.length

section

variable {number : NodeId → ScopeId} {first : ScopeId} {b : Block} {bs cs : List Block}

theorem numberedFrom_cons :
    NumberedFrom number first (b :: bs) ↔
      number b.node = first ∧ NumberedFrom number (first + 1) bs := by
  simp [NumberedFrom, List.range'_succ]

theorem numberedFrom_append :
    NumberedFrom number first (bs ++ cs) ↔
      NumberedFrom number first bs ∧ NumberedFrom number (first + bs.length) cs := by
  rw [NumberedFrom, List.map_append, List.length_append, ← List.range'_append_1]
  constructor
  · intro h
    exact List.append_inj h (by simp)
  · intro h
    obtain ⟨hbs, hcs⟩ := h
    rw [hbs, hcs]

end

namespace SymbolTable

/-! ### Growth -/

/-- The table `t'` is `t` after a part of a program: `blocks` are opened in
    it, `placements` made, and `declared` are the names that it binds in the
    current scope. -/
structure Grows (number : NodeId → ScopeId) (t t' : SymbolTable) (blocks : List Block)
    (placements : List (NodeId × NodeId)) (declared : List (String × Ty)) : Prop where
  inner : t'.inner = t.inner
  size : t'.size = t.size + blocks.length
  /-- Scopes other than the current one stay. -/
  kept : ∀ {id s}, id ≠ t.current → t.scope? id = some s → t'.scope? id = some s
  /-- The current scope binds the declared names. -/
  bound : ∀ {s}, t.scope? t.current = some s →
    ∃ s', t'.scope? t.current = some s' ∧ s.Binds s' declared
  /-- Each block has a scope that binds the names declared in it. -/
  opened : ∀ {i : Nat} {b}, blocks[i]? = some b → ∃ outer s', b.around? = some outer ∧
    number outer < t.size + i ∧ t'.scope? (t.size + i) = some s' ∧
      (Scope.inside (some (number outer))).Binds s' (declarations b.body)
  /-- Nodes are put into the scopes of their blocks, -/
  placed : ∀ {node id}, t'.scopeOf? node = some id →
    t.scopeOf? node = some id ∨ ∃ block, (node, block) ∈ placements ∧ number block = id
  /-- and none is forgotten. -/
  stays : ∀ {node}, (t.scopeOf? node).isSome ∨ node ∈ placements.map Prod.fst →
    (t'.scopeOf? node).isSome

/-- Some scope has the number. -/
theorem exists_scope?_of_lt {t : SymbolTable} {id : ScopeId} (h : id < t.size) :
    ∃ s, t.scope? id = some s :=
  ⟨t.scopes[id], Array.getElem?_eq_getElem h⟩

theorem lt_size_of_scope? {t : SymbolTable} {id : ScopeId} {s : Scope}
    (h : t.scope? id = some s) : id < t.size := (Array.getElem?_eq_some_iff.mp h).1

theorem current_eq {t t' : SymbolTable} (h : t'.inner = t.inner) : t'.current = t.current := by
  rw [current, current, h]

/-- Where a scope is put in the place of another one, all others stay. -/
theorem scope?_set {t : SymbolTable} {id : ScopeId} {s s' : Scope} (hs : t.scope? id = some s)
    (k : ScopeId) : ({ t with scopes := t.scopes.setIfInBounds id s' } : SymbolTable).scope? k =
      if id = k then some s' else t.scope? k := by
  show (t.scopes.setIfInBounds id s')[k]? = _
  rw [Array.getElem?_setIfInBounds, if_pos (show id < t.scopes.size from lt_size_of_scope? hs)]
  rfl

namespace Grows

variable {number : NodeId → ScopeId} {t t' t'' : SymbolTable} {bs cs : List Block}
  {ps qs : List (NodeId × NodeId)} {ds es : List (String × Ty)} {around node : NodeId}

/-- After a growth there still is a current scope. -/
theorem current_lt (h : Grows number t t' bs ps ds) (hopen : t.current < t.size) :
    t'.current < t'.size := by
  rw [current_eq h.inner, h.size]
  exact Nat.lt_add_right bs.length hopen

theorem refl (number : NodeId → ScopeId) (t : SymbolTable) : Grows number t t [] [] [] where
  inner := rfl
  size := rfl
  kept _ hs := hs
  bound hs := ⟨_, hs, .refl _⟩
  opened := nofun
  placed h := .inl h
  stays h := by simpa using h

/-- Two growths in a row are one. -/
theorem trans (hopen : t.current < t.size) (h₁ : Grows number t t' bs ps ds)
    (h₂ : Grows number t' t'' cs qs es) :
    Grows number t t'' (bs ++ cs) (ps ++ qs) (ds ++ es) where
  inner := h₂.inner.trans h₁.inner
  size := by rw [h₂.size, h₁.size, List.length_append, Nat.add_assoc]
  kept hid hs := h₂.kept (by rwa [current_eq h₁.inner]) (h₁.kept hid hs)
  bound hs := by
    obtain ⟨s', hs', hbinds⟩ := h₁.bound hs
    rw [← current_eq h₁.inner] at hs' ⊢
    obtain ⟨s'', hs'', hbinds'⟩ := h₂.bound hs'
    exact ⟨s'', hs'', hbinds.trans hbinds'⟩
  opened {i b} hb := by
    by_cases hi : i < bs.length
    · rw [List.getElem?_append_left hi] at hb
      obtain ⟨outer, s', houter, hlt, hs', hbinds⟩ := h₁.opened hb
      -- The second part may change the current scope only, and that is an older one.
      refine ⟨outer, s', houter, hlt, h₂.kept ?_ hs', hbinds⟩
      rw [current_eq h₁.inner]
      exact Nat.ne_of_gt (Nat.lt_add_right i hopen)
    · rw [List.getElem?_append_right (Nat.le_of_not_lt hi)] at hb
      have hid : t'.size + (i - bs.length) = t.size + i := by rw [h₁.size]; omega
      rw [← hid]
      exact h₂.opened hb
  placed h := by
    rcases h₂.placed h with h | ⟨block, hmem, hblock⟩
    · rcases h₁.placed h with h | ⟨block, hmem, hblock⟩
      · exact .inl h
      · exact .inr ⟨block, List.mem_append_left _ hmem, hblock⟩
    · exact .inr ⟨block, List.mem_append_right _ hmem, hblock⟩
  stays h := by
    rw [List.map_append, List.mem_append, ← or_assoc] at h
    rcases h with h | h
    · exact h₂.stays (.inl (h₁.stays h))
    · exact h₂.stays (.inr h)

/-- The order of placements does not matter. -/
theorem of_perm (h : Grows number t t' bs ps ds) (hperm : ps.Perm qs) :
    Grows number t t' bs qs ds where
  inner := h.inner
  size := h.size
  kept := h.kept
  bound := h.bound
  opened := h.opened
  placed hid := (h.placed hid).imp_right fun ⟨block, hmem, hblock⟩ =>
    ⟨block, hperm.mem_iff.mp hmem, hblock⟩
  stays hnode := h.stays (hnode.imp_right (hperm.map Prod.fst).mem_iff.mpr)

/-! ### Operations -/

/-- A node is put into the scope of its block. -/
theorem stamp (t : SymbolTable) (node : NodeId) (hnumber : number around = t.current) :
    Grows number t (t.stamp node t.current) [] [(node, around)] [] where
  inner := rfl
  size := rfl
  kept _ hs := hs
  bound hs := ⟨_, hs, .refl _⟩
  opened := nofun
  placed {other id} h := by
    rw [scopeOf?_stamp] at h
    by_cases hnode : node = other
    · rw [if_pos hnode, Option.some.injEq] at h
      exact .inr ⟨around, by simp [hnode], hnumber.trans h⟩
    · rw [if_neg hnode] at h
      exact .inl h
  stays {other} h := by
    rw [scopeOf?_stamp]
    by_cases hnode : node = other
    · rw [if_pos hnode]
      rfl
    · rw [if_neg hnode]
      simpa [Ne.symm hnode] using h

/-- The identifiers of an expression are put into the scope of its block. -/
theorem stampExpr (hopen : t.current < t.size) (hnumber : number around = t.current) (e : Expr) :
    Grows number t (t.stampExpr t.current e) [] (e.placements around) [] := by
  induction e generalizing t with
  | binary left operator right tag ihl ihr =>
    -- The right side is put into its scope before the left side.
    have hr := ihr hopen hnumber
    have hcurrent : (t.stampExpr t.current right).current = t.current := current_eq hr.inner
    have hl := ihl (hr.current_lt hopen) (hnumber.trans hcurrent.symm)
    rw [hcurrent] at hl
    refine (hr.trans hopen hl).of_perm ?_
    have happend : (Expr.binary left operator right tag).placements around =
        left.placements around ++ right.placements around := List.map_append
    rw [happend]
    exact List.perm_append_comm
  | identifier ident => exact .stamp t ident.tag.id hnumber
  | literal value tag => exact .refl number t

/-- A declaration binds its name in the current scope. -/
theorem of_declare (hopen : t.current < t.size) {ident : Ident} {ty : Ty}
    (h : t.declare ident ty = .ok t') : Grows number t t' [] [] [(ident.name, ty)] := by
  obtain ⟨s, hs⟩ := exists_scope?_of_lt hopen
  -- Without shadowing a name that is taken further out is refused before this scope
  -- is looked at; either way a success goes through this scope.
  unfold SymbolTable.declare at h
  split at h
  · cases h
  · rw [declareIn, hs] at h
    obtain ⟨s', hdeclare, h⟩ := Result.bind_eq_ok_iff.mp h
    cases h
    exact {
      inner := rfl
      size := Array.size_setIfInBounds ..
      kept := fun {id u} hid hu => by
        rw [scope?_set hs, if_neg (Ne.symm hid)]
        exact hu
      bound := fun hs₀ => by
        cases hs.symm.trans hs₀
        refine ⟨s', ?_, .of_declare hdeclare⟩
        rw [scope?_set hs, if_pos rfl]
      opened := nofun
      placed := .inl
      stays := fun h => h.resolve_right List.not_mem_nil }

/-- A growth inside a new block. -/
theorem nested {body : List Stmt} (hopen : t.current < t.size) (hnumber : number around = t.current)
    (hnode : number node = t.size)
    (h : Grows number (t.openBlock node) t' bs ps (declarations body)) :
    Grows number t t'.closeScope (⟨node, some around, body⟩ :: bs) ((node, node) :: ps) [] := by
  have hsize : (t.openBlock node).size = t.size + 1 := size_openScope t
  have hscope (id : ScopeId) : (t.openBlock node).scope? id =
      if id = t.size then some (.inside (some t.current)) else t.scope? id :=
    scope?_openScope t id
  have hcurrent : (t.openBlock node).current = t.size := rfl
  -- Inside, the new scope is the current one, so all older ones are kept.
  have hkept {id : ScopeId} {s : Scope} (hs : t.scope? id = some s) :
      t'.closeScope.scope? id = some s := by
    have hid : id ≠ t.size := Nat.ne_of_lt (lt_size_of_scope? hs)
    exact h.kept (hcurrent ▸ hid) (by rw [hscope, if_neg hid, hs])
  exact {
    inner := congrArg List.tail h.inner
    size := by
      show t'.size = _
      rw [h.size, hsize, List.length_cons]
      omega
    kept := fun _ => hkept
    bound := fun hs => ⟨_, hkept hs, .refl _⟩
    opened := fun {i b} hb => by
      -- The first block is the new one, the others are opened inside of it.
      cases i with
      | zero =>
        cases hb
        obtain ⟨s', hs', hbinds⟩ := h.bound (by rw [hscope, hcurrent, if_pos rfl])
        refine ⟨around, s', rfl, ?_, hs', hnumber ▸ hbinds⟩
        rw [hnumber]
        exact hopen
      | succ i =>
        have hid : (t.openBlock node).size + i = t.size + (i + 1) := by rw [hsize]; omega
        rw [← hid]
        exact h.opened hb
    placed := fun {other id} hother => by
      rcases h.placed hother with hother | ⟨block, hmem, hblock⟩
      · rw [openBlock, scopeOf?_stamp] at hother
        by_cases heq : node = other
        · rw [if_pos heq, Option.some.injEq] at hother
          exact .inr ⟨node, by simp [heq], hnode.trans hother⟩
        · rw [if_neg heq] at hother
          exact .inl hother
      · exact .inr ⟨block, List.mem_cons_of_mem _ hmem, hblock⟩
    stays := fun {other} hother => by
      refine h.stays ?_
      rw [openBlock, scopeOf?_stamp]
      by_cases heq : node = other
      · rw [if_pos heq]
        exact .inl rfl
      · rw [if_neg heq]
        exact hother.imp_right fun hmem => (List.mem_cons.mp hmem).resolve_left (Ne.symm heq) }

end Grows

end SymbolTable

end BlockLang
