import BlockLang.Proofs.Scope.Layout
import BlockLang.Typing.Checked

/-! # Sight — what a name means where it stands

  The blocks around a place declare names, innermost first.  The type of a
  name there is the one declared in the innermost block that declares it
  anywhere.  In the scopes of a program that mirror its blocks, looking a
  name up from the scope of a block gives exactly that. -/

namespace BlockLang

/-- The names declared in the blocks around a place, innermost first. -/
abbrev Surroundings : Type := List (List (String × Ty))

/-- The type of a name by the innermost block that declares it. -/
def Surroundings.type? (around : Surroundings) (name : String) : Option Ty :=
  around.findSome? (·.lookup name)

theorem Surroundings.type?_cons (declared : List (String × Ty)) (around : Surroundings)
    (name : String) :
    type? (declared :: around) name = (declared.lookup name).or (type? around name) := by
  rw [type?, List.findSome?_cons]
  cases declared.lookup name <;> rfl

/-- A scope that binds exactly some names looks them up. -/
theorem Scope.type?_eq_lookup {s : Scope} {declared : List (String × Ty)}
    (h : ∀ name ty, s.type? name = some ty ↔ (name, ty) ∈ declared) (name : String) :
    s.type? name = declared.lookup name := by
  cases hlookup : declared.lookup name with
  | some ty =>
    obtain ⟨before, after, rfl, -⟩ := List.lookup_eq_some_iff.mp hlookup
    exact (h name ty).mpr (by simp)
  | none =>
    rw [Option.eq_none_iff_forall_ne_some]
    intro ty hty
    -- A name that is not declared would have to be bound.
    have hne := List.lookup_eq_none_iff.mp hlookup _ ((h name ty).mp hty)
    simp at hne

namespace SymbolTable

variable {p : Program} {symbols : SymbolTable} {k : ScopeId} {node : NodeId} {b : Block}
  {around : Surroundings}

/-- One step of a lookup, in a scope whose parent has a smaller number. -/
theorem type?_eq_or {s : Scope} (hs : symbols.scope? k = some s)
    (hlt : ∀ parent, s.parent? = some parent → parent < k) (name : String) :
    symbols.type? k name = (s.type? name).or (s.parent?.bind (symbols.type? · name)) := by
  rw [type?, hs]
  cases hty : s.type? name with
  | some ty => simp only [hty, Option.some_or]
  | none =>
    cases hparent : s.parent? with
    | none => simp only [hty, hparent, Option.none_or, Option.bind_none]
    | some parent =>
      simp only [hty, hparent, Option.none_or, Option.bind_some]
      rw [if_pos (hlt parent hparent)]

/-- From the scope with the number `k`, names have the types that they have in
    the given surroundings. -/
def Sees (symbols : SymbolTable) (k : ScopeId) (around : Surroundings) : Prop :=
  ∀ name, symbols.type? k name = around.type? name

/-- The block of the program sees its own names only. -/
theorem Mirrors.sees_root (h : symbols.Mirrors p) (hids : p.ids.Nodup) :
    symbols.Sees (p.number p.tag.id) [declarations p.body] := by
  intro name
  rw [Program.number_root hids]
  obtain ⟨s, hs, hparent, hlt, hbindings⟩ := h.opened (k := 0) rfl
  rw [type?_eq_or hs hlt, hparent, Scope.type?_eq_lookup hbindings, Surroundings.type?_cons]
  rfl

/-- A block sees its own names, and else what the block around it sees. -/
theorem Mirrors.sees_of_mem (h : symbols.Mirrors p) (hids : p.ids.Nodup) {outer : NodeId}
    {body : List Stmt} (hb : ⟨node, some outer, body⟩ ∈ p.blocks)
    (hsees : symbols.Sees (p.number outer) around) :
    symbols.Sees (p.number node) (declarations body :: around) := by
  intro name
  obtain ⟨k, hk⟩ := List.getElem?_of_mem hb
  obtain ⟨s, hs, hparent, hlt, hbindings⟩ := h.opened hk
  have hnumber : p.number node = k := Program.number_node hids hk
  rw [hnumber, type?_eq_or hs hlt, hparent, Scope.type?_eq_lookup hbindings,
    Surroundings.type?_cons, ← hsees]
  rfl

/-- An identifier that is placed into a block has the type that its name has
    there, if it has one. -/
theorem Mirrors.typeOf_eq_ok_iff (h : symbols.Mirrors p) {ident : Ident}
    (hplaced : (ident.tag.id, node) ∈ p.placements) (hsees : symbols.Sees (p.number node) around)
    {ty : Ty} : symbols.typeOf ident = .ok ty ↔ around.type? ident.name = some ty := by
  have hscope : symbols.scopeOf? ident.tag.id = some (p.number node) :=
    h.placed.mpr ⟨node, hplaced, rfl⟩
  rw [typeOf, hscope, Option.bind_some, hsees]
  cases around.type? ident.name <;> simp

end SymbolTable

/-- The identifiers of an expression have the types of their names in the given
    surroundings, as far as they have one. -/
def Looks (symbols : SymbolTable) (around : Surroundings) (e : Expr) : Prop :=
  ∀ {ident}, ident ∈ e.idents → ∀ {ty},
    symbols.typeOf ident = .ok ty ↔ around.type? ident.name = some ty

theorem looks_binary_iff {symbols : SymbolTable} {around : Surroundings} {left right : Expr}
    {operator : Operator} {tag : Tag} :
    Looks symbols around (.binary left operator right tag) ↔
      Looks symbols around left ∧ Looks symbols around right :=
  List.forall_mem_append

/-! ### Blocks in their places -/

/-- The block of `node` stands in the program with the given surroundings, its
    own names first: its scope sees them, and its blocks and placements are
    those of the program. -/
structure Stands (symbols : SymbolTable) (p : Program) (node : NodeId) (around : Surroundings)
    (body : List Stmt) : Prop where
  mirrors : symbols.Mirrors p
  nodup : p.ids.Nodup
  sees : symbols.Sees (p.number node) around
  blocks : blocksIn node body ⊆ p.blocks
  placements : placementsIn node body ⊆ p.placements

namespace Stands

variable {symbols : SymbolTable} {p : Program} {node : NodeId} {around : Surroundings}
  {s : Stmt} {ss body otherwise : List Stmt} {condition : Expr} {tag elseTag : Tag}

/-- The statements of the program stand in its own block. -/
theorem root (hmirrors : symbols.Mirrors p) (hids : p.ids.Nodup) :
    Stands symbols p p.tag.id [declarations p.body] p.body where
  mirrors := hmirrors
  nodup := hids
  sees := hmirrors.sees_root hids
  blocks := List.subset_cons_self _ _
  placements := List.subset_cons_self _ _

/-- The statements behind the first stand in the same block. -/
theorem tail (h : Stands symbols p node around (s :: ss)) : Stands symbols p node around ss where
  mirrors := h.mirrors
  nodup := h.nodup
  sees := h.sees
  blocks := List.Subset.trans (List.subset_append_right _ _) h.blocks
  placements := List.Subset.trans (List.subset_append_right _ _) h.placements

/-- An identifier placed by a statement has the type of its name in the
    surroundings. -/
theorem typeOf_iff (h : Stands symbols p node around (s :: ss)) {ident : Ident}
    (hident : (ident.tag.id, node) ∈ s.placements node) (ty : Ty) :
    symbols.typeOf ident = .ok ty ↔ around.type? ident.name = some ty :=
  h.mirrors.typeOf_eq_ok_iff (h.placements (List.mem_append_left _ hident)) h.sees

/-- So do all identifiers of its value or condition. -/
theorem looks (h : Stands symbols p node around (s :: ss)) : Looks symbols around s.operand :=
  fun hident => h.typeOf_iff (s.operand_placements_subset node (List.mem_map_of_mem hident)) _

/-- A block that is part of the program stands behind what is around it. -/
theorem inner (h : Stands symbols p node around (s :: ss)) {inside : NodeId} {outer : NodeId}
    {surroundings : Surroundings} (hsees : symbols.Sees (p.number outer) surroundings)
    (hblock : ⟨inside, some outer, body⟩ ∈ s.blocks node)
    (hblocks : blocksIn inside body ⊆ s.blocks node)
    (hplacements : placementsIn inside body ⊆ s.placements node) :
    Stands symbols p inside (declarations body :: surroundings) body where
  mirrors := h.mirrors
  nodup := h.nodup
  sees := h.mirrors.sees_of_mem h.nodup (h.blocks (List.mem_append_left _ hblock)) hsees
  blocks := fun _ hb => h.blocks (List.mem_append_left _ (hblocks hb))
  placements := fun _ hn => h.placements (List.mem_append_left _ (hplacements hn))

theorem whileDo (h : Stands symbols p node around (.whileDo condition body tag :: ss)) :
    Stands symbols p tag.id (declarations body :: around) body :=
  h.inner h.sees List.mem_cons_self (List.subset_cons_self _ _)
    fun _ hn => List.mem_cons_of_mem _ (List.mem_append_right _ hn)

theorem ifThen (h : Stands symbols p node around (.ifThen condition body tag :: ss)) :
    Stands symbols p tag.id (declarations body :: around) body :=
  h.inner h.sees List.mem_cons_self (List.subset_cons_self _ _)
    fun _ hn => List.mem_cons_of_mem _ (List.mem_append_right _ hn)

theorem ifThenElse
    (h : Stands symbols p node around (.ifThenElse condition body otherwise elseTag tag :: ss)) :
    Stands symbols p tag.id (declarations body :: around) body :=
  h.inner h.sees List.mem_cons_self
    (fun _ hb => List.mem_cons_of_mem _ (List.mem_append_left _ hb))
    fun _ hn => List.mem_cons_of_mem _ (List.mem_append_right _ (List.mem_append_left _ hn))

/-- An else branch stands in the block of its `if`. -/
theorem branch
    (h : Stands symbols p node around (.ifThenElse condition body otherwise elseTag tag :: ss)) :
    Stands symbols p elseTag.id (declarations otherwise :: declarations body :: around) otherwise :=
  h.inner h.ifThenElse.sees
    (List.mem_cons_of_mem _ (List.mem_append_right _ List.mem_cons_self))
    (fun _ hb => List.mem_cons_of_mem _ (List.mem_append_right _ (List.mem_cons_of_mem _ hb)))
    fun _ hn => List.mem_cons_of_mem _ (List.mem_append_right _
      (List.mem_append_right _ (List.mem_cons_of_mem _ hn)))

end Stands

end BlockLang
