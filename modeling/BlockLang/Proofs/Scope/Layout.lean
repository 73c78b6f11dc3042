import BlockLang.Compile
import BlockLang.Proofs.Program.Identities
import BlockLang.Proofs.Scope.Resolution

/-! # Layout — the scopes of a program mirror its blocks

  A program that is resolved from an empty table has one scope for each of
  its blocks.  Identities are unique, so a block is known by its node, and
  the place of a block in the listing of all blocks is the number of its
  scope. -/

namespace BlockLang

/-! ### The numbering of blocks -/

namespace Program

variable {p : Program} {b c : Block} {k : Nat} {node : NodeId}

/-- The place of the block of a node among all blocks of the program. -/
def number (p : Program) (node : NodeId) : ScopeId := (p.blocks.map Block.node).idxOf node

/-- The blocks of a program belong to its root and to its nodes that have one,
    in order. -/
theorem map_node_blocks (p : Program) :
    p.blocks.map Block.node = p.tag.id :: (p.nodes.filter Node.opens).map Node.id :=
  congrArg (p.tag.id :: ·) (map_node_blocksIn p.body p.tag.id)

/-- The nodes that lie in a block are the root and the nodes with a scope, in
    order. -/
theorem map_fst_placements (p : Program) :
    p.placements.map Prod.fst = p.tag.id :: (p.nodes.filter Node.hasScope).map Node.id :=
  congrArg (p.tag.id :: ·) (map_fst_placementsIn p.body p.tag.id)

theorem nodup_node_blocks (h : p.ids.Nodup) : (p.blocks.map Block.node).Nodup := by
  rw [map_node_blocks]
  exact h.sublist ((List.filter_sublist.map Node.id).cons_cons p.tag.id)

theorem nodup_fst_placements (h : p.ids.Nodup) : (p.placements.map Prod.fst).Nodup := by
  rw [map_fst_placements]
  exact h.sublist ((List.filter_sublist.map Node.id).cons_cons p.tag.id)

theorem number_node (h : p.ids.Nodup) (hb : p.blocks[k]? = some b) : p.number b.node = k := by
  obtain ⟨hk, rfl⟩ := List.getElem?_eq_some_iff.mp hb
  have hk' : k < (p.blocks.map Block.node).length := by rwa [List.length_map]
  have hidx := (nodup_node_blocks h).idxOf_getElem k hk'
  rwa [List.getElem_map] at hidx

theorem number_root (h : p.ids.Nodup) : p.number p.tag.id = 0 :=
  number_node (b := ⟨p.tag.id, none, p.body⟩) h rfl

/-- A number that is in range is that of a block. -/
theorem exists_block_of_number_lt (h : p.number node < p.blocks.length) :
    ∃ b, p.blocks[p.number node]? = some b ∧ b.node = node := by
  refine ⟨p.blocks[p.number node], List.getElem?_eq_getElem h, ?_⟩
  have hlt : (p.blocks.map Block.node).idxOf node < (p.blocks.map Block.node).length := by
    rwa [List.length_map]
  have hget := List.getElem_idxOf hlt
  rwa [List.getElem_map] at hget

theorem exists_block_of_mem (h : node ∈ p.blocks.map Block.node) :
    ∃ b, p.blocks[p.number node]? = some b ∧ b.node = node := by
  refine exists_block_of_number_lt ?_
  have hlt := List.idxOf_lt_length_of_mem h
  rwa [List.length_map] at hlt

theorem numberedFrom_blocksIn (h : p.ids.Nodup) :
    NumberedFrom p.number 1 (blocksIn p.tag.id p.body) := by
  have hall : NumberedFrom p.number 0 p.blocks := by
    refine List.ext_getElem (by simp) fun k hk hk' => ?_
    rw [List.getElem_map, List.getElem_range', Nat.zero_add, Nat.one_mul]
    exact number_node h (List.getElem?_eq_getElem _)
  exact (numberedFrom_cons.mp hall).2

/-- A node is placed into one of the blocks of the program. -/
theorem exists_block_of_placement {block : NodeId} (h : (node, block) ∈ p.placements) :
    ∃ b, p.blocks[p.number block]? = some b ∧ b.node = block := by
  refine exists_block_of_mem ?_
  rw [placements, List.mem_cons] at h
  rw [blocks, List.map_cons, List.mem_cons]
  rcases h with h | h
  · exact .inl (Prod.mk.inj h).2
  · exact mem_of_mem_placementsIn p.body h

end Program

/-! ### Mirroring -/

/-- The table has a scope for each block of the program, at its place, and
    nothing else. -/
structure SymbolTable.Mirrors (symbols : SymbolTable) (p : Program) : Prop where
  inner : symbols.inner = []
  size : symbols.size = p.blocks.length
  /-- The scope of a block lies in that of the block around it, and binds the
      names declared directly in the block. -/
  opened : ∀ {k b}, p.blocks[k]? = some b → ∃ s, symbols.scope? k = some s ∧
    s.parent? = b.around?.map p.number ∧ (∀ parent, s.parent? = some parent → parent < k) ∧
      ∀ name ty, s.type? name = some ty ↔ (name, ty) ∈ declarations b.body
  /-- A node is in the scope of the block that it is placed into. -/
  placed : ∀ {node k}, symbols.scopeOf? node = some k ↔
    ∃ block, (node, block) ∈ p.placements ∧ p.number block = k

namespace SymbolTable

variable {p : Program} {t t' : SymbolTable}

theorem type?_inside (parent? : Option ScopeId) (name : String) :
    (Scope.inside parent?).type? name = none := Std.ExtTreeMap.getElem?_empty

/-- The table that a program starts from, with the root for its block. -/
def begun (allow : Bool) (p : Program) : SymbolTable :=
  ((new.withShadowing allow).closeAll).stamp p.tag.id root

theorem scopeOf?_begun {allow : Bool} {node : NodeId} {k : ScopeId} :
    (begun allow p).scopeOf? node = some k ↔ p.tag.id = node ∧ root = k := by
  rw [begun, scopeOf?_stamp]
  have hempty : ((new.withShadowing allow).closeAll).scopeOf? node = none :=
    Std.ExtTreeMap.getElem?_empty
  by_cases h : p.tag.id = node
  · simp [h]
  · simp [h, hempty]

/-- A program that grows on an empty table is mirrored by it. -/
theorem mirrors_of_grows {allow : Bool} (hids : p.ids.Nodup)
    (h : Grows p.number (begun allow p) t (blocksIn p.tag.id p.body)
      (placementsIn p.tag.id p.body) (declarations p.body)) : t.Mirrors p where
  inner := h.inner
  size := h.size.trans (Nat.add_comm _ _)
  opened {k b} hb := by
    cases k with
    | zero =>
      -- The root was current all the time, and started without names.
      cases hb
      obtain ⟨s, hs, hbinds⟩ := h.bound (s := .inside none) rfl
      refine ⟨s, hs, hbinds.parent?, fun parent hparent => ?_, fun name ty => ?_⟩
      · rw [hbinds.parent?] at hparent
        cases hparent
      · rw [hbinds.type?_iff, type?_inside]
        simp
    | succ i =>
      -- All other blocks were opened behind the root.
      obtain ⟨outer, s, houter, hlt, hs, hbinds⟩ := h.opened hb
      have hsize : (begun allow p).size + i = i + 1 := Nat.add_comm 1 i
      rw [hsize] at hlt hs
      refine ⟨s, hs, ?_, fun parent hparent => ?_, fun name ty => ?_⟩
      · rw [hbinds.parent?, houter]
        rfl
      · rw [hbinds.parent?] at hparent
        cases hparent
        exact hlt
      · rw [hbinds.type?_iff, type?_inside]
        simp
  placed {node k} := by
    -- The root was placed at the start, and everything else while the table grew.
    have hplaced {node : NodeId} {k : ScopeId} (hk : t.scopeOf? node = some k) :
        ∃ block, (node, block) ∈ p.placements ∧ p.number block = k := by
      rcases h.placed hk with hk | ⟨block, hmem, hblock⟩
      · obtain ⟨rfl, rfl⟩ := scopeOf?_begun.mp hk
        exact ⟨p.tag.id, List.mem_cons_self, Program.number_root hids⟩
      · exact ⟨block, List.mem_cons_of_mem _ hmem, hblock⟩
    refine ⟨hplaced, ?_⟩
    intro h
    obtain ⟨block, hmem, rfl⟩ := h
    have hsome : (t.scopeOf? node).isSome := by
      refine h.stays ?_
      rcases List.mem_cons.mp hmem with heq | hmem
      · cases heq
        exact .inl (Option.isSome_iff_exists.mpr ⟨root, scopeOf?_begun.mpr ⟨rfl, rfl⟩⟩)
      · exact .inr (List.mem_map_of_mem hmem)
    obtain ⟨k, hk⟩ := Option.isSome_iff_exists.mp hsome
    obtain ⟨block', hmem', rfl⟩ := hplaced hk
    -- Identities are unique, so a node is placed once.
    have heq := List.inj_on_of_nodup_map (Program.nodup_fst_placements hids) hmem hmem' rfl
    rw [hk, (Prod.mk.inj heq).2]

/-- Resolving a program whose identities are unique mirrors its blocks. -/
theorem mirrors_of_resolveWith {allow : Bool} {resolved : Resolved} (hids : p.ids.Nodup)
    (h : resolveWith (new.withShadowing allow) p = .ok resolved) :
    resolved.program = p ∧ resolved.symbols.Mirrors p := by
  obtain ⟨t, ht, h⟩ := Result.bind_eq_ok_iff.mp h
  cases h
  have hnumber : p.number p.tag.id = (begun allow p).current :=
    Program.number_root hids
  have hgrows := grows_of_resolveBlock (t := begun allow p) p.body Nat.one_pos hnumber
    (Program.numberedFrom_blocksIn hids) ht
  exact ⟨rfl, mirrors_of_grows hids hgrows⟩

end SymbolTable

/-- The scopes of a parsed program mirror its blocks, whether or not shadowing
    is allowed.  There is one scope for the program and one for each node with
    a block of its own, numbered in the order of the listing; a scope lies in
    that of the innermost block around its own; it binds exactly the names
    declared directly in its block, with their types; and exactly the nodes
    that lie in a block have a scope, that of their block. -/
theorem resolved_scopes_mirror_blocks {ts : List Token} {p : Program} {allow : Bool}
    {resolved : Resolved} (hparse : parse ts = .ok p)
    (hresolve : resolveWith (SymbolTable.new.withShadowing allow) p = .ok resolved) :
    resolved.program = p ∧ resolved.symbols.inner = [] ∧
    resolved.symbols.size = p.blocks.length ∧
    p.blocks.map Block.node = p.tag.id :: (p.nodes.filter Node.opens).map Node.id ∧
    (∀ k b, p.blocks[k]? = some b → ∃ s, resolved.symbols.scope? k = some s ∧
      (∀ parent, s.parent? = some parent ↔
        ∃ outer, p.blocks[parent]? = some outer ∧ b.around? = some outer.node) ∧
      ∀ name ty, s.type? name = some ty ↔ (name, ty) ∈ declarations b.body) ∧
    p.placements.map Prod.fst = p.tag.id :: (p.nodes.filter Node.hasScope).map Node.id ∧
    ∀ node k, resolved.symbols.scopeOf? node = some k ↔
      ∃ b, p.blocks[k]? = some b ∧ (node, b.node) ∈ p.placements := by
  have hids := Program.nodup_ids_of_parse hparse
  obtain ⟨hprogram, hmirrors⟩ := SymbolTable.mirrors_of_resolveWith hids hresolve
  refine ⟨hprogram, hmirrors.inner, hmirrors.size, p.map_node_blocks, fun k b hb => ?_,
    p.map_fst_placements, fun node k => ?_⟩
  · obtain ⟨s, hs, hparent, hlt, hbindings⟩ := hmirrors.opened hb
    refine ⟨s, hs, fun parent => ?_, hbindings⟩
    constructor
    · intro h
      have hrange : parent < p.blocks.length :=
        Nat.lt_trans (hlt parent h) (List.getElem?_eq_some_iff.mp hb).1
      rw [hparent, Option.map_eq_some_iff] at h
      obtain ⟨outer, houter, rfl⟩ := h
      -- The parent has a smaller number, so it is the scope of a block.
      obtain ⟨c, hc, rfl⟩ := Program.exists_block_of_number_lt hrange
      exact ⟨c, hc, houter⟩
    · intro h
      obtain ⟨outer, houter, haround⟩ := h
      rw [hparent, haround, Option.map_some, Program.number_node hids houter]
  · rw [hmirrors.placed]
    constructor
    · intro h
      obtain ⟨block, hmem, rfl⟩ := h
      obtain ⟨b, hb, rfl⟩ := Program.exists_block_of_placement hmem
      exact ⟨b, hb, hmem⟩
    · intro h
      obtain ⟨b, hb, hmem⟩ := h
      exact ⟨b.node, hmem, Program.number_node hids hb⟩

/-- A branch has a scope inside that of its `if`, which lies in the root. -/
theorem resolved_scopes_mirror_blocks_of_branch :
    ∃ ts p resolved, parse ts = .ok p ∧
      resolveWith (SymbolTable.new.withShadowing false) p = .ok resolved ∧
      p.blocks.map (fun b => (b.node, b.around?)) = [(0, none), (12, some 0), (11, some 12)] ∧
      resolved.symbols.size = p.blocks.length := by
  let source := "var x:int = 1; if x do var y:int = x; else x = y; end"
  have hok : (readProgram source "" >>=
      resolveWith (SymbolTable.new.withShadowing false)).isOk := by
    decide +kernel
  obtain ⟨resolved, hresolved⟩ := Result.exists_of_isOk hok
  obtain ⟨p, hp, hresolve⟩ := Result.bind_eq_ok_iff.mp hresolved
  obtain ⟨ts, -, hparse⟩ := Result.bind_eq_ok_iff.mp hp
  have hblocks : (readProgram source "").toOption.map
      (fun p => p.blocks.map fun b => (b.node, b.around?)) =
        some [(0, none), (12, some 0), (11, some 12)] := by
    decide +kernel
  rw [hp] at hblocks
  exact ⟨ts, p, resolved, hparse, hresolve, Option.some.inj hblocks,
    (resolved_scopes_mirror_blocks hparse hresolve).2.2.1⟩

end BlockLang
