import BlockLang.Proofs.Program.Blocks
import BlockLang.Proofs.Program.Matching
import BlockLang.Proofs.Scope.Run

/-! # Matching — resolving two programs side by side

  Two programs that match are resolved on top of two tables.  The tables may
  be of different size, and may hold anything in the scopes that are not open;
  all that has to match are the roots.  Then every scope that is opened has
  the same distance from the end of its table, lookups from it give the same
  types, and both resolutions fail at the same place or not at all. -/

namespace BlockLang

variable {c : Correspondence}

/-- The identities of the nodes with a scope among the given ones. -/
def Node.scopedIds (nodes : List Node) : List NodeId := (nodes.filter Node.hasScope).map Node.id

theorem Node.scopedIds_cons (node : Node) (nodes : List Node) :
    scopedIds (node :: nodes) = if node.hasScope then node.id :: scopedIds nodes
      else scopedIds nodes := by
  unfold scopedIds
  rw [List.filter_cons]
  split <;> rfl

@[simp] theorem Node.scopedIds_append (nodes more : List Node) :
    scopedIds (nodes ++ more) = scopedIds nodes ++ scopedIds more := by
  simp [scopedIds]

/-! ### Scopes -/

/-- The scopes lie in scopes that correspond, and bind names that stand for
    each other to the same types. -/
structure Scope.Matches (c : Correspondence) (scopes : ScopeId → ScopeId → Prop) (s s' : Scope) :
    Prop where
  parent? : Option.Rel scopes s.parent? s'.parent?
  type?_eq : ∀ {x x'}, c.names x x' → s'.type? x' = s.type? x
  known : ∀ {x ty}, s'.type? x = some ty → c.known x

section

variable {scopes : ScopeId → ScopeId → Prop} {s s' : Scope} {x x' : String} {ty : Ty}
  {place place' : Position}

theorem Scope.Matches.inside {parent? parent'? : Option ScopeId}
    (h : Option.Rel scopes parent? parent'?) :
    (Scope.inside parent?).Matches c scopes (.inside parent'?) where
  parent? := h
  type?_eq _ := rfl
  known {x ty} hty := by
    have hnone : (Scope.inside parent'?).type? x = none := Std.ExtTreeMap.getElem?_empty
    rw [hnone] at hty
    cases hty

/-- Names that stand for each other are both free or both taken. -/
theorem Scope.Matches.declare (h : s.Matches c scopes s') (hx : c.names x x')
    (hplace : c.places place place') :
    Result.Rel (Error.Matches c) (Scope.Matches c scopes) (s.declare x ty place)
      (s'.declare x' ty place') := by
  cases hs : s.declare x ty place with
  | error error =>
    unfold Scope.declare at hs ⊢
    rw [h.type?_eq hx]
    split at hs
    · rename_i htaken
      cases hs
      rw [if_pos htaken]
      exact .error ⟨.duplicateDeclaration hx, hplace⟩
    · cases hs
  | ok t =>
    have hfree : s'.type? x' = none := by
      rw [h.type?_eq hx]
      exact (declare_eq_ok_iff.mp hs).1
    have hs' : s'.declare x' ty place' =
        .ok { s' with bindings := s'.bindings.insert x' ty } :=
      declare_eq_ok_iff.mpr ⟨hfree, rfl⟩
    rw [hs']
    have hbinds := Scope.Binds.of_declare hs
    have hbinds' := Scope.Binds.of_declare hs'
    refine .ok ⟨?_, ?_, ?_⟩
    · rw [hbinds.parent?, hbinds'.parent?]
      exact h.parent?
    · intro y y' hy
      rw [type?_of_declare hs, type?_of_declare hs', h.type?_eq hy]
      by_cases heq : x = y
      · rw [if_pos heq, if_pos ((c.eq_iff hx hy).mp heq)]
      · rw [if_neg heq, if_neg (fun heq' => heq ((c.eq_iff hx hy).mpr heq'))]
    · intro y found hy
      rcases (hbinds'.type?_iff y found).mp hy with hy | hy
      · exact h.known hy
      · rw [(Prod.mk.inj (List.mem_singleton.mp hy)).1]
        exact c.known_of_names hx

end

namespace SymbolTable

/-! ### Tables -/

/-- Two scopes have the same place in tables that have grown from `base` and
    `base'`: they are the roots, or equally far behind the tables of before. -/
def Shifted (base base' : SymbolTable) (id id' : ScopeId) : Prop :=
  id = root ∧ id' = root ∨ ∃ k, id = base.size + k ∧ id' = base'.size + k

/-- The tables `t` and `t'` have grown from `base` and `base'` in the same way,
    and since then the nodes have been put into scopes.  Scopes of before other
    than the roots are not compared. -/
structure Matches (c : Correspondence) (base base' : SymbolTable) (nodes : List NodeId)
    (t t' : SymbolTable) : Prop where
  pos : 0 < base.size ∧ 0 < base'.size
  shadowing : t'.shadowing = t.shadowing
  inner : List.Forall₂ (Shifted base base') t.inner t'.inner
  size : ∃ k, t.size = base.size + k ∧ t'.size = base'.size + k
  scopes : ∀ {id id'}, Shifted base base' id id' →
    Option.Rel (Scope.Matches c (Shifted base base')) (t.scope? id) (t'.scope? id')
  placed : ∀ node ∈ nodes, ∃ id id', Shifted base base' id id' ∧ t.scopeOf? node = some id ∧
    t'.scopeOf? node = some id'
  others : ∀ node ∉ nodes, t.scopeOf? node = base.scopeOf? node ∧
    t'.scopeOf? node = base'.scopeOf? node

namespace Matches

variable {base base' t t' : SymbolTable} {nodes nodes' : List NodeId} {id id' : ScopeId}
  {x x' : String} {ty : Ty} {place place' : Position}

/-- Scopes that correspond are ordered in the same way. -/
theorem lt_iff (h : Matches c base base' nodes t t') {outer outer' : ScopeId}
    (hid : Shifted base base' id id') (houter : Shifted base base' outer outer') :
    outer < id ↔ outer' < id' := by
  obtain ⟨hpos, hpos'⟩ := h.pos
  unfold Shifted root at hid houter
  rcases hid with ⟨rfl, rfl⟩ | ⟨k, rfl, rfl⟩
  · simp
  · rcases houter with ⟨rfl, rfl⟩ | ⟨j, rfl, rfl⟩
    · exact iff_of_true (Nat.add_pos_left hpos k) (Nat.add_pos_left hpos' k)
    · rw [Nat.add_lt_add_iff_left, Nat.add_lt_add_iff_left]

/-- A scope corresponds to one scope only. -/
theorem eq_iff (h : Matches c base base' nodes t t') {other other' : ScopeId}
    (hid : Shifted base base' id id') (hother : Shifted base base' other other') :
    id = other ↔ id' = other' := by
  have hlt := h.lt_iff hid hother
  have hgt := h.lt_iff hother hid
  constructor
  · rintro rfl
    apply Nat.le_antisymm
    · exact Nat.le_of_not_lt (mt hlt.mpr (Nat.lt_irrefl _))
    · exact Nat.le_of_not_lt (mt hgt.mpr (Nat.lt_irrefl _))
  · rintro rfl
    apply Nat.le_antisymm
    · exact Nat.le_of_not_lt (mt hlt.mp (Nat.lt_irrefl _))
    · exact Nat.le_of_not_lt (mt hgt.mp (Nat.lt_irrefl _))

theorem shifted_size (h : Matches c base base' nodes t t') :
    Shifted base base' t.size t'.size := .inr h.size

theorem shifted_current (h : Matches c base base' nodes t t') :
    Shifted base base' t.current t'.current := by
  have hinner := h.inner
  unfold current
  generalize t.inner = inner at hinner ⊢
  generalize t'.inner = inner' at hinner ⊢
  cases hinner with
  | nil => exact .inl ⟨rfl, rfl⟩
  | cons hid _ => exact hid

/-- A name has the same type from scopes that correspond. -/
theorem type?_eq (h : Matches c base base' nodes t t') (hid : Shifted base base' id id')
    (hx : c.names x x') : t'.type? id' x' = t.type? id x := by
  -- On the number of the scope: the scope around it has a smaller one, in both tables.
  induction id using Nat.strongRecOn generalizing id' with
  | _ id ih =>
    rw [type?, type?]
    have hscopes := h.scopes hid
    generalize t.scope? id = s? at hscopes ⊢
    generalize t'.scope? id' = s'? at hscopes ⊢
    cases hscopes with
    | none => rfl
    | @some s s' hs =>
      simp only [hs.type?_eq hx]
      cases s.type? x with
      | some ty => rfl
      | none =>
        have hparent := hs.parent?
        generalize s.parent? = parent? at hparent ⊢
        generalize s'.parent? = parent'? at hparent ⊢
        cases hparent with
        | none => rfl
        | @some parent parent' hparent =>
          simp only
          by_cases hlt : parent < id
          · rw [if_pos hlt, if_pos ((h.lt_iff hid hparent).mp hlt)]
            exact ih parent hlt hparent
          · rw [if_neg hlt, if_neg (mt (h.lt_iff hid hparent).mpr hlt)]

/-- Only the nodes that have been put into scopes matter, not their order. -/
theorem of_mem_iff (h : Matches c base base' nodes t t')
    (hnodes : ∀ node, node ∈ nodes ↔ node ∈ nodes') : Matches c base base' nodes' t t' where
  pos := h.pos
  shadowing := h.shadowing
  inner := h.inner
  size := h.size
  scopes := h.scopes
  placed node hnode := h.placed node ((hnodes node).mpr hnode)
  others node hnode := h.others node (mt (hnodes node).mp hnode)

/-! ### Operations -/

theorem declareIn (h : Matches c base base' nodes t t') (hid : Shifted base base' id id')
    (hx : c.names x x') (hplace : c.places place place') :
    Result.Rel (Error.Matches c) (Matches c base base' nodes) (t.declareIn id x ty place)
      (t'.declareIn id' x' ty place') := by
  unfold SymbolTable.declareIn
  have hscopes := h.scopes hid
  cases hs : t.scope? id with
  | none =>
    rw [hs] at hscopes
    generalize t'.scope? id' = s'? at hscopes ⊢
    cases hscopes
    exact .ok h
  | some s =>
    rw [hs] at hscopes
    cases hs' : t'.scope? id' with
    | none =>
      rw [hs'] at hscopes
      cases hscopes
    | some s' =>
      rw [hs'] at hscopes
      cases hscopes with
      | some hmatches =>
        refine (hmatches.declare hx hplace).bind fun u u' hu => .ok ?_
        exact {
          pos := h.pos
          shadowing := h.shadowing
          inner := h.inner
          size := by
            obtain ⟨k, hk, hk'⟩ := h.size
            exact ⟨k, (Array.size_setIfInBounds ..).trans hk,
              (Array.size_setIfInBounds ..).trans hk'⟩
          scopes := fun {k k'} hk => by
            rw [scope?_set hs, scope?_set hs']
            by_cases heq : id = k
            · rw [if_pos heq, if_pos ((h.eq_iff hid hk).mp heq)]
              exact .some hu
            · rw [if_neg heq, if_neg (mt (h.eq_iff hid hk).mpr heq)]
              exact h.scopes hk
          placed := h.placed
          others := h.others }

/-- Names that stand for each other are both taken or both free in the current
    scopes. -/
theorem declare {ident ident' : Ident} (h : Matches c base base' nodes t t')
    (hident : ident.Matches c ident') :
    Result.Rel (Error.Matches c) (Matches c base base' nodes) (t.declare ident ty)
      (t'.declare ident' ty) := by
  unfold SymbolTable.declare
  rw [h.type?_eq h.shifted_current hident.name, h.shadowing]
  split
  · exact .error ⟨.duplicateDeclaration hident.name, hident.tag.start⟩
  · exact h.declareIn h.shifted_current hident.name hident.tag.start

theorem stamp (h : Matches c base base' nodes t t') (node : NodeId)
    (hid : Shifted base base' id id') :
    Matches c base base' (node :: nodes) (t.stamp node id) (t'.stamp node id') where
  pos := h.pos
  shadowing := h.shadowing
  inner := h.inner
  size := h.size
  scopes := h.scopes
  placed other hother := by
    rw [scopeOf?_stamp, scopeOf?_stamp]
    by_cases heq : node = other
    · rw [if_pos heq, if_pos heq]
      exact ⟨id, id', hid, rfl, rfl⟩
    · rw [if_neg heq, if_neg heq]
      exact h.placed other ((List.mem_cons.mp hother).resolve_left (Ne.symm heq))
  others other hother := by
    rw [List.mem_cons, not_or] at hother
    obtain ⟨hne, hother⟩ := hother
    rw [scopeOf?_stamp, scopeOf?_stamp, if_neg (Ne.symm hne), if_neg (Ne.symm hne)]
    exact h.others other hother

/-- The identifiers of an expression are put into scopes that correspond. -/
theorem stampExpr {e e' : Expr} (he : e.Matches c e') (h : Matches c base base' nodes t t')
    (hid : Shifted base base' id id') :
    Matches c base base' (Node.scopedIds e.nodes ++ nodes) (t.stampExpr id e)
      (t'.stampExpr id' e') := by
  induction he generalizing t t' nodes with
  | binary operator _ _ _ ihl ihr =>
    rw [Expr.nodes_binary]
    show Matches c base base' (Node.scopedIds (_ ++ _) ++ nodes) _ _
    rw [Node.scopedIds_append, List.append_assoc]
    exact ihl (ihr h)
  | identifier hident =>
    show Matches c base base' (_ :: nodes) (t.stamp _ id) (t'.stamp _ id')
    rw [hident.tag.id_eq]
    exact h.stamp _ hid
  | literal value _ => exact h

/-- Scopes that are opened inside scopes that correspond are new in both tables. -/
theorem openScope (h : Matches c base base' nodes t t') :
    Matches c base base' nodes t.openScope t'.openScope where
  pos := h.pos
  shadowing := h.shadowing
  inner := .cons h.shifted_size h.inner
  size := by
    obtain ⟨k, hk, hk'⟩ := h.size
    rw [size_openScope, size_openScope, hk, hk']
    exact ⟨k + 1, rfl, rfl⟩
  scopes {id id'} hid := by
    rw [scope?_openScope, scope?_openScope]
    by_cases heq : id = t.size
    · rw [if_pos heq, if_pos ((h.eq_iff hid h.shifted_size).mp heq)]
      exact .some (.inside (.some h.shifted_current))
    · rw [if_neg heq, if_neg (mt (h.eq_iff hid h.shifted_size).mpr heq)]
      exact h.scopes hid
  placed := h.placed
  others := h.others

theorem openBlock (h : Matches c base base' nodes t t') (node : NodeId) :
    Matches c base base' (node :: nodes) (t.openBlock node) (t'.openBlock node) :=
  h.openScope.stamp node h.shifted_size

theorem closeScope (h : Matches c base base' nodes t t') :
    Matches c base base' nodes t.closeScope t'.closeScope where
  pos := h.pos
  shadowing := h.shadowing
  inner := by
    have hinner := h.inner
    show List.Forall₂ _ t.inner.tail t'.inner.tail
    generalize t.inner = inner at hinner ⊢
    generalize t'.inner = inner' at hinner ⊢
    cases hinner with
    | nil => exact .nil
    | cons _ hrest => exact hrest
  size := h.size
  scopes := h.scopes
  placed := h.placed
  others := h.others

/-- Two tables match with no scope of theirs open if their roots do. -/
theorem start (ht : t.WellFormed) (ht' : t'.WellFormed) (hshadowing : t'.shadowing = t.shadowing)
    (htypes : ∀ {x x'}, c.names x x' → t'.type? root x' = t.type? root x)
    (hknown : ∀ {x ty}, t'.type? root x = some ty → c.known x) :
    Matches c t t' [] t.closeAll t'.closeAll where
  pos := ⟨ht.size_pos, ht'.size_pos⟩
  shadowing := hshadowing
  inner := .nil
  size := ⟨0, rfl, rfl⟩
  scopes {id id'} hid := by
    rcases hid with ⟨rfl, rfl⟩ | ⟨k, rfl, rfl⟩
    · obtain ⟨s, hs, hparent⟩ := ht.root
      obtain ⟨s', hs', hparent'⟩ := ht'.root
      have htype (x : String) : t.type? root x = s.type? x :=
        type?_of_parent?_eq_none hs hparent x
      have htype' (x : String) : t'.type? root x = s'.type? x :=
        type?_of_parent?_eq_none hs' hparent' x
      show Option.Rel _ (t.scope? root) (t'.scope? root)
      rw [hs, hs']
      refine .some ⟨?_, ?_, ?_⟩
      · rw [hparent, hparent']
        exact .none
      · intro x x' hx
        rw [← htype, ← htype']
        exact htypes hx
      · intro x ty hty
        rw [← htype'] at hty
        exact hknown hty
    · have hnone : t.scope? (t.size + k) = none := Array.getElem?_eq_none (Nat.le_add_right ..)
      have hnone' : t'.scope? (t'.size + k) = none := Array.getElem?_eq_none (Nat.le_add_right ..)
      show Option.Rel _ (t.scope? (t.size + k)) (t'.scope? (t'.size + k))
      rw [hnone, hnone']
      exact .none
  placed := nofun
  others _ _ := ⟨rfl, rfl⟩

/-! ### Blocks -/

/-- A condition is put into the current scope, and then a block is opened. -/
theorem govern {condition condition' : Expr} {tag tag' : Tag}
    (h : Matches c base base' nodes t t') (hcondition : condition.Matches c condition')
    (htag : tag.Matches c tag') :
    Matches c base base' (tag.id :: (Node.scopedIds condition.nodes ++ nodes))
      ((t.stampExpr t.current condition).openBlock tag.id)
      ((t'.stampExpr t'.current condition').openBlock tag'.id) := by
  rw [htag.id_eq]
  exact (h.stampExpr hcondition h.shifted_current).openBlock tag.id

/-- A statement and then the rest of its block. -/
theorem resolve_cons {s s' : Stmt} {ss ss' : List Stmt} (nodes' : List NodeId)
    (hs : Result.Rel (Error.Matches c) (Matches c base base' nodes') (t.resolveStmt s)
      (t'.resolveStmt s'))
    (hnodes : ∀ node, node ∈ nodes' ↔ node ∈ Node.scopedIds s.nodes ∨ node ∈ nodes)
    (hss : ∀ {nodes t t'}, Matches c base base' nodes t t' →
      Result.Rel (Error.Matches c)
        (Matches c base base' (Node.scopedIds (blockNodes ss) ++ nodes)) (t.resolveBlock ss)
        (t'.resolveBlock ss')) :
    Result.Rel (Error.Matches c)
      (Matches c base base' (Node.scopedIds (blockNodes (s :: ss)) ++ nodes))
      (t.resolveBlock (s :: ss)) (t'.resolveBlock (s' :: ss')) := by
  refine hs.bind fun t₁ t₁' h₁ => ?_
  refine (hss h₁).imp (fun _ _ => id) fun t₂ t₂' h₂ => h₂.of_mem_iff fun node => ?_
  rw [blockNodes_cons, Node.scopedIds_append, List.mem_append, List.mem_append, List.mem_append,
    hnodes]
  grind

end Matches

/-- Blocks that match are resolved in the same way. -/
theorem rel_resolveBlock {base base' t t' : SymbolTable} {nodes : List NodeId}
    {body body' : List Stmt} (hbody : BlockMatches c body body')
    (h : Matches c base base' nodes t t') :
    Result.Rel (Error.Matches c)
      (Matches c base base' (Node.scopedIds (blockNodes body) ++ nodes))
      (t.resolveBlock body) (t'.resolveBlock body') := by
  induction hbody generalizing nodes t t' with
  | nil => exact .ok h
  | @declaration target target' value value' tag tag' _ _ ty htarget hvalue htag _ ih =>
    have hcurrent := h.shifted_current
    apply Matches.resolve_cons (tag.id :: (Node.scopedIds value.nodes ++ target.tag.id :: nodes))
      _ _ ih
    · refine (h.declare htarget).bind fun t₁ t₁' h₁ => .ok ?_
      rw [htarget.tag.id_eq, htag.id_eq]
      exact ((h₁.stamp target.tag.id hcurrent).stampExpr hvalue hcurrent).stamp tag.id hcurrent
    · intro node
      simp only [Stmt.nodes_declaration, Node.scopedIds_cons, Node.hasScope, if_true,
        List.mem_cons, List.mem_append, Node.id_stmt, Node.id_target, Stmt.tag]
      grind
  | @assignment target target' value value' _ _ _ _ htarget hvalue _ _ ih =>
    have hcurrent := h.shifted_current
    apply Matches.resolve_cons (Node.scopedIds value.nodes ++ target.tag.id :: nodes) _ _ ih
    · refine .ok ?_
      rw [htarget.tag.id_eq]
      exact (h.stamp target.tag.id hcurrent).stampExpr hvalue hcurrent
    · intro node
      simp only [Stmt.nodes_assignment, Node.scopedIds_cons, Node.hasScope, if_true,
        Bool.false_eq_true, if_false, List.mem_cons, List.mem_append, Node.id_target]
      grind
  | @print value value' _ _ _ _ hvalue _ _ ih =>
    apply Matches.resolve_cons (Node.scopedIds value.nodes ++ nodes) _ _ ih
    · exact .ok (h.stampExpr hvalue h.shifted_current)
    · intro node
      simp only [Stmt.nodes_print, Node.scopedIds_cons, Node.hasScope, Bool.false_eq_true,
        if_false, List.mem_append]
  | @whileDo condition _ body _ tag _ _ _ hcondition _ htag _ ihb ih
  | @ifThen condition _ body _ tag _ _ _ hcondition _ htag _ ihb ih =>
    apply Matches.resolve_cons (Node.scopedIds (blockNodes body) ++
      tag.id :: (Node.scopedIds condition.nodes ++ nodes)) _ _ ih
    · exact (ihb (h.govern hcondition htag)).bind fun t₁ t₁' h₁ => .ok h₁.closeScope
    · intro node
      simp only [Stmt.nodes_whileDo, Stmt.nodes_ifThen, Node.scopedIds_cons, Node.hasScope,
        if_true, Node.scopedIds_append, List.mem_cons, List.mem_append, Node.id_stmt, Stmt.tag]
      grind
  | @ifThenElse condition _ body _ otherwise _ elseTag _ tag _ _ _ hcondition _ _ helse htag _
      ihb iho ih =>
    apply Matches.resolve_cons (Node.scopedIds (blockNodes otherwise) ++ elseTag.id ::
      (Node.scopedIds (blockNodes body) ++ tag.id :: (Node.scopedIds condition.nodes ++ nodes)))
      _ _ ih
    · refine (ihb (h.govern hcondition htag)).bind fun t₁ t₁' h₁ => ?_
      rw [helse.id_eq]
      exact (iho (h₁.openBlock elseTag.id)).bind fun t₂ t₂' h₂ => .ok h₂.closeScope.closeScope
    · intro node
      simp only [Stmt.nodes_ifThenElse, Node.scopedIds_cons, Node.hasScope, if_true,
        Node.scopedIds_append, List.mem_cons, List.mem_append, Node.id_stmt, Node.id_elseBranch,
        Stmt.tag]
      grind

end SymbolTable

/-- Programs that match are resolved in the same way on top of tables whose
    roots match. -/
theorem rel_resolveWith {p p' : Program} {t t' : SymbolTable} (hp : p.Matches c p')
    (ht : t.WellFormed) (ht' : t'.WellFormed) (hshadowing : t'.shadowing = t.shadowing)
    (htypes : ∀ {x x'}, c.names x x' → t'.type? SymbolTable.root x' = t.type? SymbolTable.root x)
    (hknown : ∀ {x ty}, t'.type? SymbolTable.root x = some ty → c.known x) :
    Result.Rel (Error.Matches c)
      (fun r r' => r.program = p ∧ r'.program = p' ∧
        SymbolTable.Matches c t t' (p.tag.id :: Node.scopedIds p.nodes) r.symbols r'.symbols)
      (resolveWith t p) (resolveWith t' p') := by
  have hstart := (SymbolTable.Matches.start ht ht' hshadowing htypes hknown).stamp p.tag.id
    (.inl ⟨rfl, rfl⟩)
  unfold resolveWith
  rw [hp.id_eq]
  refine (SymbolTable.rel_resolveBlock hp.body hstart).bind fun u u' hu => .ok ⟨rfl, rfl, ?_⟩
  apply hu.of_mem_iff
  intro node
  rw [List.mem_append, List.mem_singleton, List.mem_cons, or_comm]
  rfl

end BlockLang
