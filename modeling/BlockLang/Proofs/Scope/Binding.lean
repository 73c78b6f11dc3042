import BlockLang.Compile
import BlockLang.Proofs.Program.Blocks
import BlockLang.Proofs.Result
import BlockLang.Scope.Resolved

/-! # Binding — which declarations find their name taken

  A declaration finds its name taken by an earlier declaration of its own
  block, and at the top level also by a name that the root had from the
  start.  Where shadowing is not allowed, earlier declarations of the blocks
  around count too, and so do the names of the root at any depth.  Resolving
  a program fails exactly at the first declaration in the source whose name
  is taken.

  Nothing here depends on how scopes are numbered or on the identities of
  nodes: a table is looked at as the names that its open scopes bind. -/

namespace BlockLang

/-! ### Binders -/

/-- The names declared directly in a block. -/
def declaredNames (body : List Stmt) : List String := (declarations body).map Prod.fst

theorem declaredNames_append (ss rest : List Stmt) :
    declaredNames (ss ++ rest) = declaredNames ss ++ declaredNames rest := by
  rw [declaredNames, declarations, List.filterMap_append, List.map_append]
  rfl

/-- A statement that declares nothing in its own block adds no name to it. -/
theorem declaredNames_singleton_of_none {s : Stmt} (h : s.declares? = none) :
    declaredNames [s] = [] := by
  rw [declaredNames, declarations_cons, h]
  rfl

/-- A declaration, with the names that are declared before it. -/
structure Binder where
  /-- The identifier that is declared. -/
  target : Ident
  /-- The names declared before it in its own block. -/
  own : List String
  /-- The names declared before it directly in each block around that, innermost
      first.  A declaration at the top level has no block around its own. -/
  around : List (List String)

namespace Binder

/-- Is the name of the declaration taken, in a table whose root starts as
    `root`? -/
def Taken (allow : Bool) (root : Scope) (b : Binder) : Prop :=
  b.target.name ∈ b.own ∨ (b.around = [] ∧ (root.type? b.target.name).isSome) ∨
    (allow = false ∧
      ((∃ names ∈ b.around, b.target.name ∈ names) ∨ (root.type? b.target.name).isSome))

instance (allow : Bool) (root : Scope) (b : Binder) : Decidable (b.Taken allow root) := by
  unfold Taken
  infer_instance

/-- The error about a declaration whose name is taken. -/
def duplicate (b : Binder) : Error :=
  ⟨.duplicateDeclaration b.target.name, b.target.tag.span.start⟩

end Binder

mutual

/-- The declarations in a statement, in the order of the source.  A block
    encloses what stands in it, and the block of an `if` its else branch too,
    which comes behind all of the block. -/
def Stmt.binders (own : List String) (around : List (List String)) : Stmt → List Binder
  | .declaration target _ _ _ => [⟨target, own, around⟩]
  | .assignment .. | .print .. => []
  | .whileDo _ body _ | .ifThen _ body _ => blockBinders [] (own :: around) body
  | .ifThenElse _ body otherwise _ _ =>
      blockBinders [] (own :: around) body ++
        blockBinders [] (declaredNames body :: own :: around) otherwise

/-- The declarations in the statements of a block behind those that declare
    `own`. -/
def blockBinders (own : List String) (around : List (List String)) : List Stmt → List Binder
  | [] => []
  | s :: ss => s.binders own around ++ blockBinders (own ++ declaredNames [s]) around ss

end

/-- The declarations of a program, in the order of the source. -/
def Program.binders (p : Program) : List Binder := blockBinders [] [] p.body

/-! ### Which declarations these are -/

/-- What a node declares, if it is a declaration. -/
def Node.declared? : Node → Option Ident
  | .stmt (.declaration ident _ _ _) => some ident
  | _ => none

@[simp] theorem Expr.filterMap_declared_nodes (e : Expr) :
    e.nodes.filterMap Node.declared? = [] := by
  induction e with
  | binary left operator right tag ihl ihr =>
    rw [nodes_binary, List.filterMap_cons_none rfl, List.filterMap_append, ihl, ihr]
    rfl
  | identifier ident => rfl
  | literal value tag => rfl

theorem map_target_blockBinders (body : List Stmt) (own : List String)
    (around : List (List String)) :
    (blockBinders own around body).map Binder.target =
      (blockNodes body).filterMap Node.declared? := by
  induction body using blockInduction generalizing own around with
  | nil => rfl
  | declaration target ty value tag ss ih | assignment target value tag ss ih
  | print value tag ss ih =>
    simp [blockBinders, Stmt.binders, List.filterMap_cons, Node.declared?, ih]
  | whileDo condition body tag ss ihb ih | ifThen condition body tag ss ihb ih =>
    simp [blockBinders, Stmt.binders, List.filterMap_cons, Node.declared?, ihb, ih]
  | ifThenElse condition body otherwise elseTag tag ss ihb iho ih =>
    simp [blockBinders, Stmt.binders, List.filterMap_cons, Node.declared?, ihb, iho, ih]

/-- Each declaration among the nodes of a program is listed once, in order. -/
theorem Program.map_target_binders (p : Program) :
    p.binders.map Binder.target = p.nodes.filterMap Node.declared? :=
  map_target_blockBinders p.body [] []

/-- What is declared in a block is the target of one of its nodes. -/
theorem target_mem_of_mem_blockBinders {b : Binder} {body : List Stmt} {own : List String}
    {around : List (List String)} (hb : b ∈ blockBinders own around body) :
    Node.target b.target ∈ blockNodes body := by
  induction body using blockInduction generalizing own around with
  | nil => cases hb
  | declaration target ty value tag ss ih =>
    rw [blockBinders, Stmt.binders, List.singleton_append, List.mem_cons] at hb
    rw [blockNodes_cons, Stmt.nodes_declaration, List.mem_append]
    rcases hb with rfl | hb
    · exact .inl (List.mem_cons_of_mem _ List.mem_cons_self)
    · exact .inr (ih hb)
  | assignment target value tag ss ih | print value tag ss ih =>
    rw [blockBinders, Stmt.binders, List.nil_append] at hb
    rw [blockNodes_cons, List.mem_append]
    exact .inr (ih hb)
  | whileDo condition body tag ss ihb ih | ifThen condition body tag ss ihb ih =>
    rw [blockBinders, Stmt.binders, List.mem_append] at hb
    simp only [blockNodes_cons, Stmt.nodes_whileDo, Stmt.nodes_ifThen, List.mem_append,
      List.mem_cons]
    rcases hb with hb | hb
    · exact .inl (.inr (.inr (ihb hb)))
    · exact .inr (ih hb)
  | ifThenElse condition body otherwise elseTag tag ss ihb iho ih =>
    rw [blockBinders, Stmt.binders, List.mem_append, List.mem_append] at hb
    simp only [blockNodes_cons, Stmt.nodes_ifThenElse, List.mem_append, List.mem_cons]
    rcases hb with (hb | hb) | hb
    · exact .inl (.inr (.inr (.inl (ihb hb))))
    · exact .inl (.inr (.inr (.inr (.inr (iho hb)))))
    · exact .inr (ih hb)

/-- What stands in a row declares in a row. -/
theorem blockBinders_append (ss rest : List Stmt) (own : List String)
    (around : List (List String)) :
    blockBinders own around (ss ++ rest) =
      blockBinders own around ss ++ blockBinders (own ++ declaredNames ss) around rest := by
  induction ss generalizing own with
  | nil => exact congrArg (blockBinders · around rest) (List.append_nil own).symm
  | cons s ss ih =>
    rw [List.cons_append, blockBinders, blockBinders, ih, List.append_assoc, List.append_assoc,
      ← declaredNames_append]
    rfl

namespace SymbolTable

/-! ### Declaring in a table -/

section

variable {t : SymbolTable} {s : Scope} {ident : Ident}

/-- A name that the current scope binds is refused, and without shadowing every
    name in sight. -/
theorem declare_of_taken (hs : t.scope? t.current = some s)
    (htaken : (s.type? ident.name).isSome ∨
      (t.shadowing = false ∧ (t.type? t.current ident.name).isSome)) (ty : Ty) :
    t.declare ident ty =
      .error ⟨.duplicateDeclaration ident.name, ident.tag.span.start⟩ := by
  unfold declare
  -- Both checks give the same error.
  split
  · rfl
  · rename_i hguard
    have hbound : (s.type? ident.name).isSome := by
      refine htaken.resolve_right fun hseen => hguard ?_
      simp [hseen]
    rw [declareIn, hs]
    show Scope.declare .. >>= _ = _
    rw [Scope.declare, if_pos hbound]
    rfl

/-- Any other name is bound in the current scope. -/
theorem declare_of_free (hs : t.scope? t.current = some s) (hfree : s.type? ident.name = none)
    (hguard : t.shadowing = false → t.type? t.current ident.name = none) (ty : Ty) :
    ∃ s', s.declare ident.name ty ident.tag.span.start = .ok s' ∧
      t.declare ident ty = .ok { t with scopes := t.scopes.setIfInBounds t.current s' } := by
  have hs' : s.declare ident.name ty ident.tag.span.start =
      .ok { s with bindings := s.bindings.insert ident.name ty } :=
    Scope.declare_eq_ok_iff.mpr ⟨hfree, rfl⟩
  refine ⟨_, hs', ?_⟩
  have hpass : ¬ (!t.shadowing && (t.type? t.current ident.name).isSome) = true := by
    cases hshadowing : t.shadowing with
    | true => simp
    | false => simp [hguard hshadowing]
  rw [declare, if_neg hpass, declareIn, hs]
  show Scope.declare .. >>= _ = _
  rw [hs']
  rfl

end

/-! ### The names of open scopes -/

/-- The scopes with the numbers `ids`, innermost first, lie in each other and
    in the root.  Each binds the names in its place of `levels`; the root comes
    last and binds those of `start` too. -/
inductive Nested (t : SymbolTable) (start : Scope) : List ScopeId → List (List String) → Prop
  | base {s : Scope} {names : List String} (hs : t.scope? root = some s)
      (hnames : ∀ x, (s.type? x).isSome ↔ x ∈ names ∨ (start.type? x).isSome) :
      Nested t start [] [names]
  | inner {s : Scope} {id : ScopeId} {ids : List ScopeId} {names : List String}
      {around : List (List String)} (hs : t.scope? id = some s)
      (hparent : s.parent? = some (ids.head?.getD root))
      (hlt : ids.head?.getD root < id)
      (hnames : ∀ x, (s.type? x).isSome ↔ x ∈ names) (h : Nested t start ids around) :
      Nested t start (id :: ids) (names :: around)

namespace Nested

variable {t t' : SymbolTable} {start : Scope} {ids : List ScopeId} {own : List String}
  {around levels : List (List String)}

theorem exists_eq_cons (h : Nested t start ids levels) : ∃ own around, levels = own :: around := by
  cases h with
  | base _ _ => exact ⟨_, _, rfl⟩
  | inner _ _ _ _ _ => exact ⟨_, _, rfl⟩

/-- From the innermost scope exactly the names of all levels are in sight. -/
theorem type?_isSome_iff (h : Nested t start ids levels) (x : String) :
    (t.type? (ids.head?.getD root) x).isSome ↔
      (∃ names ∈ levels, x ∈ names) ∨ (start.type? x).isSome := by
  induction h with
  | @base s names hs hnames =>
    rw [type?, List.head?_nil, Option.getD_none, hs]
    simp only [List.mem_singleton, exists_eq_left]
    rw [← hnames x]
    cases s.type? x with
    | some ty => rfl
    | none =>
      -- A scope around the root would have a smaller number.
      cases s.parent? with
      | none => rfl
      | some parent => simp [show ¬ parent < root from Nat.not_lt_zero parent]
  | @inner s id ids names around hs hparent hlt hnames h ih =>
    rw [type?, List.head?_cons, Option.getD_some, hs]
    simp only [List.mem_cons, exists_eq_or_imp, hparent]
    rw [← hnames x, or_assoc, ← ih]
    cases s.type? x with
    | some ty => simp
    | none => simp [hlt]

/-- Only scopes up to the innermost matter. -/
theorem of_agree (h : Nested t start ids levels)
    (hagree : ∀ id ≤ ids.head?.getD root, t'.scope? id = t.scope? id) :
    Nested t' start ids levels := by
  induction h with
  | base hs hnames => exact .base ((hagree root (Nat.le_refl _)).trans hs) hnames
  | inner hs hparent hlt hnames _ ih =>
    refine .inner ((hagree _ (Nat.le_refl _)).trans hs) hparent hlt hnames (ih fun id hid => ?_)
    exact hagree id (Nat.le_of_lt (Nat.lt_of_le_of_lt hid hlt))

/-- The innermost scope binds the names of its own level, and if it is the root
    those that the root had at the start. -/
theorem exists_scope (h : Nested t start ids (own :: around)) :
    ∃ s, t.scope? (ids.head?.getD root) = some s ∧
      ∀ x, (s.type? x).isSome ↔ x ∈ own ∨ around = [] ∧ (start.type? x).isSome := by
  cases h with
  | base hs hnames => exact ⟨_, hs, by simpa using hnames⟩
  | inner hs hparent hlt hnames h =>
    refine ⟨_, hs, fun x => ?_⟩
    have hne : around ≠ [] := by
      intro hnil
      cases h <;> cases hnil
    simp [hnames x, hne]

/-- One more name in the innermost scope. -/
theorem insert (h : Nested t start ids (own :: around)) {s s' : Scope} {name : String}
    (hs : t.scope? (ids.head?.getD root) = some s) (hparent : s'.parent? = s.parent?)
    (hnames : ∀ x, (s'.type? x).isSome ↔ name = x ∨ (s.type? x).isSome)
    (ht' : ∀ id, t'.scope? id = if ids.head?.getD root = id then some s' else t.scope? id) :
    Nested t' start ids ((own ++ [name]) :: around) := by
  cases h with
  | base hs₀ hnames₀ =>
    cases hs.symm.trans hs₀
    refine .base (by rw [ht']; exact if_pos rfl) fun x => ?_
    rw [hnames, hnames₀, List.mem_append, List.mem_singleton, eq_comm (a := x), or_right_comm,
      or_comm]
  | inner hs₀ hparent₀ hlt hnames₀ h =>
    cases hs.symm.trans hs₀
    refine .inner (by rw [ht']; exact if_pos rfl) (hparent.trans hparent₀) hlt (fun x => ?_) ?_
    · rw [hnames, hnames₀, List.mem_append, List.mem_singleton, eq_comm (a := x), or_comm]
    -- The scopes further out have smaller numbers.
    · refine h.of_agree fun id hid => ?_
      exact (ht' id).trans (if_neg (Nat.ne_of_gt (Nat.lt_of_le_of_lt hid hlt)))

end Nested

/-- The open scopes of the table are those of blocks that have declared the
    names in `levels`, innermost first, on top of a root that started as
    `start`. -/
structure Inside (t : SymbolTable) (allow : Bool) (start : Scope) (levels : List (List String)) :
    Prop where
  shadowing : t.shadowing = allow
  nested : Nested t start t.inner levels

/-- What resolving a part of a program gives: the error about the first of its
    declarations whose name is taken, or a table inside blocks that have
    declared the names in `levels`. -/
def Detects (allow : Bool) (start : Scope) (result : Except Error SymbolTable)
    (binders : List Binder) (levels : List (List String)) : Prop :=
  match binders.find? (·.Taken allow start) with
  | some b => result = .error b.duplicate
  | none => ∃ t, result = .ok t ∧ t.Inside allow start levels

namespace Detects

variable {allow : Bool} {start : Scope} {x : Except Error SymbolTable}
  {f : SymbolTable → Except Error SymbolTable} {bs cs : List Binder}
  {levels levels' : List (List String)}

/-- A step without declarations. -/
theorem of_inside {t : SymbolTable} (h : t.Inside allow start levels) :
    Detects allow start (.ok t) [] levels := ⟨t, rfl, h⟩

/-- Two parts in a row: the second matters where the first has no error. -/
theorem bind (hx : Detects allow start x bs levels)
    (hf : ∀ t, t.Inside allow start levels → Detects allow start (f t) cs levels') :
    Detects allow start (x >>= f) (bs ++ cs) levels' := by
  unfold Detects at hx ⊢
  rw [List.find?_append]
  cases hfind : bs.find? (·.Taken allow start) with
  | some b =>
    rw [hfind] at hx
    rw [show x = .error b.duplicate from hx]
    rfl
  | none =>
    rw [hfind] at hx
    obtain ⟨t, rfl, ht⟩ := hx
    exact hf t ht

/-- A step behind it that declares nothing. -/
theorem map (hx : Detects allow start x bs levels) {g : SymbolTable → SymbolTable}
    (hg : ∀ t, t.Inside allow start levels → (g t).Inside allow start levels') :
    Detects allow start (x >>= fun t => .ok (g t)) bs levels' := by
  rw [← List.append_nil bs]
  exact hx.bind fun t ht => of_inside (hg t ht)

/-- Either some declaration is the first whose name is taken, or none is. -/
theorem outcome (hx : Detects allow start x bs levels) :
    (∃ before b behind, bs = before ++ b :: behind ∧ (∀ c ∈ before, ¬ c.Taken allow start) ∧
      b.Taken allow start ∧ x = .error b.duplicate) ∨
    ((∀ b ∈ bs, ¬ b.Taken allow start) ∧ ∃ t, x = .ok t ∧ t.Inside allow start levels) := by
  unfold Detects at hx
  cases hfind : bs.find? (·.Taken allow start) with
  | some b =>
    rw [hfind] at hx
    obtain ⟨htaken, before, behind, hbs, hfree⟩ := List.find?_eq_some_iff_append.mp hfind
    refine .inl ⟨before, b, behind, hbs, fun c hc => ?_, of_decide_eq_true htaken, hx⟩
    simpa using hfree c hc
  | none =>
    rw [hfind] at hx
    refine .inr ⟨fun b hb htaken => ?_, hx⟩
    exact List.find?_eq_none.mp hfind b hb (decide_eq_true htaken)

/-- The table that is left is inside the same blocks. -/
theorem of_ok (hx : Detects allow start x bs levels) {t : SymbolTable} (ht : x = .ok t) :
    t.Inside allow start levels := by
  rcases hx.outcome with ⟨before, b, behind, -, -, -, herror⟩ | ⟨-, u, hu, hinside⟩
  · cases ht.symm.trans herror
  · cases ht.symm.trans hu
    exact hinside

theorem exists_ok_iff (hx : Detects allow start x bs levels) :
    (∃ t, x = .ok t) ↔ ∀ b ∈ bs, ¬ b.Taken allow start := by
  rcases hx.outcome with ⟨before, b, behind, hbs, -, htaken, herror⟩ | ⟨hfree, u, hu, -⟩
  · have hb : b ∈ bs := hbs ▸ List.mem_append_right _ List.mem_cons_self
    refine iff_of_false ?_ fun hfree => hfree b hb htaken
    rintro ⟨t, ht⟩
    cases ht.symm.trans herror
  · exact iff_of_true ⟨u, hu⟩ hfree

theorem of_error (hx : Detects allow start x bs levels) {e : Error} (he : x = .error e) :
    ∃ before b behind, bs = before ++ b :: behind ∧ (∀ c ∈ before, ¬ c.Taken allow start) ∧
      b.Taken allow start ∧ e = b.duplicate := by
  rcases hx.outcome with ⟨before, b, behind, hbs, hfree, htaken, herror⟩ | ⟨-, u, hu, -⟩
  · cases herror.symm.trans he
    exact ⟨before, b, behind, hbs, hfree, htaken, rfl⟩
  · cases he.symm.trans hu

end Detects

namespace Inside

variable {t t' : SymbolTable} {allow : Bool} {start : Scope} {own names : List String}
  {around levels : List (List String)}

/-! ### Operations -/

/-- Putting nodes into scopes changes nothing about names. -/
theorem of_scopes_eq (h : t.Inside allow start levels) (hscopes : t'.scopes = t.scopes)
    (hinner : t'.inner = t.inner) (hshadowing : t'.shadowing = t.shadowing) :
    t'.Inside allow start levels where
  shadowing := hshadowing.trans h.shadowing
  nested := by
    rw [hinner]
    exact h.nested.of_agree fun id _ => by rw [scope?, scope?, hscopes]

theorem stamp (h : t.Inside allow start levels) (node : NodeId) (id : ScopeId) :
    (t.stamp node id).Inside allow start levels := h.of_scopes_eq rfl rfl rfl

theorem stampExpr (h : t.Inside allow start levels) (id : ScopeId) (e : Expr) :
    (t.stampExpr id e).Inside allow start levels := by
  induction e generalizing t with
  | binary left operator right tag ihl ihr => exact ihl (ihr h)
  | identifier ident => exact h.stamp ident.tag.id id
  | literal value tag => exact h

/-- Inside a new block nothing is declared yet. -/
theorem openBlock (h : t.Inside allow start (own :: around)) (node : NodeId) :
    (t.openBlock node).Inside allow start ([] :: own :: around) := by
  obtain ⟨s, hs, -⟩ := h.nested.exists_scope
  have hlt : t.current < t.size := (Array.getElem?_eq_some_iff.mp hs).1
  have hopen : t.openScope.Inside allow start ([] :: own :: around) := by
    refine ⟨h.shadowing, .inner (s := .inside (some t.current)) ?_ rfl hlt (fun x => ?_) ?_⟩
    · rw [scope?_openScope, if_pos rfl]
    · rw [Scope.type?, Scope.inside, Std.ExtTreeMap.getElem?_empty]
      simp
    · refine h.nested.of_agree fun id hid => ?_
      rw [scope?_openScope, if_neg (Nat.ne_of_lt (Nat.lt_of_le_of_lt hid hlt))]
  exact hopen.stamp node _

/-- Behind a block its names are out of sight. -/
theorem closeScope (h : t.Inside allow start (names :: own :: around)) :
    t.closeScope.Inside allow start (own :: around) := by
  have hnested := h.nested
  have hclosed : Nested t start t.inner.tail (own :: around) := by
    generalize t.inner = ids at hnested ⊢
    cases hnested with
    | inner hs hparent hlt hnames hnested => exact hnested
  exact ⟨h.shadowing, hclosed.of_agree fun _ _ => rfl⟩

/-- The name of a declaration is taken if its own scope binds it or, without
    shadowing, if it is in sight. -/
theorem taken_iff (h : t.Inside allow start (own :: around)) (ident : Ident) :
    ∃ s, t.scope? t.current = some s ∧
      ((Binder.mk ident own around).Taken allow start ↔ (s.type? ident.name).isSome ∨
        (allow = false ∧ (t.type? t.current ident.name).isSome)) := by
  obtain ⟨s, hs, hnames⟩ := h.nested.exists_scope
  refine ⟨s, hs, ?_⟩
  have hseen := h.nested.type?_isSome_iff ident.name
  rw [Binder.Taken, hnames, current, hseen]
  simp only [List.mem_cons, exists_eq_or_imp]
  grind

/-- Binding the name of a declaration. -/
theorem declare (h : t.Inside allow start (own :: around)) (ident : Ident) (ty : Ty) :
    Detects allow start (t.declare ident ty) [⟨ident, own, around⟩]
      ((own ++ [ident.name]) :: around) := by
  obtain rfl := h.shadowing
  obtain ⟨s, hs, htaken⟩ := h.taken_iff ident
  unfold Detects
  by_cases hb : (Binder.mk ident own around).Taken t.shadowing start
  · rw [List.find?_cons_of_pos (by simpa using hb)]
    exact declare_of_taken hs (htaken.mp hb) ty
  · rw [List.find?_cons_of_neg (by simpa using hb), List.find?_nil]
    rw [htaken, not_or, not_and, Bool.not_eq_true, Option.isSome_eq_false_iff] at hb
    obtain ⟨s', hs', hok⟩ := declare_of_free hs (Option.isNone_iff_eq_none.mp hb.1)
      (fun hshadowing => Option.not_isSome_iff_eq_none.mp (hb.2 hshadowing)) ty
    have hlt : t.current < t.scopes.size := (Array.getElem?_eq_some_iff.mp hs).1
    have hparent : s'.parent? = s.parent? := by rw [← (Scope.declare_eq_ok_iff.mp hs').2]
    refine ⟨_, hok, rfl, h.nested.insert hs hparent (fun x => ?_) fun id => ?_⟩
    · rw [Scope.type?_of_declare hs']
      by_cases hx : ident.name = x
      · simp [hx]
      · simp [hx]
    · show (t.scopes.setIfInBounds t.current s')[id]? = _
      rw [Array.getElem?_setIfInBounds, if_pos hlt]
      rfl

end Inside

/-! ### Statements and blocks -/

variable {t : SymbolTable} {allow : Bool} {start : Scope} {own : List String}
  {around : List (List String)}

/-- Resolving a statement and then the rest of its block. -/
theorem detects_cons {s : Stmt} {ss : List Stmt}
    (hs : Detects allow start (t.resolveStmt s) (s.binders own around)
      ((own ++ declaredNames [s]) :: around))
    (hss : ∀ {t : SymbolTable}, t.Inside allow start ((own ++ declaredNames [s]) :: around) →
      Detects allow start (t.resolveBlock ss) (blockBinders (own ++ declaredNames [s]) around ss)
        ((own ++ declaredNames [s] ++ declaredNames ss) :: around)) :
    Detects allow start (t.resolveBlock (s :: ss)) (blockBinders own around (s :: ss))
      ((own ++ declaredNames (s :: ss)) :: around) := by
  have hnames : own ++ declaredNames (s :: ss) =
      own ++ declaredNames [s] ++ declaredNames ss := by
    rw [List.append_assoc, ← declaredNames_append]
    rfl
  rw [hnames]
  exact hs.bind fun t ht => hss ht

/-- Resolving a block fails at the first of its declarations whose name is
    taken. -/
theorem detects_resolveBlock (body : List Stmt) (h : t.Inside allow start (own :: around)) :
    Detects allow start (t.resolveBlock body) (blockBinders own around body)
      ((own ++ declaredNames body) :: around) := by
  induction body using blockInduction generalizing t own around with
  | nil =>
    rw [show own ++ declaredNames [] = own from List.append_nil own]
    exact .of_inside h
  | declaration target ty value tag ss ih =>
    refine detects_cons ?_ ih
    exact (h.declare target ty).map fun t' ht' =>
      ((ht'.stamp _ _).stampExpr _ value).stamp tag.id _
  | assignment target value tag ss ih =>
    refine detects_cons ?_ ih
    rw [declaredNames_singleton_of_none rfl, List.append_nil]
    exact .of_inside ((h.stamp target.tag.id t.current).stampExpr t.current value)
  | print value tag ss ih =>
    refine detects_cons ?_ ih
    rw [declaredNames_singleton_of_none rfl, List.append_nil]
    exact .of_inside (h.stampExpr t.current value)
  | whileDo condition body tag ss ihb ih | ifThen condition body tag ss ihb ih =>
    refine detects_cons ?_ ih
    rw [declaredNames_singleton_of_none rfl, List.append_nil]
    have hbody := ihb ((h.stampExpr t.current condition).openBlock tag.id)
    exact hbody.map fun t' ht' => ht'.closeScope
  | ifThenElse condition body otherwise elseTag tag ss ihb iho ih =>
    refine detects_cons ?_ ih
    rw [declaredNames_singleton_of_none rfl, List.append_nil]
    have hbody := ihb ((h.stampExpr t.current condition).openBlock tag.id)
    -- The branch is resolved inside the block of the `if`.
    refine hbody.bind fun t₁ ht₁ => ?_
    exact (iho (ht₁.openBlock elseTag.id)).map fun t₂ ht₂ => ht₂.closeScope.closeScope

/-- A program starts at the top level. -/
theorem inside_start {t : SymbolTable} {s : Scope} (hroot : t.scope? root = some s)
    (node : NodeId) : (t.closeAll.stamp node root).Inside t.shadowing s [[]] where
  shadowing := rfl
  nested := .base hroot fun x => by simp

/-! ### Without shadowing -/

@[simp] theorem withShadowing_stampExpr (t : SymbolTable) (id : ScopeId) (e : Expr) :
    (t.withShadowing allow).stampExpr id e = (t.stampExpr id e).withShadowing allow := by
  induction e generalizing t with
  | binary left operator right tag ihl ihr => rw [stampExpr, stampExpr, ihr, ihl]
  | identifier ident => rfl
  | literal value tag => rfl

/-- A declaration that is good under any rule is good with shadowing, and binds
    the same. -/
theorem withShadowing_declare {t t' : SymbolTable} {ident : Ident} {ty : Ty}
    (h : t.declare ident ty = .ok t') :
    (t.withShadowing true).declare ident ty = .ok (t'.withShadowing true) := by
  unfold declare at h
  split at h
  · cases h
  · show (t.withShadowing true).declareIn t.current ident.name ty ident.tag.span.start = _
    unfold declareIn at h ⊢
    rw [show (t.withShadowing true).scope? t.current = t.scope? t.current from rfl]
    cases hs : t.scope? t.current with
    | none =>
      rw [hs] at h
      cases h
      rfl
    | some s =>
      rw [hs] at h
      obtain ⟨s', hs', h⟩ := Result.bind_eq_ok_iff.mp h
      cases h
      exact Result.bind_eq_ok_iff.mpr ⟨s', hs', rfl⟩

/-- So is a statement with the rest of its block, if both parts are. -/
theorem withShadowing_cons {t t' : SymbolTable} {s : Stmt} {ss : List Stmt}
    (hs : ∀ {t₁}, t.resolveStmt s = .ok t₁ →
      (t.withShadowing true).resolveStmt s = .ok (t₁.withShadowing true))
    (hss : ∀ {t t' : SymbolTable}, t.resolveBlock ss = .ok t' →
      (t.withShadowing true).resolveBlock ss = .ok (t'.withShadowing true))
    (h : t.resolveBlock (s :: ss) = .ok t') :
    (t.withShadowing true).resolveBlock (s :: ss) = .ok (t'.withShadowing true) := by
  obtain ⟨t₁, hfirst, hrest⟩ := Result.bind_eq_ok_iff.mp h
  exact Result.bind_eq_ok_iff.mpr ⟨t₁.withShadowing true, hs hfirst, hss hrest⟩

/-- So is a whole block. -/
theorem withShadowing_resolveBlock {t t' : SymbolTable} {body : List Stmt}
    (h : t.resolveBlock body = .ok t') :
    (t.withShadowing true).resolveBlock body = .ok (t'.withShadowing true) := by
  induction body using blockInduction generalizing t t' with
  | nil =>
    cases h
    rfl
  | declaration target ty value tag ss ih =>
    refine withShadowing_cons (fun hs => ?_) ih h
    obtain ⟨t₂, hdeclare, hs⟩ := Result.bind_eq_ok_iff.mp hs
    cases hs
    refine Result.bind_eq_ok_iff.mpr ⟨_, withShadowing_declare hdeclare, ?_⟩
    exact congrArg (fun t : SymbolTable => Except.ok (t.stamp tag.id _))
      (withShadowing_stampExpr (t₂.stamp target.tag.id t.current) t.current value)
  | assignment target value tag ss ih =>
    refine withShadowing_cons (fun hs => ?_) ih h
    cases hs
    exact congrArg Except.ok
      (withShadowing_stampExpr (t.stamp target.tag.id t.current) t.current value)
  | print value tag ss ih =>
    refine withShadowing_cons (fun hs => ?_) ih h
    cases hs
    exact congrArg Except.ok (withShadowing_stampExpr t t.current value)
  | whileDo condition body tag ss ihb ih | ifThen condition body tag ss ihb ih =>
    refine withShadowing_cons (fun hs => ?_) ih h
    obtain ⟨t₂, hbody, hs⟩ := Result.bind_eq_ok_iff.mp hs
    cases hs
    refine Result.bind_eq_ok_iff.mpr ⟨t₂.withShadowing true, ?_, rfl⟩
    rw [withShadowing_stampExpr]
    exact ihb hbody
  | ifThenElse condition body otherwise elseTag tag ss ihb iho ih =>
    refine withShadowing_cons (fun hs => ?_) ih h
    obtain ⟨t₂, hbody, hs⟩ := Result.bind_eq_ok_iff.mp hs
    obtain ⟨t₃, hotherwise, hs⟩ := Result.bind_eq_ok_iff.mp hs
    cases hs
    refine Result.bind_eq_ok_iff.mpr ⟨t₂.withShadowing true, ?_, ?_⟩
    · rw [withShadowing_stampExpr]
      exact ihb hbody
    · exact Result.bind_eq_ok_iff.mpr ⟨t₃.withShadowing true, iho hotherwise, rfl⟩

end SymbolTable

/-! ### Programs -/

theorem resolveWith_eq_error_iff {t : SymbolTable} {p : Program} {e : Error} :
    resolveWith t p = .error e ↔
      (t.closeAll.stamp p.tag.id SymbolTable.root).resolveBlock p.body = .error e := by
  unfold resolveWith
  cases (t.closeAll.stamp p.tag.id SymbolTable.root).resolveBlock p.body with
  | ok t' => exact iff_of_false nofun nofun
  | error e' => exact ⟨fun h => by cases h; rfl, fun h => by cases h; rfl⟩

/-- Resolving a program on a table with the root scope `start` fails exactly if
    some declaration finds its name taken, with the error about the first one
    in the source.  Statements that declare nothing in their own block do not
    disturb what stands behind them in it, so neighbouring blocks never
    collide.  What is good without shadowing is good with shadowing, and has
    the same scopes. -/
theorem resolveWith_fails_iff_taken (t : SymbolTable) (p : Program) {start : Scope}
    (hroot : t.scope? SymbolTable.root = some start) :
    ((∃ e, resolveWith t p = .error e) ↔ ∃ b ∈ p.binders, b.Taken t.shadowing start) ∧
    (∀ e, resolveWith t p = .error e →
      ∃ before b behind, p.binders = before ++ b :: behind ∧
        (∀ c ∈ before, ¬ c.Taken t.shadowing start) ∧ b.Taken t.shadowing start ∧
        e = ⟨.duplicateDeclaration b.target.name, b.target.tag.span.start⟩) ∧
    (∀ (u : SymbolTable) (levels : List (List String)), u.Inside t.shadowing start levels →
      ∀ (before : List Stmt) (s : Stmt) (behind : List Stmt), s.declares? = none →
        ((∃ v, u.resolveBlock (before ++ s :: behind) = .ok v) ↔
          (∃ v, u.resolveBlock (before ++ [s]) = .ok v) ∧
            ∃ v, u.resolveBlock (before ++ behind) = .ok v)) ∧
    (∀ strict, resolveWith (t.withShadowing false) p = .ok strict →
      ∃ permissive, resolveWith (t.withShadowing true) p = .ok permissive ∧
        permissive.program = strict.program ∧
        permissive.symbols.scopes = strict.symbols.scopes ∧
        permissive.symbols.nodeScopes = strict.symbols.nodeScopes) := by
  have hdetects := SymbolTable.detects_resolveBlock p.body
    (SymbolTable.inside_start hroot p.tag.id)
  refine ⟨?_, fun e he => hdetects.of_error (resolveWith_eq_error_iff.mp he), ?_, ?_⟩
  · simp only [resolveWith_eq_error_iff]
    have hok := hdetects.exists_ok_iff
    constructor
    · intro h
      obtain ⟨e, he⟩ := h
      obtain ⟨before, b, behind, hbinders, -, htaken, -⟩ := hdetects.of_error he
      refine ⟨b, ?_, htaken⟩
      rw [Program.binders, hbinders]
      exact List.mem_append_right _ List.mem_cons_self
    · intro h
      obtain ⟨b, hb, htaken⟩ := h
      cases hblock : (t.closeAll.stamp p.tag.id SymbolTable.root).resolveBlock p.body with
      | error e => exact ⟨e, rfl⟩
      | ok t' => exact absurd htaken (hok.mp ⟨t', hblock⟩ b hb)
  · intro u levels hu before s behind hs
    obtain ⟨own, around, rfl⟩ := hu.nested.exists_eq_cons
    rw [(SymbolTable.detects_resolveBlock (before ++ s :: behind) hu).exists_ok_iff,
      (SymbolTable.detects_resolveBlock (before ++ [s]) hu).exists_ok_iff,
      (SymbolTable.detects_resolveBlock (before ++ behind) hu).exists_ok_iff]
    -- What stands behind the statement finds the same names with it and without it.
    simp only [blockBinders_append, blockBinders, declaredNames_singleton_of_none hs,
      List.append_nil, List.forall_mem_append]
    exact and_and_left
  · intro strict hstrict
    obtain ⟨t', hblock, h⟩ := Result.bind_eq_ok_iff.mp hstrict
    cases h
    have hpermissive := SymbolTable.withShadowing_resolveBlock hblock
    exact ⟨⟨p, t'.withShadowing true⟩, Result.bind_of_ok hpermissive _, rfl, rfl, rfl⟩

/-- An else branch may declare a name of its `if` again only where shadowing is
    allowed. -/
theorem resolveWith_fails_iff_taken_of_branch :
    ∃ p, readProgram "if true do var x:int = 1; else var x:int = 2; end" "main" = .ok p ∧
      (∃ resolved, resolveWith (SymbolTable.new.withShadowing true) p = .ok resolved) ∧
      ∃ b ∈ p.binders, b.around = [["x"], []] ∧
        resolveWith (SymbolTable.new.withShadowing false) p = .error b.duplicate := by
  let source := "if true do var x:int = 1; else var x:int = 2; end"
  have hok : (readProgram source "main").isOk := by decide +kernel
  obtain ⟨p, hp⟩ := Result.exists_of_isOk hok
  have hpermissive : ((readProgram source "main").toOption.map fun p =>
      (resolveWith (SymbolTable.new.withShadowing true) p).isOk) = some true := by decide +kernel
  have htaken : ((readProgram source "main").toOption.map fun p =>
      decide (∃ b ∈ p.binders, b.Taken false (.inside none)) &&
        decide (∀ b ∈ p.binders, b.Taken false (.inside none) → b.around = [["x"], []])) =
      some true := by decide +kernel
  rw [hp] at hpermissive htaken
  simp only [Except.toOption, Option.map_some, Option.some.injEq, Bool.and_eq_true,
    decide_eq_true_eq] at hpermissive htaken
  let table := SymbolTable.new.withShadowing false
  have hroot : table.scope? SymbolTable.root = some (.inside none) := rfl
  obtain ⟨hfails, hfirst, -⟩ := resolveWith_fails_iff_taken table p hroot
  obtain ⟨e, he⟩ := hfails.mpr htaken.1
  obtain ⟨before, b, behind, hbinders, -, hb, rfl⟩ := hfirst e he
  have hmem : b ∈ p.binders := by
    rw [hbinders]
    exact List.mem_append_right _ List.mem_cons_self
  exact ⟨p, hp, Result.exists_of_isOk hpermissive, b, hmem, htaken.2 b hmem hb, he⟩

end BlockLang
