import BlockLang.Proofs.Grammar.Renaming
import BlockLang.Proofs.Scope.Resolution
import BlockLang.Proofs.Typing.Matching

/-! # Renaming — names and layout do not matter

  Replacing the names of a program one to one, and moving its tokens about,
  changes nothing but names and places: parsing, resolving and checking end in
  the same way, with the same identities, scopes and types.  The names that the
  root binds before are replaced too. -/

namespace BlockLang

/-- A name that is bound in the root before a program is resolved. -/
structure Predeclared where
  name : String
  ty : Ty
  position : Position

/-- Binds names in the root, one after the other. -/
def SymbolTable.declareAll (table : SymbolTable) : List Predeclared → Except Error SymbolTable
  | [] => return table
  | d :: ds => do
      let table ← table.declareRoot d.name d.ty d.position
      table.declareAll ds

/-- The second declaration is the first one with another name, at any place. -/
structure Predeclared.Renames (ρ : String → String) (d d' : Predeclared) : Prop where
  name : d'.name = ρ d.name
  ty : d'.ty = d.ty

/-- The second scope is the first one with other names. -/
structure Scope.Renames (ρ : String → String) (s s' : Scope) : Prop where
  parent? : s'.parent? = s.parent?
  type?_eq : ∀ x, s'.type? (ρ x) = s.type? x
  /-- No other names are bound. -/
  known : ∀ {x ty}, s'.type? x = some ty → ∃ y, x = ρ y

namespace SymbolTable

variable {c : Correspondence} {base base' t t' : SymbolTable} {nodes : List NodeId}
  {ds ds' : List Predeclared}

/-! ### Names of the root -/

theorem reaches_of_declareAll (h : t.declareAll ds = .ok t') : t.Reaches t' := by
  induction ds generalizing t with
  | nil =>
    cases h
    exact .refl
  | cons d ds ih =>
    obtain ⟨t₁, hd, hds⟩ := Result.bind_eq_ok_iff.mp h
    exact .head ⟨.declareRoot d.name d.ty d.position, .of_result hd⟩ (ih hds)

/-- Declarations in the root open no scope, and put no node into one. -/
theorem declareAll_eq_ok (h : t.declareAll ds = .ok t') :
    t'.size = t.size ∧ t'.nodeScopes = t.nodeScopes := by
  induction ds generalizing t with
  | nil =>
    cases h
    exact ⟨rfl, rfl⟩
  | cons d ds ih =>
    obtain ⟨t₁, hd, hds⟩ := Result.bind_eq_ok_iff.mp h
    obtain ⟨-, hsize, hnodes, -⟩ := declareIn_eq_ok hd
    rw [← hsize, ← hnodes]
    exact ih hds

/-- Where places do not matter, names that stand for each other are declared in
    the same way. -/
theorem Matches.declareAll (hplaces : ∀ place place', c.places place place')
    (hds : List.Forall₂ (fun d d' => c.names d.name d'.name ∧ d'.ty = d.ty) ds ds')
    (h : Matches c base base' nodes t t') :
    Result.Rel (Error.Matches c) (Matches c base base' nodes) (t.declareAll ds)
      (t'.declareAll ds') := by
  induction hds generalizing t t' with
  | nil => exact .ok h
  | cons hd _ ih =>
    unfold SymbolTable.declareAll declareRoot
    rw [hd.2]
    exact (h.declareIn (.inl ⟨rfl, rfl⟩) hd.1 (hplaces _ _)).bind fun t₁ t₁' h₁ => ih h₁

/-- Tables with a root only grow in the same way exactly if scopes have the
    same numbers. -/
theorem shifted_iff_of_size_eq_one (h : base.size = 1) (h' : base'.size = 1) {id id' : ScopeId} :
    Shifted base base' id id' ↔ id = id' := by
  unfold Shifted root
  rw [h, h']
  constructor
  · rintro (⟨rfl, rfl⟩ | ⟨k, rfl, rfl⟩)
    · rfl
    · rfl
  · rintro rfl
    cases id with
    | zero => exact .inl ⟨rfl, rfl⟩
    | succ k => exact .inr ⟨k, Nat.add_comm k 1, Nat.add_comm k 1⟩

end SymbolTable

/-! ### Errors and scopes -/

variable {r : Renaming}

/-- Faults of scopes and types have no text but names. -/
theorem Fault.Matches.eq_rename {fault fault' : Fault}
    (h : fault.Matches r.correspondence fault') (kind : Kind) :
    fault' = fault.rename r.rename kind := by
  cases h with
  | duplicateDeclaration hx | undeclaredIdentifier hx =>
    cases hx
    rfl
  | declarationMismatch | assignmentMismatch | unsupportedOperator | boolOperandMismatch => rfl

theorem Error.Matches.corresponds {error error' : Error}
    (h : error.Matches r.correspondence error') :
    error.Corresponds r.rename r.first r.second error' := by
  obtain ⟨fault, position⟩ := error
  obtain ⟨fault', position'⟩ := error'
  obtain ⟨hfault, a, b, ⟨-, i, hi, hi'⟩, hposition, hposition'⟩ := h
  dsimp only at hfault hposition hposition'
  rw [hposition, hposition', hfault.eq_rename a.kind]
  exact .at fault hi hi'

theorem Scope.Matches.renames {scopes : ScopeId → ScopeId → Prop}
    (hscopes : ∀ {id id'}, scopes id id' → id = id') {s s' : Scope}
    (h : s.Matches r.correspondence scopes s') : s.Renames r.rename s' where
  parent? := by
    have hparent := h.parent?
    generalize s.parent? = parent? at hparent ⊢
    generalize s'.parent? = parent'? at hparent ⊢
    cases hparent with
    | none => rfl
    | some hid => rw [hscopes hid]
  type?_eq _ := h.type?_eq rfl
  known := h.known

/-! ### Before a program -/

namespace Renaming

/-- Places do not matter to names that the root binds. -/
def anywhere (r : Renaming) : Correspondence :=
  { r.correspondence with places := fun _ _ => True }

variable {allow : Bool} {ds ds' : List Predeclared} {t t' : SymbolTable}

/-- Names that can be bound in an empty root can be replaced there. -/
theorem exists_declareAll (hds : List.Forall₂ (Predeclared.Renames r.rename) ds ds')
    (h : (SymbolTable.new.withShadowing allow).declareAll ds = .ok t) :
    ∃ t', (SymbolTable.new.withShadowing allow).declareAll ds' = .ok t' ∧
      SymbolTable.Matches r.anywhere (SymbolTable.new.withShadowing allow)
        (SymbolTable.new.withShadowing allow) [] t t' := by
  have hwf : (SymbolTable.new.withShadowing allow).WellFormed :=
    SymbolTable.wellFormed_new.edit (.withShadowing allow)
  have hnone (x : String) :
      (SymbolTable.new.withShadowing allow).type? SymbolTable.root x = none := by
    rw [SymbolTable.type?_of_parent?_eq_none (s := .inside none) rfl rfl]
    exact Std.ExtTreeMap.getElem?_empty
  have hstart : SymbolTable.Matches r.anywhere (SymbolTable.new.withShadowing allow)
      (SymbolTable.new.withShadowing allow) [] (SymbolTable.new.withShadowing allow)
      (SymbolTable.new.withShadowing allow) := by
    refine .start hwf hwf rfl ?_ ?_
    · intro x x' _
      rw [hnone, hnone]
    · intro x ty hty
      rw [hnone] at hty
      cases hty
  have hrel := hstart.declareAll (fun _ _ => trivial)
    (hds.imp fun d d' hd => And.intro hd.name hd.ty)
  rw [h] at hrel
  generalize (SymbolTable.new.withShadowing allow).declareAll ds' = result at hrel ⊢
  cases hrel with
  | ok hmatches => exact ⟨_, rfl, hmatches⟩

theorem wellFormed_of_declareAll
    (h : (SymbolTable.new.withShadowing allow).declareAll ds = .ok t) : t.WellFormed :=
  (SymbolTable.wellFormed_new.edit (.withShadowing allow)).edits
    (SymbolTable.reaches_of_declareAll h).edits

/-- The second root binds no names but replaced ones. -/
theorem known_of_matches {base base' : SymbolTable} {nodes : List NodeId}
    (h : SymbolTable.Matches r.anywhere base base' nodes t t') (ht' : t'.WellFormed) {x : String}
    {ty : Ty} (hty : t'.type? SymbolTable.root x = some ty) : ∃ y, x = r.rename y := by
  obtain ⟨s', hs', hparent⟩ := ht'.root
  rw [SymbolTable.type?_of_parent?_eq_none hs' hparent] at hty
  have hscopes := h.scopes (.inl ⟨rfl, rfl⟩)
  rw [hs'] at hscopes
  generalize t.scope? SymbolTable.root = s? at hscopes
  cases hscopes with
  | some hs => exact hs.known hty

end Renaming

/-! ### Programs -/

/-- What has been resolved is the same, but for names. -/
structure Resolved.Renames (ρ : String → String) (resolved resolved' : Resolved) : Prop where
  scope? : ∀ id, Option.Rel (Scope.Renames ρ) (resolved.symbols.scope? id)
    (resolved'.symbols.scope? id)
  nodeScopes : resolved'.symbols.nodeScopes = resolved.symbols.nodeScopes

/-- Tables that have grown in the same way from roots only have the same scopes
    and put the same nodes into them. -/
theorem Resolved.Renames.of_matches {t t' : SymbolTable} {nodes : List NodeId}
    {resolved resolved' : Resolved} (hsize : t.size = 1) (hsize' : t'.size = 1)
    (hnodes : t'.nodeScopes = t.nodeScopes)
    (h : SymbolTable.Matches r.correspondence t t' nodes resolved.symbols resolved'.symbols) :
    resolved.Renames r.rename resolved' where
  scope? id := by
    have hshifted : t.Shifted t' id id :=
      (SymbolTable.shifted_iff_of_size_eq_one hsize hsize').mpr rfl
    have hscopes := h.scopes hshifted
    generalize resolved.symbols.scope? id = s? at hscopes ⊢
    generalize resolved'.symbols.scope? id = s'? at hscopes ⊢
    cases hscopes with
    | none => exact .none
    | some hs => exact .some (hs.renames (SymbolTable.shifted_iff_of_size_eq_one hsize hsize').mp)
  nodeScopes := by
    refine Std.ExtTreeMap.ext_getElem? fun node => ?_
    by_cases hnode : node ∈ nodes
    · obtain ⟨id, id', hid, hscope, hscope'⟩ := h.placed node hnode
      rw [(SymbolTable.shifted_iff_of_size_eq_one hsize hsize').mp hid] at hscope
      exact hscope'.trans hscope.symm
    · obtain ⟨hscope, hscope'⟩ := h.others node hnode
      refine hscope'.trans (Eq.trans ?_ hscope.symm)
      unfold SymbolTable.scopeOf?
      rw [hnodes]

/-- Names and layout do not matter.  Take two rows of tokens that agree in
    their kinds and texts, except that names are replaced one to one, and that
    stand at any places; and bind names in the root before, and their
    replacements.  Then parsing, resolving and checking end at the same stage.
    The programs have the same shape and identities; the scopes lie in each
    other in the same way and bind the same names, replaced, to the same types;
    the nodes are in the same scopes and have the same types.  Errors are the
    same with names replaced, and stand at the same token. -/
theorem phases_up_to_renaming {ρ : String → String} (hρ : Function.Injective ρ)
    {ts us : List Token} (htokens : List.Forall₂ (Token.Renames ρ) ts us) {allow : Bool}
    {ds ds' : List Predeclared} (hds : List.Forall₂ (Predeclared.Renames ρ) ds ds')
    {t : SymbolTable} (ht : (SymbolTable.new.withShadowing allow).declareAll ds = .ok t) :
    ∃ t', (SymbolTable.new.withShadowing allow).declareAll ds' = .ok t' ∧
      Result.Rel (Error.Corresponds ρ ts us)
        (fun p p' => p.Matches (Renaming.correspondence ⟨ρ, hρ, ts, us, htokens⟩) p' ∧
          Result.Rel (Error.Corresponds ρ ts us)
            (fun resolved resolved' => resolved.Renames ρ resolved' ∧
              Result.Rel (Error.Corresponds ρ ts us)
                (fun checked checked' => checked'.types = checked.types)
                (check resolved) (check resolved'))
            (resolveWith t p) (resolveWith t' p'))
        (parse ts) (parse us) := by
  let r : Renaming := ⟨ρ, hρ, ts, us, htokens⟩
  obtain ⟨t', ht', hroots⟩ := r.exists_declareAll hds ht
  obtain ⟨hsize, hnodes⟩ := SymbolTable.declareAll_eq_ok ht
  obtain ⟨hsize', hnodes'⟩ := SymbolTable.declareAll_eq_ok ht'
  have hwf := Renaming.wellFormed_of_declareAll ht
  have hwf' := Renaming.wellFormed_of_declareAll ht'
  refine ⟨t', ht', (rel_parse r).imp (fun _ _ => id) fun p p' hp => ⟨hp, ?_⟩⟩
  have hresolve := rel_resolveWith hp hwf hwf' hroots.shadowing
    (hroots.type?_eq (.inl ⟨rfl, rfl⟩)) (Renaming.known_of_matches hroots hwf')
  refine hresolve.imp (fun _ _ herror => herror.corresponds) ?_
  rintro resolved resolved' ⟨hprogram, hprogram', hmatches⟩
  refine ⟨.of_matches hsize hsize' (hnodes'.trans hnodes.symm) hmatches, ?_⟩
  have hprograms : resolved.program.Matches r.correspondence resolved'.program := by
    rw [hprogram, hprogram']
    exact hp
  have htypes := rel_inferTypes hprograms hmatches (by
    rw [hprogram]
    exact List.subset_cons_self _ _)
  refine (htypes.imp (fun _ _ herror => herror.corresponds) fun _ _ => id).bind ?_
  rintro types _ rfl
  exact .ok rfl

/-- The branch tests a name that the root binds before.  All names get longer,
    and every token moves. -/
theorem phases_up_to_renaming_of_branch :
    ∃ (ts us : List Token) (p p' : Program) (r r' : Resolved) (checked checked' : Checked),
      (ts.map Token.lexeme).take 4 = ["if", "z", "do", "print"] ∧
      (us.map Token.lexeme).take 4 = ["if", "my_z", "do", "print"] ∧
      parse ts = .ok p ∧ parse us = .ok p' ∧ r.program = p ∧ r'.program = p' ∧
      check r = .ok checked ∧ check r' = .ok checked' ∧ r.Renames ("my_" ++ ·) r' ∧
      checked'.types = checked.types := by
  let ds : List Predeclared := [⟨"z", .bool, .null⟩]
  let ds' : List Predeclared := [⟨"my_z", .bool, .after "root" 7⟩]
  let run : Except Error
      (List Token × List Token × SymbolTable × Program × Resolved × Checked) := do
    let ts ← tokenize "if z do print 1 + 2; var x:int = 3; end" "a"
    let us ← tokenize "  if my_z do   print 1+2; var my_x : int=3; end" "b"
    let t ← (SymbolTable.new.withShadowing true).declareAll ds
    let p ← parse ts
    let r ← resolveWith t p
    let checked ← check r
    return (ts, us, t, p, r, checked)
  have hinjective : Function.Injective ("my_" ++ · : String → String) := by
    intro x y h
    simpa using h
  have hrun : run.toOption.map (fun (ts, us, _) =>
      (decide (List.Forall₂ (Token.Renames ("my_" ++ ·)) ts us),
        (ts.map Token.lexeme).take 4, (us.map Token.lexeme).take 4)) =
      some (true, ["if", "z", "do", "print"], ["if", "my_z", "do", "print"]) := by
    decide +kernel
  cases hall : run with
  | error error =>
    rw [hall] at hrun
    cases hrun
  | ok all =>
    rw [hall] at hrun
    obtain ⟨ts, -, hsteps⟩ := Result.bind_eq_ok_iff.mp hall
    obtain ⟨us, -, hsteps⟩ := Result.bind_eq_ok_iff.mp hsteps
    obtain ⟨t, ht, hsteps⟩ := Result.bind_eq_ok_iff.mp hsteps
    obtain ⟨p, hp, hsteps⟩ := Result.bind_eq_ok_iff.mp hsteps
    obtain ⟨r, hr, hsteps⟩ := Result.bind_eq_ok_iff.mp hsteps
    obtain ⟨checked, hchecked, hsteps⟩ := Result.bind_eq_ok_iff.mp hsteps
    cases hsteps
    simp only [Except.toOption, Option.map_some, Option.some.injEq, Prod.mk.injEq,
      decide_eq_true_eq] at hrun
    obtain ⟨htokens, hts, hus⟩ := hrun
    have hds : List.Forall₂ (Predeclared.Renames ("my_" ++ ·)) ds ds' :=
      .cons ⟨rfl, rfl⟩ .nil
    obtain ⟨t', -, hparse⟩ := phases_up_to_renaming hinjective htokens hds ht
    -- Each phase of the second program succeeds as the first one did.
    rw [hp] at hparse
    generalize hp' : parse us = result at hparse
    cases hparse with
    | @ok _ p' hparse =>
      obtain ⟨-, hresolve⟩ := hparse
      rw [hr] at hresolve
      generalize hr' : resolveWith t' p' = result at hresolve
      cases hresolve with
      | @ok _ r' hresolve =>
        obtain ⟨hrenames, hcheck⟩ := hresolve
        rw [hchecked] at hcheck
        generalize hchecked' : check r' = result at hcheck
        cases hcheck with
        | @ok _ checked' htypes =>
          exact ⟨ts, us, p, p', r, r', checked, checked', hts, hus, hp, hp',
            program_eq_of_resolveWith hr, program_eq_of_resolveWith hr', hchecked, hchecked',
            hrenames, htypes⟩

end BlockLang
