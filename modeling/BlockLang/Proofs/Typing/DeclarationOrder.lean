import BlockLang.Proofs.Typing.Soundness

/-! # Declaration order — names used before they are declared

  All names of a program are bound before any of them is looked up.  So a use
  sees the declarations of the blocks around it wherever they stand: before
  it, behind it, or around it as its own initializer.  A use has the type
  that the declarations before it give exactly when these agree with all
  declarations; they can only disagree about a name that a block around
  declares at the use or behind it. -/

namespace BlockLang

/-! ### Uses -/

/-- What a block declares, seen from a place inside of it. -/
structure Level where
  /-- By statements that are complete before the place. -/
  before : List (String × Ty)
  /-- By the statement around the place and those behind. -/
  behind : List (String × Ty)

/-- All that the block declares. -/
def Level.all (level : Level) : List (String × Ty) := level.before ++ level.behind

/-- A name in an expression, or the target of an assignment, with the blocks
    around it, innermost first. -/
structure Use where
  ident : Ident
  levels : List Level

/-- The type of the name by the declarations before the use: that of the
    innermost block with one. -/
def Use.earlier? (u : Use) : Option Ty :=
  Surroundings.type? (u.levels.map Level.before) u.ident.name

/-- The type of the name by all declarations of the blocks around. -/
def Use.visible? (u : Use) : Option Ty :=
  Surroundings.type? (u.levels.map Level.all) u.ident.name

/-- The uses in an expression. -/
def Expr.uses (levels : List Level) (e : Expr) : List Use :=
  e.idents.map fun ident => ⟨ident, levels⟩

mutual

/-- The uses in a statement.  Nothing inside it sees what it declares, and an
    else branch comes behind all of the block of its `if`. -/
def Stmt.uses (levels : List Level) : Stmt → List Use
  | .declaration _ _ value _ => value.uses levels
  | .assignment target value _ => ⟨target, levels⟩ :: value.uses levels
  | .print value _ => value.uses levels
  | .whileDo condition body _ | .ifThen condition body _ =>
      condition.uses levels ++ blockUses [] levels body
  | .ifThenElse condition body otherwise _ _ =>
      condition.uses levels ++ (blockUses [] levels body ++
        blockUses [] (⟨declarations body, []⟩ :: levels) otherwise)

/-- The uses in the statements of a block behind those that declare `before`. -/
def blockUses (before : List (String × Ty)) (levels : List Level) : List Stmt → List Use
  | [] => []
  | s :: ss => s.uses (⟨before, declarations (s :: ss)⟩ :: levels) ++
      blockUses (before ++ s.declares?.toList) levels ss

end

/-- The uses in a program. -/
def Program.uses (p : Program) : List Use := blockUses [] [] p.body

/-! ### What a use sees -/

/-- Where the declarations before a use disagree with all declarations, a block
    around declares the name at the use or behind it. -/
theorem Use.exists_behind_of_ne {u : Use} (h : u.earlier? ≠ u.visible?) :
    ∃ level ∈ u.levels, u.ident.name ∈ level.behind.map Prod.fst := by
  obtain ⟨ident, levels⟩ := u
  rw [earlier?, visible?] at h
  induction levels with
  | nil => exact absurd rfl h
  | cons level levels ih =>
    -- If this block declares the name nowhere behind, both lookups go on in the same way.
    by_cases hname : ident.name ∈ level.behind.map Prod.fst
    · exact ⟨level, List.mem_cons_self, hname⟩
    · have hall : level.all.lookup ident.name = level.before.lookup ident.name := by
        have hbehind : level.behind.lookup ident.name = none := by
          rw [List.lookup_eq_none_iff]
          intro declared hmem
          have hne : declared.1 ≠ ident.name := fun heq => hname (heq ▸ List.mem_map_of_mem hmem)
          simpa using Ne.symm hne
        rw [Level.all, List.lookup_append, hbehind, Option.or_none]
      simp only [List.map_cons, Surroundings.type?_cons, hall] at h
      obtain ⟨inner, hmem, hinner⟩ := ih fun heq => h (by rw [heq])
      exact ⟨inner, List.mem_cons_of_mem _ hmem, hinner⟩

/-- The name of the use has a type by all declarations around, and the table
    agrees. -/
def Use.Resolves (u : Use) (symbols : SymbolTable) : Prop :=
  ∃ ty, u.visible? = some ty ∧ symbols.typeOf u.ident = .ok ty

section

variable {symbols : SymbolTable} {p : Program} {A : Assignment} {node : NodeId}
  {before : List (String × Ty)} {levels : List Level}

/-- The identifiers of a well-typed expression have types. -/
theorem Expr.WellTyped.exists_type {around : Surroundings} {e : Expr} (h : e.WellTyped A around)
    {ident : Ident} (hident : ident ∈ e.idents) : ∃ ty, around.type? ident.name = some ty := by
  induction e with
  | binary left operator right tag ihl ihr =>
    rcases List.mem_append.mp hident with hident | hident
    · exact ihl h.1 hident
    · exact ihr h.2.1 hident
  | identifier other =>
    cases List.mem_singleton.mp hident
    exact ⟨_, h⟩
  | literal value tag => cases hident

/-- The uses in the value or condition of a statement resolve. -/
theorem Stands.resolves_of_mem_uses {around : Surroundings} {s : Stmt} {ss : List Stmt}
    (hstands : Stands symbols p node around (s :: ss)) (hlevels : levels.map Level.all = around)
    (hwell : s.operand.WellTyped A around) : ∀ u ∈ s.operand.uses levels, u.Resolves symbols := by
  intro u hu
  obtain ⟨ident, hident, rfl⟩ := List.mem_map.mp hu
  obtain ⟨ty, hty⟩ := hwell.exists_type hident
  refine ⟨ty, ?_, (hstands.looks hident).mpr hty⟩
  rw [Use.visible?, hlevels, hty]

/-- The uses in a block are those in its first statement and those behind,
    where what the statement declares stands before. -/
theorem resolves_of_cons {s : Stmt} {ss : List Stmt}
    (hstands : Stands symbols p node
      ((before ++ declarations (s :: ss)) :: levels.map Level.all) (s :: ss))
    (h : blockWellTyped A ((before ++ declarations (s :: ss)) :: levels.map Level.all) (s :: ss))
    (hs : ∀ u ∈ s.uses (⟨before, declarations (s :: ss)⟩ :: levels), u.Resolves symbols)
    (hss : ∀ {before : List (String × Ty)},
      Stands symbols p node ((before ++ declarations ss) :: levels.map Level.all) ss →
      blockWellTyped A ((before ++ declarations ss) :: levels.map Level.all) ss →
        ∀ u ∈ blockUses before levels ss, u.Resolves symbols) :
    ∀ u ∈ blockUses before levels (s :: ss), u.Resolves symbols := by
  -- What the first statement declares has moved to the front; the block is the same.
  have hbehind := h.2
  have hstands' := hstands.tail
  rw [declarations_cons, ← List.append_assoc] at hbehind hstands'
  rw [blockUses, List.forall_mem_append]
  exact ⟨hs, hss hstands' hbehind⟩

/-- The uses in a well-typed block resolve. -/
theorem resolves_of_blockWellTyped (body : List Stmt)
    (hstands : Stands symbols p node ((before ++ declarations body) :: levels.map Level.all) body)
    (h : blockWellTyped A ((before ++ declarations body) :: levels.map Level.all) body) :
    ∀ u ∈ blockUses before levels body, u.Resolves symbols := by
  induction body using blockInduction generalizing node before levels with
  | nil => nofun
  | declaration target ty value tag ss ih =>
    refine resolves_of_cons hstands h ?_ ih
    exact hstands.resolves_of_mem_uses rfl h.1.1
  | assignment target value tag ss ih =>
    refine resolves_of_cons hstands h ?_ ih
    rw [Stmt.uses, List.forall_mem_cons]
    refine ⟨⟨_, h.1.2, (hstands.typeOf_iff List.mem_cons_self _).mpr h.1.2⟩, ?_⟩
    exact hstands.resolves_of_mem_uses rfl h.1.1
  | print value tag ss ih =>
    refine resolves_of_cons hstands h ?_ ih
    exact hstands.resolves_of_mem_uses rfl h.1
  | whileDo condition body tag ss ihb ih =>
    refine resolves_of_cons hstands h ?_ ih
    rw [Stmt.uses, List.forall_mem_append]
    refine ⟨?_, ihb hstands.whileDo h.1.2⟩
    exact hstands.resolves_of_mem_uses rfl h.1.1
  | ifThen condition body tag ss ihb ih =>
    refine resolves_of_cons hstands h ?_ ih
    rw [Stmt.uses, List.forall_mem_append]
    refine ⟨?_, ihb hstands.ifThen h.1.2⟩
    exact hstands.resolves_of_mem_uses rfl h.1.1
  | ifThenElse condition body otherwise elseTag tag ss ihb iho ih =>
    refine resolves_of_cons hstands h ?_ ih
    rw [Stmt.uses, List.forall_mem_append, List.forall_mem_append]
    refine ⟨?_, ihb hstands.ifThenElse h.1.2.1, ?_⟩
    · exact hstands.resolves_of_mem_uses rfl h.1.1
    -- For the branch, all of the first block stands before.
    · have hall : Level.all ⟨declarations body, []⟩ = declarations body := List.append_nil _
      have hbranch := hstands.branch
      have hwell := h.1.2.2
      rw [← hall] at hbranch hwell
      exact iho hbranch hwell

end

/-! ### Compiled programs -/

theorem compile_eq_ok_iff {source : String} {options : Options} {checked : Checked} :
    compile source options = .ok checked ↔
      ∃ p resolved, readProgram source options.file = .ok p ∧
        resolveWith (SymbolTable.new.withShadowing options.shadowing) p = .ok resolved ∧
        check resolved = .ok checked := by
  simp only [compile, Result.bind_eq_ok_iff, exists_and_left]

/-- Every use in a compiled program has the type that all declarations around
    give to its name.  It has a declaration before it, and the type that the
    innermost such declaration gives, exactly when the declarations before it
    agree with all of them.  Where they do not, a block around declares the
    name at the use or behind it. -/
theorem uses_of_compile {source : String} {options : Options} {checked : Checked}
    (h : compile source options = .ok checked) :
    ∀ u ∈ checked.resolved.program.uses,
      (∃ ty, u.visible? = some ty ∧ checked.resolved.symbols.typeOf u.ident = .ok ty) ∧
      ((∃ ty, u.earlier? = some ty ∧ checked.resolved.symbols.typeOf u.ident = .ok ty) ↔
        u.earlier? = u.visible?) ∧
      (u.earlier? ≠ u.visible? →
        ∃ level ∈ u.levels, u.ident.name ∈ level.behind.map Prod.fst) := by
  obtain ⟨p, resolved, hread, hresolve, hcheck⟩ := compile_eq_ok_iff.mp h
  obtain ⟨ts, -, hparse⟩ := Result.bind_eq_ok_iff.mp hread
  have hids := Program.nodup_ids_of_parse hparse
  obtain ⟨rfl, hmirrors⟩ := SymbolTable.mirrors_of_resolveWith hids hresolve
  obtain ⟨A, hwell⟩ := exists_wellTyped_of_check hmirrors hids hcheck
  rw [(check_eq_ok_iff.mp hcheck).2]
  intro u hu
  have hresolves : u.Resolves resolved.symbols :=
    @resolves_of_blockWellTyped _ _ _ _ [] [] resolved.program.body
      (Stands.root hmirrors hids) hwell u hu
  obtain ⟨ty, hvisible, htype⟩ := hresolves
  refine ⟨⟨ty, hvisible, htype⟩, ⟨?_, ?_⟩, Use.exists_behind_of_ne⟩
  · intro h
    obtain ⟨ty', hearlier, htype'⟩ := h
    rw [htype] at htype'
    cases htype'
    rw [hearlier, hvisible]
  · intro heq
    exact ⟨ty, heq.trans hvisible, htype⟩

/-- Where every name is declared before its uses, they have the types that
    these declarations give. -/
theorem uses_of_compile_of_loop :
    ∃ checked, compile "var x:int = 1; while x < 9 do x = x + 1; end" .standard = .ok checked ∧
      ∀ u ∈ checked.resolved.program.uses,
        ∃ ty, u.earlier? = some ty ∧ checked.resolved.symbols.typeOf u.ident = .ok ty := by
  let source := "var x:int = 1; while x < 9 do x = x + 1; end"
  have hok : (compile source .standard).isOk := by decide +kernel
  obtain ⟨checked, h⟩ := Result.exists_of_isOk hok
  have huses : ((compile source .standard).toOption.map fun checked =>
      checked.resolved.program.uses.all fun u => u.earlier? = u.visible?) = some true := by
    decide +kernel
  rw [h] at huses
  have hall : ∀ u ∈ checked.resolved.program.uses, u.earlier? = u.visible? := by
    simpa [Except.toOption] using huses
  exact ⟨checked, h, fun u hu => (uses_of_compile h u hu).2.1.mpr (hall u hu)⟩

/-- A program may use a name that nothing declares before the use. -/
theorem use_before_declaration_compiles :
    ∃ checked u, compile "print i + 1; var i:int = 0;" .standard = .ok checked ∧
      u ∈ checked.resolved.program.uses ∧ u.earlier? = none := by
  let source := "print i + 1; var i:int = 0;"
  have hok : (compile source .standard).isOk := by decide +kernel
  obtain ⟨checked, h⟩ := Result.exists_of_isOk hok
  have huses : ((compile source .standard).toOption.map fun checked =>
      checked.resolved.program.uses.any fun u => u.earlier? = none) = some true := by
    decide +kernel
  rw [h] at huses
  have hany : checked.resolved.program.uses.any (fun u => u.earlier? = none) = true :=
    Option.some.inj huses
  obtain ⟨u, hu, hnone⟩ := List.any_eq_true.mp hany
  exact ⟨checked, u, h, hu, of_decide_eq_true hnone⟩

/-- A declaration may use its own name. -/
example : (compile "var x:int = x;" .standard).isOk = true := by decide +kernel

end BlockLang
