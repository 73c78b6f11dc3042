import BlockLang.Proofs.Typing.Matching

/-! # Reuse — a table that has been used before

  A table keeps all scopes and all nodes of the programs that have been
  resolved on it, and the next program has the same identities again.  None of
  this can be seen: a program is resolved on a used table as on any other one
  whose root gives its names the same types. -/

namespace BlockLang

/-- Every name of a program stands for itself, wherever it stands. -/
def Program.itself (p : Program) : Correspondence where
  names x x' := x = x' ∧ x ∈ p.names
  places := Eq
  known _ := True
  eq_iff := by
    rintro x _ y _ ⟨rfl, -⟩ ⟨rfl, -⟩
    exact Iff.rfl
  known_of_names _ := trivial

variable {p : Program}

theorem Program.matches_itself (p : Program) : p.Matches p.itself p where
  body := .refl (fun _ => rfl) fun _ hname => ⟨rfl, hname⟩
  id_eq := rfl

/-- Errors that match are the same where every name stands for itself. -/
theorem Error.Matches.eq {error error' : Error} (h : error.Matches p.itself error') :
    error = error' := by
  obtain ⟨fault, position⟩ := error
  obtain ⟨fault', position'⟩ := error'
  obtain ⟨hfault, hposition⟩ := h
  have hposition : position = position' := hposition
  rw [hposition]
  cases hfault with
  | duplicateDeclaration hx | undeclaredIdentifier hx => rw [hx.1]
  | declarationMismatch | assignmentMismatch | unsupportedOperator | boolOperandMismatch => rfl

theorem Result.Rel.eq {α : Type} {x x' : Except Error α}
    (h : Rel (Error.Matches p.itself) Eq x x') : x = x' := by
  cases h with
  | ok h => rw [h]
  | error h => rw [h.eq]

/-- What was done with a table does not leak into a program that is resolved on
    it.  Take two tables that a caller can come to, whose roots give the names
    of the program the same types, and which both allow shadowing or both
    forbid it.  On both tables the program is refused with the same error, or
    on both it is resolved.  Then checking gives the same types or the same
    error, and the program itself and its nodes with a scope are put into
    scopes of the same distance from the end of the table; no other node is
    moved. -/
theorem resolveWith_independent_of_history {t t' : SymbolTable} (h : t.Reachable)
    (h' : t'.Reachable) (p : Program) (hshadowing : t'.shadowing = t.shadowing)
    (hnames : ∀ name ∈ p.names,
      t'.type? SymbolTable.root name = t.type? SymbolTable.root name) :
    Result.Rel Eq
      (fun r r' => inferTypes r = inferTypes r' ∧
        (∀ node ∈ p.tag.id :: (p.nodes.filter Node.hasScope).map Node.id,
          ∃ id id', t.Shifted t' id id' ∧ r.symbols.scopeOf? node = some id ∧
            r'.symbols.scopeOf? node = some id') ∧
        ∀ node ∉ p.tag.id :: (p.nodes.filter Node.hasScope).map Node.id,
          r.symbols.scopeOf? node = t.scopeOf? node ∧
            r'.symbols.scopeOf? node = t'.scopeOf? node)
      (resolveWith t p) (resolveWith t' p) := by
  have htypes {x x'} (hx : p.itself.names x x') :
      t'.type? SymbolTable.root x' = t.type? SymbolTable.root x := by
    obtain ⟨rfl, hmem⟩ := hx
    exact hnames x hmem
  have hresolve := rel_resolveWith p.matches_itself h.wellFormed h'.wellFormed hshadowing htypes
    (fun _ => trivial)
  refine hresolve.imp (fun error error' herror => herror.eq) ?_
  rintro r r' ⟨hr, hr', hmatches⟩
  refine ⟨?_, hmatches.placed, hmatches.others⟩
  have hprograms : r.program.Matches p.itself r'.program := by
    rw [hr, hr']
    exact p.matches_itself
  apply (rel_inferTypes hprograms hmatches _).eq
  rw [hr]
  exact List.subset_cons_self _ _

/-- The second table holds two scopes more, in one of which `x` has another
    type.  The loop is put into a new scope in both tables. -/
theorem resolveWith_independent_of_history_of_loop :
    ∃ t t' p r r', SymbolTable.Reachable t ∧ SymbolTable.Reachable t' ∧
      [t.size, t'.size] = [1, 3] ∧ t'.type? 1 "x" = some .bool ∧
      resolveWith t p = .ok r ∧ resolveWith t' p = .ok r' ∧ inferTypes r = inferTypes r' ∧
      [r.symbols.scopeOf? 7, r'.symbols.scopeOf? 7] = [some 1, some 3] := by
  let x : Ident := ⟨"x", ⟨3, ⟨.null, .null⟩⟩⟩
  let run : Except Error (SymbolTable × SymbolTable × Program × Resolved × Resolved) := do
    let t ← SymbolTable.new.declareRoot "x" .int .null
    let bound ← t.openScope.declare x .bool
    let other ← readProgram "var z:bool = true; while z do z = false; end" "main"
    let used ← resolveWith bound other
    let p ← readProgram "while x do var y:int = x; print y; end" "main"
    let r ← resolveWith t p
    let r' ← resolveWith used.symbols p
    return (t, used.symbols, p, r, r')
  have hrun : run.toOption.map (fun (t, t', p, r, r') =>
      (t.shadowing && t'.shadowing && p.names.all fun name =>
        t'.type? SymbolTable.root name = t.type? SymbolTable.root name,
        [t.size, t'.size], t'.type? 1 "x", [r.symbols.scopeOf? 7, r'.symbols.scopeOf? 7])) =
      some (true, [1, 3], some .bool, [some 1, some 3]) := by decide +kernel
  cases hall : run with
  | error error =>
    rw [hall] at hrun
    cases hrun
  | ok all =>
    rw [hall] at hrun
    obtain ⟨t, ht, hsteps⟩ := Result.bind_eq_ok_iff.mp hall
    obtain ⟨bound, hbound, hsteps⟩ := Result.bind_eq_ok_iff.mp hsteps
    obtain ⟨other, -, hsteps⟩ := Result.bind_eq_ok_iff.mp hsteps
    obtain ⟨used, hused, hsteps⟩ := Result.bind_eq_ok_iff.mp hsteps
    obtain ⟨p, -, hsteps⟩ := Result.bind_eq_ok_iff.mp hsteps
    obtain ⟨r, hr, hsteps⟩ := Result.bind_eq_ok_iff.mp hsteps
    obtain ⟨r', hr', hsteps⟩ := Result.bind_eq_ok_iff.mp hsteps
    cases hsteps
    have hreach : SymbolTable.Reachable t :=
      Relation.ReflTransGen.refl.tail ⟨.declareRoot "x" .int .null, .of_result ht⟩
    have hreach' : SymbolTable.Reachable used.symbols :=
      Relation.ReflTransGen.tail hreach ⟨.openScope, .of_result rfl⟩
        |>.tail ⟨.declare x .bool, .of_result hbound⟩
        |>.tail ⟨.resolve other, .of_result (Result.bind_of_ok hused _)⟩
    simp only [Except.toOption, Option.map_some, Option.some.injEq, Prod.mk.injEq,
      Bool.and_eq_true, List.all_eq_true, decide_eq_true_eq] at hrun
    obtain ⟨⟨⟨hshadowing, hshadowing'⟩, hnames⟩, hsizes, htype, hscopes⟩ := hrun
    have hrel := resolveWith_independent_of_history hreach hreach' p
      (hshadowing'.trans hshadowing.symm) hnames
    rw [hr, hr'] at hrel
    cases hrel with
    | ok hrel =>
      exact ⟨t, used.symbols, p, r, r', hreach, hreach', hsizes, htype, hr, hr', hrel.1, hscopes⟩

end BlockLang
