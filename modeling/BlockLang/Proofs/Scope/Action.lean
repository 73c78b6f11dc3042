import BlockLang.Proofs.Result
import BlockLang.Scope.Resolved

/-! # Actions — what callers do with a symbol table

  A caller has one table, and an action changes it in place.  An action that
  fails leaves behind what it has changed until then.  Declarations look before
  they bind, so that is nothing: every action comes to the table that the
  operations on tables give, or leaves the table as it was. -/

namespace BlockLang

/-- How an action ends that changes everything or nothing: with the new state,
    or with an error and the state of before. -/
def Result.inPlace {σ : Type} (state : σ) : Except Error σ → EStateM.Result Error σ Unit
  | .ok state' => .ok () state'
  | .error error => .error error state

/-- Looking at the state hands it on. -/
theorem Result.get_bind {σ α : Type} (f : σ → EStateM Error σ α) (state : σ) :
    (get >>= f) state = f state state := rfl

/-! ### Declarations in place -/

/-- Binds a name in the scope at hand. -/
def Scope.declareInPlace (name : String) (ty : Ty) (position : Position) :
    EStateM Error Scope Unit := do
  let scope ← get
  if (scope.type? name).isSome then
    throw ⟨.duplicateDeclaration name, position⟩
  set { scope with bindings := scope.bindings.insert name ty }

/-- A scope looks whether the name is taken before it binds it. -/
theorem Scope.declareInPlace_eq (s : Scope) (name : String) (ty : Ty) (position : Position) :
    declareInPlace name ty position s = Result.inPlace s (s.declare name ty position) := by
  unfold declareInPlace declare
  rw [Result.get_bind]
  split
  · rfl
  · rfl

namespace SymbolTable

/-- Puts a scope in the place of the one with the number. -/
def setScope (table : SymbolTable) (id : ScopeId) (scope : Scope) : SymbolTable :=
  { table with scopes := table.scopes.setIfInBounds id scope }

/-- Changes the scope with the number in place.  If that fails, what has been
    changed in the scope stays changed. -/
def onScope (id : ScopeId) (x : EStateM Error Scope Unit) : EStateM Error SymbolTable Unit :=
  fun table =>
    match table.scope? id with
    | none => .ok () table
    | some scope =>
      match x scope with
      | .ok _ scope => .ok () (table.setScope id scope)
      | .error error scope => .error error (table.setScope id scope)

/-- Binds the name of an identifier in the current scope of the table at hand. -/
def declareInPlace (ident : Ident) (ty : Ty) : EStateM Error SymbolTable Unit := do
  let table ← get
  if !table.shadowing && (table.type? table.current ident.name).isSome then
    throw ⟨.duplicateDeclaration ident.name, ident.tag.span.start⟩
  onScope table.current (Scope.declareInPlace ident.name ty ident.tag.span.start)

variable {t t' : SymbolTable} {id : ScopeId}

/-- Putting a scope in its own place changes nothing. -/
theorem setScope_self {s : Scope} (h : t.scope? id = some s) : t.setScope id s = t := by
  obtain ⟨hlt, hs⟩ := Array.getElem?_eq_some_iff.mp h
  unfold setScope
  rw [Array.setIfInBounds_def, dif_pos hlt, ← hs, Array.set_getElem_self]

theorem onScope_declareInPlace (t : SymbolTable) (id : ScopeId) (name : String) (ty : Ty)
    (position : Position) :
    onScope id (Scope.declareInPlace name ty position) t =
      Result.inPlace t (t.declareIn id name ty position) := by
  unfold onScope declareIn
  cases hs : t.scope? id with
  | none => rfl
  | some s =>
    simp only [Scope.declareInPlace_eq]
    cases s.declare name ty position with
    | ok s' => rfl
    | error error =>
      show EStateM.Result.error error (t.setScope id s) = .error error t
      rw [setScope_self hs]

theorem declareInPlace_eq (t : SymbolTable) (ident : Ident) (ty : Ty) :
    declareInPlace ident ty t = Result.inPlace t (t.declare ident ty) := by
  unfold declareInPlace declare
  rw [Result.get_bind]
  split
  · rfl
  · exact onScope_declareInPlace t t.current ident.name ty ident.tag.span.start

/-! ### Actions -/

/-- What a caller does with a table. -/
inductive Action where
  /-- Allows shadowing or forbids it. -/
  | withShadowing (allow : Bool)
  /-- Binds a name in the root. -/
  | declareRoot (name : String) (ty : Ty) (position : Position)
  | openScope
  | closeScope
  /-- Binds a name in the current scope. -/
  | declare (ident : Ident) (ty : Ty)
  | stamp (node : NodeId) (id : ScopeId)
  /-- Resolves a program on top of the table. -/
  | resolve (program : Program)

namespace Action

/-- Does an action with the table at hand. -/
def run : Action → EStateM Error SymbolTable Unit
  | withShadowing allow => modify (·.withShadowing allow)
  | declareRoot name ty position => onScope root (Scope.declareInPlace name ty position)
  | openScope => modify SymbolTable.openScope
  | closeScope => modify SymbolTable.closeScope
  | declare ident ty => declareInPlace ident ty
  | stamp node id => modify (·.stamp node id)
  | resolve program => do
      -- Resolving works on a table of its own, which replaces the one at hand.
      let resolved ← MonadExcept.ofExcept (resolveWith (← get) program)
      set resolved.symbols

/-- The table that an action comes to, or the error that it meets. -/
def result (t : SymbolTable) : Action → Except Error SymbolTable
  | withShadowing allow => .ok (t.withShadowing allow)
  | declareRoot name ty position => t.declareRoot name ty position
  | openScope => .ok t.openScope
  | closeScope => .ok t.closeScope
  | declare ident ty => t.declare ident ty
  | stamp node id => .ok (t.stamp node id)
  | resolve program => do
      let resolved ← resolveWith t program
      return resolved.symbols

/-- An action changes the table at hand as a whole, or not at all. -/
theorem run_eq (a : Action) (t : SymbolTable) : a.run t = Result.inPlace t (a.result t) := by
  cases a with
  | declareRoot name ty position => exact onScope_declareInPlace t root name ty position
  | declare ident ty => exact declareInPlace_eq t ident ty
  | resolve program =>
    simp only [run, result, Result.get_bind]
    cases resolveWith t program with
    | ok resolved => rfl
    | error error => rfl
  | _ => rfl

theorem run_eq_ok_iff {a : Action} : a.run t = .ok () t' ↔ a.result t = .ok t' := by
  rw [run_eq]
  cases a.result t with
  | ok t₁ => simp [Result.inPlace]
  | error error => simp [Result.inPlace]

/-- An action that fails leaves the table as it was. -/
theorem eq_of_run_eq_error {a : Action} {error : Error} (h : a.run t = .error error t') :
    t' = t := by
  rw [run_eq] at h
  cases hresult : a.result t with
  | ok t₁ =>
    rw [hresult] at h
    cases h
  | error error =>
    rw [hresult] at h
    cases h
    rfl

end Action

end SymbolTable

end BlockLang
