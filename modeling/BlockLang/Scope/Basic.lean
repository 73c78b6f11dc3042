import BlockLang.Error
import Std.Data.ExtTreeMap

/-! # Scopes — the names of one block

  A scope binds names to types.  A name is bound once; it keeps its type from
  then on. -/

namespace BlockLang

/-- Number of a scope within its table; the root has number 0. -/
abbrev ScopeId : Type := Nat

/-- The names of one block. -/
structure Scope where
  /-- The scope around this one; the root has none. -/
  parent? : Option ScopeId
  /-- The names bound here, with their types. -/
  bindings : Std.ExtTreeMap String Ty

namespace Scope

/-- A scope without names. -/
def inside (parent? : Option ScopeId) : Scope := ⟨parent?, ∅⟩

/-- The type that a name is bound to here. -/
def type? (scope : Scope) (name : String) : Option Ty := scope.bindings[name]?

/-- Binds a name.  A name that is already bound here is an error at the given
    place. -/
def declare (scope : Scope) (name : String) (ty : Ty) (position : Position) :
    Except Error Scope :=
  if (scope.type? name).isSome then .error ⟨.duplicateDeclaration name, position⟩
  else .ok { scope with bindings := scope.bindings.insert name ty }

/-! ### What a declaration changes -/

theorem declare_eq_ok_iff {scope scope' : Scope} {name : String} {ty : Ty} {position : Position} :
    scope.declare name ty position = .ok scope' ↔
      scope.type? name = none ∧
        { scope with bindings := scope.bindings.insert name ty } = scope' := by
  unfold declare
  cases h : scope.type? name <;> simp

/-- Only the declared name changes, and it gets the declared type. -/
theorem type?_of_declare {scope scope' : Scope} {name : String} {ty : Ty} {position : Position}
    (h : scope.declare name ty position = .ok scope') (x : String) :
    scope'.type? x = if name = x then some ty else scope.type? x := by
  obtain ⟨-, rfl⟩ := declare_eq_ok_iff.1 h
  simp only [type?, Std.ExtTreeMap.getElem?_insert, Std.LawfulEqCmp.compare_eq_iff_eq]

end Scope

end BlockLang
