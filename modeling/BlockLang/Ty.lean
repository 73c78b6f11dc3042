/-! # Types — the four types of the language

  Every variable and every expression has exactly one of four primitive
  types; there are no others. -/

namespace BlockLang

/-- The type of a variable or an expression. -/
inductive Ty where
  | int
  | float
  | string
  | bool
deriving DecidableEq

namespace Ty

/-- The word that names the type in a program. -/
def keyword : Ty → String
  | int => "int"
  | float => "float"
  | string => "string"
  | bool => "bool"

/-- The type that a word names, if it names one. -/
def ofKeyword? : String → Option Ty
  | "int" => some int
  | "float" => some float
  | "string" => some string
  | "bool" => some bool
  | _ => none

/-- A word names a type exactly when it is that type's keyword. -/
theorem ofKeyword?_eq_some_iff {word : String} {ty : Ty} :
    ofKeyword? word = some ty ↔ word = ty.keyword := by
  constructor
  · unfold ofKeyword?
    split <;> simp_all [keyword] <;> rintro rfl <;> rfl
  · rintro rfl
    cases ty <;> rfl

end Ty

end BlockLang
