/-! # Results — when a sequence of steps succeeds

  The phases behind the parser are steps that give a result or an error.  A
  sequence of them succeeds exactly when each step does, on the result of the
  one before.  Two sequences are compared step by step. -/

namespace BlockLang

variable {ε α β : Type}

theorem Result.bind_eq_ok_iff {x : Except ε α} {f : α → Except ε β} {b : β} :
    (x >>= f) = .ok b ↔ ∃ a, x = .ok a ∧ f a = .ok b := by
  cases x with
  | ok a => exact ⟨fun h => ⟨a, rfl, h⟩, fun ⟨a', ha, h⟩ => by cases ha; exact h⟩
  | error e => exact ⟨nofun, fun ⟨a, ha, _⟩ => nomatch ha⟩

/-- The first step that fails is what a sequence fails with. -/
theorem Result.bind_eq_error_iff {x : Except ε α} {f : α → Except ε β} {e : ε} :
    (x >>= f) = .error e ↔ x = .error e ∨ ∃ a, x = .ok a ∧ f a = .error e := by
  cases x with
  | ok a =>
    constructor
    · intro h
      exact .inr ⟨a, rfl, h⟩
    · rintro (h | ⟨a', ha, h⟩)
      · cases h
      · cases ha
        exact h
  | error e' =>
    constructor
    · intro h
      cases h
      exact .inl rfl
    · rintro (h | ⟨a', ha, -⟩)
      · cases h
        rfl
      · cases ha

theorem Result.bind_of_ok {x : Except ε α} {a : α} (h : x = .ok a) (f : α → Except ε β) :
    (x >>= f) = f a := by
  rw [h]
  rfl

theorem Result.pure_eq_ok_iff {a b : α} : (pure a : Except ε α) = .ok b ↔ a = b :=
  Except.ok.injEq a b ▸ Iff.rfl

theorem Result.exists_of_isOk {x : Except ε α} (h : x.isOk = true) : ∃ a, x = .ok a := by
  cases x with
  | ok a => exact ⟨a, rfl⟩
  | error e => cases h

/-- The error of a result. -/
def Result.error? {ε α : Type} : Except ε α → Option ε
  | .ok _ => none
  | .error error => some error

theorem Result.eq_error_of_error? {x : Except ε α} {e : ε} (h : error? x = some e) :
    x = .error e := by
  cases x with
  | ok a => cases h
  | error e' => rw [Option.some.inj h]

/-! ### Two results side by side -/

variable {α' β' : Type} {errors : ε → ε → Prop} {values : α → α' → Prop}

/-- Two results correspond: both are values that do, or both are errors that
    do. -/
inductive Result.Rel (errors : ε → ε → Prop) (values : α → α' → Prop) :
    Except ε α → Except ε α' → Prop where
  | ok {a a'} : values a a' → Rel errors values (.ok a) (.ok a')
  | error {e e'} : errors e e' → Rel errors values (.error e) (.error e')

namespace Result.Rel

/-- Two sequences correspond step by step. -/
theorem bind {x : Except ε α} {x' : Except ε α'} {f : α → Except ε β} {f' : α' → Except ε β'}
    {values' : β → β' → Prop} (h : Rel errors values x x')
    (hnext : ∀ a a', values a a' → Rel errors values' (f a) (f' a')) :
    Rel errors values' (x >>= f) (x' >>= f') := by
  cases h with
  | ok h => exact hnext _ _ h
  | error h => exact .error h

/-- What corresponds corresponds in a weaker sense too. -/
theorem imp {errors' : ε → ε → Prop} {values' : α → α' → Prop} {x : Except ε α}
    {x' : Except ε α'} (h : Rel errors values x x') (herrors : ∀ e e', errors e e' → errors' e e')
    (hvalues : ∀ a a', values a a' → values' a a') : Rel errors' values' x x' := by
  cases h with
  | ok h => exact .ok (hvalues _ _ h)
  | error h => exact .error (herrors _ _ h)

end Result.Rel

end BlockLang
