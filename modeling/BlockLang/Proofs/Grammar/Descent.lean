import BlockLang.Proofs.Grammar.Expression

/-! # Descent — reading expressions rule by rule

  The grammar of expressions can be followed directly, with one procedure for
  each of its rules:

      expr   := term ((Plus | Dash | And | Or | Equals | NotEquals | Less) term)*
      term   := factor ((Star | Slash | Percent) factor)*
      factor := leaf | OpenParen expr CloseParen

  The procedures know no powers and open no levels.  `descend_term`,
  `descend_expr` and `descend_factor` say that they are what the rules say. -/

namespace BlockLang

open Grammar

namespace Parser

/-! ### Procedures -/

/-- Reads operators of a table, each with an operand behind it, and joins them
    to what is left of them.  Each round reads one token at least, so there
    are no more rounds than tokens `ahead` at the start. -/
def repetition (table : Kind → Option Operator) (operand : Parse Expr) :
    (ahead : List Token) → Expr → Parse Expr
  | [], left => return left
  | _ :: ahead, left => do
      let p ← get
      match p.currentKind?.bind table with
      | none => return left
      | some operator =>
          let _ ← advance
          let right ← operand
          let id ← freshId
          repetition table operand ahead (Phrase.join left operator right id)

/-- Reads an operand, and the operators of a table behind it. -/
def row (table : Kind → Option Operator) (operand : Parse Expr) : Parse Expr := do
  let first ← operand
  let p ← get
  repetition table operand p.rest first

/-- Reads a factor, with a procedure for the expressions in parentheses. -/
def factorOf (inner : Parse Expr) : Parse Expr := do
  let p ← get
  match p.currentKind? with
  | some .openParen =>
      let _ ← expect .openParen
      let e ← inner
      let _ ← expect .closeParen
      return e
  | some .integer | some .float | some .boolean | some .string | some .identifier => primary
  | _ => fail (·.unexpected "an expression")

/-- Reads a factor.  A parenthesis takes one token, so there are no more of
    them around a token than tokens `ahead` at the start. -/
def factorWithin : (ahead : List Token) → Parse Expr
  | [] => fail (·.unexpected "an expression")
  | _ :: ahead => factorOf (row sumOperator? (row productOperator? (factorWithin ahead)))

/-- Reads a factor. -/
def factor : Parse Expr := fun p => factorWithin p.rest p

/-- Reads what a nonterminal stands for. -/
def descend : Nonterminal → Parse Expr
  | .factor => factor
  | .term => row productOperator? factor
  | .expr => row sumOperator? (row productOperator? factor)

theorem descend_term : descend .term = row productOperator? (descend .factor) := rfl

theorem descend_expr : descend .expr = row sumOperator? (descend .term) := rfl

/-! ### Progress -/

variable {p q : Parser} {x y : Parse Expr} {e left : Expr} {table : Kind → Option Operator}
  {n : Nat}

/-- What is read takes one token at least. -/
def TakesToken (x : Parse Expr) : Prop :=
  ∀ p e q, x p = .ok e q → q.rest.length < p.rest.length

theorem repetition_of_none (h : p.currentKind?.bind table = none) (ahead : List Token) :
    repetition table x ahead left p = .ok left p := by
  cases ahead with
  | nil => rfl
  | cons token ahead =>
    rw [repetition, get_bind, h]
    rfl

theorem repetition_of_some {operator : Operator} (h : p.currentKind?.bind table = some operator)
    (token : Token) (ahead : List Token) :
    repetition table x (token :: ahead) left p =
      (do
        let _ ← advance
        let right ← x
        let id ← freshId
        repetition table x ahead (Phrase.join left operator right id) : Parse Expr) p := by
  rw [repetition, get_bind, h]

theorem length_rest_of_repetition (hx : TakesToken x) {ahead : List Token}
    (h : repetition table x ahead left p = .ok e q) : q.rest.length ≤ p.rest.length := by
  induction ahead generalizing left p with
  | nil =>
    cases h
    exact Nat.le_refl _
  | cons token ahead ih =>
    cases hop : p.currentKind?.bind table with
    | none =>
      rw [repetition_of_none hop] at h
      cases h
      exact Nat.le_refl _
    | some operator =>
      rw [repetition_of_some hop] at h
      simp only [bind_eq_ok_iff, advance_iff_moves, freshId_iff_moves] at h
      obtain ⟨sign, p₁, h₁, right, p₂, hright, id, p₃, ⟨-, h₃⟩, h⟩ := h
      have hlen₁ := h₁.length_rest
      have hlen₂ := hx _ _ _ hright
      have hlen₃ := h₃.length_rest
      have hlen := ih h
      simp only [List.length_cons, List.length_nil] at hlen₁ hlen₃
      omega

theorem TakesToken.row (hx : TakesToken x) : TakesToken (row table x) := by
  intro p e q h
  obtain ⟨first, p₁, hfirst, h⟩ := bind_eq_ok_iff.mp h
  exact Nat.lt_of_le_of_lt (length_rest_of_repetition hx h) (hx _ _ _ hfirst)

/-- A factor is read by the rule for operands that its first token selects. -/
theorem factorOf_eq (x : Parse Expr) (p : Parser) :
    factorOf x p =
      match p.currentKind?.bind Rules.standardOperand? with
      | some .primary => primary p
      | some .grouping => grouping (fun _ => x) p
      | none => fail (·.unexpected "an expression") p := by
  rw [factorOf, get_bind]
  cases p.currentKind? with
  | none => rfl
  | some kind => cases kind <;> rfl

theorem TakesToken.factorOf (hx : TakesToken x) : TakesToken (factorOf x) := by
  intro p e q h
  rw [factorOf_eq] at h
  match hrule : p.currentKind?.bind Rules.standardOperand? with
  | some .primary =>
    rw [hrule] at h
    obtain ⟨leaf, -, -, hm⟩ := primary_eq_ok_iff.mp h
    have hlen := hm.length_rest
    rw [List.length_singleton] at hlen
    omega
  | some .grouping =>
    simp only [hrule, grouping, monadLift_self, bind_eq_ok_iff, expect_iff_moves,
      pure_eq_ok_iff] at h
    obtain ⟨opening, p₁, ⟨-, h₁⟩, e', p₂, he, closing, p₃, ⟨-, h₃⟩, rfl, rfl⟩ := h
    have hlen₁ := h₁.length_rest
    have hlen₂ := hx _ _ _ he
    have hlen₃ := h₃.length_rest
    simp only [List.length_cons, List.length_nil] at hlen₁ hlen₃
    omega
  | none =>
    rw [hrule] at h
    exact absurd h fail_ne_ok

theorem takesToken_factorWithin (ahead : List Token) : TakesToken (factorWithin ahead) := by
  induction ahead with
  | nil =>
    intro p e q h
    exact absurd h fail_ne_ok
  | cons token ahead ih => exact ih.row.row.factorOf

/-! ### The rounds do not matter -/

/-- Up to `n` tokens before the end, both read the same. -/
def Agree (n : Nat) (x y : Parse Expr) : Prop := ∀ p, p.rest.length ≤ n → x p = y p

/-- Sequences are the same if their first actions are, and their second ones
    are from there on. -/
theorem bind_congr_of_ok {α β : Type} {x y : Parse α} {f g : α → Parse β} (h : x p = y p)
    (hnext : ∀ a q, x p = .ok a q → f a q = g a q) : (x >>= f) p = (y >>= g) p := by
  simp only [Bind.bind, EStateM.bind, ← h]
  cases hx : x p with
  | ok a q => exact hnext a q hx
  | error error q => rfl

theorem repetition_congr (hx : TakesToken x) (hxy : Agree n x y) (ahead : List Token)
    (hp : p.rest.length ≤ n) :
    repetition table x ahead left p = repetition table y ahead left p := by
  induction ahead generalizing left p with
  | nil => rfl
  | cons token ahead ih =>
    cases hop : p.currentKind?.bind table with
    | none => rw [repetition_of_none hop, repetition_of_none hop]
    | some operator =>
      rw [repetition_of_some hop, repetition_of_some hop]
      refine bind_congr_of_ok rfl fun sign p₁ h₁ => ?_
      have hlen₁ := (advance_iff_moves.mp h₁).length_rest
      rw [List.length_singleton] at hlen₁
      refine bind_congr_of_ok (hxy _ (by omega)) fun right p₂ hright => ?_
      have hlen₂ := hx _ _ _ hright
      refine bind_congr_of_ok rfl fun id p₃ h₃ => ?_
      have hlen₃ := (freshId_iff_moves.mp h₃).2.length_rest
      rw [List.length_nil] at hlen₃
      exact ih (by omega)

theorem Agree.row (hx : TakesToken x) (hxy : Agree n x y) :
    Agree n (row table x) (row table y) := by
  intro p hp
  refine bind_congr_of_ok (hxy p hp) fun first q hfirst => ?_
  exact repetition_congr hx hxy q.rest (Nat.le_trans (Nat.le_of_lt (hx _ _ _ hfirst)) hp)

/-- Inside parentheses there is one token less. -/
theorem Agree.factorOf (hxy : Agree n x y) : Agree (n + 1) (factorOf x) (factorOf y) := by
  intro p hp
  rw [factorOf_eq, factorOf_eq]
  split
  · rfl
  · refine bind_congr_of_ok rfl fun opening p₁ h₁ => ?_
    have hlen₁ := (expect_iff_moves.mp h₁).2.length_rest
    rw [List.length_singleton] at hlen₁
    exact bind_congr_of_ok (hxy _ (by omega)) fun _ _ _ => rfl
  · rfl

/-- Factors may be read with any number of rounds, if there are as many as
    tokens. -/
theorem factorWithin_ahead {ahead ahead' : List Token} (h : ahead.length ≤ ahead'.length) :
    Agree ahead.length (factorWithin ahead) (factorWithin ahead') := by
  induction ahead generalizing ahead' with
  | nil =>
    intro p hp
    have hrest : p.rest = [] := List.length_eq_zero_iff.mp (Nat.le_zero.mp hp)
    cases ahead' with
    | nil => rfl
    | cons token' ahead' =>
      rw [factorWithin, factorWithin, factorOf, get_bind, currentKind?_of_nil hrest]
  | cons token ahead ih =>
    cases ahead' with
    | nil => exact absurd h (Nat.not_succ_le_zero _)
    | cons token' ahead' =>
      have hinner : Agree ahead.length (factorWithin ahead) (factorWithin ahead') :=
        ih (Nat.le_of_succ_le_succ h)
      have hterm : Agree ahead.length (row productOperator? (factorWithin ahead))
          (row productOperator? (factorWithin ahead')) := hinner.row (takesToken_factorWithin ahead)
      exact (hterm.row (takesToken_factorWithin ahead).row).factorOf

theorem descend_factor : descend .factor = factorOf (descend .expr) := by
  funext p
  rw [descend, factor]
  cases hrest : p.rest with
  | nil =>
    rw [factorWithin, factorOf, get_bind, currentKind?_of_nil hrest]
  | cons token rest =>
    -- The tokens behind the first one are rounds enough, wherever a factor comes next.
    have hfactor : Agree rest.length (factorWithin rest) (descend .factor) :=
      fun p' hp' => (factorWithin_ahead hp' p' (Nat.le_refl _)).symm
    have hterm : Agree rest.length (row productOperator? (factorWithin rest)) (descend .term) :=
      hfactor.row (takesToken_factorWithin rest)
    have hexpr : Agree rest.length (row sumOperator? (row productOperator? (factorWithin rest)))
        (descend .expr) := hterm.row (takesToken_factorWithin rest).row
    exact hexpr.factorOf p (Nat.le_of_eq (by rw [hrest, List.length_cons]))

end Parser

end BlockLang
