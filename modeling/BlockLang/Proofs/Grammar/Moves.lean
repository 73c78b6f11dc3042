import BlockLang.Parser.Statement

/-! # Moves — what a parser does when it succeeds

  A successful action takes tokens off the front of the rest and draws
  identities; the depth is what it was, and rules and limit never change.
  `Moves` says exactly that, and each primitive action is characterised by
  it.  Moves compose, and a move over two rows of tokens comes apart. -/

namespace BlockLang

namespace Parser

/-! ### Sequences of actions -/

theorem bind_eq_ok_iff {α β : Type} {x : Parse α} {f : α → Parse β} {p q : Parser} {b : β} :
    (x >>= f) p = .ok b q ↔ ∃ a r, x p = .ok a r ∧ f a r = .ok b q := by
  simp only [bind, EStateM.bind]
  cases h : x p with
  | ok a r =>
    constructor
    · exact fun hf => ⟨a, r, rfl, hf⟩
    · intro h
      obtain ⟨a', r', hr, hf⟩ := h
      cases hr
      exact hf
  | error e r => simp

theorem bind_of_ok {α β : Type} {x : Parse α} {f : α → Parse β} {p q : Parser} {a : α}
    (h : x p = .ok a q) : (x >>= f) p = f a q := by
  simp only [bind, EStateM.bind, h]

theorem pure_eq_ok_iff {α : Type} {a b : α} {p q : Parser} :
    (pure a : Parse α) p = .ok b q ↔ a = b ∧ p = q := by
  simp only [pure, EStateM.pure, EStateM.Result.ok.injEq]

theorem get_eq_ok_iff {p q r : Parser} : (get : Parse Parser) p = .ok r q ↔ p = r ∧ p = q := by
  show EStateM.Result.ok p p = .ok r q ↔ _
  rw [EStateM.Result.ok.injEq]

theorem get_bind {α : Type} (f : Parser → Parse α) (p : Parser) : (get >>= f) p = f p p := rfl

/-- The readers lift their actions to the monad they work in. -/
theorem lift_get_bind {α : Type} (f : Parser → Parse α) (p : Parser) :
    ((liftM (get : Parse Parser) : Parse Parser) >>= f) p = f p p := rfl

theorem throw_ne_ok {α : Type} {error : Error} {p q : Parser} {a : α} :
    (throw error : Parse α) p ≠ .ok a q := nofun

theorem fail_ne_ok {α : Type} {error : Parser → Error} {p q : Parser} {a : α} :
    (fail error : Parse α) p ≠ .ok a q := nofun

/-! ### Moves -/

/-- The parser `p` becomes `q` by reading the tokens `ts` and drawing `ids`
    identities. -/
structure Moves (p q : Parser) (ts : List Token) (ids : Nat) : Prop where
  rest : p.rest = ts ++ q.rest
  read : q.read = ts.reverse ++ p.read
  nextId : q.nextId = p.nextId + ids
  depth : q.depth = p.depth
  rules : q.rules = p.rules
  limit : q.limit = p.limit

/-! ### The next token -/

section

variable {p : Parser} {token : Token} {rest : List Token} {kind : Kind}

theorem currentKind?_of_nil (h : p.rest = []) : p.currentKind? = none := by
  rw [currentKind?, current?, h]
  rfl

theorem currentKind?_of_cons (h : p.rest = token :: rest) :
    p.currentKind? = some token.kind := by
  rw [currentKind?, current?, h]
  rfl

theorem currentKind?_eq_some_iff :
    p.currentKind? = some kind ↔ ∃ token rest, p.rest = token :: rest ∧ token.kind = kind := by
  cases hrest : p.rest with
  | nil => simp [currentKind?_of_nil hrest]
  | cons token rest => simp [currentKind?_of_cons hrest]

/-- Where a token comes, there is a round left if there are as many as tokens. -/
theorem exists_cons_of_currentKind? (h : p.currentKind? = some kind) {ahead : List Token}
    (hahead : p.rest.length ≤ ahead.length) : ∃ token ahead', ahead = token :: ahead' := by
  obtain ⟨token, rest, hrest, -⟩ := currentKind?_eq_some_iff.mp h
  refine List.exists_cons_of_length_pos (Nat.lt_of_lt_of_le ?_ hahead)
  rw [hrest]
  exact Nat.succ_pos _

end

/-! ### All tokens -/

/-- No token is lost where some are read off the front. -/
theorem tokens_eq_of_front {p q : Parser} {ts : List Token} (hrest : p.rest = ts ++ q.rest)
    (hread : q.read = ts.reverse ++ p.read) : q.tokens = p.tokens := by
  rw [tokens, tokens, hrest, hread, List.reverse_append, List.reverse_reverse, List.append_assoc]

/-- The end of the last token of all; no place where there are no tokens. -/
def finish (p : Parser) : Position := (p.tokens.getLast?.map (·.span.stop)).getD .null

/-- The parser stands at the next token, or behind the last one. -/
theorem here_eq (p : Parser) :
    p.here = match p.current? with
      | some token => token.span.start
      | none => p.finish := by
  rw [here]
  cases hcurrent : p.current? with
  | some token => rfl
  | none =>
    have hrest : p.rest = [] := List.head?_eq_none_iff.mp hcurrent
    simp only
    rw [finish, reached, tokens, hrest, List.append_nil, List.getLast?_reverse]
    cases p.read with
    | nil => rfl
    | cons token read => rfl

/-! ### Moves, one after the other -/

namespace Moves

variable {p q r : Parser} {ts us : List Token} {m n : Nat}

theorem refl (p : Parser) : Moves p p [] 0 := ⟨rfl, rfl, rfl, rfl, rfl, rfl⟩

theorem trans (h₁ : Moves p q ts m) (h₂ : Moves q r us n) : Moves p r (ts ++ us) (m + n) where
  rest := by rw [h₁.rest, h₂.rest, List.append_assoc]
  read := by rw [h₂.read, h₁.read, List.reverse_append, List.append_assoc]
  nextId := by rw [h₂.nextId, h₁.nextId, Nat.add_assoc]
  depth := h₂.depth.trans h₁.depth
  rules := h₂.rules.trans h₁.rules
  limit := h₂.limit.trans h₁.limit

/-- A move over a row of tokens can stop after any of them. -/
theorem split (h : Moves p r (ts ++ us) (m + n)) : ∃ q, Moves p q ts m ∧ Moves q r us n := by
  refine ⟨{ p with
      read := ts.reverse ++ p.read
      rest := us ++ r.rest
      nextId := p.nextId + m }, ?_, ?_⟩
  · refine ⟨?_, rfl, rfl, rfl, rfl, rfl⟩
    rw [h.rest, List.append_assoc]
  · refine ⟨rfl, ?_, ?_, h.depth, h.rules, h.limit⟩
    · rw [h.read, List.reverse_append, List.append_assoc]
    · rw [h.nextId, Nat.add_assoc]

/-- A move is determined by its start and its end. -/
theorem eq (h₁ : Moves p q ts m) (h₂ : Moves p r ts m) : q = r := by
  have hrest : q.rest = r.rest := List.append_cancel_left (h₁.rest.symm.trans h₂.rest)
  cases q with | mk _ _ _ _ _ _ =>
  cases r with | mk _ _ _ _ _ _ =>
  obtain ⟨-, h₁read, h₁id, h₁depth, h₁rules, h₁limit⟩ := h₁
  obtain ⟨-, h₂read, h₂id, h₂depth, h₂rules, h₂limit⟩ := h₂
  simp_all only

theorem eq_of_nil (h : Moves p q [] 0) : p = q := (refl p).eq h

theorem tokens_eq (h : Moves p q ts m) : q.tokens = p.tokens :=
  tokens_eq_of_front h.rest h.read

/-- Reading never lengthens the rest. -/
theorem length_rest (h : Moves p q ts m) : p.rest.length = ts.length + q.rest.length := by
  rw [h.rest, List.length_append]

/-- The token that a move reads first is the current one. -/
theorem currentKind?_eq {token : Token} (h : Moves p q (token :: ts) m) :
    p.currentKind? = some token.kind :=
  currentKind?_of_cons h.rest

/-- Behind the last token of a move the parser has reached that token's end. -/
theorem reached_eq {token : Token} (h : Moves p q (ts ++ [token]) m) :
    q.reached = token.span.stop := by
  simp [reached, h.read]

theorem reached_of_token {token : Token} (h : Moves p q [token] m) :
    q.reached = token.span.stop := by
  rw [← List.nil_append [token]] at h
  exact h.reached_eq

/-- A move can be made inside one more level. -/
theorem enterLevel (h : Moves p q ts m) :
    Moves { p with depth := p.depth + 1 } { q with depth := q.depth + 1 } ts m :=
  ⟨h.rest, h.read, h.nextId, by rw [h.depth], h.rules, h.limit⟩

/-- A move inside one more level is a move when that level is closed. -/
theorem leaveLevel (h : Moves { p with depth := p.depth + 1 } q ts m) :
    Moves p { q with depth := q.depth - 1 } ts m :=
  ⟨h.rest, h.read, h.nextId, by simp only [h.depth, Nat.add_sub_cancel], h.rules, h.limit⟩

end Moves

/-! ### Actions -/

variable {p q : Parser}

theorem advance_iff_moves {token : Token} : advance p = .ok token q ↔ Moves p q [token] 0 := by
  rw [advance_eq_ok_iff]
  constructor
  · intro h
    obtain ⟨rest, hrest, rfl⟩ := h
    exact ⟨hrest, rfl, rfl, rfl, rfl, rfl⟩
  · intro h
    refine ⟨q.rest, h.rest, ?_⟩
    cases q with | mk _ _ _ _ _ _ =>
    obtain ⟨-, hread, hid, hdepth, hrules, hlimit⟩ := h
    simp_all

theorem expect_iff_moves {kind : Kind} {token : Token} :
    expect kind p = .ok token q ↔ token.kind = kind ∧ Moves p q [token] 0 := by
  rw [expect_eq_ok_iff, advance_iff_moves, and_comm]

theorem freshId_iff_moves {id : NodeId} :
    freshId p = .ok id q ↔ id = p.nextId ∧ Moves p q [] 1 := by
  simp only [freshId, EStateM.Result.ok.injEq]
  constructor
  · intro h
    obtain ⟨rfl, rfl⟩ := h
    exact ⟨rfl, rfl, rfl, rfl, rfl, rfl, rfl⟩
  · intro h
    obtain ⟨rfl, h⟩ := h
    refine ⟨rfl, ?_⟩
    exact Moves.eq ⟨rfl, rfl, rfl, rfl, rfl, rfl⟩ h

theorem identOf_iff_moves {token : Token} {ident : Ident} :
    identOf token p = .ok ident q ↔
      ident = ⟨token.lexeme, ⟨p.nextId, token.span⟩⟩ ∧ Moves p q [] 1 := by
  simp only [identOf, bind_eq_ok_iff, pure_eq_ok_iff, freshId_iff_moves]
  constructor
  · intro h
    obtain ⟨id, r, ⟨rfl, h⟩, rfl, rfl⟩ := h
    exact ⟨rfl, h⟩
  · intro h
    obtain ⟨rfl, h⟩ := h
    exact ⟨_, _, ⟨rfl, h⟩, rfl, rfl⟩

theorem closeTag_iff_moves {start : Position} {tag : Tag} :
    closeTag start p = .ok tag q ↔
      tag = ⟨p.nextId, ⟨start, p.reached⟩⟩ ∧ Moves p q [] 1 := by
  have hreached {r : Parser} (h : Moves p r [] 1) : r.reached = p.reached := by
    simp only [reached, h.rest, h.read, List.nil_append, List.reverse_nil]
  simp only [closeTag, bind_eq_ok_iff, pure_eq_ok_iff, freshId_iff_moves, spanFrom,
    EStateM.Result.ok.injEq]
  constructor
  · intro h
    obtain ⟨id, r, ⟨rfl, h⟩, span, r', ⟨rfl, rfl⟩, rfl, rfl⟩ := h
    exact ⟨by rw [hreached h], h⟩
  · intro h
    obtain ⟨rfl, h⟩ := h
    exact ⟨_, q, ⟨rfl, h⟩, _, q, ⟨rfl, rfl⟩, by rw [hreached h], rfl⟩

/-- An action inside a level of its own moves as it does inside. -/
theorem enter_bind_eq_ok_iff {α : Type} {x : Parse α} {a : α} :
    (do enter; let a ← x; leave; return a : Parse α) p = .ok a q ↔
      p.depth < p.limit ∧
        ∃ r, x { p with depth := p.depth + 1 } = .ok a r ∧ q = { r with depth := r.depth - 1 } := by
  simp only [bind_eq_ok_iff, pure_eq_ok_iff, leave, EStateM.Result.ok.injEq]
  constructor
  · intro h
    obtain ⟨_, r₁, henter, a', r₂, hx, _, r₃, ⟨_, rfl⟩, rfl, rfl⟩ := h
    unfold enter at henter
    split at henter
    · rename_i hlt
      cases henter
      exact ⟨hlt, r₂, hx, rfl⟩
    · cases henter
  · intro h
    obtain ⟨hlt, r, hx, rfl⟩ := h
    exact ⟨(), _, by rw [enter, if_pos hlt], a, r, hx, (), _, ⟨trivial, rfl⟩, rfl, rfl⟩

end Parser

end BlockLang
