import BlockLang.Proofs.Grammar.Comparison

/-! # Ahead — errors depend on the tokens that are left

  What a parser has read and which identities it has handed out show in what
  it gives, but not in what it refuses.  Two parsers with the same tokens ahead
  and the same levels open take the same tokens, and fail with the same error
  at the same place.  So no two values are compared here: an action goes on in
  step with another one, whatever both have read so far. -/

namespace BlockLang

namespace Parser

variable {α β γ δ : Type} {p q : Parser}

/-! ### Parsers -/

/-- The parsers have the same tokens ahead, and the same levels open. -/
structure SameAhead (p q : Parser) : Prop where
  rest : q.rest = p.rest
  /-- The last of all tokens ends at the same place. -/
  finish : q.finish = p.finish
  depth : q.depth = p.depth
  rules : q.rules = p.rules
  limit : q.limit = p.limit

namespace SameAhead

theorem current?_eq (h : SameAhead p q) : q.current? = p.current? := by
  rw [current?, current?, h.rest]

theorem currentKind?_eq (h : SameAhead p q) : q.currentKind? = p.currentKind? :=
  currentKind?_congr h.current?_eq

theorem here_eq (h : SameAhead p q) : q.here = p.here := by
  rw [Parser.here_eq, Parser.here_eq, h.current?_eq, h.finish]

theorem unexpected_eq (h : SameAhead p q) (expected : String) :
    q.unexpected expected = p.unexpected expected := by
  rw [unexpected, unexpected, h.current?_eq, h.here_eq]

theorem tooDeep_eq (h : SameAhead p q) : q.tooDeep = p.tooDeep := by
  rw [tooDeep, tooDeep, h.limit, h.here_eq]

/-- Both read the same token. -/
theorem advance {token : Token} {p' : Parser} (h : SameAhead p q)
    (hp : Parser.advance p = .ok token p') :
    ∃ q', Parser.advance q = .ok token q' ∧ SameAhead p' q' := by
  obtain ⟨rest, hrest, rfl⟩ := advance_eq_ok_iff.mp hp
  have hq : Parser.advance q = .ok token { q with read := token :: q.read, rest := rest } :=
    advance_eq_ok_iff.mpr ⟨rest, h.rest.trans hrest, rfl⟩
  refine ⟨_, hq, rfl, ?_, h.depth, h.rules, h.limit⟩
  show Parser.finish _ = Parser.finish _
  rw [Parser.finish, Parser.finish, tokens_of_advance hq, tokens_of_advance hp]
  exact h.finish

theorem enterLevel (h : SameAhead p q) :
    SameAhead { p with depth := p.depth + 1 } { q with depth := q.depth + 1 } :=
  ⟨h.rest, h.finish, congrArg (· + 1) h.depth, h.rules, h.limit⟩

theorem leaveLevel (h : SameAhead p q) :
    SameAhead { p with depth := p.depth - 1 } { q with depth := q.depth - 1 } :=
  ⟨h.rest, h.finish, congrArg (· - 1) h.depth, h.rules, h.limit⟩

end SameAhead

/-! ### Actions -/

/-- Both runs succeed, with parsers that are still in step, or both fail with
    one error. -/
inductive Alike : EStateM.Result Error Parser α → EStateM.Result Error Parser β → Prop where
  | ok {a b p q} : SameAhead p q → Alike (.ok a p) (.ok b q)
  | error {e p q} : Alike (.error e p) (.error e q)

/-- Runs in step go on in step, whatever the first actions give. -/
theorem Alike.bind {x : Parse α} {y : Parse β} {f : α → Parse γ} {g : β → Parse δ}
    (h : Alike (x p) (y q)) (hnext : ∀ {a b p q}, SameAhead p q → Alike (f a p) (g b q)) :
    Alike ((x >>= f) p) ((y >>= g) q) := by
  simp only [Bind.bind, EStateM.bind]
  generalize x p = r at h ⊢
  generalize y q = r' at h ⊢
  cases h with
  | ok hpq => exact hnext hpq
  | error => exact .error

/-- The actions keep parsers in step. -/
structure InStep (x : Parse α) (y : Parse β) : Prop where
  alike : ∀ {p q}, SameAhead p q → Alike (x p) (y q)

namespace InStep

/-- Two sequences keep in step action by action. -/
theorem bind {x : Parse α} {y : Parse β} {f : α → Parse γ} {g : β → Parse δ} (h : InStep x y)
    (hnext : ∀ a b, InStep (f a) (g b)) : InStep (x >>= f) (y >>= g) :=
  ⟨fun hpq => (h.alike hpq).bind fun hpq => (hnext _ _).alike hpq⟩

theorem pure (a : α) (b : β) : InStep (Pure.pure a : Parse α) (Pure.pure b : Parse β) := ⟨.ok⟩

theorem throw (e : Error) :
    InStep (MonadExcept.throw e : Parse α) (MonadExcept.throw e : Parse β) :=
  ⟨fun _ => .error⟩

theorem unexpected (expected : String) :
    InStep (fail (·.unexpected expected) : Parse α) (fail (·.unexpected expected) : Parse β) where
  alike h := by
    rw [fail, fail, h.unexpected_eq]
    exact .error

theorem tooDeep : InStep (fail Parser.tooDeep : Parse α) (fail Parser.tooDeep : Parse β) where
  alike h := by
    rw [fail, fail, h.tooDeep_eq]
    exact .error

/-- What an action sees of a parser is what the parsers have in common. -/
theorem get_bind {f : Parser → Parse γ} {g : Parser → Parse δ}
    (h : ∀ {p q}, SameAhead p q → InStep (f p) (g q)) : InStep (get >>= f) (get >>= g) :=
  ⟨fun hpq => (h hpq).alike hpq⟩

/-- Both go on with the same token. -/
theorem advance_bind {f : Token → Parse γ} {g : Token → Parse δ}
    (hnext : ∀ token, InStep (f token) (g token)) :
    InStep (advance >>= f) (advance >>= g) where
  alike {p q} h := by
    cases hrest : p.rest with
    | nil =>
      rw [advance_bind_of_nil hrest, advance_bind_of_nil (h.rest.trans hrest)]
      exact (unexpected _).alike h
    | cons token rest =>
      have hp := advance_eq_ok_iff.mpr ⟨rest, hrest, rfl⟩
      obtain ⟨q', hq, hpq⟩ := h.advance hp
      rw [bind_of_ok hp, bind_of_ok hq]
      exact (hnext token).alike hpq

theorem expect_bind {kind : Kind} {f : Token → Parse γ} {g : Token → Parse δ}
    (hnext : ∀ token, InStep (f token) (g token)) :
    InStep (expect kind >>= f) (expect kind >>= g) where
  alike {p q} h := by
    by_cases hkind : p.currentKind? = some kind
    · rw [expect_bind_of_eq hkind, expect_bind_of_eq (h.currentKind?_eq.trans hkind)]
      exact (advance_bind hnext).alike h
    · rw [expect_bind_of_ne hkind, expect_bind_of_ne (h.currentKind?_eq ▸ hkind)]
      exact (unexpected _).alike h

/-- Both draw an identity, not always the same. -/
theorem freshId : InStep freshId freshId :=
  ⟨fun h => .ok ⟨h.rest, h.finish, h.depth, h.rules, h.limit⟩⟩

theorem identOf (token : Token) : InStep (identOf token) (identOf token) :=
  bind freshId fun _ _ => pure _ _

theorem closeTag (start : Position) : InStep (closeTag start) (closeTag start) :=
  bind freshId fun _ _ => bind ⟨.ok⟩ fun _ _ => pure _ _

/-- Both open a level, or both have no room for it. -/
theorem enter_bind {x : Parse α} {y : Parse β} (h : InStep x y) :
    InStep (do enter; let a ← x; leave; return a) (do enter; let b ← y; leave; return b) where
  alike {p q} hpq := by
    by_cases hdepth : p.depth < p.limit
    · have hdepth' : q.depth < q.limit := by rwa [hpq.depth, hpq.limit]
      have hrun := h.alike hpq.enterLevel
      rw [Parser.enter_bind hdepth, Parser.enter_bind hdepth']
      generalize x { p with depth := p.depth + 1 } = r at hrun ⊢
      generalize y { q with depth := q.depth + 1 } = r' at hrun ⊢
      cases hrun with
      | ok hrs => exact .ok hrs.leaveLevel
      | error => exact .error
    · have hdepth' : ¬ q.depth < q.limit := by rwa [hpq.depth, hpq.limit]
      simp only [Bind.bind, EStateM.bind, enter, if_neg hdepth, if_neg hdepth', hpq.tooDeep_eq]
      exact .error

end InStep

/-! ### Expressions -/

section

variable {inner : Power → Parse Expr}

/-- Whether a token is an operand does not depend on the identity drawn. -/
theorem leafOf_eq_error {token : Token} {id : NodeId} {error : Error}
    (h : leafOf token id = .error error) (id' : NodeId) : leafOf token id' = .error error := by
  revert h
  unfold leafOf
  cases token.kind with
  | integer => cases readInt64? token.lexeme <;> simp
  | float => cases readBinary64? token.lexeme <;> simp
  | _ => simp

theorem inStep_primary : InStep primary primary := by
  refine .advance_bind fun token => .bind .freshId fun id id' => ?_
  cases h : leafOf token id with
  | error error =>
    rw [leafOf_eq_error h]
    exact .throw _
  | ok e =>
    cases h' : leafOf token id' with
    | ok e' => exact .pure _ _
    | error error =>
      rw [leafOf_eq_error h'] at h
      cases h

theorem inStep_grouping (hinner : ∀ power, InStep (inner power) (inner power)) :
    InStep (grouping inner) (grouping inner) :=
  .expect_bind fun _ => .bind (hinner .lowest) fun _ _ => .expect_bind fun _ => .pure _ _

theorem inStep_operand (hinner : ∀ power, InStep (inner power) (inner power)) :
    InStep (operand inner) (operand inner) := by
  refine .get_bind fun {p q} h => ?_
  rw [h.currentKind?_eq, h.rules]
  cases p.currentKind?.bind p.rules.operand with
  | none => exact .unexpected _
  | some rule =>
    cases rule with
    | primary => exact inStep_primary
    | grouping => exact inStep_grouping hinner

theorem inStep_binary (hinner : ∀ power, InStep (inner power) (inner power)) (left left' : Expr)
    (power : Power) : InStep (binary inner left power) (binary inner left' power) := by
  refine .advance_bind fun token => ?_
  cases Operator.ofKind? token.kind with
  | none => exact .throw _
  | some operator => exact .bind (hinner power) fun _ _ => .bind .freshId fun _ _ => .pure _ _

/-- Both take the same operators. -/
theorem inStep_climb (hinner : ∀ power, InStep (inner power) (inner power)) (power : Power)
    (ahead : List Token) (left left' : Expr) :
    InStep (climb inner power ahead left) (climb inner power ahead left') := by
  induction ahead generalizing left left' with
  | nil => exact .pure _ _
  | cons token ahead ih =>
    refine .get_bind fun {p q} h => ?_
    rw [h.currentKind?_eq, h.rules]
    cases p.currentKind? with
    | none => exact .pure _ _
    | some kind =>
      dsimp only
      split
      · exact .pure _ _
      · split
        · exact .bind (inStep_binary hinner _ _ _) fun _ _ => ih _ _
        · exact .unexpected _

theorem inStep_level (hinner : ∀ power, InStep (inner power) (inner power)) (power : Power) :
    InStep (level inner power) (level inner power) := by
  refine .bind (inStep_operand hinner) fun left left' => .get_bind fun {p q} h => ?_
  rw [h.rest]
  exact inStep_climb hinner power p.rest left left'

theorem inStep_expr (room : Nat) (power : Power) : InStep (expr room power) (expr room power) := by
  induction room generalizing power with
  | zero => exact .tooDeep
  | succ room ih => exact .enter_bind (inStep_level ih power)

end

/-! ### Statements -/

section

variable {expression : Parse Expr} {block : Parse (List Stmt)}

theorem inStep_declaration (hexpr : InStep expression expression) :
    InStep (declaration expression) (declaration expression) := by
  refine .expect_bind fun first => .expect_bind fun name => .expect_bind fun _ =>
    .expect_bind fun type => ?_
  cases Ty.ofKeyword? type.lexeme with
  | none => exact .throw _
  | some ty =>
    refine .expect_bind fun _ => .bind (.identOf name) fun _ _ => .bind hexpr fun _ _ => ?_
    exact .expect_bind fun _ => .bind (.closeTag _) fun _ _ => .pure _ _

theorem inStep_assignment (hexpr : InStep expression expression) :
    InStep (assignment expression) (assignment expression) := by
  refine .expect_bind fun name => .expect_bind fun _ => ?_
  refine .bind (.identOf name) fun _ _ => .bind hexpr fun _ _ => ?_
  exact .expect_bind fun _ => .bind (.closeTag _) fun _ _ => .pure _ _

theorem inStep_print (hexpr : InStep expression expression) :
    InStep (print expression) (print expression) := by
  refine .expect_bind fun first => .bind hexpr fun _ _ => ?_
  exact .expect_bind fun _ => .bind (.closeTag _) fun _ _ => .pure _ _

theorem inStep_whileDo (hexpr : InStep expression expression) (hblock : InStep block block) :
    InStep (whileDo expression block) (whileDo expression block) := by
  refine .expect_bind fun first => .bind hexpr fun _ _ => ?_
  refine .expect_bind fun _ => .bind hblock fun _ _ => ?_
  exact .expect_bind fun _ => .bind (.closeTag _) fun _ _ => .pure _ _

theorem inStep_ifThen (hexpr : InStep expression expression) (hblock : InStep block block) :
    InStep (ifThen expression block) (ifThen expression block) := by
  refine .expect_bind fun first => .bind hexpr fun _ _ => ?_
  refine .expect_bind fun _ => .bind hblock fun _ _ => .get_bind fun {p q} h => ?_
  -- Both see an `else`, or neither does.
  rw [h.currentKind?_eq]
  split
  · refine .expect_bind fun second => .bind hblock fun _ _ => ?_
    refine .expect_bind fun _ => .bind (.closeTag _) fun _ _ => ?_
    exact .bind (.closeTag _) fun _ _ => .pure _ _
  · exact .expect_bind fun _ => .bind (.closeTag _) fun _ _ => .pure _ _

theorem inStep_statement (hexpr : InStep expression expression) (hblock : InStep block block)
    (rule : StatementRule) :
    InStep (statement expression block rule) (statement expression block rule) := by
  cases rule with
  | declaration => exact inStep_declaration hexpr
  | assignment => exact inStep_assignment hexpr
  | whileDo => exact inStep_whileDo hexpr hblock
  | ifThen => exact inStep_ifThen hexpr hblock
  | print => exact inStep_print hexpr
  | unsupported => exact .advance_bind fun token => .throw _

end

/-! ### Blocks -/

/-- Both read equally many statements, whatever stands before them. -/
theorem inStep_statements {read : StatementRule → Parse Stmt}
    (hread : ∀ rule, InStep (read rule) (read rule)) (ahead : List Token)
    (before before' : List Stmt) :
    InStep (statements read ahead before) (statements read ahead before') := by
  induction ahead generalizing before before' with
  | nil => exact .pure _ _
  | cons token ahead ih =>
    refine .get_bind fun {p q} h => ?_
    rw [h.currentKind?_eq, h.rules]
    cases p.currentKind? with
    | none => exact .pure _ _
    | some kind =>
      dsimp only
      cases p.rules.statement kind with
      | some rule => exact .bind (hread rule) fun _ _ => ih _ _
      | none =>
        dsimp only
        split
        · exact .pure _ _
        · exact .unexpected _

theorem inStep_blockWithin (room : Nat) : InStep (blockWithin room) (blockWithin room) := by
  induction room with
  | zero => exact .tooDeep
  | succ room ih =>
    rw [blockWithin_succ]
    refine .enter_bind (.get_bind fun {p q} h => ?_)
    rw [h.rest]
    exact inStep_statements (inStep_statement (inStep_expr room .lowest) ih) p.rest _ _

end Parser

end BlockLang
