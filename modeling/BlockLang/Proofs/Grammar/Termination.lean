import BlockLang.Proofs.Grammar.Descent
import BlockLang.Proofs.Grammar.Progress

/-! # Termination — reading ends before the tokens are used up

  Here the parser reads against a clock.  Expressions and blocks may be read
  inside each other only `calls` deep, and a loop may make only as many rounds;
  what goes on beyond that fails with the error `late`.  If that is more than
  there are tokens ahead, the parser is never late: it does what the parser
  without a clock does, whichever error `late` is.  For between two calls
  inside each other, and between two rounds of a loop, a token is read,
  whatever the rules are. -/

namespace BlockLang

namespace Parser

/-! ### Reading against a clock -/

namespace Timed

/-- Reads operators behind `left`, in fewer than `rounds` rounds. -/
def climb (late : Error) (inner : Power → Parse Expr) (power : Power) :
    (rounds : Nat) → Expr → Parse Expr
  | 0, _ => throw late
  | rounds + 1, left => climbRound inner power (climb late inner power rounds) left

/-- Reads an expression, with fewer than `calls` expressions inside each other. -/
def expr (late : Error) : (calls : Nat) → Power → Parse Expr
  | 0, _ => throw late
  | calls + 1, power => do
      enter
      let e ← operand (expr late calls) >>= climb late (expr late calls) power (calls + 1)
      leave
      return e

/-- Reads the statements behind those in `before`, in fewer than `rounds`
    rounds. -/
def statements (late : Error) (read : StatementRule → Parse Stmt) :
    (rounds : Nat) → (before : List Stmt) → Parse (List Stmt)
  | 0, _ => throw late
  | rounds + 1, before => statementsRound read (statements late read rounds) before

/-- Reads a block, with fewer than `calls` blocks and expressions inside each
    other. -/
def block (late : Error) : (calls : Nat) → Parse (List Stmt)
  | 0 => throw late
  | calls + 1 => do
      enter
      let body ← statements late (statement (expr late calls .lowest) (block late calls))
        (calls + 1) []
      leave
      return body

end Timed

/-! ### Readers that agree -/

section

variable {α β : Type} {p q : Parser} {x y : Parse α} {ts : List Token} {n : Nat}

theorem Moves.room_eq (h : Moves p q ts n) : q.room = p.room := by
  rw [Parser.room, Parser.room, h.depth, h.limit]

theorem Moves.length_rest_lt (h : Moves p q ts n) (hne : ts ≠ []) :
    q.rest.length < p.rest.length := by
  have hlen := h.length_rest
  have hpos := List.length_pos_of_ne_nil hne
  omega

/-- Two actions in a row do the same if the first ones do, and the second ones
    from where these end. -/
theorem Ends.bind_congr {post : α → List Token → Nat → Prop} {f g : α → Parse β}
    (hends : Ends y p post) (hxy : x p = y p)
    (h : ∀ a q ts n, Moves p q ts n → post a ts n → f a q = g a q) :
    (x >>= f) p = (y >>= g) p := by
  refine bind_congr_of_ok hxy fun a q hx => ?_
  rw [hxy] at hx
  obtain ⟨ts, n, hm, hpost⟩ := hends.of_eq_ok hx
  exact h a q ts n hm hpost

/-- The readers do the same wherever a token has been read since `p`. -/
def AgreeBeyond (p : Parser) (x y : Parse α) : Prop :=
  ∀ {q ts n}, Moves p q ts n → ts ≠ [] → x q = y q

theorem AgreeBeyond.moves (h : AgreeBeyond p x y) (hm : Moves p q ts n) : AgreeBeyond q x y :=
  fun hm' hne => h (hm.trans hm') (List.append_ne_nil_of_right_ne_nil _ hne)

theorem expect_bind_congr {kind : Kind} {f g : Token → Parse β}
    (h : ∀ token q, Moves p q [token] 0 → f token q = g token q) :
    (expect kind >>= f) p = (expect kind >>= g) p :=
  bind_congr_of_ok rfl fun token q hq => h token q (expect_iff_moves.mp hq).2

end

/-! ### Expressions -/

section

variable {late : Error} {inner inner' : Power → Parse Expr} {power : Power} {left : Expr}
  {p : Parser}

theorem grouping_congr (h : ∀ power, AgreeBeyond p (inner power) (inner' power)) :
    grouping inner p = grouping inner' p := by
  refine expect_bind_congr fun opening q hm => ?_
  exact bind_congr_of_ok (h .lowest hm (List.cons_ne_nil _ _)) fun _ _ _ => rfl

theorem operand_congr (h : ∀ power, AgreeBeyond p (inner power) (inner' power)) :
    operand inner p = operand inner' p := by
  rw [operand, operand, lift_get_bind, lift_get_bind]
  cases p.currentKind?.bind p.rules.operand with
  | none => rfl
  | some rule =>
    cases rule with
    | primary => rfl
    | grouping => exact grouping_congr h

theorem binary_congr (h : ∀ power, AgreeBeyond p (inner power) (inner' power)) :
    binary inner left power p = binary inner' left power p := by
  refine bind_congr_of_ok rfl fun sign q hq => ?_
  cases Operator.ofKind? sign.kind with
  | none => rfl
  | some operator =>
    have hm := advance_iff_moves.mp hq
    exact bind_congr_of_ok (h power hm (List.cons_ne_nil _ _)) fun _ _ _ => rfl

/-- A round does the same whatever comes behind it, if that does the same once
    an operator has been read. -/
theorem climbRound_congr {again again' : Expr → Parse Expr}
    (hinner : ∀ power, Yields Expr.drawn (inner' power))
    (h : ∀ power, AgreeBeyond p (inner power) (inner' power))
    (hagain : ∀ joined, AgreeBeyond p (again joined) (again' joined)) :
    climbRound inner power again left p = climbRound inner' power again' left p := by
  rw [climbRound, climbRound, lift_get_bind, lift_get_bind]
  cases p.currentKind? with
  | none => rfl
  | some kind =>
    dsimp only
    split
    · rfl
    · split
      · refine (ends_binary hinner left _ p).bind_congr (binary_congr h) ?_
        exact fun joined q ts n hm hjoined => hagain joined hm hjoined.1
      · rfl

/-- With more rounds than tokens ahead, operators are read in time. -/
theorem Timed.climb_eq (hinner : ∀ power, Yields Expr.drawn (inner' power))
    (h : ∀ power, AgreeBeyond p (inner power) (inner' power)) {rounds : Nat}
    {ahead : List Token} (hrounds : p.rest.length < rounds)
    (hahead : p.rest.length ≤ ahead.length) :
    Timed.climb late inner power rounds left p = Parser.climb inner' power ahead left p := by
  -- On the rounds; a round that is followed by another one reads an operator at least.
  induction rounds generalizing ahead left p with
  | zero => exact absurd hrounds (Nat.not_lt_zero _)
  | succ rounds ih =>
    cases hkind : p.currentKind? with
    | none =>
      have hrest : p.rest = [] := by simpa [currentKind?, current?] using hkind
      rw [climb_of_rest_eq_nil hrest, Timed.climb, climbRound, lift_get_bind, hkind]
      rfl
    | some kind =>
      obtain ⟨_, ahead, rfl⟩ := exists_cons_of_currentKind? hkind hahead
      refine climbRound_congr hinner h fun joined q ts n hm hne => ?_
      have hlt := hm.length_rest_lt hne
      rw [List.length_cons] at hahead
      exact ih (fun power => AgreeBeyond.moves (h power) hm) (by omega) (by omega)

end

/-! ### Levels -/

section

variable {α : Type} {x y : Parse α} {p : Parser} {room : Nat}

theorem room_enterLevel (h : p.room = room + 1) :
    ({ p with depth := p.depth + 1 } : Parser).room = room := by
  rw [Parser.room] at h ⊢
  simp only
  omega

/-- Where no level is left, none is opened. -/
theorem enter_bind_of_room_eq_zero (h : p.room = 0) :
    (do enter; let a ← x; leave; return a : Parse α) p = fail tooDeep p := by
  have hdepth : ¬ p.depth < p.limit := Nat.not_lt.mpr (Nat.sub_eq_zero_iff_le.mp h)
  simp only [Bind.bind, EStateM.bind, enter, if_neg hdepth]
  rfl

theorem enter_bind_congr
    (h : x { p with depth := p.depth + 1 } = y { p with depth := p.depth + 1 }) :
    (do enter; let a ← x; leave; return a : Parse α) p =
      (do enter; let a ← y; leave; return a : Parse α) p := by
  by_cases hdepth : p.depth < p.limit
  · rw [Parser.enter_bind hdepth, Parser.enter_bind hdepth, h]
  · simp only [Bind.bind, EStateM.bind, enter, if_neg hdepth]

end

section

variable {late : Error} {p : Parser} {calls room : Nat}

/-- With more calls than tokens ahead, an expression is read in time. -/
theorem Timed.expr_eq (hroom : p.room = room) (hcalls : p.rest.length < calls) (power : Power) :
    Timed.expr late calls power p = Parser.expr room power p := by
  -- On the calls; whatever is read inside is read behind a token, in a level of its own.
  induction calls generalizing room power p with
  | zero => exact absurd hcalls (Nat.not_lt_zero _)
  | succ calls ih =>
    cases room with
    | zero => exact enter_bind_of_room_eq_zero hroom
    | succ room =>
      refine enter_bind_congr ?_
      have hinner (power : Power) : AgreeBeyond { p with depth := p.depth + 1 }
          (Timed.expr late calls power) (Parser.expr room power) := by
        intro q ts n hm hne
        have hlt : q.rest.length < p.rest.length := hm.length_rest_lt hne
        exact ih (hm.room_eq.trans (room_enterLevel hroom)) (by omega) power
      rw [level_eq_bind]
      refine (yields_operand (yields_expr room) _).bind_congr (operand_congr hinner) ?_
      intro left q ts n hm hleft
      have hlt : q.rest.length < p.rest.length := hm.length_rest_lt hleft.1
      exact Timed.climb_eq (yields_expr room) (fun power => AgreeBeyond.moves (hinner power) hm)
        (by omega) (Nat.le_refl _)

end

/-! ### Statements -/

section

variable {late : Error} {p : Parser} {e e' : Parse Expr} {b b' : Parse (List Stmt)}

theorem declaration_congr (h : AgreeBeyond p e e') : declaration e p = declaration e' p := by
  refine expect_bind_congr fun first p₁ h₁ => expect_bind_congr fun name p₂ h₂ => ?_
  refine expect_bind_congr fun _ p₃ h₃ => expect_bind_congr fun type p₄ h₄ => ?_
  cases Ty.ofKeyword? type.lexeme with
  | none => rfl
  | some ty =>
    refine expect_bind_congr fun _ p₅ h₅ => bind_congr_of_ok rfl fun target p₆ htarget => ?_
    have hm := (((((h₁.trans h₂).trans h₃).trans h₄).trans h₅).trans
      (identOf_iff_moves.mp htarget).2)
    exact bind_congr_of_ok (h hm (List.cons_ne_nil _ _)) fun _ _ _ => rfl

theorem assignment_congr (h : AgreeBeyond p e e') : assignment e p = assignment e' p := by
  refine expect_bind_congr fun name p₁ h₁ => expect_bind_congr fun _ p₂ h₂ => ?_
  refine bind_congr_of_ok rfl fun target p₃ htarget => ?_
  have hm := (h₁.trans h₂).trans (identOf_iff_moves.mp htarget).2
  exact bind_congr_of_ok (h hm (List.cons_ne_nil _ _)) fun _ _ _ => rfl

theorem print_congr (h : AgreeBeyond p e e') : print e p = print e' p := by
  refine expect_bind_congr fun first p₁ h₁ => ?_
  exact bind_congr_of_ok (h h₁ (List.cons_ne_nil _ _)) fun _ _ _ => rfl

theorem whileDo_congr (he : AgreeBeyond p e e') (hyields : Yields Expr.drawn e')
    (hb : AgreeBeyond p b b') : whileDo e b p = whileDo e' b' p := by
  refine expect_bind_congr fun first p₁ h₁ => ?_
  refine (hyields p₁).bind_congr (he h₁ (List.cons_ne_nil _ _)) fun condition p₂ ts n h₂ _ => ?_
  refine expect_bind_congr fun _ p₃ h₃ => ?_
  have hm := (h₁.trans h₂).trans h₃
  exact bind_congr_of_ok (hb hm (List.cons_ne_nil _ _)) fun _ _ _ => rfl

theorem ifThen_congr (he : AgreeBeyond p e e') (hyields : Yields Expr.drawn e')
    (hb : AgreeBeyond p b b') (hyields' : YieldsBlock b') : ifThen e b p = ifThen e' b' p := by
  refine expect_bind_congr fun first p₁ h₁ => ?_
  refine (hyields p₁).bind_congr (he h₁ (List.cons_ne_nil _ _)) fun condition p₂ ts n h₂ _ => ?_
  refine expect_bind_congr fun _ p₃ h₃ => ?_
  have hm₃ := (h₁.trans h₂).trans h₃
  refine (hyields' p₃).bind_congr (hb hm₃ (List.cons_ne_nil _ _)) fun body p₄ us m h₄ _ => ?_
  rw [lift_get_bind, lift_get_bind]
  split
  · refine expect_bind_congr fun second p₅ h₅ => ?_
    have hm₅ := (hm₃.trans h₄).trans h₅
    exact bind_congr_of_ok (hb hm₅ (List.cons_ne_nil _ _)) fun _ _ _ => rfl
  · rfl

theorem statement_congr (he : AgreeBeyond p e e') (hyields : Yields Expr.drawn e')
    (hb : AgreeBeyond p b b') (hyields' : YieldsBlock b') (rule : StatementRule) :
    statement e b rule p = statement e' b' rule p := by
  cases rule with
  | declaration => exact declaration_congr he
  | assignment => exact assignment_congr he
  | whileDo => exact whileDo_congr he hyields hb
  | ifThen => exact ifThen_congr he hyields hb hyields'
  | print => exact print_congr he
  | unsupported => rfl

/-! ### Blocks -/

/-- A round does the same whatever comes behind it, if that does the same once
    a statement has been read. -/
theorem statementsRound_congr {read read' : StatementRule → Parse Stmt}
    {again again' : List Stmt → Parse (List Stmt)} {before : List Stmt}
    (hread : ∀ rule, Yields Stmt.drawn (read' rule)) (h : ∀ rule, read rule p = read' rule p)
    (hagain : ∀ before, AgreeBeyond p (again before) (again' before)) :
    statementsRound read again before p = statementsRound read' again' before p := by
  rw [statementsRound, statementsRound, lift_get_bind, lift_get_bind]
  cases p.currentKind? with
  | none => rfl
  | some kind =>
    dsimp only
    cases p.rules.statement kind with
    | none => rfl
    | some rule =>
      refine (hread rule p).bind_congr (h rule) ?_
      exact fun s q ts n hm hs => hagain (s :: before) hm hs.1

/-- With more rounds than tokens ahead, statements are read in time. -/
theorem Timed.statements_eq {read read' : StatementRule → Parse Stmt}
    (hread : ∀ rule, Yields Stmt.drawn (read' rule))
    (h : ∀ {q ts n}, Moves p q ts n → ∀ rule, read rule q = read' rule q) {rounds : Nat}
    {ahead : List Token} {before : List Stmt} (hrounds : p.rest.length < rounds)
    (hahead : p.rest.length ≤ ahead.length) :
    Timed.statements late read rounds before p = Parser.statements read' ahead before p := by
  -- On the rounds; a round that is followed by another one reads a statement.
  induction rounds generalizing ahead before p with
  | zero => exact absurd hrounds (Nat.not_lt_zero _)
  | succ rounds ih =>
    cases hkind : p.currentKind? with
    | none =>
      have hrest : p.rest = [] := by simpa [currentKind?, current?] using hkind
      rw [statements_of_rest_eq_nil hrest, Timed.statements, statementsRound, lift_get_bind, hkind]
      rfl
    | some kind =>
      obtain ⟨_, ahead, rfl⟩ := exists_cons_of_currentKind? hkind hahead
      refine statementsRound_congr hread (h (.refl p)) fun before q ts n hm hne => ?_
      have hlt := hm.length_rest_lt hne
      rw [List.length_cons] at hahead
      exact ih (fun hm' => h (hm.trans hm')) (by omega) (by omega)

/-- With more calls than tokens ahead, a block is read in time. -/
theorem Timed.block_eq {calls room : Nat} (hroom : p.room = room)
    (hcalls : p.rest.length < calls) : Timed.block late calls p = blockWithin room p := by
  induction calls generalizing room p with
  | zero => exact absurd hcalls (Nat.not_lt_zero _)
  | succ calls ih =>
    cases room with
    | zero => exact enter_bind_of_room_eq_zero hroom
    | succ room =>
      rw [blockWithin_succ]
      refine enter_bind_congr ?_
      rw [get_bind]
      have hyields := yields_expr room .lowest
      have hyields' := yieldsBlock_blockWithin room
      refine Timed.statements_eq (yields_statement hyields hyields') (fun {q ts n} hm rule => ?_)
        hcalls (Nat.le_refl _)
      -- Whatever is read inside is read behind the first token of its statement.
      have hlen : p.rest.length = ts.length + q.rest.length := hm.length_rest
      have hroom' := hm.room_eq.trans (room_enterLevel hroom)
      refine statement_congr ?_ hyields ?_ hyields' rule
      · intro r us m hm' hne
        have hlt := hm'.length_rest_lt hne
        exact Timed.expr_eq (hm'.room_eq.trans hroom') (by omega) .lowest
      · intro r us m hm' hne
        have hlt := hm'.length_rest_lt hne
        exact ih (hm'.room_eq.trans hroom') (by omega)

end

end Parser

end BlockLang
