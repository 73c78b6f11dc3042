import BlockLang.Proofs.Grammar.Comparison
import BlockLang.Proofs.Grammar.Descent
import BlockLang.Proofs.Result
import BlockLang.Token.Scan

/-! # Climbing — one loop reads the whole grammar

  An operand is read, and then all operators behind it in one loop, each with
  a right side for the power of the operator.  This gives what the procedures
  of the grammar give, result or error, unless too many levels are open: the
  procedures open none.

  The two runs are compared step by step.  The loop of a sum goes through the
  products first, so it is cut where the first sum comes. -/

namespace BlockLang

open Grammar

namespace Parser

variable {p q : Parser} {room base k : Nat} {left : Expr} {inner : Power → Parse Expr}

/-! ### Levels on one side -/

/-- The first run has `k` levels more open than the second one, which has
    `base` levels open all the time.  The first run may fail because of its
    levels. -/
def deeper (base k : Nat) : Comparison where
  states p q := p.depth = base + k ∧ q = { p with depth := base }
  errors e p e' q := e' = e ∧ q = { p with depth := base }
  extra := 0
  waives e _ := ∃ limit, e.fault = .nestingTooDeep limit
  rules_eq h := by rw [h.2]
  nextId_eq h := by rw [h.2]
  reached_eq h := by rw [h.2]; rfl
  read := by
    rintro p q token rest ⟨hdepth, rfl⟩ hrest
    exact ⟨rest, hrest, hdepth, rfl⟩
  length_rest h := by rw [h.2]; rfl
  draw := by
    rintro p q ⟨hdepth, rfl⟩
    exact ⟨hdepth, rfl⟩
  raise _ h := ⟨rfl, h.2⟩
  waives_unexpected _ h := absurd h (Nat.lt_irrefl 0)

/-- A level that only the first run opens is one more between the two. -/
theorem Tracks.enter_bind_deeper {α : Type} {x y : Parse α} (h : p.depth < p.limit)
    (hxy : Tracks (deeper base (k + 1)) (x { p with depth := p.depth + 1 }) (y q)) :
    Tracks (deeper base k) ((do enter; let a ← x; leave; return a : Parse α) p) (y q) := by
  rw [Parser.enter_bind h]
  generalize x { p with depth := p.depth + 1 } = r, y q = r' at hxy
  cases hxy with
  | ok h => exact .ok ⟨by simp only [h.1]; omega, h.2⟩
  | error h => exact .error h
  | spent hextra => exact absurd hextra (Nat.lt_irrefl 0)
  | waived h => exact .waived h

/-- No run is cut short by missing tokens, since both have the same ones. -/
theorem Tracks.bind_deeper {α β : Type} {x y : Parse α} {f g : α → Parse β}
    (h : Tracks (deeper base k) (x p) (y q))
    (hnext : ∀ a p' q', x p = .ok a p' → (deeper base k).states p' q' →
      Tracks (deeper base k) (f a p') (g a q')) :
    Tracks (deeper base k) ((x >>= f) p) ((y >>= g) q) :=
  .bind h (fun a p' q' hx _ => hnext a p' q' hx)
    fun _ _ _ _ hextra => absurd hextra (Nat.lt_irrefl 0)

theorem deeper_currentKind? (h : (deeper base k).states p q) : q.currentKind? = p.currentKind? := by
  rw [h.2]
  rfl

theorem deeper_rest (h : (deeper base k).states p q) : q.rest = p.rest := by
  rw [h.2]

/-! ### Rows of operators -/

/-- The operators of the table are those that join parts of one kind to a
    whole. -/
structure Joins (table : Kind → Option Operator) (part whole : Nonterminal) : Prop where
  spells : ∀ {kind operator}, table kind = some operator ↔
    Operator.ofKind? kind = some operator ∧ Rules.standardPower? kind = some part.power
  complete : ∀ {kind}, kind.power = part.power → ∃ operator, table kind = some operator
  rank : part.power.rank = whole.power.rank + 1

theorem joins_product : Joins productOperator? .factor .term where
  spells := productOperator?_eq_some_iff
  complete h := exists_productOperator? (by rw [h]; rfl)
  rank := rfl

theorem joins_sum : Joins sumOperator? .term .expr where
  spells := sumOperator?_eq_some_iff
  complete h := exists_sumOperator? (by rw [h]; rfl)
  rank := rfl

variable {table : Kind → Option Operator} {part whole : Nonterminal} {x : Parse Expr}

/-- Where no operator is tight enough for the whole, none of the table comes. -/
theorem Joins.bind_eq_none (hj : Joins table part whole) (h : Stops whole p) :
    p.currentKind?.bind table = none := by
  cases hkind : p.currentKind? with
  | none => rfl
  | some kind =>
    cases hop : table kind with
    | none => exact hop
    | some operator =>
      have hle := h kind hkind
      rw [Kind.power, (hj.spells.mp hop).2, Option.getD_some, hj.rank] at hle
      exact absurd hle (Nat.not_succ_le_self _)

/-- Behind a part the operators that are tight enough are those of the table. -/
theorem Joins.power_eq (hj : Joins table part whole) {kind : Kind}
    (hkind : p.currentKind? = some kind) (h : Stops part p)
    (hlt : whole.power.rank < kind.power.rank) : kind.power = part.power := by
  have hle := h kind hkind
  have hrank := hj.rank
  cases hk : kind.power <;> cases part <;> simp_all [Nonterminal.power, Power.rank]

/-- An operator of the table is read like any other. -/
theorem Joins.repetition_eq (hj : Joins table part whole) {kind : Kind}
    (hkind : p.currentKind? = some kind) (hpower : kind.power = part.power) (token : Token)
    (ahead : List Token) :
    repetition table x (token :: ahead) left p =
      (binary (fun _ => x) left part.power >>= repetition table x ahead) p := by
  obtain ⟨operator, hop⟩ := hj.complete hpower
  have hcurrent : p.currentKind?.bind table = some operator := by rw [hkind]; exact hop
  rw [repetition_of_some hcurrent]
  simp only [binary, bind_assoc]
  refine bind_congr_of_ok rfl fun sign q hsign => ?_
  have hspells : Operator.ofKind? sign.kind = some operator := by
    have hm := advance_iff_moves.mp hsign
    rw [hm.currentKind?_eq, Option.some.injEq] at hkind
    rw [hkind]
    exact (hj.spells.mp hop).1
  rw [hspells]
  simp only [bind_assoc, pure_bind]
  rfl

/-- The loop follows the procedure for a row. -/
theorem Joins.tracks_climb (hj : Joins table part whole) (hreads : Reads room inner)
    (hinner : Follows (deeper base k) room (inner part.power) x) (hp : Ready room p)
    (h : (deeper base k).states p q) (hstops : Stops part p) {ahead : List Token}
    (hahead : p.rest.length ≤ ahead.length) :
    Tracks (deeper base k) (climb inner whole.power ahead left p)
      (repetition table x ahead left q) := by
  -- On the rounds left, which are the same on both sides.
  induction ahead generalizing left p q with
  | nil => exact .ok h
  | cons token ahead ih =>
    have hkindq := deeper_currentKind? h
    rcases stops_or_operator whole p with hdone | ⟨kind, hkind, hlt⟩
    · have hnone := hj.bind_eq_none hdone
      rw [← hkindq] at hnone
      rw [climb_of_stops hp.rules hdone, repetition_of_none hnone]
      exact .ok h
    · have hpower := hj.power_eq hkind hstops hlt
      rw [climb_of_operator hp.rules hkind hlt, hpower,
        hj.repetition_eq (hkindq.trans hkind) hpower]
      refine .bind_deeper (hinner.binary p q hp h) fun joined p' q' hjoined h' => ?_
      obtain ⟨sign, d, ids, -, -, hm, hstops'⟩ := exists_phrase_of_binary hreads hp hjoined
      have hlen := length_rest_of_binary hreads hp hjoined
      rw [List.length_cons] at hahead
      exact ih (hp.moves hm) h' hstops' (by omega)

/-! ### Levels -/

/-- For the power of products nothing is read but an operand. -/
theorem level_multiplicative (hreads : Reads room inner) (hp : Ready room p) :
    level inner .multiplicative p = operand inner p := by
  rw [level_eq_bind, ← bind_pure (operand inner), bind_assoc]
  refine bind_congr_of_ok rfl fun left q hleft => ?_
  obtain ⟨d, -, hd⟩ := (operand_eq_ok_iff hreads hp).mp hleft
  rw [pure_bind, get_bind]
  exact climb_of_stops (hp.moves hd.moves).rules (stops_factor q) q.rest

/-- The loop of an expression first reads a term, and then goes on. -/
theorem climb_lowest (hreads : Reads room inner) (hp : Ready room p) {ahead : List Token}
    (hahead : p.rest.length ≤ ahead.length) :
    climb inner .lowest ahead left p =
      (climb inner .additive ahead left >>= fun term => get >>= fun q =>
        climb inner .lowest q.rest term) p := by
  -- On the rounds left.  As long as products come, both loops make the same round.
  induction ahead generalizing left p with
  | nil =>
    have hrest : p.rest = [] := List.length_eq_zero_iff.mp (Nat.le_zero.mp hahead)
    rw [climb, climb, pure_bind, get_bind, hrest]
    rfl
  | cons token ahead ih =>
    rcases stops_or_operator .term p with hstops | ⟨kind, hkind, hlt⟩
    · have hterm : climb inner .additive (token :: ahead) left p = .ok left p :=
        climb_of_stops hp.rules hstops _
      rw [bind_of_ok hterm, get_bind]
      exact climb_ahead hreads hp hahead (Nat.le_refl _)
    · have hround : climb inner .additive (token :: ahead) left p =
          (binary inner left kind.power >>= climb inner .additive ahead) p :=
        climb_of_operator hp.rules hkind hlt token ahead
      have hpos : Power.lowest.rank < kind.power.rank := Nat.zero_lt_of_lt hlt
      rw [climb_of_operator hp.rules hkind hpos]
      calc (binary inner left kind.power >>= climb inner .lowest ahead) p
          = (binary inner left kind.power >>= fun joined => climb inner .additive ahead joined >>=
              fun term => get >>= fun q => climb inner .lowest q.rest term) p := by
            refine bind_congr_of_ok rfl fun joined q hjoined => ?_
            obtain ⟨nt, hnt⟩ := Nonterminal.exists_power_eq kind.power
            rw [← hnt] at hjoined
            obtain ⟨sign, d, ids, -, -, hm, -⟩ := exists_phrase_of_binary hreads hp hjoined
            have hlen := length_rest_of_binary hreads hp hjoined
            rw [List.length_cons] at hahead
            exact ih (hp.moves hm) (by omega)
        _ = ((binary inner left kind.power >>= climb inner .additive ahead) >>=
              fun term => get >>= fun q => climb inner .lowest q.rest term) p := by rw [bind_assoc]
        _ = (climb inner .additive (token :: ahead) left >>=
              fun term => get >>= fun q => climb inner .lowest q.rest term) p :=
            bind_congr_of_ok hround.symm fun _ _ _ => rfl

theorem level_lowest (hreads : Reads room inner) (hp : Ready room p) :
    level inner .lowest p =
      (level inner .additive >>= fun term => get >>= fun q =>
        climb inner .lowest q.rest term) p := by
  rw [level_eq_bind, level_eq_bind, bind_assoc]
  refine bind_congr_of_ok rfl fun left q hleft => ?_
  obtain ⟨d, -, hd⟩ := (operand_eq_ok_iff hreads hp).mp hleft
  rw [get_bind, bind_assoc, get_bind]
  exact climb_lowest hreads (hp.moves hd.moves) (Nat.le_refl _)

/-- A factor is read like an operand. -/
theorem factorOf_eq_operand (hrules : q.rules = .standard) :
    factorOf x q = operand (fun _ => x) q := by
  rw [factorOf_eq, operand, lift_get_bind, hrules]
  cases q.currentKind? with
  | none => rfl
  | some kind => cases kind <;> rfl

/-- Reading one level follows the procedure of the nonterminal. -/
theorem follows_level (hreads : Reads room inner)
    (hinner : ∀ nt, Follows (deeper base k) room (inner nt.power) (descend nt)) (nt : Nonterminal) :
    Follows (deeper base k) room (level inner nt.power) (descend nt) := by
  have hfactor : Follows (deeper base k) room (level inner .multiplicative) (descend .factor) := by
    intro p q hp h
    rw [level_multiplicative hreads hp, descend_factor,
      factorOf_eq_operand (((deeper base k).rules_eq h).trans hp.rules)]
    exact Follows.operand (hinner .expr) p q hp h
  have hterm : Follows (deeper base k) room (level inner .additive) (descend .term) := by
    intro p q hp h
    have hfirst := hfactor p q hp h
    rw [level_multiplicative hreads hp] at hfirst
    rw [level_eq_bind, descend_term, row]
    refine .bind_deeper hfirst fun left p' q' hleft h' => ?_
    obtain ⟨d, -, hd⟩ := (operand_eq_ok_iff hreads hp).mp hleft
    rw [get_bind, get_bind, deeper_rest h']
    exact joins_product.tracks_climb hreads (hinner .factor) (hp.moves hd.moves) h'
      (stops_factor p') (Nat.le_refl _)
  cases nt with
  | factor => exact hfactor
  | term => exact hterm
  | expr =>
    intro p q hp h
    rw [Nonterminal.power, level_lowest hreads hp, descend_expr, row]
    refine .bind_deeper (hterm p q hp h) fun left p' q' hleft h' => ?_
    obtain ⟨⟨d, -, hd⟩, hstops⟩ : ReadsPhrase .term (room + 1) p left p' ∧ Stops .term p' :=
      (level_eq_ok_iff hreads hp).mp hleft
    rw [get_bind, get_bind, deeper_rest h']
    exact joins_sum.tracks_climb hreads (hinner .term) (hp.moves hd.moves) h' hstops
      (Nat.le_refl _)

/-- Reading an expression follows the procedure of the nonterminal, however
    many levels are open already. -/
theorem follows_expr (room base k : Nat) (nt : Nonterminal) :
    Follows (deeper base k) room (expr room nt.power) (descend nt) := by
  -- On the room.  A level more is open inside.
  induction room generalizing k nt with
  | zero => exact fun p q _ _ => .waived ⟨p.limit, rfl⟩
  | succ room ih =>
    intro p q hp h
    have hlt : p.depth < p.limit := by have := hp.depth; omega
    rw [expr]
    refine .enter_bind_deeper hlt ?_
    exact follows_level (reads_expr room) (ih (k + 1)) nt _ q hp.enterLevel
      ⟨by simp only [h.1, Nat.add_assoc], h.2⟩

/-- Where no level is left, none can be opened for an expression. -/
theorem expression_of_limit_le (h : p.limit ≤ p.depth) (power : Power) :
    expression power p = .error p.tooDeep p := by
  rw [expression, room, Nat.sub_eq_zero_of_le h]
  rfl

/-- An expression is read exactly as the grammar says, unless too many levels
    are open: the procedure of the nonterminal gives the same expression and
    leaves the same parser behind, or fails with the same error in front of the
    same tokens, where it has not opened any levels.  What is read is as long
    as it can be: no operator behind it binds more tightly. -/
theorem expression_eq_descend {p : Parser} (hrules : p.rules = .standard) (nt : Nonterminal)
    (hlevels : ∀ error q limit, expression nt.power p = .error error q →
      error.fault ≠ .nestingTooDeep limit) :
    (∀ e q, expression nt.power p = .ok e q → descend nt p = .ok e q ∧
      ∀ kind power, q.currentKind? = some kind → q.rules.power kind = some power →
        power.rank ≤ nt.power.rank) ∧
    (∀ error q, expression nt.power p = .error error q →
      descend nt p = .error error { q with depth := p.depth }) := by
  have hlt : p.depth < p.limit := by
    rcases Nat.lt_or_ge p.depth p.limit with hlt | hge
    · exact hlt
    · exact absurd rfl (hlevels _ _ _ (expression_of_limit_le hge _))
  have hp : Ready p.room p := ⟨hrules, Nat.le_of_eq (Nat.add_sub_of_le (Nat.le_of_lt hlt))⟩
  have htracks := follows_expr p.room p.depth 0 nt p p hp ⟨rfl, rfl⟩
  constructor
  · intro e q h
    obtain ⟨⟨d, -, hd⟩, hstops⟩ := (reads_expr p.room nt hp).mp h
    rw [expression] at h
    rw [h] at htracks
    generalize descend nt p = r at htracks ⊢
    cases htracks with
    | ok hstates =>
      refine ⟨?_, fun kind power hkind hpower => ?_⟩
      · rw [hstates.2, ← hd.moves.depth]
      · have hle := hstops kind hkind
        rwa [← Rules.standard_power_getD, ← hrules, ← hd.moves.rules, hpower,
          Option.getD_some] at hle
    | spent hextra => exact absurd hextra (Nat.lt_irrefl 0)
  · intro error q h
    have hfault := hlevels error q
    rw [expression] at h hfault
    rw [h] at htracks
    generalize descend nt p = r at htracks ⊢
    cases htracks with
    | error herrors => rw [herrors.1, herrors.2]
    | waived hwaives =>
      obtain ⟨limit, hlimit⟩ := hwaives
      exact absurd hlimit (hfault limit h)

/-- Inside five open levels a comparison is read up to its semicolon. -/
theorem expression_eq_descend_of_comparison :
    ∃ ts e q, tokenize "a + 2 * (b - 3) < c;" defaultFile = .ok ts ∧
      expression .lowest { start .standard maxNesting ts with depth := 5 } = .ok e q ∧
      descend .expr { start .standard maxNesting ts with depth := 5 } = .ok e q := by
  have hok : (tokenize "a + 2 * (b - 3) < c;" defaultFile).isOk := by decide +kernel
  obtain ⟨ts, hts⟩ := Result.exists_of_isOk hok
  have hread : (tokenize "a + 2 * (b - 3) < c;" defaultFile).toOption.all (fun ts =>
      match expression .lowest { start .standard maxNesting ts with depth := 5 } with
      | .ok _ _ => true
      | .error _ _ => false) = true := by decide +kernel
  rw [hts, Except.toOption, Option.all_some] at hread
  cases h : expression .lowest { start .standard maxNesting ts with depth := 5 } with
  | ok e q =>
    have hlevels : ∀ error q limit,
        expression Nonterminal.expr.power { start .standard maxNesting ts with depth := 5 } =
          .error error q → error.fault ≠ .nestingTooDeep limit := by
      intro error q' limit herror
      rw [Nonterminal.power, h] at herror
      cases herror
    exact ⟨ts, e, q, hts, h, ((expression_eq_descend rfl .expr hlevels).1 e q h).1⟩
  | error error q =>
    rw [h] at hread
    cases hread

end Parser

end BlockLang
