import BlockLang.Proofs.Grammar.Derivation
import BlockLang.Proofs.Grammar.Moves

/-! # Reading phrases — expressions come from derivations

  By the rules of the language, reading an expression for the power of a
  nonterminal succeeds exactly when a phrase of that nonterminal stands at the
  front of the tokens, its texts can be read, its levels fit into the room
  that is left, and no operator that binds more tightly comes behind it.  The
  expression is then that of the phrase.

  A phrase is derived from the left, and operators are read from the left, so
  both directions follow the operators one by one: behind a left side that is
  a phrase, one operator and its right side give a longer phrase. -/

namespace BlockLang

open Grammar

/-! ### Powers and nonterminals -/

/-- The power that all operators outside a phrase of the nonterminal have at
    most. -/
def Grammar.Nonterminal.power : Nonterminal → Power
  | factor => .multiplicative
  | term => .additive
  | expr => .lowest

theorem Grammar.Nonterminal.exists_power_eq (power : Power) :
    ∃ nt : Nonterminal, nt.power = power := by
  cases power
  · exact ⟨.expr, rfl⟩
  · exact ⟨.term, rfl⟩
  · exact ⟨.factor, rfl⟩

/-- The power of a kind of token, the lowest if it joins nothing. -/
def Kind.power (kind : Kind) : Power := (Rules.standardPower? kind).getD .lowest

theorem Power.rank_le_two (power : Power) : power.rank ≤ 2 := by
  cases power <;> decide

theorem Grammar.productOperator?_eq_some_iff {kind : Kind} {operator : Operator} :
    productOperator? kind = some operator ↔
      Operator.ofKind? kind = some operator ∧ Rules.standardPower? kind = some .multiplicative := by
  cases kind <;> simp [productOperator?, Operator.ofKind?, Rules.standardPower?]

theorem Grammar.sumOperator?_eq_some_iff {kind : Kind} {operator : Operator} :
    sumOperator? kind = some operator ↔
      Operator.ofKind? kind = some operator ∧ Rules.standardPower? kind = some .additive := by
  cases kind <;> simp [sumOperator?, Operator.ofKind?, Rules.standardPower?]

theorem Rules.standard_power_getD (kind : Kind) :
    (Rules.standard.power kind).getD .lowest = kind.power := by
  cases kind <;> rfl

/-- A kind of some rank joins operands. -/
theorem Rules.standard_joins {kind : Kind} (h : 0 < kind.power.rank) :
    Rules.standard.joins kind = true := by
  cases kind <;> first | rfl | exact absurd h (by decide)

/-- Behind a factor or a term the operators of products come first. -/
theorem Grammar.exists_productOperator? {kind : Kind} (h : kind.power.rank = 2) :
    ∃ operator, productOperator? kind = some operator := by
  cases kind <;> first | exact ⟨_, rfl⟩ | exact absurd h (by decide)

theorem Grammar.exists_sumOperator? {kind : Kind} (h : kind.power.rank = 1) :
    ∃ operator, sumOperator? kind = some operator := by
  cases kind <;> first | exact ⟨_, rfl⟩ | exact absurd h (by decide)

theorem Grammar.Sign.readable {table : Kind → Option Operator}
    (htable : ∀ {kind operator}, table kind = some operator →
      Operator.ofKind? kind = some operator) (sign : Sign table) : sign.token.Readable := by
  have h := htable sign.spells
  unfold Token.Readable
  split <;> simp_all [Operator.ofKind?]

theorem Grammar.Sign.product_power (sign : Sign productOperator?) :
    sign.token.kind.power = .multiplicative := by
  rw [Kind.power, (productOperator?_eq_some_iff.mp sign.spells).2]
  rfl

theorem Grammar.Sign.sum_power (sign : Sign sumOperator?) :
    sign.token.kind.power = .additive := by
  rw [Kind.power, (sumOperator?_eq_some_iff.mp sign.spells).2]
  rfl

namespace Parser

variable {p q r : Parser} {e left right : Expr} {room : Nat} {nt : Nonterminal}
  {inner : Power → Parse Expr} {ts : List Token} {n : Nat}

/-! ### What a reader does -/

/-- No operator that comes next binds more tightly than those outside a phrase
    of the nonterminal. -/
def Stops (nt : Nonterminal) (q : Parser) : Prop :=
  ∀ kind, q.currentKind? = some kind → kind.power.rank ≤ nt.power.rank

/-- Between `p` and `q` stands a phrase that takes less than `room` levels and
    whose texts can be read. -/
structure Spans (room : Nat) (p : Parser) (d : Phrase nt) (q : Parser) : Prop where
  levels : d.levels < room
  readable : ∀ t ∈ d.tokens, t.Readable
  moves : Moves p q d.tokens d.size

/-- Between `p` and `q` stands a phrase of the expression `e`. -/
def ReadsPhrase (nt : Nonterminal) (room : Nat) (p : Parser) (e : Expr) (q : Parser) : Prop :=
  ∃ d : Phrase nt, e = d.expr p.nextId ∧ Spans room p d q

/-- The parser follows the rules of the language and has `room` levels left. -/
structure Ready (room : Nat) (p : Parser) : Prop where
  rules : p.rules = .standard
  depth : p.depth + room ≤ p.limit

/-- The reader gives the phrases that take less than `room` levels. -/
def Reads (room : Nat) (inner : Power → Parse Expr) : Prop :=
  ∀ nt {p e q}, Ready room p → (inner nt.power p = .ok e q ↔ ReadsPhrase nt room p e q ∧ Stops nt q)

theorem Ready.moves (h : Ready room p) (hm : Moves p q ts n) : Ready room q :=
  ⟨hm.rules.trans h.rules, by rw [hm.depth, hm.limit]; exact h.depth⟩

theorem Ready.enterLevel (h : Ready (room + 1) p) :
    Ready room { p with depth := p.depth + 1 } :=
  ⟨h.rules, by have := h.depth; simp only; omega⟩

/-- Nothing binds more tightly than the operators of a term. -/
theorem stops_factor (q : Parser) : Stops .factor q := fun kind _ => kind.power.rank_le_two

theorem stops_of_rest_eq_nil (h : q.rest = []) : Stops nt q := by
  intro kind hkind
  rw [currentKind?_of_nil h] at hkind
  cases hkind

theorem stops_or_operator (nt : Nonterminal) (q : Parser) :
    Stops nt q ∨ ∃ kind, q.currentKind? = some kind ∧ nt.power.rank < kind.power.rank := by
  cases hkind : q.currentKind? with
  | none => exact .inl (by intro kind hsome; rw [hkind] at hsome; cases hsome)
  | some kind =>
    by_cases hle : kind.power.rank ≤ nt.power.rank
    · refine .inl fun kind' hsome => ?_
      rw [hkind] at hsome
      cases hsome
      exact hle
    · exact .inr ⟨kind, rfl, Nat.not_le.mp hle⟩

/-! ### Factors -/

/-- A token is an operand of its own when it is a leaf that can be read. -/
theorem leafOf_eq_ok_iff {token : Token} {id : NodeId} :
    leafOf token id = .ok e ↔
      ∃ leaf : Leaf, leaf.token = token ∧ token.Readable ∧ e = leaf.expr ⟨id, token.span⟩ := by
  constructor
  · intro h
    unfold leafOf at h
    -- By the kind of the token.  Numbers need a value, the others are what they spell.
    split at h
    · rename_i hkind
      split at h
      · rename_i value hvalue
        cases h
        refine ⟨.integer ⟨token, hkind⟩, rfl, ?_, ?_⟩
        · simp [Token.Readable, hkind, hvalue]
        · simp [Leaf.expr, hvalue]
      · cases h
    · rename_i hkind
      split at h
      · rename_i value hvalue
        cases h
        refine ⟨.float ⟨token, hkind⟩, rfl, ?_, ?_⟩
        · simp [Token.Readable, hkind, hvalue]
        · simp [Leaf.expr, hvalue]
      · cases h
    · rename_i hkind
      cases h
      exact ⟨.boolean ⟨token, hkind⟩, rfl, by simp [Token.Readable, hkind], rfl⟩
    · rename_i hkind
      cases h
      exact ⟨.string ⟨token, hkind⟩, rfl, by simp [Token.Readable, hkind], rfl⟩
    · rename_i hkind
      cases h
      exact ⟨.identifier ⟨token, hkind⟩, rfl, by simp [Token.Readable, hkind], rfl⟩
    · cases h
  · intro h
    obtain ⟨leaf, rfl, hread, rfl⟩ := h
    cases leaf with
    | integer token =>
      obtain ⟨token, hkind⟩ := token
      simp only [Leaf.token, Token.Readable, hkind] at hread
      obtain ⟨value, hvalue⟩ := Option.isSome_iff_exists.mp hread
      simp [leafOf, Leaf.token, Leaf.expr, hkind, hvalue]
    | float token =>
      obtain ⟨token, hkind⟩ := token
      simp only [Leaf.token, Token.Readable, hkind] at hread
      obtain ⟨value, hvalue⟩ := Option.isSome_iff_exists.mp hread
      simp [leafOf, Leaf.token, Leaf.expr, hkind, hvalue]
    | boolean token => simp only [leafOf, Leaf.token, token.2]; rfl
    | string token => simp only [leafOf, Leaf.token, token.2]; rfl
    | identifier token => simp only [leafOf, Leaf.token, token.2]; rfl

theorem primary_eq_ok_iff :
    primary p = .ok e q ↔
      ∃ leaf : Leaf, leaf.token.Readable ∧ e = leaf.expr ⟨p.nextId, leaf.token.span⟩ ∧
        Moves p q [leaf.token] 1 := by
  simp only [primary, bind_eq_ok_iff, advance_iff_moves, freshId_iff_moves]
  constructor
  · intro h
    obtain ⟨token, p₁, h₁, id, p₂, ⟨rfl, h₂⟩, h⟩ := h
    cases hleaf : leafOf token p₁.nextId with
    | error error => exact absurd (hleaf ▸ h) throw_ne_ok
    | ok e' =>
      rw [hleaf] at h
      obtain ⟨rfl, rfl⟩ := pure_eq_ok_iff.mp h
      obtain ⟨leaf, rfl, hread, rfl⟩ := leafOf_eq_ok_iff.mp hleaf
      exact ⟨leaf, hread, by rw [h₁.nextId]; rfl, h₁.trans h₂⟩
  · intro h
    obtain ⟨leaf, hread, rfl, h⟩ := h
    obtain ⟨p₁, h₁, h₂⟩ : ∃ p₁, Moves p p₁ [leaf.token] 0 ∧ Moves p₁ q [] 1 :=
      Moves.split (by simpa using h)
    refine ⟨leaf.token, p₁, h₁, p₁.nextId, q, ⟨rfl, h₂⟩, ?_⟩
    rw [leafOf_eq_ok_iff.mpr ⟨leaf, rfl, hread, rfl⟩, h₁.nextId]
    rfl

theorem grouping_eq_ok_iff (hinner : Reads room inner) (hp : Ready room p) :
    grouping inner p = .ok e q ↔
      ∃ (opening : TokenOf .openParen) (d : Phrase .expr) (closing : TokenOf .closeParen),
        d.levels < room ∧ (∀ t ∈ d.tokens, t.Readable) ∧ e = d.expr p.nextId ∧
          Moves p q (opening.1 :: (d.tokens ++ [closing.1])) d.size := by
  simp only [grouping, monadLift_self, bind_eq_ok_iff, pure_eq_ok_iff, expect_iff_moves]
  constructor
  · intro h
    obtain ⟨opening, p₁, ⟨hopen, h₁⟩, e', p₂, he, closing, p₃, ⟨hclose, h₃⟩, rfl, rfl⟩ := h
    obtain ⟨⟨d, rfl, hlev, hread, h₂⟩, -⟩ := (hinner .expr (hp.moves h₁)).mp he
    refine ⟨⟨opening, hopen⟩, d, ⟨closing, hclose⟩, hlev, hread, by rw [h₁.nextId]; rfl, ?_⟩
    simpa using h₁.trans (h₂.trans h₃)
  · intro h
    obtain ⟨opening, d, closing, hlev, hread, rfl, h⟩ := h
    obtain ⟨p₁, h₁, h⟩ : ∃ p₁, Moves p p₁ [opening.1] 0 ∧
        Moves p₁ q (d.tokens ++ [closing.1]) (d.size + 0) := Moves.split (by simpa using h)
    obtain ⟨p₂, h₂, h₃⟩ := h.split
    refine ⟨opening.1, p₁, ⟨opening.2, h₁⟩, d.expr p.nextId, p₂, ?_, closing.1, q,
      ⟨closing.2, h₃⟩, rfl, rfl⟩
    refine (hinner .expr (hp.moves h₁)).mpr ⟨⟨d, ?_, hlev, hread, h₂⟩, ?_⟩
    · rw [h₁.nextId]
      rfl
    · -- A closing parenthesis is no operator.
      intro kind hkind
      rw [h₃.currentKind?_eq, closing.2] at hkind
      cases hkind
      decide

/-- Operands are the factors of the grammar. -/
theorem operand_eq_ok_iff (hinner : Reads room inner) (hp : Ready room p) :
    operand inner p = .ok e q ↔ ReadsPhrase .factor (room + 1) p e q := by
  simp only [operand, monadLift_self, bind_eq_ok_iff, get_eq_ok_iff]
  constructor
  · intro h
    obtain ⟨_, _, ⟨rfl, rfl⟩, h⟩ := h
    -- The current token selects one of two rules, or none.
    match hrule : p.currentKind?.bind p.rules.operand with
    | some .primary =>
      rw [hrule] at h
      obtain ⟨leaf, hread, rfl, hm⟩ := primary_eq_ok_iff.mp h
      exact ⟨.leaf leaf, rfl, Nat.succ_pos _, by simpa [Phrase.tokens] using hread, hm⟩
    | some .grouping =>
      rw [hrule] at h
      obtain ⟨opening, d, closing, hlev, hread, rfl, hm⟩ := (grouping_eq_ok_iff hinner hp).mp h
      refine ⟨.parens opening d closing, rfl, Nat.succ_lt_succ hlev, ?_, hm⟩
      have hopen : opening.1.Readable := by simp [Token.Readable, opening.2]
      have hclose : closing.1.Readable := by simp [Token.Readable, closing.2]
      simp only [Phrase.tokens, List.mem_cons, List.mem_append, List.not_mem_nil, or_false]
      rintro t (rfl | ht | rfl)
      · exact hopen
      · exact hread t ht
      · exact hclose
    | none =>
      rw [hrule] at h
      exact absurd h fail_ne_ok
  · intro h
    obtain ⟨d, rfl, hlev, hread, hm⟩ := h
    refine ⟨p, p, ⟨rfl, rfl⟩, ?_⟩
    -- The first token of a factor tells which of the two rules it is read by.
    cases d with
    | leaf leaf =>
      have hrule : p.currentKind?.bind p.rules.operand = some .primary := by
        rw [hm.currentKind?_eq, hp.rules]
        obtain ⟨token, hkind⟩ | ⟨token, hkind⟩ | ⟨token, hkind⟩ | ⟨token, hkind⟩ |
          ⟨token, hkind⟩ := leaf <;> simp only [Leaf.token, hkind] <;> rfl
      rw [hrule]
      exact primary_eq_ok_iff.mpr ⟨leaf, hread _ (List.mem_singleton.mpr rfl), rfl, hm⟩
    | parens opening inner closing =>
      have hrule : p.currentKind?.bind p.rules.operand = some .grouping := by
        rw [hm.currentKind?_eq, hp.rules, opening.2]
        rfl
      rw [hrule]
      refine (grouping_eq_ok_iff hinner hp).mpr
        ⟨opening, inner, closing, Nat.lt_of_succ_lt_succ hlev, ?_, rfl, hm⟩
      exact fun t ht => hread t (by simp [Phrase.tokens, ht])

/-! ### Operators -/

theorem binary_eq_ok_iff {power : Power} :
    binary inner left power p = .ok e q ↔
      ∃ token operator right p₁ p₂, Operator.ofKind? token.kind = some operator ∧
        Moves p p₁ [token] 0 ∧ inner power p₁ = .ok right p₂ ∧
          e = Phrase.join left operator right p₂.nextId ∧ Moves p₂ q [] 1 := by
  simp only [binary, monadLift_self, bind_eq_ok_iff, advance_iff_moves]
  constructor
  · intro h
    obtain ⟨token, p₁, h₁, h⟩ := h
    cases hop : Operator.ofKind? token.kind with
    | none =>
      rw [hop] at h
      exact absurd h throw_ne_ok
    | some operator =>
      rw [hop] at h
      simp only [bind_eq_ok_iff, pure_eq_ok_iff, freshId_iff_moves] at h
      obtain ⟨right, p₂, hright, id, p₃, ⟨rfl, h₂⟩, rfl, rfl⟩ := h
      exact ⟨token, operator, right, p₁, p₂, hop, h₁, hright, rfl, h₂⟩
  · intro h
    obtain ⟨token, operator, right, p₁, p₂, hop, h₁, hright, rfl, h₂⟩ := h
    refine ⟨token, p₁, h₁, ?_⟩
    rw [hop]
    simp only [bind_eq_ok_iff, pure_eq_ok_iff, freshId_iff_moves]
    exact ⟨right, p₂, hright, _, q, ⟨rfl, h₂⟩, rfl, rfl⟩

/-- An operator and its right side take one token at least. -/
theorem length_rest_of_binary (hinner : Reads room inner) (hp : Ready room p) {power : Power}
    (h : binary inner left power p = .ok e q) : q.rest.length < p.rest.length := by
  obtain ⟨token, operator, right, p₁, p₂, -, h₁, hright, -, h₂⟩ := binary_eq_ok_iff.mp h
  obtain ⟨nt, rfl⟩ := Nonterminal.exists_power_eq power
  obtain ⟨⟨d, -, -, -, hm⟩, -⟩ := (hinner _ (hp.moves h₁)).mp hright
  have hlen₁ := h₁.length_rest
  have hlen := hm.length_rest
  have hlen₂ := h₂.length_rest
  simp only [List.length_cons, List.length_nil] at hlen₁ hlen₂
  omega

/-- An operator and its right side are a token and a phrase, and behind them
    stands nothing that the phrase could go on with. -/
theorem exists_phrase_of_binary (hinner : Reads room inner) (hp : Ready room p)
    (h : binary inner left nt.power p = .ok e q) :
    ∃ (sign : Token) (d : Phrase nt) (ids : Nat), d.levels < room ∧
      (∀ t ∈ d.tokens, t.Readable) ∧ Moves p q (sign :: d.tokens) ids ∧ Stops nt q := by
  obtain ⟨sign, operator, right, p₁, p₂, -, h₁, hright, -, h₂⟩ := binary_eq_ok_iff.mp h
  obtain ⟨⟨d, -, hlev, hread, hm⟩, hstops⟩ := (hinner nt (hp.moves h₁)).mp hright
  refine ⟨sign, d, _, hlev, hread, by simpa using h₁.trans (hm.trans h₂), ?_⟩
  intro kind hkind
  exact hstops kind (by rwa [currentKind?, current?, h₂.rest])

/-- Where no operator is tight enough, the left side is all there is. -/
theorem climb_of_stops (hrules : p.rules = .standard) (h : Stops nt p) (ahead : List Token) :
    climb inner nt.power ahead left p = .ok left p := by
  cases ahead with
  | nil => rfl
  | cons token ahead =>
    rw [climb, climbRound, lift_get_bind]
    cases hkind : p.currentKind? with
    | none => rfl
    | some kind =>
      simp only [hrules, Rules.standard_power_getD]
      rw [if_pos (h kind hkind)]
      rfl

/-- Where no tokens are left the left side is all there is. -/
theorem climb_of_rest_eq_nil (h : p.rest = []) (power : Power) (ahead : List Token) :
    climb inner power ahead left p = .ok left p := by
  cases ahead with
  | nil => rfl
  | cons token ahead =>
    rw [climb, climbRound, lift_get_bind, currentKind?_of_nil h]
    rfl

/-- Where an operator is tight enough, it is read together with its right
    side, and reading goes on behind them. -/
theorem climb_of_operator (hrules : p.rules = .standard) {kind : Kind} {power : Power}
    (hkind : p.currentKind? = some kind) (hlt : power.rank < kind.power.rank) (token : Token)
    (ahead : List Token) :
    climb inner power (token :: ahead) left p =
      (binary inner left kind.power >>= climb inner power ahead) p := by
  rw [climb, climbRound, lift_get_bind, hkind]
  simp only [hrules, Rules.standard_power_getD]
  rw [if_neg (Nat.not_le.mpr hlt), if_pos (Rules.standard_joins (Nat.zero_lt_of_lt hlt))]

/-- How many rounds are allowed does not matter as long as there are as many
    as tokens. -/
theorem climb_ahead (hinner : Reads room inner) (hp : Ready room p) {power : Power}
    {ahead ahead' : List Token} (h : p.rest.length ≤ ahead.length)
    (h' : p.rest.length ≤ ahead'.length) :
    climb inner power ahead left p = climb inner power ahead' left p := by
  obtain ⟨nt, rfl⟩ := Nonterminal.exists_power_eq power
  -- On the rounds that one side has left.  Each round reads a token, so both sides
  -- make the same rounds.
  induction ahead generalizing ahead' left p with
  | nil =>
    have hstops : Stops nt p := stops_of_rest_eq_nil (List.length_eq_zero_iff.mp (by simpa using h))
    rw [climb_of_stops hp.rules hstops, climb_of_stops hp.rules hstops]
  | cons token ahead ih =>
    rcases stops_or_operator nt p with hstops | ⟨kind, hkind, hlt⟩
    · rw [climb_of_stops hp.rules hstops, climb_of_stops hp.rules hstops]
    · obtain ⟨token', ahead', rfl⟩ := exists_cons_of_currentKind? hkind h'
      rw [climb_of_operator hp.rules hkind hlt, climb_of_operator hp.rules hkind hlt]
      simp only [bind, EStateM.bind]
      cases hjoined : binary inner left kind.power p with
      | error error q => rfl
      | ok joined q =>
        have hlen := length_rest_of_binary hinner hp hjoined
        -- The parser behind the right side has as much room as before.
        obtain ⟨nt', hnt'⟩ := Nonterminal.exists_power_eq kind.power
        rw [← hnt'] at hjoined
        obtain ⟨sign, d, ids, -, -, hm, -⟩ := exists_phrase_of_binary hinner hp hjoined
        simp only [List.length_cons] at h h'
        exact ih (hp.moves hm) (by omega) (by omega)

/-! ### Joined phrases -/

/-- A phrase that joins two others stands where the left one stands, then the
    sign, then the right one; the node of the operator is numbered last. -/
theorem spans_joined_iff {ntl ntr : Nonterminal} {l : Phrase ntl} {r : Phrase ntr}
    {joined : Phrase nt} {sign : Token} (hsign : sign.Readable)
    (htokens : joined.tokens = l.tokens ++ sign :: r.tokens)
    (hlevels : joined.levels = max l.levels (r.levels + 1))
    (hsize : joined.size = l.size + r.size + 1) :
    Spans (room + 1) p joined q ↔
      ∃ p₁ p₂ p₃, Spans (room + 1) p l p₁ ∧ Moves p₁ p₂ [sign] 0 ∧ Spans room p₂ r p₃ ∧
        Moves p₃ q [] 1 := by
  constructor
  · intro h
    obtain ⟨hlev, hread, hm⟩ := h
    rw [hlevels] at hlev
    rw [htokens] at hread
    -- The node of the operator is numbered behind both sides, so the move over the
    -- tokens comes apart into four.
    obtain ⟨p₁, h₁, h⟩ : ∃ p₁, Moves p p₁ l.tokens l.size ∧
        Moves p₁ q ([sign] ++ (r.tokens ++ [])) (0 + (r.size + 1)) :=
      Moves.split (by simpa [htokens, hsize, Nat.add_assoc] using hm)
    obtain ⟨p₂, h₂, h⟩ := h.split
    obtain ⟨p₃, h₃, h₄⟩ := h.split
    refine ⟨p₁, p₂, p₃, ⟨by omega, fun t ht => hread t (by simp [ht]), h₁⟩, h₂,
      ⟨by omega, fun t ht => hread t (by simp [ht]), h₃⟩, h₄⟩
  · intro h
    obtain ⟨p₁, p₂, p₃, hl, h₂, hr, h₄⟩ := h
    refine ⟨?_, ?_, ?_⟩
    · have := hl.levels
      have := hr.levels
      omega
    · intro t ht
      rw [htokens, List.mem_append, List.mem_cons] at ht
      rcases ht with ht | rfl | ht
      · exact hl.readable t ht
      · exact hsign
      · exact hr.readable t ht
    · rw [htokens, hsize]
      simpa [Nat.add_assoc] using hl.moves.trans (h₂.trans (hr.moves.trans h₄))

theorem spans_product_iff {l : Phrase .term} {sign : Sign productOperator?}
    {r : Phrase .factor} :
    Spans (room + 1) p (.product l sign r) q ↔
      ∃ p₁ p₂ p₃, Spans (room + 1) p l p₁ ∧ Moves p₁ p₂ [sign.token] 0 ∧ Spans room p₂ r p₃ ∧
        Moves p₃ q [] 1 :=
  spans_joined_iff (sign.readable fun h => (productOperator?_eq_some_iff.mp h).1) rfl rfl rfl

theorem spans_sum_iff {l : Phrase .expr} {sign : Sign sumOperator?} {r : Phrase .term} :
    Spans (room + 1) p (.sum l sign r) q ↔
      ∃ p₁ p₂ p₃, Spans (room + 1) p l p₁ ∧ Moves p₁ p₂ [sign.token] 0 ∧ Spans room p₂ r p₃ ∧
        Moves p₃ q [] 1 :=
  spans_joined_iff (sign.readable fun h => (sumOperator?_eq_some_iff.mp h).1) rfl rfl rfl

/-! ### From phrases to readings -/

theorem level_eq_bind {power : Power} :
    level inner power =
      operand inner >>= fun left => get >>= fun q => climb inner power q.rest left := rfl

/-- Behind a left side, a sign and its right side are read as one operator. -/
theorem climb_joined (hinner : Reads room inner) {p₁ p₂ p₃ : Parser} (hp : Ready room p₁)
    {power : Power} {sign : Token} {operator : Operator}
    (hop : Operator.ofKind? sign.kind = some operator)
    (htight : power.rank < sign.kind.power.rank) (h₁ : Moves p₁ p₂ [sign] 0)
    (hright : inner sign.kind.power p₂ = .ok right p₃) (hm : Moves p₂ p₃ ts n)
    (h₃ : Moves p₃ q [] 1) :
    climb inner power p₁.rest left p₁ =
      climb inner power q.rest (Phrase.join left operator right p₃.nextId) q := by
  have hjoined : binary inner left sign.kind.power p₁ =
      .ok (Phrase.join left operator right p₃.nextId) q :=
    binary_eq_ok_iff.mpr ⟨sign, operator, right, p₂, p₃, hop, h₁, hright, rfl, h₃⟩
  have hq : Ready room q := ((hp.moves h₁).moves hm).moves h₃
  have hlen := length_rest_of_binary hinner hp hjoined
  have hrest : p₁.rest = sign :: p₂.rest := h₁.rest
  rw [hrest, climb_of_operator hp.rules h₁.currentKind?_eq htight, bind_of_ok hjoined]
  rw [hrest, List.length_cons] at hlen
  exact climb_ahead hinner hq (Nat.le_of_lt_succ hlen) (Nat.le_refl _)

theorem level_of_factor (hinner : Reads room inner) (hp : Ready room p) {power : Power}
    {d : Phrase .factor} (hd : Spans (room + 1) p d q) :
    level inner power p = climb inner power q.rest (d.expr p.nextId) q := by
  have hoperand := (operand_eq_ok_iff hinner hp).mpr ⟨d, rfl, hd⟩
  rw [level_eq_bind, bind_of_ok hoperand, get_bind]

/-- A phrase at the front of the tokens is read as the left side of whatever
    comes behind it. -/
theorem level_of_spans (hinner : Reads room inner) (hp : Ready room p) {power : Power}
    (d : Phrase nt) (hpower : power.rank ≤ nt.power.rank) (hd : Spans (room + 1) p d q)
    (hstops : nt = .expr → Stops .term q) :
    level inner power p = climb inner power q.rest (d.expr p.nextId) q := by
  -- On the phrase.  What stands to the left of a sign has been read when the sign
  -- comes, so only the hypothesis on the left part is used; the right part is read
  -- by the reader for what is inside.
  induction d generalizing q with
  | leaf l => exact level_of_factor hinner hp hd
  | parens opening d closing => exact level_of_factor hinner hp hd
  | ofFactor f ih =>
    exact ih (Nat.le_trans hpower (by decide)) ⟨hd.levels, hd.readable, hd.moves⟩ nofun
  | product l sign r ihl _ =>
    obtain ⟨p₁, p₂, p₃, hl, h₁, hr, h₃⟩ := spans_product_iff.mp hd
    have hp₁ : Ready room p₁ := hp.moves hl.moves
    have hright : inner sign.token.kind.power p₂ = .ok (r.expr p₂.nextId) p₃ := by
      rw [sign.product_power]
      exact (hinner .factor (hp₁.moves h₁)).mpr ⟨⟨r, rfl, hr⟩, stops_factor p₃⟩
    have htight : power.rank < sign.token.kind.power.rank := by
      rw [sign.product_power]
      exact Nat.lt_of_le_of_lt hpower (by decide)
    rw [ihl hpower hl nofun, climb_joined hinner hp₁
      (productOperator?_eq_some_iff.mp sign.spells).1 htight h₁ hright hr.moves h₃]
    rw [Phrase.expr, h₁.nextId, hl.moves.nextId, hr.moves.nextId, h₁.nextId, hl.moves.nextId]
    rfl
  | ofTerm t ih =>
    exact ih (Nat.le_trans hpower (by decide)) ⟨hd.levels, hd.readable, hd.moves⟩ nofun
  | sum l sign r ihl _ =>
    obtain ⟨p₁, p₂, p₃, hl, h₁, hr, h₃⟩ := spans_sum_iff.mp hd
    have hp₁ : Ready room p₁ := hp.moves hl.moves
    -- The sign is loose enough to end the left side.
    have hstops₁ : Stops .term p₁ := by
      intro kind hkind
      rw [h₁.currentKind?_eq] at hkind
      cases hkind
      rw [sign.sum_power]
      exact Nat.le_refl _
    have hstops₃ : Stops .term p₃ := by
      intro kind hkind
      exact hstops rfl kind (by rwa [currentKind?, current?, h₃.rest] at hkind)
    have hright : inner sign.token.kind.power p₂ = .ok (r.expr p₂.nextId) p₃ := by
      rw [sign.sum_power]
      exact (hinner .term (hp₁.moves h₁)).mpr ⟨⟨r, rfl, hr⟩, hstops₃⟩
    have htight : power.rank < sign.token.kind.power.rank := by
      rw [sign.sum_power]
      exact Nat.lt_of_le_of_lt hpower (by decide)
    rw [ihl hpower hl fun _ => hstops₁, climb_joined hinner hp₁
      (sumOperator?_eq_some_iff.mp sign.spells).1 htight h₁ hright hr.moves h₃]
    rw [Phrase.expr, h₁.nextId, hl.moves.nextId, hr.moves.nextId, h₁.nextId, hl.moves.nextId]
    rfl

/-! ### From readings to phrases -/

/-- An operator that is read behind a term joins a factor to it. -/
theorem binary_of_term {p₀ : Parser} (hinner : Reads room inner) (hp : Ready room p)
    {d : Phrase .term} (hd : Spans (room + 1) p₀ d p) {kind : Kind}
    (hkind : p.currentKind? = some kind) (hpower : kind.power = .multiplicative)
    (h : binary inner (d.expr p₀.nextId) kind.power p = .ok e q) :
    ∃ d' : Phrase .term, e = d'.expr p₀.nextId ∧ Spans (room + 1) p₀ d' q := by
  obtain ⟨token, operator, right, p₁, p₂, hop, h₁, hright, rfl, h₂⟩ := binary_eq_ok_iff.mp h
  obtain rfl : token.kind = kind := by rwa [h₁.currentKind?_eq, Option.some.injEq] at hkind
  rw [hpower] at hright
  obtain ⟨⟨r, rfl, hr⟩, -⟩ := (hinner .factor (hp.moves h₁)).mp hright
  obtain ⟨operator', hspells⟩ := exists_productOperator? (by rw [hpower]; rfl)
  obtain rfl : operator' = operator :=
    Option.some.inj ((productOperator?_eq_some_iff.mp hspells).1.symm.trans hop)
  refine ⟨.product d ⟨token, operator', hspells⟩ r, ?_,
    spans_product_iff.mpr ⟨p, p₁, p₂, hd, h₁, hr, h₂⟩⟩
  rw [Phrase.expr, hr.moves.nextId, h₁.nextId, hd.moves.nextId]
  rfl

/-- An operator that is read behind an expression joins a term to it. -/
theorem binary_of_expr {p₀ : Parser} (hinner : Reads room inner) (hp : Ready room p)
    {d : Phrase .expr} (hd : Spans (room + 1) p₀ d p) {kind : Kind}
    (hkind : p.currentKind? = some kind) (hpower : kind.power = .additive)
    (h : binary inner (d.expr p₀.nextId) kind.power p = .ok e q) :
    ∃ d' : Phrase .expr, e = d'.expr p₀.nextId ∧ Spans (room + 1) p₀ d' q ∧ Stops .term q := by
  obtain ⟨token, operator, right, p₁, p₂, hop, h₁, hright, rfl, h₂⟩ := binary_eq_ok_iff.mp h
  obtain rfl : token.kind = kind := by rwa [h₁.currentKind?_eq, Option.some.injEq] at hkind
  rw [hpower] at hright
  obtain ⟨⟨r, rfl, hr⟩, hstops⟩ := (hinner .term (hp.moves h₁)).mp hright
  obtain ⟨operator', hspells⟩ := exists_sumOperator? (by rw [hpower]; rfl)
  obtain rfl : operator' = operator :=
    Option.some.inj ((sumOperator?_eq_some_iff.mp hspells).1.symm.trans hop)
  refine ⟨.sum d ⟨token, operator', hspells⟩ r, ?_,
    spans_sum_iff.mpr ⟨p, p₁, p₂, hd, h₁, hr, h₂⟩, ?_⟩
  · rw [Phrase.expr, hr.moves.nextId, h₁.nextId, hd.moves.nextId]
    rfl
  · intro kind hkind
    exact hstops kind (by rwa [currentKind?, current?, h₂.rest])

/-- Behind a term all operators of products are read first, and they make a
    longer term. -/
theorem exists_term_of_climb {p₀ : Parser} (hinner : Reads room inner) (hp₀ : Ready room p₀)
    {power : Power} (hpower : power.rank ≤ 1) {ahead : List Token} {d : Phrase .term}
    (hd : Spans (room + 1) p₀ d p) (hahead : p.rest.length ≤ ahead.length)
    (h : climb inner power ahead (d.expr p₀.nextId) p = .ok e q) :
    ∃ (d' : Phrase .term) (r : Parser), Spans (room + 1) p₀ d' r ∧ Stops .term r ∧
      climb inner power r.rest (d'.expr p₀.nextId) r = .ok e q := by
  -- On the rounds left.  `d` is the term that has been read so far; each round adds a
  -- factor to it.
  induction ahead generalizing d p with
  | nil =>
    have hrest : p.rest = [] := List.length_eq_zero_iff.mp (by simpa using hahead)
    exact ⟨d, p, hd, stops_of_rest_eq_nil hrest, by rwa [hrest]⟩
  | cons token ahead ih =>
    have hp : Ready room p := hp₀.moves hd.moves
    rcases stops_or_operator .term p with hstops | ⟨kind, hkind, hlt⟩
    · exact ⟨d, p, hd, hstops, by rwa [climb_ahead hinner hp (Nat.le_refl _) hahead]⟩
    · have hpower₂ : kind.power = .multiplicative := by
        cases hk : kind.power <;> simp_all [Nonterminal.power, Power.rank]
      rw [climb_of_operator hp.rules hkind (Nat.lt_of_le_of_lt hpower hlt), bind_eq_ok_iff] at h
      obtain ⟨joined, r, hjoined, h⟩ := h
      have hlen := length_rest_of_binary hinner hp hjoined
      obtain ⟨d', rfl, hd'⟩ := binary_of_term hinner hp hd hkind hpower₂ hjoined
      rw [List.length_cons] at hahead
      exact ih hd' (by omega) h

/-- Behind an expression that no product goes on, all operators of sums are
    read, and they make a longer expression. -/
theorem readsPhrase_of_climb {p₀ : Parser} (hinner : Reads room inner) (hp₀ : Ready room p₀)
    {ahead : List Token} {d : Phrase .expr} (hd : Spans (room + 1) p₀ d p) (hstops : Stops .term p)
    (hahead : p.rest.length ≤ ahead.length)
    (h : climb inner Nonterminal.expr.power ahead (d.expr p₀.nextId) p = .ok e q) :
    ReadsPhrase .expr (room + 1) p₀ e q ∧ Stops .expr q := by
  -- As before, with an expression that each round adds a term to.
  induction ahead generalizing d p with
  | nil =>
    have hrest : p.rest = [] := List.length_eq_zero_iff.mp (by simpa using hahead)
    have hdone : Stops .expr p := stops_of_rest_eq_nil hrest
    rw [climb_of_stops (hp₀.moves hd.moves).rules hdone] at h
    cases h
    exact ⟨⟨d, rfl, hd⟩, hdone⟩
  | cons token ahead ih =>
    have hp : Ready room p := hp₀.moves hd.moves
    rcases stops_or_operator .expr p with hdone | ⟨kind, hkind, hlt⟩
    · rw [climb_of_stops hp.rules hdone] at h
      cases h
      exact ⟨⟨d, rfl, hd⟩, hdone⟩
    · have hpower : kind.power = .additive := by
        have hle := hstops kind hkind
        cases hk : kind.power <;> simp_all [Nonterminal.power, Power.rank]
      rw [climb_of_operator hp.rules hkind hlt, bind_eq_ok_iff] at h
      obtain ⟨joined, r, hjoined, h⟩ := h
      have hlen := length_rest_of_binary hinner hp hjoined
      obtain ⟨d', rfl, hd', hstops'⟩ := binary_of_expr hinner hp hd hkind hpower hjoined
      rw [List.length_cons] at hahead
      exact ih hd' hstops' (by omega) h

/-- Reading one level gives the phrases of a nonterminal. -/
theorem level_eq_ok_iff (hinner : Reads room inner) (hp : Ready room p) :
    level inner nt.power p = .ok e q ↔ ReadsPhrase nt (room + 1) p e q ∧ Stops nt q := by
  constructor
  · intro h
    rw [level_eq_bind, bind_eq_ok_iff] at h
    -- What is read first is a factor.  For a factor that is all, for a term the products
    -- follow, and for an expression the sums behind them.
    obtain ⟨left, p₁, hleft, h⟩ := h
    rw [get_bind] at h
    obtain ⟨f, rfl, hf⟩ := (operand_eq_ok_iff hinner hp).mp hleft
    have hterm : Spans (room + 1) p (.ofFactor f) p₁ := ⟨hf.levels, hf.readable, hf.moves⟩
    have hp₁ : Ready room p₁ := hp.moves hf.moves
    cases nt with
    | factor =>
      rw [climb_of_stops hp₁.rules (stops_factor _)] at h
      cases h
      exact ⟨⟨f, rfl, hf⟩, stops_factor _⟩
    | term =>
      obtain ⟨t, r, ht, hstops, h⟩ :=
        exists_term_of_climb hinner hp (by decide) hterm (Nat.le_refl _) h
      rw [climb_of_stops (hp.moves ht.moves).rules hstops] at h
      cases h
      exact ⟨⟨t, rfl, ht⟩, hstops⟩
    | expr =>
      obtain ⟨t, r, ht, hstops, h⟩ :=
        exists_term_of_climb hinner hp (by decide) hterm (Nat.le_refl _) h
      exact readsPhrase_of_climb (d := .ofTerm t) hinner hp ⟨ht.levels, ht.readable, ht.moves⟩
        hstops (Nat.le_refl _) h
  · intro h
    obtain ⟨⟨d, rfl, hd⟩, hstops⟩ := h
    have hstops' : nt = .expr → Stops .term q := by
      rintro rfl kind hkind
      exact Nat.le_trans (hstops kind hkind) (Nat.zero_le _)
    rw [level_of_spans hinner hp d (Nat.le_refl _) hd hstops',
      climb_of_stops (hp.moves hd.moves).rules hstops]

/-- A reader with some room reads the phrases that take less levels. -/
theorem reads_expr (room : Nat) : Reads room (expr room) := by
  -- On the room: what is inside a level has one level less.
  induction room with
  | zero =>
    intro nt p e q _
    constructor
    · exact fun h => absurd h fail_ne_ok
    · intro h
      obtain ⟨⟨d, -, hd⟩, -⟩ := h
      exact absurd hd.levels (Nat.not_lt_zero _)
  | succ room ih =>
    intro nt p e q hp
    have hlt : p.depth < p.limit := by have := hp.depth; omega
    rw [expr, enter_bind_eq_ok_iff]
    constructor
    · intro h
      obtain ⟨-, r, h, rfl⟩ := h
      obtain ⟨⟨d, rfl, hd⟩, hstops⟩ := (level_eq_ok_iff ih hp.enterLevel).mp h
      exact ⟨⟨d, rfl, hd.levels, hd.readable, hd.moves.leaveLevel⟩, hstops⟩
    · intro h
      obtain ⟨⟨d, rfl, hd⟩, hstops⟩ := h
      refine ⟨hlt, { q with depth := q.depth + 1 }, ?_, rfl⟩
      exact (level_eq_ok_iff ih hp.enterLevel).mpr
        ⟨⟨d, rfl, hd.levels, hd.readable, hd.moves.enterLevel⟩, hstops⟩

end Parser

end BlockLang
