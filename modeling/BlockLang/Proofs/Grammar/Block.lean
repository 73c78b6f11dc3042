import BlockLang.Proofs.Grammar.Sentence

/-! # Reading blocks — rows of sentences

  A block is read exactly when a row of sentences stands at the front of the
  tokens and an `end`, an `else` or nothing comes behind it.  The first token
  of a sentence selects the rule that it is read by, so the row goes on as
  long as sentences start. -/

namespace BlockLang

open Grammar

namespace Parser

variable {p q : Parser} {room : Nat} {body : List Stmt} {block : Parse (List Stmt)}

/-! ### The end of a block -/

/-- A kind that ends a block starts no statement. -/
theorem standardStatement?_of_endsBlock {kind : Kind} (h : endsBlock kind = true) :
    Rules.standardStatement? kind = none := by
  cases kind <;> first | rfl | exact absurd h (by decide)

theorem standard_statement (kind : Kind) :
    Rules.standard.statement kind = Rules.standardStatement? kind := by
  cases kind <;> rfl

/-- At the end of a block nothing more is read. -/
theorem statements_of_endsBlock {read : StatementRule → Parse Stmt} (hrules : p.rules = .standard)
    (h : EndsBlock p) (ahead : List Token) (before : List Stmt) :
    statements read ahead before p = .ok before.reverse p := by
  cases ahead with
  | nil => rfl
  | cons token ahead =>
    rw [statements, statementsRound, lift_get_bind]
    cases hkind : p.currentKind? with
    | none => rfl
    | some kind =>
      have hends := h kind hkind
      simp only [hrules, standard_statement, standardStatement?_of_endsBlock hends]
      rw [if_pos hends]
      rfl

/-- Where no tokens are left nothing more is read. -/
theorem statements_of_rest_eq_nil {read : StatementRule → Parse Stmt} (h : p.rest = [])
    (ahead : List Token) (before : List Stmt) :
    statements read ahead before p = .ok before.reverse p := by
  cases ahead with
  | nil => rfl
  | cons token ahead =>
    rw [statements, statementsRound, lift_get_bind, currentKind?_of_nil h]
    rfl

/-- Where a statement starts, it is read, and reading goes on behind it. -/
theorem statements_of_rule {read : StatementRule → Parse Stmt} (hrules : p.rules = .standard)
    {kind : Kind} (hkind : p.currentKind? = some kind) {rule : StatementRule}
    (hrule : Rules.standardStatement? kind = some rule) (token : Token) (ahead : List Token)
    (before : List Stmt) :
    statements read (token :: ahead) before p =
      (read rule >>= fun s => statements read ahead (s :: before)) p := by
  rw [statements, statementsRound, lift_get_bind, hkind]
  simp only [hrules, standard_statement, hrule]

/-- Where neither a statement starts nor the block ends, a statement is missed. -/
theorem statements_eq_fail {read : StatementRule → Parse Stmt} (hrules : p.rules = .standard)
    {kind : Kind} (hkind : p.currentKind? = some kind)
    (hrule : Rules.standardStatement? kind = none) (hends : endsBlock kind = false)
    (token : Token) (ahead : List Token) (before : List Stmt) :
    statements read (token :: ahead) before p = fail (·.unexpected "a statement") p := by
  rw [statements, statementsRound, lift_get_bind, hkind]
  simp only [hrules, standard_statement, hrule, hends]
  rw [if_neg Bool.false_ne_true]
  rfl

theorem statements_ne_ok {read : StatementRule → Parse Stmt} (hrules : p.rules = .standard)
    {kind : Kind} (hkind : p.currentKind? = some kind)
    (hrule : Rules.standardStatement? kind = none) (hends : endsBlock kind = false)
    (token : Token) (ahead : List Token) (before : List Stmt) :
    statements read (token :: ahead) before p ≠ .ok body q := by
  rw [statements_eq_fail hrules hkind hrule hends]
  exact fail_ne_ok

/-! ### Rows of sentences -/

theorem spansBlock_cons_iff {d : Sentence} {ds : List Sentence} :
    SpansBlock (room + 1) p (d :: ds) q ↔
      ∃ p₁, SpansSentence room p d p₁ ∧ SpansBlock (room + 1) p₁ ds q := by
  constructor
  · intro h
    obtain ⟨hlev, hread, hm⟩ := h
    rw [blockLevels] at hlev
    rw [blockTokens] at hread hm
    rw [blockSize] at hm
    obtain ⟨p₁, h₁, h₂⟩ := hm.split
    exact ⟨p₁, ⟨by omega, fun t ht => hread t (by simp [ht]), h₁⟩,
      ⟨by omega, fun t ht => hread t (by simp [ht]), h₂⟩⟩
  · intro h
    obtain ⟨p₁, ⟨hlev₁, hread₁, h₁⟩, hlev₂, hread₂, h₂⟩ := h
    refine ⟨?_, ?_, ?_⟩
    · rw [blockLevels]
      omega
    · rw [blockTokens, List.forall_mem_append]
      exact ⟨hread₁, hread₂⟩
    · rw [blockTokens, blockSize]
      exact h₁.trans h₂

/-- Where a sentence stands, its rule is selected. -/
theorem SpansSentence.rule_of_currentKind? {d : Sentence} (h : SpansSentence room p d q)
    {kind : Kind} (hkind : p.currentKind? = some kind) :
    Rules.standardStatement? kind = some d.rule := by
  obtain ⟨token, ts, htokens, hrule⟩ := d.exists_tokens_eq_cons
  have hm := h.moves
  rw [htokens] at hm
  rw [hm.currentKind?_eq, Option.some.injEq] at hkind
  rw [← hkind, hrule]

/-- No sentence stands where a block ends. -/
theorem SpansSentence.not_endsBlock {d : Sentence} (h : SpansSentence room p d q) :
    ¬ EndsBlock p := by
  intro hends
  obtain ⟨token, ts, htokens, hrule⟩ := d.exists_tokens_eq_cons
  have hm := h.moves
  rw [htokens] at hm
  rw [standardStatement?_of_endsBlock (hends token.kind hm.currentKind?_eq)] at hrule
  cases hrule

theorem SpansSentence.length_rest_lt {d : Sentence} (h : SpansSentence room p d q) :
    q.rest.length < p.rest.length := by
  obtain ⟨token, ts, htokens, -⟩ := d.exists_tokens_eq_cons
  have hlen := h.moves.length_rest
  rw [htokens, List.length_cons] at hlen
  omega

theorem Ready.spansSentence (hp : Ready room p) {d : Sentence} (h : SpansSentence room p d q) :
    Ready room q := hp.moves h.moves

theorem spansBlock_nil (p : Parser) : SpansBlock (room + 1) p [] p :=
  ⟨Nat.succ_pos _, List.forall_mem_nil _, Moves.refl p⟩

/-- A block that has not ended yet starts with a sentence. -/
theorem SpansBlock.exists_cons {ds : List Sentence} (hds : SpansBlock (room + 1) p ds q)
    (hendsq : EndsBlock q) (hends : ¬ EndsBlock p) :
    ∃ (d : Sentence) (ds' : List Sentence) (p₁ : Parser), ds = d :: ds' ∧
      SpansSentence room p d p₁ ∧ SpansBlock (room + 1) p₁ ds' q := by
  cases ds with
  | nil =>
    rw [← hds.moves.eq_of_nil] at hendsq
    exact absurd hendsq hends
  | cons d ds =>
    obtain ⟨p₁, hd, hds'⟩ := spansBlock_cons_iff.mp hds
    exact ⟨d, ds, p₁, rfl, hd, hds'⟩

/-! ### Reading rows -/

/-- Where a block ends, only the empty row of sentences stands. -/
theorem statements_eq_ok_iff_of_endsBlock (hp : Ready room p) (hends : EndsBlock p)
    {read : StatementRule → Parse Stmt} {ahead : List Token} {before : List Stmt} :
    statements read ahead before p = .ok body q ↔
      ∃ ds, body = before.reverse ++ blockStmts p.nextId ds ∧ SpansBlock (room + 1) p ds q ∧
        EndsBlock q := by
  rw [statements_of_endsBlock hp.rules hends]
  constructor
  · intro h
    cases h
    exact ⟨[], (List.append_nil _).symm, spansBlock_nil p, hends⟩
  · intro h
    obtain ⟨ds, rfl, hds, -⟩ := h
    cases ds with
    | nil => rw [hds.moves.eq_of_nil, blockStmts, List.append_nil]
    | cons d ds =>
      obtain ⟨p₁, hd, -⟩ := spansBlock_cons_iff.mp hds
      exact absurd hends hd.not_endsBlock

/-- The row of statements grows by the sentence that was read. -/
theorem blockStmts_cons_of_spans {d : Sentence} (hd : SpansSentence room p d q)
    (ds : List Sentence) (before : List Stmt) :
    (d.stmt p.nextId :: before).reverse ++ blockStmts q.nextId ds =
      before.reverse ++ blockStmts p.nextId (d :: ds) := by
  rw [blockStmts, hd.moves.nextId, List.reverse_cons, List.append_assoc]
  rfl

/-- A row of sentences is read one after the other. -/
theorem statements_eq_ok_iff (hblock : ReadsBlocks room block) (hp : Ready room p)
    {ahead : List Token} {before : List Stmt} (hahead : p.rest.length ≤ ahead.length) :
    statements (statement (expr room .lowest) block) ahead before p = .ok body q ↔
      ∃ ds, body = before.reverse ++ blockStmts p.nextId ds ∧ SpansBlock (room + 1) p ds q ∧
        EndsBlock q := by
  -- On the tokens ahead: a sentence takes one of them at least, so they last
  -- as long as there are sentences.
  induction ahead generalizing p before with
  | nil =>
    refine statements_eq_ok_iff_of_endsBlock hp fun kind hkind => ?_
    have hrest : p.rest = [] := List.length_eq_zero_iff.mp (by simpa using hahead)
    rw [currentKind?_of_nil hrest] at hkind
    cases hkind
  | cons token ahead ih =>
    by_cases hends : EndsBlock p
    · exact statements_eq_ok_iff_of_endsBlock hp hends
    · obtain ⟨kind, hkind, hkindEnds⟩ : ∃ kind, p.currentKind? = some kind ∧
          endsBlock kind = false := by
        simpa [EndsBlock] using hends
      have hahead' {d : Sentence} {p₁ : Parser} (hd : SpansSentence room p d p₁) :
          p₁.rest.length ≤ ahead.length := by
        have hlt := hd.length_rest_lt
        rw [List.length_cons] at hahead
        omega
      -- No end of a block, so either a statement starts here or nothing is accepted.
      cases hrule : Rules.standardStatement? kind with
      | none =>
        refine iff_of_false (statements_ne_ok hp.rules hkind hrule hkindEnds _ _ _) ?_
        intro h
        obtain ⟨ds, -, hds, hendsq⟩ := h
        obtain ⟨d, ds', p₁, -, hd, -⟩ := hds.exists_cons hendsq hends
        rw [hd.rule_of_currentKind? hkind] at hrule
        cases hrule
      | some rule =>
        rw [statements_of_rule hp.rules hkind hrule, bind_eq_ok_iff]
        constructor
        · intro h
          obtain ⟨s, p₁, hs, h⟩ := h
          obtain ⟨d, -, rfl, hd⟩ := (statement_eq_ok_iff hblock hp).mp hs
          obtain ⟨ds, rfl, hds, hendsq⟩ := (ih (hp.spansSentence hd) (hahead' hd)).mp h
          exact ⟨d :: ds, blockStmts_cons_of_spans hd ds before,
            spansBlock_cons_iff.mpr ⟨p₁, hd, hds⟩, hendsq⟩
        · intro h
          obtain ⟨ds, rfl, hds, hendsq⟩ := h
          obtain ⟨d, ds', p₁, rfl, hd, hds'⟩ := hds.exists_cons hendsq hends
          rw [hd.rule_of_currentKind? hkind, Option.some.injEq] at hrule
          refine ⟨d.stmt p.nextId, p₁, ?_, ?_⟩
          · exact (statement_eq_ok_iff hblock hp).mpr ⟨d, hrule, rfl, hd⟩
          · exact (ih (hp.spansSentence hd) (hahead' hd)).mpr
              ⟨ds', (blockStmts_cons_of_spans hd ds' before).symm, hds', hendsq⟩

/-- How many rounds are allowed does not matter as long as there are as many
    as tokens. -/
theorem statements_ahead (hblock : ReadsBlocks room block) (hp : Ready room p)
    {ahead ahead' : List Token} (h : p.rest.length ≤ ahead.length)
    (h' : p.rest.length ≤ ahead'.length) (before : List Stmt) :
    statements (statement (expr room .lowest) block) ahead before p =
      statements (statement (expr room .lowest) block) ahead' before p := by
  -- On the rounds that one side has left, as for operators.
  induction ahead generalizing ahead' before p with
  | nil =>
    have hrest : p.rest = [] := List.length_eq_zero_iff.mp (Nat.le_zero.mp h)
    rw [statements_of_rest_eq_nil hrest, statements_of_rest_eq_nil hrest]
  | cons token ahead ih =>
    cases hkind : p.currentKind? with
    | none =>
      have hends : EndsBlock p := by simp [EndsBlock, hkind]
      rw [statements_of_endsBlock hp.rules hends, statements_of_endsBlock hp.rules hends]
    | some kind =>
      obtain ⟨token', ahead', rfl⟩ := exists_cons_of_currentKind? hkind h'
      cases hrule : Rules.standardStatement? kind with
      | none =>
        rw [statements, statements, statementsRound, statementsRound, lift_get_bind,
          lift_get_bind, hkind]
        simp only [hp.rules, standard_statement, hrule]
      | some rule =>
        rw [statements_of_rule hp.rules hkind hrule, statements_of_rule hp.rules hkind hrule]
        simp only [bind, EStateM.bind]
        cases hs : statement (expr room .lowest) block rule p with
        | error error q => rfl
        | ok s q =>
          obtain ⟨d, -, -, hd⟩ := (statement_eq_ok_iff hblock hp).mp hs
          have hlen := hd.length_rest_lt
          rw [List.length_cons] at h h'
          exact ih (hp.spansSentence hd) (by omega) (by omega) _

/-- Reading a block is reading statements inside a level of their own. -/
theorem blockWithin_succ (room : Nat) :
    blockWithin (room + 1) = (do
      enter
      let body ← (get >>= fun p =>
        statements (statement (expr room .lowest) (blockWithin room)) p.rest [])
      leave
      return body) := rfl

/-- A reader with some room reads the blocks that take less levels. -/
theorem readsBlocks_blockWithin (room : Nat) : ReadsBlocks room (blockWithin room) := by
  -- On the room, as for expressions.
  induction room with
  | zero =>
    intro p body q _
    constructor
    · exact fun h => absurd h fail_ne_ok
    · intro h
      obtain ⟨ds, -, hds, -⟩ := h
      exact absurd hds.levels (Nat.not_lt_zero _)
  | succ room ih =>
    intro p body q hp
    -- The room is above zero, so one more level may be opened.
    have hlt : p.depth < p.limit := by have := hp.depth; omega
    rw [blockWithin_succ, enter_bind_eq_ok_iff]
    constructor
    · intro h
      obtain ⟨-, r, h, rfl⟩ := h
      rw [get_bind] at h
      obtain ⟨ds, rfl, hds, hends⟩ := (statements_eq_ok_iff ih hp.enterLevel (Nat.le_refl _)).mp h
      exact ⟨ds, rfl, ⟨hds.levels, hds.readable, hds.moves.leaveLevel⟩, hends⟩
    · intro h
      obtain ⟨ds, rfl, hds, hends⟩ := h
      refine ⟨hlt, { q with depth := q.depth + 1 }, ?_, rfl⟩
      rw [get_bind]
      exact (statements_eq_ok_iff ih hp.enterLevel (Nat.le_refl _)).mpr
        ⟨ds, rfl, ⟨hds.levels, hds.readable, hds.moves.enterLevel⟩, hends⟩

end Parser

end BlockLang
