import BlockLang.Proofs.Grammar.Location

/-! # Continuation — reading goes on behind a program

  Behind the tokens of a program the parser stands as at the start of one: no
  level is open, and only the identities are drawn further.  So what comes
  there makes the program longer, or it is where the error stands. -/

namespace BlockLang

namespace Grammar

/-! ### Rows of sentences, one after the other -/

variable (d es : List Sentence)

theorem blockTokens_append : blockTokens (d ++ es) = blockTokens d ++ blockTokens es := by
  induction d with
  | nil => rfl
  | cons s d ih => rw [List.cons_append, blockTokens, blockTokens, ih, List.append_assoc]

theorem blockSize_append : blockSize (d ++ es) = blockSize d + blockSize es := by
  induction d with
  | nil => exact (Nat.zero_add _).symm
  | cons s d ih => rw [List.cons_append, blockSize, blockSize, ih, Nat.add_assoc]

theorem blockLevels_append : blockLevels (d ++ es) = max (blockLevels d) (blockLevels es) := by
  induction d with
  | nil => exact (Nat.zero_max _).symm
  | cons s d ih => rw [List.cons_append, blockLevels, blockLevels, ih, Nat.max_assoc]

theorem blockStmts_append (first : NodeId) :
    blockStmts first (d ++ es) = blockStmts first d ++ blockStmts (first + blockSize d) es := by
  induction d generalizing first with
  | nil => rfl
  | cons s d ih =>
    rw [List.cons_append, blockStmts, blockStmts, ih, blockSize, List.cons_append, Nat.add_assoc]

end Grammar

open Grammar

namespace Parser

variable {p q : Parser} {room : Nat} {block : Parse (List Stmt)}

/-- Behind a row of sentences the reading of statements goes on with the ones
    that have been read. -/
theorem statements_of_spansBlock (hblock : ReadsBlocks room block) (hp : Ready room p)
    {d : List Sentence} (hd : SpansBlock (room + 1) p d q) {ahead : List Token}
    (hahead : p.rest.length ≤ ahead.length) (before : List Stmt) :
    statements (statement (expr room .lowest) block) ahead before p =
      statements (statement (expr room .lowest) block) q.rest
        ((blockStmts p.nextId d).reverse ++ before) q := by
  induction d generalizing ahead before p with
  | nil =>
    rw [← hd.moves.eq_of_nil]
    exact statements_ahead hblock hp hahead (Nat.le_refl _) before
  | cons s d ih =>
    obtain ⟨p₁, hs, hd₁⟩ := spansBlock_cons_iff.mp hd
    obtain ⟨token, ts, htokens, hrule⟩ := s.exists_tokens_eq_cons
    have hm := hs.moves
    rw [htokens] at hm
    have hkind := hm.currentKind?_eq
    obtain ⟨_, ahead, rfl⟩ := exists_cons_of_currentKind? hkind hahead
    have hread : statement (expr room .lowest) block s.rule p = .ok (s.stmt p.nextId) p₁ :=
      (statement_eq_ok_iff hblock hp).mpr ⟨s, rfl, rfl, hs⟩
    have hahead₁ : p₁.rest.length ≤ ahead.length := by
      have hlt := hs.length_rest_lt
      rw [List.length_cons] at hahead
      omega
    have hrest := ih (hp.spansSentence hs) hd₁ hahead₁ (s.stmt p.nextId :: before)
    rw [statements_of_rule hp.rules hkind hrule, bind_of_ok hread, hrest, hs.moves.nextId]
    simp only [blockStmts, List.reverse_cons, List.append_assoc, List.singleton_append]

theorem SpansBlock.enterLevel {d : List Sentence} (h : SpansBlock room p d q) :
    SpansBlock room { p with depth := p.depth + 1 } d { q with depth := q.depth + 1 } :=
  ⟨h.levels, h.readable, h.moves.enterLevel⟩

theorem SpansBlock.leaveLevel {d : List Sentence}
    (h : SpansBlock room { p with depth := p.depth + 1 } d q) :
    SpansBlock room p d { q with depth := q.depth - 1 } :=
  ⟨h.levels, h.readable, h.moves.leaveLevel⟩

/-- A row of sentences behind another one makes it longer. -/
theorem SpansBlock.append {r : Parser} {d es : List Sentence} (hd : SpansBlock room p d q)
    (hes : SpansBlock room q es r) : SpansBlock room p (d ++ es) r where
  levels := by
    rw [blockLevels_append]
    exact Nat.max_lt.mpr ⟨hd.levels, hes.levels⟩
  readable := by
    rw [blockTokens_append, List.forall_mem_append]
    exact ⟨hd.readable, hes.readable⟩
  moves := by
    rw [blockTokens_append, blockSize_append]
    exact hd.moves.trans hes.moves

/-- Behind the sentences at the front of a block its reading goes on inside the
    level of the block. -/
theorem blockWithin_of_spansBlock (hp : Ready (room + 1) p) {d : List Sentence}
    (hd : SpansBlock (room + 1) p d q) :
    blockWithin (room + 1) p =
      match statements (statement (expr room .lowest) (blockWithin room)) q.rest
        (blockStmts p.nextId d).reverse { q with depth := q.depth + 1 } with
      | .ok body r => .ok body { r with depth := r.depth - 1 }
      | .error error r => .error error r := by
  have hlt : p.depth < p.limit := by
    have hdepth := hp.depth
    omega
  have hrest := statements_of_spansBlock (readsBlocks_blockWithin room) hp.enterLevel
    hd.enterLevel (Nat.le_refl _) []
  rw [List.append_nil] at hrest
  rw [blockWithin_succ, Parser.enter_bind hlt, get_bind, hrest]
  cases statements (statement (expr room .lowest) (blockWithin room)) q.rest
    (blockStmts p.nextId d).reverse { q with depth := q.depth + 1 } <;> rfl

variable {limit : Nat} {ts : List Token} {d : List Sentence}

/-- The parser behind sentences at the front of a program is known. -/
theorem spansBlock_begun (hlevels : blockLevels d + 1 ≤ limit)
    (hread : ∀ t ∈ blockTokens d, t.Readable) (us : List Token) :
    SpansBlock limit (begun limit (blockTokens d ++ us)) d
      { begun limit (blockTokens d ++ us) with
        read := (blockTokens d).reverse
        rest := us
        nextId := 1 + blockSize d } :=
  ⟨hlevels, hread, ⟨rfl, (List.append_nil _).symm, rfl, rfl, rfl, rfl⟩⟩

/-- Where sentences stand at the front of a program, an error stands behind
    them. -/
theorem locates_program (hd : SpansBlock limit (begun limit ts) d q) :
    Locates q program (start .standard limit ts) := by
  obtain ⟨room, rfl⟩ := Nat.exists_eq_add_one.mpr (Nat.zero_lt_of_lt hd.levels)
  have hblock := blockWithin_of_spansBlock (ready_begun (room + 1) ts) hd
  have hlocates : Locates q (blockWithin (room + 1)) (begun (room + 1) ts) := by
    have hlevel : Behind q { q with depth := q.depth + 1 } := .refl q
    have hstatements := locates_statements (fun p hp => locates_expr room .lowest hp)
      (fun p hp => locates_blockWithin room hp) hlevel q.rest
      (blockStmts (begun (room + 1) ts).nextId d).reverse
    unfold Locates at hstatements ⊢
    rw [hblock]
    revert hstatements
    cases statements (statement (expr room .lowest) (blockWithin room)) q.rest
      (blockStmts (begun (room + 1) ts).nextId d).reverse { q with depth := q.depth + 1 } with
    | ok body r => exact id
    | error error r => exact id
  unfold Locates
  rw [program_start]
  refine Locates.bind hlocates fun body r _ hr => .get_bind ?_
  split
  · exact .pure hr _
  · exact .unexpected hr (by decide)

/-- The same for tokens that are no program: the error is that of the parser,
    and it stands behind the sentences. -/
theorem located_of_parse (hd : SpansBlock maxNesting (begun maxNesting ts) d q) {error : Error}
    (h : parse ts = .error error) :
    ∃ r, program (start .standard maxNesting ts) = .error error r ∧ Located q r error := by
  have hlocates := locates_program hd
  rw [parse, parseWithin] at h
  unfold Locates at hlocates
  cases hprogram : program (start .standard maxNesting ts) with
  | ok prog r =>
    rw [hprogram] at h
    cases h
  | error error' r =>
    rw [hprogram] at h hlocates
    cases h
    exact ⟨r, rfl, hlocates⟩

/-- Where sentences stand at the front of a program, it goes on with other
    sentences. -/
theorem exists_sentences_of_program (hd : SpansBlock limit (begun limit ts) d q)
    {prog : Program} {r : Parser} (h : program (start .standard limit ts) = .ok prog r) :
    ∃ es, prog = Grammar.program (d ++ es) ∧ blockTokens es = q.rest := by
  obtain ⟨room, rfl⟩ := Nat.exists_eq_add_one.mpr (Nat.zero_lt_of_lt hd.levels)
  have hready := ready_begun (room + 1) ts
  have hq : Ready (room + 1) q := hready.moves hd.moves
  have hblock := blockWithin_of_spansBlock hready hd
  have hprogram := h
  rw [program_start, bind_eq_ok_iff] at h
  obtain ⟨body, r₁, hbody, h⟩ := h
  rw [hblock] at hbody
  cases hstatements : statements (statement (expr room .lowest) (blockWithin room)) q.rest
      (blockStmts (begun (room + 1) ts).nextId d).reverse { q with depth := q.depth + 1 } with
  | error error r₂ =>
    rw [hstatements] at hbody
    cases hbody
  | ok body' r₂ =>
    rw [hstatements] at hbody
    cases hbody
    obtain ⟨es, -, hes, -⟩ := (statements_eq_ok_iff (readsBlocks_blockWithin room)
      hq.enterLevel (Nat.le_refl _)).mp hstatements
    -- The block ends with the tokens, so its sentences have all of them.
    rw [get_bind] at h
    by_cases hempty : ({ r₂ with depth := r₂.depth - 1 } : Parser).rest.isEmpty
    · have hrest : r₂.rest = [] := List.isEmpty_iff.mp hempty
      have htokens : blockTokens es = q.rest := by
        have hall := hes.moves.rest
        rw [hrest, List.append_nil] at hall
        exact hall.symm
      have hwhole := hd.append hes.leaveLevel
      have hts : blockTokens (d ++ es) = ts := by
        have hall : ts = blockTokens d ++ q.rest := hd.moves.rest
        rw [blockTokens_append, htokens, hall]
      have hprogram' := program_eq_ok_iff.mpr ⟨d ++ es, rfl, hts, hwhole⟩
      rw [hprogram] at hprogram'
      cases hprogram'
      exact ⟨es, rfl, htokens⟩
    · rw [if_neg hempty] at h
      exact absurd h fail_ne_ok

end Parser

/-- Behind the tokens of a program more of it may come.  If the whole is
    accepted then what comes are further sentences, and otherwise the error
    stands at one of the tokens that come, or behind the last of them. -/
theorem parse_append {ts : List Token} {p : Program} (h : parse ts = .ok p) (us : List Token) :
    ∃ d, p = program d ∧ blockTokens d = ts ∧
      (∀ p', parse (ts ++ us) = .ok p' → ∃ es, p' = program (d ++ es) ∧ blockTokens es = us) ∧
      ∀ error, parse (ts ++ us) = .error error →
        ∃ token ∈ us, error.position = token.span.start ∨ error.position = token.span.stop := by
  obtain ⟨d, rfl, rfl, hread, hlev⟩ := parseWithin_eq_ok_iff.mp h
  have hd := Parser.spansBlock_begun hlev hread us
  refine ⟨d, rfl, rfl, ?_, ?_⟩
  · intro p' hp'
    rw [parse, parseWithin] at hp'
    cases hprogram : Parser.program (.start .standard maxNesting (blockTokens d ++ us)) with
    | error error r =>
      rw [hprogram] at hp'
      cases hp'
    | ok prog r =>
      rw [hprogram] at hp'
      cases hp'
      exact Parser.exists_sentences_of_program hd hprogram
  · intro error herror
    obtain ⟨r, -, hlocated⟩ := Parser.located_of_parse hd herror
    cases hlocated with
    | start htoken => exact ⟨_, htoken, .inl rfl⟩
    | finish hfault =>
      have hne : us ≠ [] := by
        rintro rfl
        rw [List.append_nil, h] at herror
        cases herror
      refine ⟨us.getLast hne, List.getLast_mem hne, .inr ?_⟩
      show Parser.finish _ = _
      rw [Parser.finish, Parser.tokens, List.reverse_reverse, List.getLast?_append,
        List.getLast?_eq_some_getLast hne]
      rfl

end BlockLang
