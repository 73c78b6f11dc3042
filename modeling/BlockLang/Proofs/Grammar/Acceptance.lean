import BlockLang.Proofs.Grammar.Block

/-! # Acceptance — the programs are those of the grammar

  The tokens of a program are those of a row of sentences.  They are accepted
  exactly when their texts can be read and no more levels are open at once
  than allowed, the level of the program itself included.  What is returned
  is then the program of the row: its shape is the shape of the derivation,
  its identities are counted from one on, and its spans come from the first
  and last token of each node. -/

namespace BlockLang

open Grammar

/-! ### Programs -/

namespace Parser

variable {p q : Parser} {ts : List Token}

/-- A move over all tokens starts where the first of them starts. -/
theorem reached_start (rules : Rules) (limit : Nat) (ts : List Token) :
    (start rules limit ts).reached = (ts.head?.map (·.span.start)).getD .null := by
  cases ts with
  | nil => rfl
  | cons token ts => rfl

/-- A move from the start reaches the end of its last token. -/
theorem Moves.reached_of_start {rules : Rules} {limit n : Nat}
    (h : Moves (start rules limit ts) q ts n) :
    q.reached = (ts.getLast?.map (·.span.stop)).getD .null := by
  have hread : q.read = ts.reverse := by rw [h.read, start, List.append_nil]
  have hrest : q.rest = [] := by
    have hrest := h.rest
    rw [start] at hrest
    exact List.self_eq_append_right.mp hrest
  rw [reached, hread, hrest, List.getLast?_eq_head?_reverse]
  cases ts.reverse with
  | nil => rfl
  | cons token us => rfl

/-- The parser in front of the tokens of a program, with the identity of the
    root drawn. -/
def begun (limit : Nat) (ts : List Token) : Parser :=
  { start .standard limit ts with nextId := 1 }

theorem moves_begun (limit : Nat) (ts : List Token) :
    Moves (start .standard limit ts) (begun limit ts) [] 1 := ⟨rfl, rfl, rfl, rfl, rfl, rfl⟩

/-- The start of a program leaves room for all levels. -/
theorem ready_begun (limit : Nat) (ts : List Token) : Ready limit (begun limit ts) :=
  ⟨rfl, Nat.le_of_eq (Nat.zero_add limit)⟩

theorem program_start (limit : Nat) (ts : List Token) :
    program (start .standard limit ts) =
      (blockWithin limit >>= fun body => get >>= fun q =>
        if q.rest.isEmpty then
          pure ⟨body, ⟨0, ⟨(start .standard limit ts).reached, q.reached⟩⟩⟩
        else fail (·.unexpected "a statement")) (begun limit ts) := rfl

/-- Reading a program is reading a block that takes all tokens. -/
theorem program_eq_ok_iff {limit : Nat} {prog : Program} :
    program (start .standard limit ts) = .ok prog q ↔
      ∃ d : List Sentence, prog = Grammar.program d ∧ blockTokens d = ts ∧
        SpansBlock limit (begun limit ts) d q := by
  have hid := moves_begun limit ts
  have hready := ready_begun limit ts
  -- A row that has all the tokens leaves none, and ends where the program ends.
  have hspan {d : List Sentence} (htokens : blockTokens d = ts)
      (hd : SpansBlock limit (begun limit ts) d q) :
      q.rest = [] ∧ Grammar.program d =
        ⟨blockStmts 1 d, ⟨0, ⟨(start .standard limit ts).reached, q.reached⟩⟩⟩ := by
    have hm := hid.trans hd.moves
    rw [List.nil_append, htokens] at hm
    refine ⟨List.self_eq_append_right.mp hm.rest, ?_⟩
    rw [Grammar.program, htokens, reached_start, hm.reached_of_start]
  rw [program_start, bind_eq_ok_iff]
  constructor
  · intro h
    obtain ⟨body, r, hbody, h⟩ := h
    obtain ⟨d, rfl, hd, -⟩ := (readsBlocks_blockWithin limit hready).mp hbody
    rw [get_bind] at h
    -- A block may stop early, at an `end` or an `else` that nothing has opened.
    by_cases hrest : r.rest.isEmpty
    · rw [if_pos hrest, pure_eq_ok_iff] at h
      obtain ⟨rfl, rfl⟩ := h
      have htokens : blockTokens d = ts := by
        have hall : ts = blockTokens d ++ r.rest := hd.moves.rest
        rw [List.isEmpty_iff.mp hrest, List.append_nil] at hall
        exact hall.symm
      exact ⟨d, (hspan htokens hd).2.symm, htokens, hd⟩
    · rw [if_neg hrest] at h
      exact absurd h fail_ne_ok
  · intro h
    obtain ⟨d, rfl, htokens, hd⟩ := h
    obtain ⟨hrest, hprog⟩ := hspan htokens hd
    have hends : EndsBlock q := by
      intro kind hkind
      rw [currentKind?_of_nil hrest] at hkind
      cases hkind
    refine ⟨blockStmts 1 d, q, (readsBlocks_blockWithin limit hready).mpr ⟨d, rfl, hd, hends⟩, ?_⟩
    rw [get_bind, if_pos (List.isEmpty_iff.mpr hrest), hprog]
    rfl

end Parser

/-- Tokens are accepted exactly when they are those of a derivation, can be
    read and take no more levels than allowed, one of them by the program. -/
theorem parseWithin_eq_ok_iff {limit : Nat} {ts : List Token} {p : Program} :
    parseWithin limit ts = .ok p ↔
      ∃ d : List Sentence, p = program d ∧ blockTokens d = ts ∧ (∀ t ∈ ts, t.Readable) ∧
        blockLevels d + 1 ≤ limit := by
  have hok : parseWithin limit ts = .ok p ↔
      ∃ q, Parser.program (.start .standard limit ts) = .ok p q := by
    rw [parseWithin]
    cases Parser.program (.start .standard limit ts) <;> simp
  rw [hok]
  constructor
  · intro h
    obtain ⟨q, h⟩ := h
    obtain ⟨d, rfl, htokens, hd⟩ := Parser.program_eq_ok_iff.mp h
    exact ⟨d, rfl, htokens, htokens ▸ hd.readable, hd.levels⟩
  · intro h
    obtain ⟨d, rfl, rfl, hread, hlev⟩ := h
    -- The parser behind all the tokens is known, so nothing has to be run.
    have hm : Parser.Moves (.begun limit (blockTokens d))
        { Parser.begun limit (blockTokens d) with
          read := (blockTokens d).reverse
          rest := []
          nextId := 1 + blockSize d } (blockTokens d) (blockSize d) :=
      ⟨(List.append_nil _).symm, (List.append_nil _).symm, rfl, rfl, rfl, rfl⟩
    exact ⟨_, Parser.program_eq_ok_iff.mpr ⟨d, rfl, rfl, hlev, hread, hm⟩⟩

/-- The programs of the language are those of derivations. -/
theorem exists_derivation_of_parse {ts : List Token} {p : Program} (h : parse ts = .ok p) :
    ∃ d : List Sentence, p = program d := by
  obtain ⟨d, hp, -⟩ := parseWithin_eq_ok_iff.mp h
  exact ⟨d, hp⟩

end BlockLang
