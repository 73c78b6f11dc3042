import BlockLang.Compile
import BlockLang.Proofs.Grammar.Ahead
import BlockLang.Proofs.Grammar.Continuation
import BlockLang.Proofs.Grammar.Shift
import BlockLang.Proofs.Program.Identities
import BlockLang.Proofs.Result

/-! # Concatenation — programs one after the other

  Behind the tokens of a program the parser goes on as it starts: the same
  levels are open, and no token that has been read is looked at again.  So what
  comes there is refused for the same reason and at the same place as alone.
  What is accepted there has the same statements as alone, numbered further on. -/

namespace BlockLang

open Grammar

namespace Parser

variable {p q : Parser} {room limit n : Nat} {ts us : List Token} {d : List Sentence}

/-- Behind sentences the reading of a block goes on as it starts. -/
theorem alike_blockWithin (hp : Ready (room + 1) p) (hq : Ready (room + 1) q) {r : Parser}
    (hd : SpansBlock (room + 1) q d r) (h : SameAhead p r) :
    Alike (blockWithin (room + 1) p) (blockWithin (room + 1) q) := by
  have hread := inStep_statement (inStep_expr room .lowest) (inStep_blockWithin room)
  have hrun := (inStep_statements hread r.rest (blockStmts p.nextId []).reverse
    (blockStmts q.nextId d).reverse).alike h.enterLevel
  rw [h.rest] at hrun
  rw [blockWithin_of_spansBlock hp (spansBlock_nil p), blockWithin_of_spansBlock hq hd, h.rest]
  revert hrun
  generalize (statements _ p.rest _ : Parse _) { p with depth := p.depth + 1 } = x
  generalize (statements _ p.rest _ : Parse _)
    { r with rest := p.rest, depth := r.depth + 1 } = y
  intro hrun
  cases hrun with
  | ok hrs => exact .ok hrs.leaveLevel
  | error => exact .error

/-- Behind all tokens that come first, a parser has the others ahead as one at
    the start of them. -/
theorem SameAhead.of_moves (hm : Moves (begun limit (ts ++ us)) q ts n) (hne : us ≠ []) :
    SameAhead (begun limit us) q where
  rest := (List.append_cancel_left hm.rest).symm
  finish := by
    have hread : q.read.reverse = ts := by
      rw [hm.read, List.reverse_append, List.reverse_reverse]
      rfl
    have hrest : q.rest = us := (List.append_cancel_left hm.rest).symm
    rw [Parser.finish, Parser.finish, Parser.tokens, hread, hrest,
      List.getLast?_append_of_ne_nil _ hne]
    rfl
  depth := hm.depth
  rules := hm.rules
  limit := hm.limit

/-- Behind the tokens of sentences a program is read as from its start. -/
theorem alike_program (hd : SpansBlock limit (begun limit ts) d q)
    (h : SameAhead (begun limit us) q) :
    Alike (program (start .standard limit us)) (program (start .standard limit ts)) := by
  obtain ⟨room, rfl⟩ := Nat.exists_eq_add_one.mpr (Nat.zero_lt_of_lt hd.levels)
  rw [program_start, program_start]
  refine (alike_blockWithin (ready_begun _ us) (ready_begun _ ts) hd h).bind
    fun {body body' p q} h => ?_
  rw [get_bind, get_bind, h.rest]
  split
  · exact (InStep.pure _ _).alike h
  · exact (InStep.unexpected _).alike h

end Parser

variable {ts us : List Token} {p q : Program} {error : Error}

/-- What is refused alone is refused behind a program, with the same error. -/
theorem parse_append_eq_error (h : parse ts = .ok p) (herror : parse us = .error error) :
    parse (ts ++ us) = .error error := by
  obtain ⟨d, -, rfl, hread, hlevels⟩ := parseWithin_eq_ok_iff.mp h
  have hne : us ≠ [] := by
    rintro rfl
    cases herror
  have hd := Parser.spansBlock_begun hlevels hread us
  have halike := Parser.alike_program hd (.of_moves hd.moves hne)
  rw [parse, parseWithin] at herror ⊢
  revert halike herror
  generalize Parser.program (.start .standard maxNesting us) = x
  generalize Parser.program (.start .standard maxNesting (blockTokens d ++ us)) = y
  intro herror halike
  cases halike with
  | ok _ => cases herror
  | error => exact herror

/-- The nodes of a program are those of its sentences and the root. -/
theorem Grammar.length_ids_program (d : List Sentence) :
    (program d).ids.length = blockSize d + 1 := by
  rw [(Program.ids_perm_drawn _).length_eq, drawn_program, List.length_range]

/-- The statements of two programs in a row are a program, in which those of the
    second one are numbered behind those of the first one. -/
theorem exists_parse_append (h : parse ts = .ok p) (h' : parse us = .ok q) :
    ∃ r, parse (ts ++ us) = .ok r ∧
      r.body = p.body ++ q.body.map (Stmt.mapTag (.raise (p.ids.length - 1))) := by
  obtain ⟨d, rfl, rfl, hread, hlevels⟩ := parseWithin_eq_ok_iff.mp h
  obtain ⟨es, rfl, rfl, hread', hlevels'⟩ := parseWithin_eq_ok_iff.mp h'
  refine ⟨program (d ++ es), parseWithin_eq_ok_iff.mpr ⟨d ++ es, rfl, ?_, ?_, ?_⟩, ?_⟩
  · exact blockTokens_append d es
  · exact List.forall_mem_append.mpr ⟨hread, hread'⟩
  · rw [blockLevels_append]
    omega
  · show blockStmts 1 (d ++ es) = blockStmts 1 d ++ (blockStmts 1 es).map _
    have hraise := blockStmts_shift 0 es (blockSize d) 1
    rw [blockShift_zero, Tag.shift_zero, blockMapTag_eq_map] at hraise
    rw [blockStmts_append, hraise, length_ids_program, Nat.add_sub_cancel]

/-- Reading goes over the seam between two rows of tokens.  Behind a program, a
    second program has its statements with the same spans, and with identities
    raised by the number of nodes in front; and whatever is no program fails as
    it does alone. -/
theorem parse_behind_program (h : parse ts = .ok p) (us : List Token) :
    (∀ q, parse us = .ok q → ∃ r, parse (ts ++ us) = .ok r ∧
      r.body = p.body ++ q.body.map (Stmt.mapTag (.raise (p.ids.length - 1)))) ∧
    ∀ error, parse us = .error error → parse (ts ++ us) = .error error :=
  ⟨fun _ => exists_parse_append h, fun _ => parse_append_eq_error h⟩

/-- Behind an `if` with an empty `else`, another statement is numbered on, and
    another `else` is refused as at the start. -/
theorem parse_behind_program_of_branch :
    ∃ ts us vs p q error, tokenize "if a do print 1; else end" defaultFile = .ok ts ∧
      tokenize "x = 2;" defaultFile = .ok us ∧ tokenize "else end" defaultFile = .ok vs ∧
      parse ts = .ok p ∧ parse us = .ok q ∧ parse vs = .error error ∧ p.ids.length - 1 = 5 ∧
      (∃ r, parse (ts ++ us) = .ok r ∧ r.body = p.body ++ q.body.map (Stmt.mapTag (.raise 5))) ∧
      parse (ts ++ vs) = .error error := by
  let first := "if a do print 1; else end"
  have hok : (readProgram first defaultFile).isOk := by decide +kernel
  have hok' : (readProgram "x = 2;" defaultFile).isOk := by decide +kernel
  have hok'' : (tokenize "else end" defaultFile).isOk := by decide +kernel
  have hcount : (readProgram first defaultFile).toOption.map (·.ids.length) = some 6 := by
    decide +kernel
  have hfail : (readProgram "else end" defaultFile).isOk = false := by decide +kernel
  obtain ⟨p, hread⟩ := Result.exists_of_isOk hok
  obtain ⟨q, hread'⟩ := Result.exists_of_isOk hok'
  obtain ⟨vs, hvs⟩ := Result.exists_of_isOk hok''
  obtain ⟨ts, hts, hp⟩ := Result.bind_eq_ok_iff.mp hread
  obtain ⟨us, hus, hq⟩ := Result.bind_eq_ok_iff.mp hread'
  rw [hread] at hcount
  have hlen : p.ids.length = 6 := Option.some.inj hcount
  obtain ⟨r, hr, hbody⟩ := (parse_behind_program hp us).1 q hq
  rw [hlen] at hbody
  rw [readProgram, Result.bind_of_ok hvs] at hfail
  cases herror : parse vs with
  | ok r =>
    rw [herror] at hfail
    cases hfail
  | error error =>
    exact ⟨ts, us, vs, p, q, error, hts, hus, hvs, hp, hq, herror, by rw [hlen],
      ⟨r, hr, hbody⟩, (parse_behind_program hp vs).2 error herror⟩

end BlockLang
