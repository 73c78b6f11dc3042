import BlockLang.Compile
import BlockLang.Proofs.Grammar.Acceptance
import BlockLang.Proofs.Grammar.Inside
import BlockLang.Proofs.Grammar.Shift
import BlockLang.Proofs.Result
import BlockLang.Proofs.Token.Slice

/-! # Slicing — a statement can be cut out of its source

  A statement covers its tokens and nothing else, and what is around it has no
  part in how it is read.  So the text that it covers is a program of its own,
  with this statement only, at the start of a source. -/

namespace BlockLang

open Grammar

/-- Tokens that spell a sentence at some place are a program at the start of a
    source.  Its only statement is the one of the sentence, further to the
    front and numbered from one on. -/
theorem exists_parse_of_shift {d : Sentence} {bytes : UInt32} {tokens : List Token}
    (htokens : d.tokens = tokens.map (Token.shift bytes)) (hread : ∀ t ∈ d.tokens, t.Readable)
    (hlevels : d.levels + 1 ≤ maxNesting) (ids : Nat) :
    ∃ q s, parse tokens = .ok q ∧ q.body = [s] ∧
      d.stmt (1 + ids) = s.mapTag (.shift ids bytes) := by
  have hback : (d.shift (-bytes)).shift bytes = d := by
    rw [d.shift_shift, UInt32.add_left_neg, d.shift_zero]
  have hfront : (d.shift (-bytes)).tokens = tokens := by
    rw [d.tokens_shift, htokens, List.map_map]
    refine (List.map_congr_left fun token _ => ?_).trans (List.map_id tokens)
    show (token.shift bytes).shift (-bytes) = token
    rw [token.shift_shift, UInt32.add_right_neg, token.shift_zero]
  refine ⟨program [d.shift (-bytes)], (d.shift (-bytes)).stmt 1, ?_, rfl, ?_⟩
  · refine parseWithin_eq_ok_iff.mpr ⟨[d.shift (-bytes)], rfl, ?_, ?_, ?_⟩
    · rw [blockTokens, blockTokens, List.append_nil, hfront]
    · intro token htoken
      have hshifted : token.shift bytes ∈ d.tokens := htokens ▸ List.mem_map_of_mem htoken
      have hreadable : (token.shift bytes).Readable := hread _ hshifted
      exact hreadable
    · rw [blockLevels, blockLevels, Nat.max_zero, d.levels_shift]
      exact hlevels
  · rw [← Sentence.stmt_shift, hback]

/-- What a statement covers of its source is read on its own as a program of
    one statement.  It is the same statement but for two things: its places are
    counted from its own start, and its identities from one on. -/
theorem readProgram_slice {source file : String} {p : Program}
    (hsize : source.utf8ByteSize < 2 ^ 32) (h : readProgram source file = .ok p) {s : Stmt}
    (hs : Node.stmt s ∈ p.nodes) :
    ∃ text, s.span.CutsOut source text ∧
      ∃ q s' ids, readProgram text file = .ok q ∧ q.body = [s'] ∧
        s = s'.mapTag (.shift ids s.span.start.offset) := by
  obtain ⟨tokens, htokens, hparse⟩ := Result.bind_eq_ok_iff.mp h
  obtain ⟨ds, rfl, rfl, hread, hlevels⟩ := parseWithin_eq_ok_iff.mp hparse
  obtain ⟨d, ids, rfl, hinside, hd⟩ := derivedIn_blockStmts ds 1 s hs
  obtain ⟨first, last, hfirst, hlast, hspan⟩ := d.exists_ends (1 + ids)
  obtain ⟨text, vs, hcuts, hvs, hshift⟩ := tokenize_slice hsize htokens hinside hfirst hlast
  obtain ⟨q, s', hq, hbody, hs'⟩ := exists_parse_of_shift hshift
    (fun t ht => hread t (hinside.subset ht)) (Nat.le_trans (Nat.succ_le_succ hd) hlevels) ids
  rw [hspan]
  exact ⟨text, hcuts, q, s', ids, Result.bind_eq_ok_iff.mpr ⟨vs, hvs, hq⟩, hbody, hs'⟩

/-- The statement that a node is. -/
def Node.stmt? : Node → Option Stmt
  | stmt s => some s
  | _ => none

/-- A loop inside a branch is cut out by its bytes, of which a letter has two. -/
theorem readProgram_slice_of_loop :
    ∃ p s, "if ok do\n  while ok do print 'ü'; end\nelse\nend".utf8ByteSize < 2 ^ 32 ∧
      readProgram "if ok do\n  while ok do print 'ü'; end\nelse\nend" defaultFile = .ok p ∧
      Node.stmt s ∈ p.nodes ∧ s.span.start.offset = 11 ∧ s.span.stop.offset = 38 ∧
      ∃ text, s.span.CutsOut "if ok do\n  while ok do print 'ü'; end\nelse\nend" text ∧
        ∃ q s' ids, readProgram text defaultFile = .ok q ∧ q.body = [s'] ∧
          s = s'.mapTag (.shift ids 11) := by
  let source := "if ok do\n  while ok do print 'ü'; end\nelse\nend"
  have hsize : source.utf8ByteSize < 2 ^ 32 := by decide +kernel
  have hok : (readProgram source defaultFile).isOk := by decide +kernel
  have hloop : (readProgram source defaultFile).toOption.map (fun p =>
      (p.nodes.filterMap Node.stmt?).any fun s =>
        s.span.start.offset = 11 ∧ s.span.stop.offset = 38) = some true := by decide +kernel
  obtain ⟨p, h⟩ := Result.exists_of_isOk hok
  rw [h] at hloop
  obtain ⟨s, hs, hspan⟩ := List.any_eq_true.mp (Option.some.inj hloop)
  obtain ⟨hstart, hstop⟩ := of_decide_eq_true hspan
  obtain ⟨node, hnode, hstmt⟩ := List.mem_filterMap.mp hs
  cases node with
  | stmt s' =>
    obtain rfl := Option.some.inj hstmt
    have hslice := readProgram_slice hsize h hnode
    rw [hstart] at hslice
    exact ⟨p, _, hsize, h, hnode, hstart, hstop, hslice⟩
  | target ident => cases hstmt
  | expr e => cases hstmt
  | elseBranch body tag => cases hstmt

end BlockLang
