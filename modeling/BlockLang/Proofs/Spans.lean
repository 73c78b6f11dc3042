import BlockLang.Compile
import BlockLang.Proofs.Grammar.Acceptance
import BlockLang.Proofs.Grammar.Parts
import BlockLang.Proofs.Token.Cutting

/-! # Spans — where the nodes of a program stand in its source

  The tokens of a source stand in it one behind the other.  Every node of a
  program covers the part of the derivation that it stands for, from its first
  token to its last one.  The rows of the parts directly inside a part stand
  one after the other in its row, so the spans below a node lie inside its
  span, apart from each other and in the order of the source. -/

namespace BlockLang

open Grammar

/-! ### Stretches of a file -/

/-- The span is a stretch of the file, and not empty. -/
structure Span.LiesIn (span : Span) (file : String) : Prop where
  start_file : span.start.file = file
  stop_file : span.stop.file = file
  lt : span.start.offset.toNat < span.stop.offset.toNat

/-- The one span ends before the other one starts, or where it does. -/
def Span.Before (a b : Span) : Prop := a.stop.offset.toNat ≤ b.start.offset.toNat

/-- The one span lies inside the other one. -/
structure Span.Inside (inner outer : Span) : Prop where
  start : outer.start.offset.toNat ≤ inner.start.offset.toNat
  stop : inner.stop.offset.toNat ≤ outer.stop.offset.toNat

/-- The spans of the nodes lie inside the span, one behind the other. -/
structure Span.Holds (outer : Span) (nodes : List Node) : Prop where
  inside : ∀ node ∈ nodes, node.tag.span.Inside outer
  apart : nodes.Pairwise fun a b => a.tag.span.Before b.tag.span

/-! ### Tokens in a file -/

/-- The tokens stand in the file one behind the other. -/
structure InOrder (file : String) (row : List Token) : Prop where
  liesIn : ∀ token ∈ row, token.span.LiesIn file
  before : row.Pairwise fun a b => a.span.Before b.span

section

variable {file : String} {row row' : List Token} {token : Token} {span : Span}

/-- The tokens of a cut stand in order, behind the start of the cut. -/
theorem Cut.inOrder {offset : Nat} {text : List Char} (h : Cut file offset text row) :
    InOrder file row ∧ ∀ token ∈ row, offset ≤ token.span.start.offset.toNat := by
  induction h with
  | done => exact ⟨⟨nofun, .nil⟩, nofun⟩
  | gap hrun hall hhead hcut ih =>
    refine ⟨ih.1, fun token htoken => ?_⟩
    exact Nat.le_trans (Nat.le_add_right _ _) (ih.2 token htoken)
  | @piece offset text kind lexeme span rest tokens hpiece hcovers hcut ih =>
    obtain ⟨⟨hlies, hbefore⟩, hbehind⟩ := ih
    have hpos : 0 < byteSize text := by
      obtain ⟨c, more, rfl⟩ := List.exists_cons_of_ne_nil hpiece.spells.ne_nil
      rw [byteSize_cons]
      exact Nat.add_pos_left c.utf8Size_pos _
    have hspan : span.LiesIn file := by
      refine ⟨hcovers.start_file, hcovers.stop_file, ?_⟩
      rw [hcovers.start_offset, hcovers.stop_offset]
      exact Nat.lt_add_of_pos_right hpos
    refine ⟨⟨List.forall_mem_cons.mpr ⟨hspan, hlies⟩, .cons (fun token htoken => ?_) hbefore⟩,
      List.forall_mem_cons.mpr ⟨Nat.le_of_eq hcovers.start_offset.symm, fun token htoken => ?_⟩⟩
    · exact Nat.le_trans (Nat.le_of_eq hcovers.stop_offset) (hbehind token htoken)
    · exact Nat.le_trans (Nat.le_add_right _ _) (hbehind token htoken)

namespace InOrder

theorem sublist (h : InOrder file row) (hsub : row'.Sublist row) : InOrder file row' :=
  ⟨fun token htoken => h.liesIn token (hsub.subset htoken), h.before.sublist hsub⟩

/-- No token of a row starts before the first one. -/
theorem head_le (h : InOrder file row) {head : Token} (hhead : row.head? = some head)
    (htoken : token ∈ row) :
    head.span.start.offset.toNat ≤ token.span.start.offset.toNat := by
  obtain ⟨more, rfl⟩ := List.head?_eq_some_iff.mp hhead
  rcases List.mem_cons.mp htoken with rfl | htoken
  · exact Nat.le_refl _
  · have hlt := (h.liesIn head List.mem_cons_self).lt
    have hbefore := List.rel_of_pairwise_cons h.before htoken
    exact Nat.le_trans (Nat.le_of_lt hlt) hbefore

/-- No token of a row ends behind the last one. -/
theorem le_last (h : InOrder file row) {last : Token} (hlast : row.getLast? = some last)
    (htoken : token ∈ row) : token.span.stop.offset.toNat ≤ last.span.stop.offset.toNat := by
  obtain ⟨more, rfl⟩ := List.getLast?_eq_some_iff.mp hlast
  rcases List.mem_append.mp htoken with htoken | htoken
  · have hlt := (h.liesIn last (List.mem_append_right _ (List.mem_singleton_self _))).lt
    have hbefore := (List.pairwise_append.mp h.before).2.2 token htoken last
      (List.mem_singleton_self _)
    exact Nat.le_trans hbefore (Nat.le_of_lt hlt)
  · rw [List.mem_singleton.mp htoken]

end InOrder

/-! ### Nodes in a file -/

/-- The span of a node is a stretch of the file. -/
theorem InOrder.liesIn_of_spans {part : Part} (h : InOrder file part.row)
    (hspan : part.Spans span) : span.LiesIn file := by
  obtain ⟨head, last, hhead, hlast, -, rfl⟩ := hspan
  have hfirst := h.liesIn head (List.mem_of_mem_head? hhead)
  have hfinal := h.liesIn last (List.mem_of_getLast? hlast)
  refine ⟨hfirst.start_file, hfinal.stop_file, ?_⟩
  exact Nat.lt_of_lt_of_le hfirst.lt (h.le_last hlast (List.mem_of_mem_head? hhead))

/-- A part whose row stands among other tokens lies between the first and the
    last of them. -/
theorem InOrder.inside_of_spans {part : Part} (h : InOrder file row) {head last : Token}
    (hhead : row.head? = some head) (hlast : row.getLast? = some last)
    (hsub : part.row.Sublist row) (hspan : part.Spans span) :
    span.Inside (spanOf head last) := by
  obtain ⟨head', last', hhead', hlast', -, rfl⟩ := hspan
  have hfirst := hsub.subset (List.mem_of_mem_head? hhead')
  have hfinal := hsub.subset (List.mem_of_getLast? hlast')
  exact ⟨h.head_le hhead hfirst, h.le_last hlast hfinal⟩

/-- Parts whose rows stand one behind the other have spans one behind the
    other. -/
theorem before_of_spans {part part' : Part} {span' : Span}
    (h : ∀ a ∈ part.row, ∀ b ∈ part'.row, a.span.Before b.span) (hspan : part.Spans span)
    (hspan' : part'.Spans span') : span.Before span' := by
  obtain ⟨-, last, -, hlast, -, rfl⟩ := hspan
  obtain ⟨head, -, hhead, -, -, rfl⟩ := hspan'
  exact h last (List.mem_of_getLast? hlast) head (List.mem_of_mem_head? hhead)

/-- Nodes that stand for parts with rows one behind the other stand one behind
    the other too. -/
theorem StandFor.pairwise {nodes : List Node} {parts : List Part} (h : StandFor nodes parts)
    (hparts : parts.Pairwise fun part part' =>
      ∀ a ∈ part.row, ∀ b ∈ part'.row, a.span.Before b.span) :
    nodes.Pairwise fun a b => a.tag.span.Before b.tag.span := by
  induction h with
  | nil => exact .nil
  | cons hnode hnodes ih =>
    obtain ⟨hfirst, hmore⟩ := List.pairwise_cons.mp hparts
    refine .cons (fun b hb => ?_) (ih hmore)
    obtain ⟨part', hpart', hb⟩ := StandFor.exists_part hnodes hb
    exact before_of_spans (hfirst part' hpart') hnode.spans hb.spans

/-- Nodes whose parts stand in a row one after the other are held by the span
    of the row. -/
theorem InOrder.holds (h : InOrder file row) {head last : Token} (hhead : row.head? = some head)
    (hlast : row.getLast? = some last) {nodes : List Node} {parts : List Part}
    (hstand : StandFor nodes parts) (hsub : (parts.flatMap Part.row).Sublist row) :
    (spanOf head last).Holds nodes where
  inside node hnode := by
    obtain ⟨part, hpart, hnode⟩ := hstand.exists_part hnode
    exact h.inside_of_spans hhead hlast ((Part.row_sublist_flatMap hpart).trans hsub) hnode.spans
  apart := hstand.pairwise (List.pairwise_flatMap.mp (h.sublist hsub).before).2

end

/-! ### Programs -/

/-- The nodes of a parsed program stand, in order, for the parts of a derivation
    of its tokens, and cover them: a statement from its first token to the
    semicolon or `end` that is its last one, an else branch from its `else` to
    the `end` of its `if`, an expression from its first operand to its last
    one, and a target its name; the program covers all tokens.  If these are
    the tokens of a source, the nodes below a node lie inside its span, apart
    from each other and in the order of the source. -/
theorem spans_of_parse {ts : List Token} {p : Program} (h : parse ts = .ok p) :
    ∃ d : List Sentence, p = program d ∧ blockTokens d = ts ∧
      List.Forall₂ (fun node part => node.StandsFor part ∧ part.Spans node.tag.span)
        p.nodes (blockParts d) ∧
      p.tag.span = ⟨(ts.head?.map (·.span.start)).getD .null,
        (ts.getLast?.map (·.span.stop)).getD .null⟩ ∧
      ∀ source file, source.utf8ByteSize < 2 ^ 32 → tokenize source file = .ok ts →
        (∀ node ∈ p.nodes, node.tag.span.LiesIn file ∧ node.tag.span.Holds node.children) ∧
        p.tag.span.Holds (p.body.map .stmt) := by
  obtain ⟨d, rfl, rfl, -⟩ := parseWithin_eq_ok_iff.mp h
  have hstand : StandFor (program d).nodes (blockParts d) := standFor_blockParts d 1
  refine ⟨d, rfl, rfl, hstand.imp fun _ _ hnode => ⟨hnode, hnode.spans⟩, rfl, ?_⟩
  intro source file hsize htokens
  have horder := ((tokenize_eq_ok_iff hsize).mp htokens).inOrder.1
  constructor
  · intro node hnode
    obtain ⟨part, hpart, first, rfl⟩ := hstand.exists_part hnode
    have hrow := horder.sublist (row_sublist_blockTokens d part hpart)
    have hspans := part.spans_node first
    refine ⟨hrow.liesIn_of_spans hspans, ?_⟩
    obtain ⟨head, last, hhead, hlast, -, hspan⟩ := hspans
    rw [hspan]
    exact hrow.holds hhead hlast (part.standFor_children first) part.children_sublist
  · have hbody := standFor_sentences d 1
    cases hhead : (blockTokens d).head? with
    | none =>
      -- Without tokens there are no statements.
      have hnil : blockTokens d = [] := List.head?_eq_none_iff.mp hhead
      cases d with
      | nil => exact ⟨nofun, .nil⟩
      | cons s ss =>
        obtain ⟨head, -, hs, -⟩ := s.exists_ends 1
        rw [(List.append_eq_nil_iff.mp hnil).1] at hs
        cases hs
    | some head =>
      obtain ⟨last, hlast⟩ := Option.isSome_iff_exists.mp
        (List.getLast?_isSome.mpr (List.ne_nil_of_mem (List.mem_of_mem_head? hhead)))
      have hspan : (program d).tag.span = spanOf head last := by
        simp only [program, hhead, hlast]
        rfl
      rw [hspan]
      refine horder.holds hhead hlast hbody ?_
      rw [flatMap_row_sentences]

/-- Parentheses around the first operand and at the end of a value, and an else
    branch that ends with its `if`. -/
theorem spans_of_parse_of_branch :
    ∃ ts p, tokenize "if (a) + 1 do x = ((b)); else print (c); end" defaultFile = .ok ts ∧
      parse ts = .ok p ∧
      p.nodes.map (fun node => (node.tag.span.start.offset, node.tag.span.stop.offset)) =
        [(0, 44), (4, 10), (4, 5), (9, 10), (14, 24), (14, 15), (20, 21), (25, 44), (30, 40),
          (37, 38)] ∧
      (∀ node ∈ p.nodes, node.tag.span.LiesIn defaultFile ∧
        node.tag.span.Holds node.children) ∧
      p.tag.span.Holds (p.body.map .stmt) := by
  let source := "if (a) + 1 do x = ((b)); else print (c); end"
  have hok : (readProgram source defaultFile).isOk := by decide +kernel
  obtain ⟨p, hread⟩ := Result.exists_of_isOk hok
  obtain ⟨ts, htokens, hparse⟩ := Result.bind_eq_ok_iff.mp hread
  have hspans : (readProgram source defaultFile).toOption.map (fun p => p.nodes.map fun node =>
      (node.tag.span.start.offset, node.tag.span.stop.offset)) =
        some [(0, 44), (4, 10), (4, 5), (9, 10), (14, 24), (14, 15), (20, 21), (25, 44), (30, 40),
          (37, 38)] := by decide +kernel
  rw [hread] at hspans
  obtain ⟨d, -, -, -, -, hnested⟩ := spans_of_parse hparse
  obtain ⟨hnodes, hroot⟩ := hnested source defaultFile (by decide +kernel) htokens
  exact ⟨ts, p, htokens, hparse, Option.some.inj hspans, hnodes, hroot⟩

end BlockLang
