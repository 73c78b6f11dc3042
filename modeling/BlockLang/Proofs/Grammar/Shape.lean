import BlockLang.Proofs.Grammar.Acceptance

/-! # Shapes — the tree that a derivation stands for

  The shape of a program is what is left of it without identities and spans.
  A derivation has a shape of its own, read off its rules alone: parentheses
  and keywords leave nothing, an else branch stands beside the body of its
  `if`, and a repetition of operators groups to the left.  The parser gives
  exactly the shapes of derivations. -/

namespace BlockLang

open Grammar

/-! ### Shapes of programs -/

/-- The tag of every node of a shape. -/
def Tag.blank : Tag := ⟨0, ⟨.null, .null⟩⟩

def Ident.shape (ident : Ident) : Ident := ⟨ident.name, .blank⟩

/-- An expression without its tags. -/
def Expr.shape : Expr → Expr
  | .binary left operator right _ => .binary left.shape operator right.shape .blank
  | .identifier ident => .identifier ident.shape
  | .literal value _ => .literal value .blank

mutual

/-- A statement without its tags. -/
def Stmt.shape : Stmt → Stmt
  | .declaration target ty value _ => .declaration target.shape ty value.shape .blank
  | .assignment target value _ => .assignment target.shape value.shape .blank
  | .print value _ => .print value.shape .blank
  | .whileDo condition body _ => .whileDo condition.shape (blockShape body) .blank
  | .ifThen condition body _ => .ifThen condition.shape (blockShape body) .blank
  | .ifThenElse condition body otherwise _ _ =>
      .ifThenElse condition.shape (blockShape body) (blockShape otherwise) .blank .blank

/-- A block without its tags. -/
def blockShape : List Stmt → List Stmt
  | [] => []
  | s :: ss => s.shape :: blockShape ss

end

/-- A program without its tags. -/
def Program.shape (p : Program) : List Stmt := blockShape p.body

/-! ### Shapes of derivations -/

namespace Grammar

/-- The tree of a phrase. -/
def Phrase.shape : {nt : Nonterminal} → Phrase nt → Expr
  | _, leaf l => l.expr .blank
  | _, parens _ inner _ => inner.shape
  | _, ofFactor f => f.shape
  | _, product left sign right => .binary left.shape sign.operator right.shape .blank
  | _, ofTerm t => t.shape
  | _, sum left sign right => .binary left.shape sign.operator right.shape .blank

def nameOf (token : Token) : Ident := ⟨token.lexeme, .blank⟩

mutual

/-- The tree of a sentence. -/
def Sentence.shape : Sentence → Stmt
  | .declaration _ name _ type _ value _ =>
      .declaration (nameOf name.1) (typeOf type) value.shape .blank
  | .assignment name _ value _ => .assignment (nameOf name.1) value.shape .blank
  | .print _ value _ => .print value.shape .blank
  | .whileDo _ condition _ body _ => .whileDo condition.shape (derivedShape body) .blank
  | .ifThen _ condition _ body _ => .ifThen condition.shape (derivedShape body) .blank
  | .ifThenElse _ condition _ body _ otherwise _ =>
      .ifThenElse condition.shape (derivedShape body) (derivedShape otherwise) .blank .blank

/-- The trees of a row of sentences. -/
def derivedShape : List Sentence → List Stmt
  | [] => []
  | s :: ss => s.shape :: derivedShape ss

end

/-! ### Repetitions -/

namespace Phrase

variable {nt ntr : Nonterminal} {table : Kind → Option Operator}

/-- The phrase `first`, followed by signs and phrases that are joined to it one
    by one. -/
def joined (join : Phrase nt → Sign table → Phrase ntr → Phrase nt) (first : Phrase nt)
    (more : List (Sign table × Phrase ntr)) : Phrase nt :=
  more.foldl (fun left (sign, right) => join left sign right) first

/-- The tokens of a phrase and of the signs and phrases behind it. -/
def rowTokens (first : Phrase nt) (more : List (Sign table × Phrase ntr)) : List Token :=
  first.tokens ++ more.flatMap fun (sign, right) => sign.token :: right.tokens

/-- The trees of a phrase and of the phrases behind it, joined from the left. -/
def rowShape (first : Phrase nt) (more : List (Sign table × Phrase ntr)) : Expr :=
  more.foldl (fun left (sign, right) => .binary left sign.operator right.shape .blank) first.shape

/-- Every expression is a term followed by signs and terms. -/
theorem exists_eq_joined_sum (d : Phrase .expr) :
    ∃ first more, d = joined sum (ofTerm first) more := by
  match d with
  | ofTerm t => exact ⟨t, [], rfl⟩
  | sum left sign right =>
    obtain ⟨first, more, rfl⟩ := left.exists_eq_joined_sum
    exact ⟨first, more ++ [(sign, right)], by simp [joined]⟩

/-- Every term is a factor followed by signs and factors. -/
theorem exists_eq_joined_product (d : Phrase .term) :
    ∃ first more, d = joined product (ofFactor first) more := by
  match d with
  | ofFactor f => exact ⟨f, [], rfl⟩
  | product left sign right =>
    obtain ⟨first, more, rfl⟩ := left.exists_eq_joined_product
    exact ⟨first, more ++ [(sign, right)], by simp [joined]⟩

section

variable {join : Phrase nt → Sign table → Phrase ntr → Phrase nt}

/-- The tokens of a repetition stand in a row, as if nothing were grouped. -/
theorem tokens_joined
    (hjoin : ∀ left sign right,
      (join left sign right).tokens = left.tokens ++ sign.token :: right.tokens)
    (first : Phrase nt) (more : List (Sign table × Phrase ntr)) :
    (joined join first more).tokens = rowTokens first more := by
  induction more generalizing first with
  | nil => exact (List.append_nil _).symm
  | cons head more ih =>
    have hstep := ih (join first head.1 head.2)
    rw [rowTokens, hjoin, List.append_assoc] at hstep
    exact hstep

/-- The trees of a repetition are joined from the left. -/
theorem shape_joined
    (hjoin : ∀ left sign right,
      (join left sign right).shape = .binary left.shape sign.operator right.shape .blank)
    (first : Phrase nt) (more : List (Sign table × Phrase ntr)) :
    (joined join first more).shape = rowShape first more := by
  induction more generalizing first with
  | nil => rfl
  | cons head more ih =>
    have hstep := ih (join first head.1 head.2)
    rw [rowShape, hjoin] at hstep
    exact hstep

/-- Where all phrases are repetitions, they are the rows, in tokens and trees. -/
theorem exists_iff_row {lift : Phrase ntr → Phrase nt}
    (hall : ∀ d : Phrase nt, ∃ first more, d = joined join (lift first) more)
    (htokens : ∀ first more, (joined join (lift first) more).tokens = rowTokens first more)
    (hshape : ∀ first more, (joined join (lift first) more).shape = rowShape first more)
    (ts : List Token) (e : Expr) :
    (∃ d : Phrase nt, d.tokens = ts ∧ d.shape = e) ↔
      ∃ (first : Phrase ntr) (more : List (Sign table × Phrase ntr)),
        rowTokens first more = ts ∧ rowShape first more = e := by
  constructor
  · rintro ⟨d, rfl, rfl⟩
    obtain ⟨first, more, rfl⟩ := hall d
    exact ⟨first, more, (htokens first more).symm, (hshape first more).symm⟩
  · rintro ⟨first, more, rfl, rfl⟩
    exact ⟨_, htokens first more, hshape first more⟩

end

/-- The expressions are the rows of terms with signs between them. -/
theorem exists_expr_iff_row (ts : List Token) (e : Expr) :
    (∃ d : Phrase .expr, d.tokens = ts ∧ d.shape = e) ↔
      ∃ (first : Phrase .term) (more : List (Sign sumOperator? × Phrase .term)),
        rowTokens first more = ts ∧ rowShape first more = e :=
  exists_iff_row exists_eq_joined_sum
    (fun first more => tokens_joined (fun _ _ _ => rfl) (ofTerm first) more)
    (fun first more => shape_joined (fun _ _ _ => rfl) (ofTerm first) more) ts e

/-- The terms are the rows of factors with signs between them. -/
theorem exists_term_iff_row (ts : List Token) (e : Expr) :
    (∃ d : Phrase .term, d.tokens = ts ∧ d.shape = e) ↔
      ∃ (first : Phrase .factor) (more : List (Sign productOperator? × Phrase .factor)),
        rowTokens first more = ts ∧ rowShape first more = e :=
  exists_iff_row exists_eq_joined_product
    (fun first more => tokens_joined (fun _ _ _ => rfl) (ofFactor first) more)
    (fun first more => shape_joined (fun _ _ _ => rfl) (ofFactor first) more) ts e

end Phrase

/-! ### Agreement -/

theorem Leaf.expr_shape (l : Leaf) (tag : Tag) : (l.expr tag).shape = l.expr .blank := by
  cases l <;> rfl

/-- Numbering a phrase does not change its tree. -/
theorem Phrase.expr_shape {nt : Nonterminal} (d : Phrase nt) (first : NodeId) :
    (d.expr first).shape = d.shape := by
  induction d generalizing first with
  | leaf l => exact l.expr_shape _
  | parens opening inner closing ih => exact ih first
  | ofFactor f ih => exact ih first
  | product left sign right ihl ihr =>
    rw [expr, join, Expr.shape, ihl, ihr, shape]
  | ofTerm t ih => exact ih first
  | sum left sign right ihl ihr =>
    rw [expr, join, Expr.shape, ihl, ihr, shape]

mutual

/-- Numbering a sentence does not change its tree. -/
theorem Sentence.stmt_shape (first : NodeId) (d : Sentence) : (d.stmt first).shape = d.shape := by
  cases d with
  | declaration kwVar name colon type equals value semicolon =>
    rw [Sentence.stmt, Stmt.shape, value.expr_shape, Sentence.shape]
    rfl
  | assignment name equals value semicolon =>
    rw [Sentence.stmt, Stmt.shape, value.expr_shape, Sentence.shape]
    rfl
  | print kwPrint value semicolon =>
    rw [Sentence.stmt, Stmt.shape, value.expr_shape, Sentence.shape]
  | whileDo kwWhile condition kwDo body kwEnd =>
    rw [Sentence.stmt, Stmt.shape, condition.expr_shape, blockStmts_shape _ body, Sentence.shape]
  | ifThen kwIf condition kwDo body kwEnd =>
    rw [Sentence.stmt, Stmt.shape, condition.expr_shape, blockStmts_shape _ body, Sentence.shape]
  | ifThenElse kwIf condition kwDo body kwElse otherwise kwEnd =>
    rw [Sentence.stmt, Stmt.shape, condition.expr_shape, blockStmts_shape _ body,
      blockStmts_shape _ otherwise, Sentence.shape]

theorem blockStmts_shape (first : NodeId) (ds : List Sentence) :
    blockShape (blockStmts first ds) = derivedShape ds := by
  cases ds with
  | nil => rfl
  | cons d ds => rw [blockStmts, blockShape, Sentence.stmt_shape _ d, blockStmts_shape _ ds,
      derivedShape]

end

/-- A derivation and its program have one tree. -/
theorem program_shape (d : List Sentence) : (program d).shape = derivedShape d :=
  blockStmts_shape 1 d

end Grammar

/-- The parser gives a program of some shape for a row of tokens exactly when
    the tokens derive from the grammar by a derivation of that shape, every
    type name and number among them can be read, and no more than 256 levels
    are open at once, the level of the program included.  The expressions of
    the grammar are the rows of terms with signs between them, and the terms
    those of factors, joined from the left. -/
theorem parse_shape_iff (ts : List Token) (shape : List Stmt) :
    ((∃ p, parse ts = .ok p ∧ p.shape = shape) ↔
      ∃ d : List Sentence, blockTokens d = ts ∧ derivedShape d = shape ∧
        (∀ t ∈ ts, t.Readable) ∧ blockLevels d + 1 ≤ 256) ∧
    (∀ (us : List Token) (e : Expr), (∃ d : Phrase .expr, d.tokens = us ∧ d.shape = e) ↔
      ∃ (first : Phrase .term) (more : List (Sign sumOperator? × Phrase .term)),
        Phrase.rowTokens first more = us ∧ Phrase.rowShape first more = e) ∧
    (∀ (us : List Token) (e : Expr), (∃ d : Phrase .term, d.tokens = us ∧ d.shape = e) ↔
      ∃ (first : Phrase .factor) (more : List (Sign productOperator? × Phrase .factor)),
        Phrase.rowTokens first more = us ∧ Phrase.rowShape first more = e) := by
  refine ⟨?_, Phrase.exists_expr_iff_row, Phrase.exists_term_iff_row⟩
  constructor
  · intro h
    obtain ⟨p, hp, rfl⟩ := h
    obtain ⟨d, rfl, htokens, hread, hlev⟩ := parseWithin_eq_ok_iff.mp hp
    exact ⟨d, htokens, (program_shape d).symm, hread, hlev⟩
  · intro h
    obtain ⟨d, htokens, rfl, hread, hlev⟩ := h
    exact ⟨program d, parseWithin_eq_ok_iff.mpr ⟨d, rfl, htokens, hread, hlev⟩, program_shape d⟩

end BlockLang
