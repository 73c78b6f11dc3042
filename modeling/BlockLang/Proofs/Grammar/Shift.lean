import BlockLang.Proofs.Grammar.Derivation
import BlockLang.Proofs.Token.Shift

/-! # Shifts of programs — the rules look at no place and no identity

  The tokens of a derivation may stand further on in a source, and its nodes
  may be numbered further on.  By the same rules the same program is derived
  there: only its spans and its identities are further on, all by as much. -/

namespace BlockLang

/-! ### Tags of programs -/

/-- The tag with an identity further on, at the same place. -/
def Tag.raise (ids : Nat) (tag : Tag) : Tag := { tag with id := tag.id + ids }

/-- The tag with an identity further on, as many bytes further on. -/
def Tag.shift (ids : Nat) (bytes : UInt32) (tag : Tag) : Tag :=
  ⟨tag.id + ids, tag.span.shift bytes⟩

/-- The name with another tag. -/
def Ident.mapTag (f : Tag → Tag) (ident : Ident) : Ident := { ident with tag := f ident.tag }

/-- The expression with other tags. -/
def Expr.mapTag (f : Tag → Tag) : Expr → Expr
  | .binary left operator right tag => .binary (left.mapTag f) operator (right.mapTag f) (f tag)
  | .identifier ident => .identifier (ident.mapTag f)
  | .literal value tag => .literal value (f tag)

mutual

/-- The statement with other tags. -/
def Stmt.mapTag (f : Tag → Tag) : Stmt → Stmt
  | .declaration target ty value tag =>
      .declaration (target.mapTag f) ty (value.mapTag f) (f tag)
  | .assignment target value tag => .assignment (target.mapTag f) (value.mapTag f) (f tag)
  | .print value tag => .print (value.mapTag f) (f tag)
  | .whileDo condition body tag => .whileDo (condition.mapTag f) (blockMapTag f body) (f tag)
  | .ifThen condition body tag => .ifThen (condition.mapTag f) (blockMapTag f body) (f tag)
  | .ifThenElse condition body otherwise elseTag tag =>
      .ifThenElse (condition.mapTag f) (blockMapTag f body) (blockMapTag f otherwise) (f elseTag)
        (f tag)

/-- The block with other tags. -/
def blockMapTag (f : Tag → Tag) : List Stmt → List Stmt
  | [] => []
  | s :: ss => s.mapTag f :: blockMapTag f ss

end

theorem blockMapTag_eq_map (f : Tag → Tag) (body : List Stmt) :
    blockMapTag f body = body.map (Stmt.mapTag f) := by
  induction body with
  | nil => rfl
  | cons s ss ih => rw [blockMapTag, ih, List.map_cons]

theorem Expr.tag_mapTag (f : Tag → Tag) (e : Expr) : (e.mapTag f).tag = f e.tag := by
  cases e <;> rfl

/-- No bytes further on the spans are kept. -/
theorem Tag.shift_zero (ids : Nat) : Tag.shift ids 0 = Tag.raise ids := by
  funext tag
  rw [shift, tag.span.shift_zero, raise]

namespace Grammar

variable {nt : Nonterminal} {kind : Kind} {table : Kind → Option Operator}

/-! ### Derivations further on -/

/-- The token further on is of the same kind. -/
def shiftToken (bytes : UInt32) (token : TokenOf kind) : TokenOf kind :=
  ⟨token.1.shift bytes, token.2⟩

def Sign.shift (bytes : UInt32) (sign : Sign table) : Sign table :=
  ⟨sign.token.shift bytes, sign.operator, sign.spells⟩

def Leaf.shift (bytes : UInt32) : Leaf → Leaf
  | integer token => integer (shiftToken bytes token)
  | float token => float (shiftToken bytes token)
  | boolean token => boolean (shiftToken bytes token)
  | string token => string (shiftToken bytes token)
  | identifier token => identifier (shiftToken bytes token)

/-- The phrase as many bytes further on. -/
def Phrase.shift (bytes : UInt32) : {nt : Nonterminal} → Phrase nt → Phrase nt
  | _, leaf l => leaf (l.shift bytes)
  | _, parens opening inner closing =>
      parens (shiftToken bytes opening) (inner.shift bytes) (shiftToken bytes closing)
  | _, ofFactor f => ofFactor (f.shift bytes)
  | _, product left sign right =>
      product (left.shift bytes) (sign.shift bytes) (right.shift bytes)
  | _, ofTerm t => ofTerm (t.shift bytes)
  | _, sum left sign right => sum (left.shift bytes) (sign.shift bytes) (right.shift bytes)

mutual

/-- The sentence as many bytes further on. -/
def Sentence.shift (bytes : UInt32) : Sentence → Sentence
  | .declaration kwVar name colon type equals value semicolon =>
      .declaration (shiftToken bytes kwVar) (shiftToken bytes name) (shiftToken bytes colon)
        (shiftToken bytes type) (shiftToken bytes equals) (value.shift bytes)
        (shiftToken bytes semicolon)
  | .assignment name equals value semicolon =>
      .assignment (shiftToken bytes name) (shiftToken bytes equals) (value.shift bytes)
        (shiftToken bytes semicolon)
  | .print kwPrint value semicolon =>
      .print (shiftToken bytes kwPrint) (value.shift bytes) (shiftToken bytes semicolon)
  | .whileDo kwWhile condition kwDo body kwEnd =>
      .whileDo (shiftToken bytes kwWhile) (condition.shift bytes) (shiftToken bytes kwDo)
        (blockShift bytes body) (shiftToken bytes kwEnd)
  | .ifThen kwIf condition kwDo body kwEnd =>
      .ifThen (shiftToken bytes kwIf) (condition.shift bytes) (shiftToken bytes kwDo)
        (blockShift bytes body) (shiftToken bytes kwEnd)
  | .ifThenElse kwIf condition kwDo body kwElse otherwise kwEnd =>
      .ifThenElse (shiftToken bytes kwIf) (condition.shift bytes) (shiftToken bytes kwDo)
        (blockShift bytes body) (shiftToken bytes kwElse) (blockShift bytes otherwise)
        (shiftToken bytes kwEnd)

/-- The row of sentences as many bytes further on. -/
def blockShift (bytes : UInt32) : List Sentence → List Sentence
  | [] => []
  | s :: ss => s.shift bytes :: blockShift bytes ss

end

/-! ### What stays, and what is further on -/

variable (a b bytes : UInt32)

theorem shiftToken_zero (token : TokenOf kind) : shiftToken 0 token = token :=
  Subtype.ext token.1.shift_zero

theorem Sign.shift_zero (sign : Sign table) : sign.shift 0 = sign := by
  cases sign
  simp only [shift, Token.shift_zero]

theorem shiftToken_shiftToken (token : TokenOf kind) :
    shiftToken b (shiftToken a token) = shiftToken (a + b) token :=
  Subtype.ext (token.1.shift_shift a b)

theorem Sign.shift_shift (sign : Sign table) : (sign.shift a).shift b = sign.shift (a + b) := by
  simp only [shift, Token.shift_shift]

theorem Leaf.shift_shift (l : Leaf) : (l.shift a).shift b = l.shift (a + b) := by
  cases l <;> rw [shift, shift, shift, shiftToken_shiftToken]

theorem Leaf.token_shift (l : Leaf) : (l.shift bytes).token = l.token.shift bytes := by
  cases l <;> rfl

theorem Leaf.shift_zero (l : Leaf) : l.shift 0 = l := by
  cases l <;> rw [shift, shiftToken_zero]

/-- What a leaf spells does not depend on its place. -/
theorem Leaf.expr_shift (l : Leaf) (tag : Tag) (f : Tag → Tag) :
    (l.shift bytes).expr (f tag) = (l.expr tag).mapTag f := by
  cases l <;> rfl

namespace Phrase

theorem shift_zero (d : Phrase nt) : d.shift 0 = d := by
  induction d with
  | leaf l => rw [shift, l.shift_zero]
  | parens opening inner closing ih => rw [shift, ih, shiftToken_zero, shiftToken_zero]
  | ofFactor d ih | ofTerm d ih => rw [shift, ih]
  | product left sign right ihl ihr | sum left sign right ihl ihr =>
    rw [shift, ihl, ihr, sign.shift_zero]

theorem shift_shift (d : Phrase nt) : (d.shift a).shift b = d.shift (a + b) := by
  induction d with
  | leaf l => rw [shift, shift, shift, l.shift_shift]
  | parens opening inner closing ih => simp only [shift, ih, shiftToken_shiftToken]
  | ofFactor d ih | ofTerm d ih => simp only [shift, ih]
  | product left sign right ihl ihr | sum left sign right ihl ihr =>
    simp only [shift, ihl, ihr, sign.shift_shift]

theorem tokens_shift (d : Phrase nt) :
    (d.shift bytes).tokens = d.tokens.map (Token.shift bytes) := by
  induction d with
  | leaf l => rw [shift, tokens, tokens, l.token_shift, List.map_singleton]
  | parens opening inner closing ih => simp [shift, tokens, ih, shiftToken]
  | ofFactor d ih | ofTerm d ih => rw [shift, tokens, ih, tokens]
  | product left sign right ihl ihr | sum left sign right ihl ihr =>
    simp [shift, tokens, ihl, ihr, Sign.shift]

theorem levels_shift (d : Phrase nt) : (d.shift bytes).levels = d.levels := by
  induction d <;> simp_all only [shift, levels]

theorem size_shift (d : Phrase nt) : (d.shift bytes).size = d.size := by
  induction d <;> simp_all only [shift, size]

/-- Two expressions that are further on are joined further on. -/
theorem join_mapTag (left right : Expr) (operator : Operator) (id ids : Nat) :
    join (left.mapTag (.shift ids bytes)) operator (right.mapTag (.shift ids bytes)) (id + ids) =
      (join left operator right id).mapTag (.shift ids bytes) := by
  rw [join, Expr.span, Expr.span, Expr.tag_mapTag, Expr.tag_mapTag]
  rfl

/-- A phrase further on spells the expression further on. -/
theorem expr_shift (d : Phrase nt) (ids : Nat) (first : NodeId) :
    (d.shift bytes).expr (first + ids) = (d.expr first).mapTag (.shift ids bytes) := by
  induction d generalizing first with
  | leaf l =>
    rw [shift, expr, expr, l.token_shift]
    exact l.expr_shift bytes ⟨first, l.token.span⟩ (.shift ids bytes)
  | parens opening inner closing ih => exact ih first
  | ofFactor d ih | ofTerm d ih => exact ih first
  | product left sign right ihl ihr | sum left sign right ihl ihr =>
    rw [shift, expr, expr, ihl, size_shift, size_shift, Nat.add_right_comm first ids, ihr,
      Nat.add_right_comm _ ids]
    exact join_mapTag bytes _ _ sign.operator _ ids

end Phrase

mutual

theorem Sentence.shift_zero (d : Sentence) : d.shift 0 = d := by
  cases d <;> simp only [Sentence.shift, shiftToken_zero, Phrase.shift_zero, blockShift_zero]

theorem blockShift_zero (ds : List Sentence) : blockShift 0 ds = ds := by
  cases ds with
  | nil => rfl
  | cons d ds => rw [blockShift, d.shift_zero, blockShift_zero ds]

end

mutual

theorem Sentence.shift_shift (d : Sentence) : (d.shift a).shift b = d.shift (a + b) := by
  cases d <;> simp only [Sentence.shift, shiftToken_shiftToken, Phrase.shift_shift,
    blockShift_blockShift]

theorem blockShift_blockShift (ds : List Sentence) :
    blockShift b (blockShift a ds) = blockShift (a + b) ds := by
  cases ds with
  | nil => rfl
  | cons d ds => rw [blockShift, blockShift, blockShift, d.shift_shift, blockShift_blockShift ds]

end

mutual

theorem Sentence.tokens_shift (d : Sentence) :
    (d.shift bytes).tokens = d.tokens.map (Token.shift bytes) := by
  cases d <;> simp [Sentence.shift, Sentence.tokens, shiftToken, Phrase.tokens_shift,
    blockTokens_shift]

theorem blockTokens_shift (ds : List Sentence) :
    blockTokens (blockShift bytes ds) = (blockTokens ds).map (Token.shift bytes) := by
  cases ds with
  | nil => rfl
  | cons d ds =>
    rw [blockShift, blockTokens, blockTokens, d.tokens_shift, blockTokens_shift ds,
      List.map_append]

end

mutual

theorem Sentence.levels_shift (d : Sentence) : (d.shift bytes).levels = d.levels := by
  cases d <;> simp only [Sentence.shift, Sentence.levels, Phrase.levels_shift, blockLevels_shift]

theorem blockLevels_shift (ds : List Sentence) :
    blockLevels (blockShift bytes ds) = blockLevels ds := by
  cases ds with
  | nil => rfl
  | cons d ds => rw [blockShift, blockLevels, blockLevels, d.levels_shift, blockLevels_shift ds]

end

mutual

theorem Sentence.size_shift (d : Sentence) : (d.shift bytes).size = d.size := by
  cases d <;> simp only [Sentence.shift, Sentence.size, Phrase.size_shift, blockSize_shift]

theorem blockSize_shift (ds : List Sentence) : blockSize (blockShift bytes ds) = blockSize ds := by
  cases ds with
  | nil => rfl
  | cons d ds => rw [blockShift, blockSize, blockSize, d.size_shift, blockSize_shift ds]

end

mutual

/-- A sentence further on spells the statement further on. -/
theorem Sentence.stmt_shift (d : Sentence) (ids : Nat) (first : NodeId) :
    (d.shift bytes).stmt (first + ids) = (d.stmt first).mapTag (.shift ids bytes) := by
  -- Every number is counted from `first` on, so `ids` comes last in each of them.
  cases d with
  | declaration kwVar name colon type equals value semicolon =>
    rw [Sentence.shift, Sentence.stmt, Sentence.stmt, Stmt.mapTag, value.size_shift,
      Nat.add_right_comm first ids, value.expr_shift, Nat.add_right_comm first ids,
      Nat.add_right_comm _ ids]
    rfl
  | assignment name equals value semicolon =>
    rw [Sentence.shift, Sentence.stmt, Sentence.stmt, Stmt.mapTag, value.size_shift,
      Nat.add_right_comm first ids, value.expr_shift, Nat.add_right_comm first ids,
      Nat.add_right_comm _ ids]
    rfl
  | print kwPrint value semicolon =>
    rw [Sentence.shift, Sentence.stmt, Sentence.stmt, Stmt.mapTag, value.size_shift,
      value.expr_shift, Nat.add_right_comm first ids]
    rfl
  | whileDo kw condition kwDo body kwEnd | ifThen kw condition kwDo body kwEnd =>
    rw [Sentence.shift, Sentence.stmt, Sentence.stmt, Stmt.mapTag, condition.size_shift,
      blockSize_shift, condition.expr_shift, Nat.add_right_comm first ids, blockStmts_shift body,
      Nat.add_right_comm _ ids]
    rfl
  | ifThenElse kwIf condition kwDo body kwElse otherwise kwEnd =>
    rw [Sentence.shift, Sentence.stmt, Sentence.stmt, Stmt.mapTag, condition.size_shift,
      blockSize_shift, blockSize_shift, condition.expr_shift, Nat.add_right_comm first ids,
      blockStmts_shift body, Nat.add_right_comm _ ids, blockStmts_shift otherwise,
      Nat.add_right_comm _ ids, Nat.add_right_comm _ ids]
    rfl

theorem blockStmts_shift (ds : List Sentence) (ids : Nat) (first : NodeId) :
    blockStmts (first + ids) (blockShift bytes ds) =
      blockMapTag (.shift ids bytes) (blockStmts first ds) := by
  cases ds with
  | nil => rfl
  | cons d ds =>
    rw [blockShift, blockStmts, blockStmts, d.stmt_shift, d.size_shift, blockMapTag,
      Nat.add_right_comm first ids, blockStmts_shift ds]

end

end Grammar

end BlockLang
