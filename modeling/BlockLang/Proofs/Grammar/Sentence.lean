import BlockLang.Proofs.Grammar.Expression

/-! # Reading sentences — statements come from derivations

  By the rules of the language, a statement is read exactly when a sentence
  stands at the front of the tokens, its texts can be read and its levels fit
  into the room that is left.  A statement is read piece by piece: tokens of
  expected kinds, a value up to its semicolon, or the head of a `while` or an
  `if` up to the end of its first block.  Blocks are read by a reader of which
  only its room is known. -/

namespace BlockLang

open Grammar

/-! ### How sentences start -/

/-- The rule by which a sentence is read. -/
def Grammar.Sentence.rule : Sentence → StatementRule
  | declaration .. => .declaration
  | assignment .. => .assignment
  | print .. => .print
  | whileDo .. => .whileDo
  | ifThen .. | ifThenElse .. => .ifThen

/-- The first token of a sentence selects its rule. -/
theorem Grammar.Sentence.exists_tokens_eq_cons (s : Sentence) :
    ∃ token ts, s.tokens = token :: ts ∧ Rules.standardStatement? token.kind = some s.rule := by
  cases s with
  | declaration kwVar name colon type equals value semicolon =>
    exact ⟨kwVar.1, _, by rw [Sentence.tokens], by rw [kwVar.2]; rfl⟩
  | assignment name equals value semicolon =>
    exact ⟨name.1, _, by rw [Sentence.tokens], by rw [name.2]; rfl⟩
  | print kwPrint value semicolon =>
    exact ⟨kwPrint.1, _, by rw [Sentence.tokens], by rw [kwPrint.2]; rfl⟩
  | whileDo kwWhile condition kwDo body kwEnd =>
    exact ⟨kwWhile.1, _, by rw [Sentence.tokens], by rw [kwWhile.2]; rfl⟩
  | ifThen kwIf condition kwDo body kwEnd =>
    exact ⟨kwIf.1, _, by rw [Sentence.tokens], by rw [kwIf.2]; rfl⟩
  | ifThenElse kwIf condition kwDo body kwElse otherwise kwEnd =>
    exact ⟨kwIf.1, _, by rw [Sentence.tokens], by rw [kwIf.2]; rfl⟩

namespace Parser

variable {p q : Parser} {room n : Nat} {ts : List Token} {s : Stmt} {block : Parse (List Stmt)}

/-- What comes next, if anything does, ends a block. -/
def EndsBlock (q : Parser) : Prop := ∀ kind, q.currentKind? = some kind → endsBlock kind = true

/-- Between `p` and `q` stand sentences that take less than `room` levels and
    whose texts can be read. -/
structure SpansBlock (room : Nat) (p : Parser) (ds : List Sentence) (q : Parser) : Prop where
  levels : blockLevels ds < room
  readable : ∀ t ∈ blockTokens ds, t.Readable
  moves : Moves p q (blockTokens ds) (blockSize ds)

/-- Between `p` and `q` stands a sentence that takes no more than `room` levels
    and whose texts can be read. -/
structure SpansSentence (room : Nat) (p : Parser) (d : Sentence) (q : Parser) : Prop where
  levels : d.levels ≤ room
  readable : ∀ t ∈ d.tokens, t.Readable
  moves : Moves p q d.tokens d.size

/-- The reader gives the blocks that take less than `room` levels. -/
def ReadsBlocks (room : Nat) (block : Parse (List Stmt)) : Prop :=
  ∀ {p body q}, Ready room p → (block p = .ok body q ↔
    ∃ ds, body = blockStmts p.nextId ds ∧ SpansBlock room p ds q ∧ EndsBlock q)

/-! ### The pieces of a sentence -/

/-- Only type names and numbers have a text to be read. -/
theorem readable_of_tokenOf {kind : Kind} (token : TokenOf kind) (htype : kind ≠ .typeName)
    (hint : kind ≠ .integer) (hfloat : kind ≠ .float) : token.1.Readable := by
  obtain ⟨token, rfl⟩ := token
  unfold Token.Readable
  split <;> simp_all

/-- A phrase stops in front of a token that is no operator. -/
theorem stops_of_moves {token : Token} (h : Moves p q (token :: ts) n)
    (htoken : token.kind.power = .lowest) : Stops .expr p := by
  intro kind hkind
  rw [h.currentKind?_eq] at hkind
  cases hkind
  rw [htoken]
  exact Nat.le_refl _

/-- A block ends in front of a token that ends it. -/
theorem endsBlock_of_moves {token : Token} (h : Moves p q (token :: ts) n)
    (htoken : endsBlock token.kind = true) : EndsBlock p := by
  intro kind hkind
  rw [h.currentKind?_eq] at hkind
  cases hkind
  exact htoken

/-- First a token of the expected kind is read. -/
theorem expect_bind_eq_ok_iff {kind : Kind} {f : Token → Parse Stmt} :
    (expect kind >>= f) p = .ok s q ↔
      ∃ (token : TokenOf kind) (r : Parser), Moves p r [token.1] 0 ∧ f token.1 r = .ok s q := by
  simp only [bind_eq_ok_iff, expect_iff_moves]
  constructor
  · intro h
    obtain ⟨token, r, ⟨hkind, hm⟩, h⟩ := h
    exact ⟨⟨token, hkind⟩, r, hm, h⟩
  · intro h
    obtain ⟨token, r, hm, h⟩ := h
    exact ⟨token.1, r, ⟨token.2, hm⟩, h⟩

/-- First an identity is drawn for a target. -/
theorem identOf_bind_eq_ok_iff {token : Token} {f : Ident → Parse Stmt} :
    (identOf token >>= f) p = .ok s q ↔
      ∃ r, Moves p r [] 1 ∧ f (Grammar.identOf token p.nextId) r = .ok s q := by
  simp only [bind_eq_ok_iff, identOf_iff_moves]
  constructor
  · intro h
    obtain ⟨ident, r, ⟨rfl, hm⟩, h⟩ := h
    exact ⟨r, hm, h⟩
  · intro h
    obtain ⟨r, hm, h⟩ := h
    exact ⟨_, r, ⟨rfl, hm⟩, h⟩

/-- First the closing token of a node is read, and the node's tag ends there. -/
theorem close_bind_eq_ok_iff {kind : Kind} {start : Position} {f : Tag → Parse Stmt} :
    (do let _ ← expect kind; let tag ← closeTag start; f tag : Parse Stmt) p = .ok s q ↔
      ∃ (closing : TokenOf kind) (r : Parser), Moves p r [closing.1] 1 ∧
        f ⟨p.nextId, ⟨start, closing.1.span.stop⟩⟩ r = .ok s q := by
  rw [expect_bind_eq_ok_iff]
  simp only [bind_eq_ok_iff, closeTag_iff_moves]
  constructor
  · intro h
    obtain ⟨closing, p₁, h₁, tag, r, ⟨rfl, h₂⟩, h⟩ := h
    refine ⟨closing, r, h₁.trans h₂, ?_⟩
    rwa [h₁.reached_of_token, h₁.nextId] at h
  · intro h
    obtain ⟨closing, r, hm, h⟩ := h
    obtain ⟨p₁, h₁, h₂⟩ : ∃ p₁, Moves p p₁ [closing.1] 0 ∧ Moves p₁ r [] 1 := Moves.split hm
    refine ⟨closing, p₁, h₁, _, r, ⟨rfl, h₂⟩, ?_⟩
    rwa [h₁.reached_of_token, h₁.nextId]

/-- The end of a statement without blocks: a value, a semicolon and the tag. -/
theorem value_eq_ok_iff (hp : Ready room p) {start : Position} {finish : Expr → Tag → Stmt} :
    (do
      let value ← expr room .lowest
      let _ ← expect .semicolon
      let tag ← closeTag start
      return finish value tag : Parse Stmt) p = .ok s q ↔
    ∃ (value : Phrase .expr) (semicolon : TokenOf .semicolon),
      s = finish (value.expr p.nextId)
        ⟨p.nextId + value.size, ⟨start, semicolon.1.span.stop⟩⟩ ∧
      value.levels < room ∧ (∀ t ∈ value.tokens, t.Readable) ∧
      Moves p q (value.tokens ++ [semicolon.1]) (value.size + 1) := by
  rw [bind_eq_ok_iff]
  constructor
  · intro h
    obtain ⟨e, p₁, he, h⟩ := h
    obtain ⟨semicolon, p₂, h₂, h⟩ := close_bind_eq_ok_iff.mp h
    obtain ⟨rfl, rfl⟩ := pure_eq_ok_iff.mp h
    obtain ⟨⟨value, rfl, hvalue⟩, -⟩ := (reads_expr room .expr hp).mp he
    refine ⟨value, semicolon, ?_, hvalue.levels, hvalue.readable, hvalue.moves.trans h₂⟩
    rw [hvalue.moves.nextId]
  · intro h
    obtain ⟨value, semicolon, rfl, hlev, hread, hm⟩ := h
    -- The semicolon is no operator, so the value stops in front of it.
    obtain ⟨p₁, h₁, h₂⟩ := hm.split
    have hstops : Stops .expr p₁ := stops_of_moves h₂ (by rw [semicolon.2]; rfl)
    refine ⟨value.expr p.nextId, p₁, ?_, close_bind_eq_ok_iff.mpr ⟨semicolon, q, h₂, ?_⟩⟩
    · exact (reads_expr room .expr hp).mpr ⟨⟨value, rfl, hlev, hread, h₁⟩, hstops⟩
    · rw [h₁.nextId]
      rfl

/-! ### Statements without blocks -/

theorem print_eq_ok_iff (hp : Ready room p) :
    print (expr room .lowest) p = .ok s q ↔
      ∃ kwPrint value semicolon, s = (Sentence.print kwPrint value semicolon).stmt p.nextId ∧
        SpansSentence room p (.print kwPrint value semicolon) q := by
  simp only [print, monadLift_self]
  rw [expect_bind_eq_ok_iff]
  constructor
  · intro h
    obtain ⟨kwPrint, p₁, h₁, h⟩ := h
    obtain ⟨value, semicolon, rfl, hlev, hread, hm⟩ := (value_eq_ok_iff (hp.moves h₁)).mp h
    refine ⟨kwPrint, value, semicolon, ?_, hlev, ?_, ?_⟩
    · rw [h₁.nextId]
      rfl
    · simp only [Sentence.tokens, List.forall_mem_cons, List.forall_mem_append]
      exact ⟨readable_of_tokenOf kwPrint nofun nofun nofun, hread,
        readable_of_tokenOf semicolon nofun nofun nofun, List.forall_mem_nil _⟩
    · rw [Sentence.tokens, Sentence.size]
      simpa using h₁.trans hm
  · intro h
    obtain ⟨kwPrint, value, semicolon, rfl, hlev, hread, hm⟩ := h
    rw [Sentence.tokens] at hread
    rw [Sentence.tokens, Sentence.size] at hm
    obtain ⟨p₁, h₁, hm⟩ : ∃ p₁, Moves p p₁ [kwPrint.1] 0 ∧
        Moves p₁ q (value.tokens ++ [semicolon.1]) (value.size + 1) :=
      Moves.split (by simpa using hm)
    refine ⟨kwPrint, p₁, h₁, (value_eq_ok_iff (hp.moves h₁)).mpr ⟨value, semicolon, ?_, hlev,
      fun t ht => hread t (by simp [ht]), hm⟩⟩
    rw [h₁.nextId]
    rfl

theorem assignment_eq_ok_iff (hp : Ready room p) :
    assignment (expr room .lowest) p = .ok s q ↔
      ∃ name equals value semicolon,
        s = (Sentence.assignment name equals value semicolon).stmt p.nextId ∧
          SpansSentence room p (.assignment name equals value semicolon) q := by
  simp only [assignment, monadLift_self]
  rw [expect_bind_eq_ok_iff]
  constructor
  · intro h
    obtain ⟨name, p₁, h₁, h⟩ := h
    obtain ⟨equals, p₂, h₂, h⟩ := expect_bind_eq_ok_iff.mp h
    obtain ⟨p₃, h₃, h⟩ := identOf_bind_eq_ok_iff.mp h
    -- The target is numbered before the value.
    have hfront : Moves p p₃ [name.1, equals.1] 1 := h₁.trans (h₂.trans h₃)
    have hfirst : p₂.nextId = p.nextId := (h₁.trans h₂).nextId
    obtain ⟨value, semicolon, rfl, hlev, hread, hm⟩ := (value_eq_ok_iff (hp.moves hfront)).mp h
    refine ⟨name, equals, value, semicolon, ?_, hlev, ?_, ?_⟩
    · rw [hfirst, hfront.nextId, Nat.add_right_comm p.nextId 1 value.size]
      rfl
    · simp only [Sentence.tokens, List.forall_mem_cons, List.forall_mem_append]
      exact ⟨readable_of_tokenOf name nofun nofun nofun,
        readable_of_tokenOf equals nofun nofun nofun, hread,
        readable_of_tokenOf semicolon nofun nofun nofun, List.forall_mem_nil _⟩
    · rw [Sentence.tokens, Sentence.size, show value.size + 2 = 1 + (value.size + 1) by omega]
      exact hfront.trans hm
  · intro h
    obtain ⟨name, equals, value, semicolon, rfl, hlev, hread, hm⟩ := h
    rw [Sentence.tokens] at hread
    rw [Sentence.tokens, Sentence.size, show value.size + 2 = 0 + (1 + (value.size + 1)) by omega]
      at hm
    obtain ⟨p₂, h₁₂, hm⟩ : ∃ p₂, Moves p p₂ [name.1, equals.1] 0 ∧
        Moves p₂ q (value.tokens ++ [semicolon.1]) (1 + (value.size + 1)) := Moves.split hm
    obtain ⟨p₁, h₁, h₂⟩ : ∃ p₁, Moves p p₁ [name.1] 0 ∧ Moves p₁ p₂ [equals.1] 0 :=
      Moves.split h₁₂
    obtain ⟨p₃, h₃, hm⟩ : ∃ p₃, Moves p₂ p₃ [] 1 ∧
        Moves p₃ q (value.tokens ++ [semicolon.1]) (value.size + 1) := Moves.split hm
    have hp₃ : Ready room p₃ := (hp.moves h₁₂).moves h₃
    refine ⟨name, p₁, h₁, expect_bind_eq_ok_iff.mpr ⟨equals, p₂, h₂, identOf_bind_eq_ok_iff.mpr
      ⟨p₃, h₃, (value_eq_ok_iff hp₃).mpr ⟨value, semicolon, ?_, hlev,
        fun t ht => hread t (by simp [ht]), hm⟩⟩⟩⟩
    rw [h₁₂.nextId, h₃.nextId, h₁₂.nextId]
    simp only [Nat.add_zero, Nat.add_right_comm p.nextId 1 value.size]
    rfl

/-- The type name of a readable sentence names a type. -/
theorem ofKeyword?_of_readable (type : TokenOf .typeName) (h : type.1.Readable) :
    Ty.ofKeyword? type.1.lexeme = some (Grammar.typeOf type) := by
  simp only [Token.Readable, type.2] at h
  obtain ⟨ty, hty⟩ := Option.isSome_iff_exists.mp h
  rw [Grammar.typeOf, hty]
  rfl

/-- What stands in front of the value of a declaration. -/
theorem declaration_eq_ok_iff_value :
    declaration (expr room .lowest) p = .ok s q ↔
      ∃ (kwVar : TokenOf .kwVar) (name : TokenOf .identifier) (colon : TokenOf .colon)
        (type : TokenOf .typeName) (equals : TokenOf .assignment) (r : Parser),
        type.1.Readable ∧
        Moves p r [kwVar.1, name.1, colon.1, type.1, equals.1] 1 ∧
        (do
          let value ← expr room .lowest
          let _ ← expect .semicolon
          let tag ← closeTag kwVar.1.span.start
          return .declaration (Grammar.identOf name.1 p.nextId) (Grammar.typeOf type) value tag
            : Parse Stmt) r = .ok s q := by
  simp only [declaration, monadLift_self]
  rw [expect_bind_eq_ok_iff]
  constructor
  · intro h
    obtain ⟨kwVar, p₁, h₁, h⟩ := h
    obtain ⟨name, p₂, h₂, h⟩ := expect_bind_eq_ok_iff.mp h
    obtain ⟨colon, p₃, h₃, h⟩ := expect_bind_eq_ok_iff.mp h
    obtain ⟨type, p₄, h₄, h⟩ := expect_bind_eq_ok_iff.mp h
    cases hty : Ty.ofKeyword? type.1.lexeme with
    | none =>
      rw [hty] at h
      -- A token of the right kind may still name no type.
      exact absurd h throw_ne_ok
    | some ty =>
      have htype : type.1.Readable := by simp [Token.Readable, type.2, hty]
      rw [ofKeyword?_of_readable type htype] at h
      obtain ⟨equals, p₅, h₅, h⟩ := expect_bind_eq_ok_iff.mp h
      obtain ⟨p₆, h₆, h⟩ := identOf_bind_eq_ok_iff.mp h
      have hfront : Moves p p₅ [kwVar.1, name.1, colon.1, type.1, equals.1] 0 :=
        h₁.trans (h₂.trans (h₃.trans (h₄.trans h₅)))
      rw [hfront.nextId] at h
      exact ⟨kwVar, name, colon, type, equals, p₆, htype, hfront.trans h₆, h⟩
  · intro h
    obtain ⟨kwVar, name, colon, type, equals, r, htype, hm, h⟩ := h
    obtain ⟨p₁, h₁, hm⟩ : ∃ p₁, Moves p p₁ [kwVar.1] 0 ∧
        Moves p₁ r [name.1, colon.1, type.1, equals.1] 1 := Moves.split hm
    obtain ⟨p₂, h₂, hm⟩ : ∃ p₂, Moves p₁ p₂ [name.1] 0 ∧
        Moves p₂ r [colon.1, type.1, equals.1] 1 := Moves.split hm
    obtain ⟨p₃, h₃, hm⟩ : ∃ p₃, Moves p₂ p₃ [colon.1] 0 ∧ Moves p₃ r [type.1, equals.1] 1 :=
      Moves.split hm
    obtain ⟨p₄, h₄, hm⟩ : ∃ p₄, Moves p₃ p₄ [type.1] 0 ∧ Moves p₄ r [equals.1] 1 :=
      Moves.split hm
    obtain ⟨p₅, h₅, h₆⟩ : ∃ p₅, Moves p₄ p₅ [equals.1] 0 ∧ Moves p₅ r [] 1 := Moves.split hm
    have hfirst : p₅.nextId = p.nextId := (h₁.trans (h₂.trans (h₃.trans (h₄.trans h₅)))).nextId
    rw [← hfirst] at h
    refine ⟨kwVar, p₁, h₁, expect_bind_eq_ok_iff.mpr ⟨name, p₂, h₂, expect_bind_eq_ok_iff.mpr
      ⟨colon, p₃, h₃, expect_bind_eq_ok_iff.mpr ⟨type, p₄, h₄, ?_⟩⟩⟩⟩
    rw [ofKeyword?_of_readable type htype]
    exact expect_bind_eq_ok_iff.mpr ⟨equals, p₅, h₅, identOf_bind_eq_ok_iff.mpr ⟨r, h₆, h⟩⟩

theorem declaration_eq_ok_iff (hp : Ready room p) :
    declaration (expr room .lowest) p = .ok s q ↔
      ∃ kwVar name colon type equals value semicolon,
        s = (Sentence.declaration kwVar name colon type equals value semicolon).stmt p.nextId ∧
          SpansSentence room p (.declaration kwVar name colon type equals value semicolon) q := by
  rw [declaration_eq_ok_iff_value]
  constructor
  · intro h
    obtain ⟨kwVar, name, colon, type, equals, r, htype, hfront, h⟩ := h
    obtain ⟨value, semicolon, rfl, hlev, hread, hm⟩ := (value_eq_ok_iff (hp.moves hfront)).mp h
    refine ⟨kwVar, name, colon, type, equals, value, semicolon, ?_, hlev, ?_, ?_⟩
    · rw [hfront.nextId, Nat.add_right_comm p.nextId 1 value.size]
      rfl
    · simp only [Sentence.tokens, List.forall_mem_cons, List.forall_mem_append]
      exact ⟨readable_of_tokenOf kwVar nofun nofun nofun,
        readable_of_tokenOf name nofun nofun nofun, readable_of_tokenOf colon nofun nofun nofun,
        htype, readable_of_tokenOf equals nofun nofun nofun, hread,
        readable_of_tokenOf semicolon nofun nofun nofun, List.forall_mem_nil _⟩
    · rw [Sentence.tokens, Sentence.size, show value.size + 2 = 1 + (value.size + 1) by omega]
      exact hfront.trans hm
  · intro h
    obtain ⟨kwVar, name, colon, type, equals, value, semicolon, rfl, hlev, hread, hm⟩ := h
    rw [Sentence.tokens] at hread
    rw [Sentence.tokens, Sentence.size, show value.size + 2 = 1 + (value.size + 1) by omega] at hm
    obtain ⟨r, hfront, hm⟩ : ∃ r, Moves p r [kwVar.1, name.1, colon.1, type.1, equals.1] 1 ∧
        Moves r q (value.tokens ++ [semicolon.1]) (value.size + 1) := Moves.split hm
    refine ⟨kwVar, name, colon, type, equals, r, hread _ (by simp), hfront,
      (value_eq_ok_iff (hp.moves hfront)).mpr ⟨value, semicolon, ?_, hlev,
        fun t ht => hread t (by simp [ht]), hm⟩⟩
    rw [hfront.nextId, Nat.add_right_comm p.nextId 1 value.size]
    rfl

/-! ### Statements with blocks -/

/-- Between `p` and `q` stands the head of a `while` or an `if`, with its first
    block: a reserved word, a condition, `do`, and sentences, with texts that
    can be read and in less than `room` levels. -/
structure SpansHead (room : Nat) (p : Parser) (kw : Token) (condition : Phrase .expr)
    (kwDo : Token) (ds : List Sentence) (q : Parser) : Prop where
  condition_levels : condition.levels < room
  block_levels : blockLevels ds < room
  readable : ∀ t ∈ kw :: (condition.tokens ++ kwDo :: blockTokens ds), t.Readable
  moves : Moves p q (kw :: (condition.tokens ++ kwDo :: blockTokens ds))
    (condition.size + blockSize ds)

/-- First a head is read. -/
theorem head_bind_eq_ok_iff (hblock : ReadsBlocks room block) (hp : Ready room p) {kind : Kind}
    (hkind : kind = .kwWhile ∨ kind = .kwIf) {f : Token → Expr → List Stmt → Parse Stmt} :
    (do
      let first ← expect kind
      let condition ← expr room .lowest
      let _ ← expect .kwDo
      let body ← block
      f first condition body : Parse Stmt) p = .ok s q ↔
    ∃ (kw : TokenOf kind) (condition : Phrase .expr) (kwDo : TokenOf .kwDo)
      (ds : List Sentence) (r : Parser),
      SpansHead room p kw.1 condition kwDo.1 ds r ∧ EndsBlock r ∧
      f kw.1 (condition.expr p.nextId) (blockStmts (p.nextId + condition.size) ds) r = .ok s q := by
  rw [expect_bind_eq_ok_iff]
  constructor
  · intro h
    obtain ⟨kw, p₁, h₁, h⟩ := h
    obtain ⟨e, p₂, he, h⟩ := bind_eq_ok_iff.mp h
    obtain ⟨kwDo, p₃, h₃, h⟩ := expect_bind_eq_ok_iff.mp h
    obtain ⟨body, r, hbody, h⟩ := bind_eq_ok_iff.mp h
    obtain ⟨⟨condition, rfl, hcond⟩, -⟩ := (reads_expr room .expr (hp.moves h₁)).mp he
    -- From here on the block starts, with the identities behind those of the condition.
    have hfront : Moves p p₃ (kw.1 :: (condition.tokens ++ [kwDo.1])) condition.size := by
      simpa using h₁.trans (hcond.moves.trans h₃)
    obtain ⟨ds, rfl, hds, hends⟩ := (hblock (hp.moves hfront)).mp hbody
    rw [h₁.nextId, hfront.nextId] at h
    refine ⟨kw, condition, kwDo, ds, r, ⟨hcond.levels, hds.levels, ?_, ?_⟩, hends, h⟩
    · have hkw : kw.1.Readable := by
        rcases hkind with rfl | rfl <;> exact readable_of_tokenOf kw nofun nofun nofun
      simp only [List.forall_mem_cons, List.forall_mem_append]
      exact ⟨hkw, hcond.readable, readable_of_tokenOf kwDo nofun nofun nofun, hds.readable⟩
    · simpa using hfront.trans hds.moves
  · intro h
    obtain ⟨kw, condition, kwDo, ds, r, hhead, hends, h⟩ := h
    obtain ⟨p₁, h₁, hm⟩ : ∃ p₁, Moves p p₁ [kw.1] 0 ∧ Moves p₁ r
        (condition.tokens ++ kwDo.1 :: blockTokens ds) (condition.size + blockSize ds) :=
      Moves.split (by simpa using hhead.moves)
    obtain ⟨p₂, h₂, hm⟩ := hm.split
    obtain ⟨p₃, h₃, h₄⟩ : ∃ p₃, Moves p₂ p₃ [kwDo.1] 0 ∧
        Moves p₃ r (blockTokens ds) (blockSize ds) := Moves.split (by simpa using hm)
    have hread := hhead.readable
    simp only [List.forall_mem_cons, List.forall_mem_append] at hread
    obtain ⟨-, hcond, -, hds⟩ := hread
    have hp₁ : Ready room p₁ := hp.moves h₁
    have hp₃ : Ready room p₃ := (hp₁.moves h₂).moves h₃
    -- The condition ends in front of `do`.
    have hstops : Stops .expr p₂ := stops_of_moves hm (by rw [kwDo.2]; rfl)
    refine ⟨kw, p₁, h₁, bind_eq_ok_iff.mpr ⟨condition.expr p.nextId, p₂, ?_,
      expect_bind_eq_ok_iff.mpr ⟨kwDo, p₃, h₃, bind_eq_ok_iff.mpr
        ⟨blockStmts (p.nextId + condition.size) ds, r, ?_, h⟩⟩⟩⟩
    · exact (reads_expr room .expr hp₁).mpr
        ⟨⟨condition, by rw [h₁.nextId]; rfl, hhead.condition_levels, hcond, h₂⟩, hstops⟩
    · refine (hblock hp₃).mpr ⟨ds, ?_, ⟨hhead.block_levels, hds, h₄⟩, hends⟩
      rw [h₃.nextId, h₂.nextId, h₁.nextId]
      rfl

/-- A sentence with a head comes apart behind it. -/
theorem spansSentence_iff_head {d : Sentence} {kw kwDo : Token} {condition : Phrase .expr}
    {ds : List Sentence} {tail : List Token} {levels : Nat}
    (hlevels : d.levels = max (condition.levels + 1) (max (blockLevels ds + 1) levels))
    (htokens : d.tokens = kw :: (condition.tokens ++ kwDo :: (blockTokens ds ++ tail)))
    (hsize : d.size = condition.size + blockSize ds + n) :
    SpansSentence room p d q ↔
      ∃ r, SpansHead room p kw condition kwDo ds r ∧ levels ≤ room ∧
        (∀ t ∈ tail, t.Readable) ∧ Moves r q tail n := by
  have hsplit : kw :: (condition.tokens ++ kwDo :: (blockTokens ds ++ tail)) =
      (kw :: (condition.tokens ++ kwDo :: blockTokens ds)) ++ tail := by simp
  constructor
  · intro h
    obtain ⟨hlev, hread, hm⟩ := h
    rw [hlevels, Nat.max_le, Nat.max_le] at hlev
    rw [htokens, hsplit, List.forall_mem_append] at hread
    rw [htokens, hsplit, hsize] at hm
    obtain ⟨r, h₁, h₂⟩ := hm.split
    exact ⟨r, ⟨hlev.1, hlev.2.1, hread.1, h₁⟩, hlev.2.2, hread.2, h₂⟩
  · intro h
    obtain ⟨r, hhead, hlev, hread, hm⟩ := h
    refine ⟨?_, ?_, ?_⟩
    · rw [hlevels, Nat.max_le, Nat.max_le]
      exact ⟨hhead.condition_levels, hhead.block_levels, hlev⟩
    · rw [htokens, hsplit, List.forall_mem_append]
      exact ⟨hhead.readable, hread⟩
    · rw [htokens, hsplit, hsize]
      exact hhead.moves.trans hm

/-- A sentence with a head and an `end` comes apart between them. -/
theorem spansSentence_iff_head_end {d : Sentence} {kw kwDo : Token} {condition : Phrase .expr}
    {ds : List Sentence} {kwEnd : TokenOf .kwEnd}
    (hlevels : d.levels = max (condition.levels + 1) (blockLevels ds + 1))
    (htokens : d.tokens = kw :: (condition.tokens ++ kwDo :: (blockTokens ds ++ [kwEnd.1])))
    (hsize : d.size = condition.size + blockSize ds + 1) :
    SpansSentence room p d q ↔
      ∃ r, SpansHead room p kw condition kwDo ds r ∧ Moves r q [kwEnd.1] 1 := by
  have hlevels' : d.levels = max (condition.levels + 1) (max (blockLevels ds + 1) 0) := by
    rw [hlevels, Nat.max_zero]
  have hread : kwEnd.1.Readable := readable_of_tokenOf kwEnd nofun nofun nofun
  rw [spansSentence_iff_head hlevels' htokens hsize]
  simp only [Nat.zero_le, List.forall_mem_singleton, hread, true_and]

theorem spansSentence_whileDo_iff {kwWhile : TokenOf .kwWhile} {condition : Phrase .expr}
    {kwDo : TokenOf .kwDo} {ds : List Sentence} {kwEnd : TokenOf .kwEnd} :
    SpansSentence room p (.whileDo kwWhile condition kwDo ds kwEnd) q ↔
      ∃ r, SpansHead room p kwWhile.1 condition kwDo.1 ds r ∧ Moves r q [kwEnd.1] 1 :=
  spansSentence_iff_head_end (by rw [Sentence.levels]) (by rw [Sentence.tokens])
    (by rw [Sentence.size])

theorem spansSentence_ifThen_iff {kwIf : TokenOf .kwIf} {condition : Phrase .expr}
    {kwDo : TokenOf .kwDo} {ds : List Sentence} {kwEnd : TokenOf .kwEnd} :
    SpansSentence room p (.ifThen kwIf condition kwDo ds kwEnd) q ↔
      ∃ r, SpansHead room p kwIf.1 condition kwDo.1 ds r ∧ Moves r q [kwEnd.1] 1 :=
  spansSentence_iff_head_end (by rw [Sentence.levels]) (by rw [Sentence.tokens])
    (by rw [Sentence.size])

theorem spansSentence_ifThenElse_iff {kwIf : TokenOf .kwIf} {condition : Phrase .expr}
    {kwDo : TokenOf .kwDo} {ds ds' : List Sentence} {kwElse : TokenOf .kwElse}
    {kwEnd : TokenOf .kwEnd} :
    SpansSentence room p (.ifThenElse kwIf condition kwDo ds kwElse ds' kwEnd) q ↔
      ∃ r, SpansHead room p kwIf.1 condition kwDo.1 ds r ∧ blockLevels ds' + 1 ≤ room ∧
        (∀ t ∈ kwElse.1 :: (blockTokens ds' ++ [kwEnd.1]), t.Readable) ∧
        Moves r q (kwElse.1 :: (blockTokens ds' ++ [kwEnd.1])) (blockSize ds' + 2) :=
  spansSentence_iff_head (by rw [Sentence.levels]) (by rw [Sentence.tokens])
    (by rw [Sentence.size, Nat.add_assoc _ (blockSize ds') 2])

theorem whileDo_eq_ok_iff (hblock : ReadsBlocks room block) (hp : Ready room p) :
    whileDo (expr room .lowest) block p = .ok s q ↔
      ∃ kwWhile condition kwDo ds kwEnd,
        s = (Sentence.whileDo kwWhile condition kwDo ds kwEnd).stmt p.nextId ∧
          SpansSentence room p (.whileDo kwWhile condition kwDo ds kwEnd) q := by
  simp only [whileDo, monadLift_self]
  rw [head_bind_eq_ok_iff hblock hp (.inl rfl)]
  constructor
  · intro h
    obtain ⟨kwWhile, condition, kwDo, ds, r, hhead, -, h⟩ := h
    obtain ⟨kwEnd, q, hend, h⟩ := close_bind_eq_ok_iff.mp h
    obtain ⟨rfl, rfl⟩ := pure_eq_ok_iff.mp h
    refine ⟨kwWhile, condition, kwDo, ds, kwEnd, ?_, ?_⟩
    · rw [Sentence.stmt, hhead.moves.nextId, ← Nat.add_assoc]
      rfl
    · exact spansSentence_whileDo_iff.mpr ⟨r, hhead, hend⟩
  · intro h
    obtain ⟨kwWhile, condition, kwDo, ds, kwEnd, rfl, hd⟩ := h
    obtain ⟨r, hhead, hend⟩ := spansSentence_whileDo_iff.mp hd
    have hends : EndsBlock r := endsBlock_of_moves hend (by rw [kwEnd.2]; rfl)
    refine ⟨kwWhile, condition, kwDo, ds, r, hhead, hends,
      close_bind_eq_ok_iff.mpr ⟨kwEnd, q, hend, ?_⟩⟩
    rw [Sentence.stmt, hhead.moves.nextId, ← Nat.add_assoc]
    rfl

/-- An `else` is read with its block and the `end` that closes it, and the
    tags of the branch and of the whole statement end there. -/
theorem else_eq_ok_iff (hblock : ReadsBlocks room block) (hp : Ready room p) {start : Position}
    {finish : List Stmt → Tag → Tag → Stmt} :
    (do
      let second ← expect .kwElse
      let otherwise ← block
      let _ ← expect .kwEnd
      let elseTag ← closeTag second.span.start
      let tag ← closeTag start
      return finish otherwise elseTag tag : Parse Stmt) p = .ok s q ↔
    ∃ (kwElse : TokenOf .kwElse) (ds : List Sentence) (kwEnd : TokenOf .kwEnd),
      s = finish (blockStmts p.nextId ds)
        ⟨p.nextId + blockSize ds, spanOf kwElse.1 kwEnd.1⟩
        ⟨p.nextId + blockSize ds + 1, ⟨start, kwEnd.1.span.stop⟩⟩ ∧
      blockLevels ds + 1 ≤ room ∧
      (∀ t ∈ kwElse.1 :: (blockTokens ds ++ [kwEnd.1]), t.Readable) ∧
      Moves p q (kwElse.1 :: (blockTokens ds ++ [kwEnd.1])) (blockSize ds + 2) := by
  rw [expect_bind_eq_ok_iff]
  constructor
  · intro h
    obtain ⟨kwElse, p₁, h₁, h⟩ := h
    obtain ⟨body, p₂, hbody, h⟩ := bind_eq_ok_iff.mp h
    obtain ⟨kwEnd, p₃, h₃, h⟩ := close_bind_eq_ok_iff.mp h
    obtain ⟨tag, p₄, htag, h⟩ := bind_eq_ok_iff.mp h
    obtain ⟨rfl, h₄⟩ := closeTag_iff_moves.mp htag
    obtain ⟨rfl, rfl⟩ := pure_eq_ok_iff.mp h
    obtain ⟨ds, rfl, hds, -⟩ := (hblock (hp.moves h₁)).mp hbody
    -- Both tags end with the one `end`; the branch is numbered before the statement.
    have hfirst : p₂.nextId = p.nextId + blockSize ds := by
      rw [hds.moves.nextId, h₁.nextId]
      rfl
    refine ⟨kwElse, ds, kwEnd, ?_, hds.levels, ?_, ?_⟩
    · rw [h₃.reached_of_token, h₃.nextId, hfirst, h₁.nextId]
      rfl
    · simp only [List.forall_mem_cons, List.forall_mem_append]
      exact ⟨readable_of_tokenOf kwElse nofun nofun nofun, hds.readable,
        readable_of_tokenOf kwEnd nofun nofun nofun, List.forall_mem_nil _⟩
    · simpa using h₁.trans (hds.moves.trans (h₃.trans h₄))
  · intro h
    obtain ⟨kwElse, ds, kwEnd, rfl, hlev, hread, hm⟩ := h
    obtain ⟨p₁, h₁, hm⟩ : ∃ p₁, Moves p p₁ [kwElse.1] 0 ∧
        Moves p₁ q (blockTokens ds ++ [kwEnd.1]) (blockSize ds + 2) :=
      Moves.split (by simpa using hm)
    obtain ⟨p₂, h₂, hm⟩ := hm.split
    obtain ⟨p₃, h₃, h₄⟩ : ∃ p₃, Moves p₂ p₃ [kwEnd.1] 1 ∧ Moves p₃ q [] 1 := Moves.split hm
    have hends : EndsBlock p₂ := endsBlock_of_moves hm (by rw [kwEnd.2]; rfl)
    have hfirst : p₂.nextId = p.nextId + blockSize ds := by
      rw [h₂.nextId, h₁.nextId]
      rfl
    refine ⟨kwElse, p₁, h₁, bind_eq_ok_iff.mpr ⟨blockStmts p.nextId ds, p₂, ?_,
      close_bind_eq_ok_iff.mpr ⟨kwEnd, p₃, h₃, bind_eq_ok_iff.mpr ⟨_, q,
        closeTag_iff_moves.mpr ⟨rfl, h₄⟩, ?_⟩⟩⟩⟩
    · refine (hblock (hp.moves h₁)).mpr
        ⟨ds, by rw [h₁.nextId]; rfl, ⟨hlev, fun t ht => hread t (by simp [ht]), h₂⟩, hends⟩
    · rw [h₃.reached_of_token, h₃.nextId, hfirst]
      rfl

/-- An `if` is read in its long form exactly when an `else` follows its first
    block. -/
theorem ifThen_eq_ok_iff (hblock : ReadsBlocks room block) (hp : Ready room p) :
    ifThen (expr room .lowest) block p = .ok s q ↔
      (∃ kwIf condition kwDo ds kwEnd,
        s = (Sentence.ifThen kwIf condition kwDo ds kwEnd).stmt p.nextId ∧
          SpansSentence room p (.ifThen kwIf condition kwDo ds kwEnd) q) ∨
      (∃ kwIf condition kwDo ds kwElse ds' kwEnd,
        s = (Sentence.ifThenElse kwIf condition kwDo ds kwElse ds' kwEnd).stmt p.nextId ∧
          SpansSentence room p (.ifThenElse kwIf condition kwDo ds kwElse ds' kwEnd) q) := by
  simp only [ifThen, monadLift_self]
  rw [head_bind_eq_ok_iff hblock hp (.inr rfl)]
  constructor
  · intro h
    obtain ⟨kwIf, condition, kwDo, ds, r, hhead, -, h⟩ := h
    rw [get_bind] at h
    -- What comes behind the first block decides on the form.
    by_cases helse : r.currentKind? = some .kwElse
    · rw [if_pos helse] at h
      obtain ⟨kwElse, ds', kwEnd, rfl, hlev, hread, hm⟩ :=
        (else_eq_ok_iff hblock (hp.moves hhead.moves)).mp h
      refine .inr ⟨kwIf, condition, kwDo, ds, kwElse, ds', kwEnd, ?_, ?_⟩
      · rw [Sentence.stmt, hhead.moves.nextId]
        simp only [← Nat.add_assoc]
        rfl
      · exact spansSentence_ifThenElse_iff.mpr ⟨r, hhead, hlev, hread, hm⟩
    · rw [if_neg helse] at h
      obtain ⟨kwEnd, q, hend, h⟩ := close_bind_eq_ok_iff.mp h
      obtain ⟨rfl, rfl⟩ := pure_eq_ok_iff.mp h
      refine .inl ⟨kwIf, condition, kwDo, ds, kwEnd, ?_, ?_⟩
      · rw [Sentence.stmt, hhead.moves.nextId, ← Nat.add_assoc]
        rfl
      · exact spansSentence_ifThen_iff.mpr ⟨r, hhead, hend⟩
  · intro h
    rcases h with ⟨kwIf, condition, kwDo, ds, kwEnd, rfl, hd⟩ |
      ⟨kwIf, condition, kwDo, ds, kwElse, ds', kwEnd, rfl, hd⟩
    · obtain ⟨r, hhead, hend⟩ := spansSentence_ifThen_iff.mp hd
      have hends : EndsBlock r := endsBlock_of_moves hend (by rw [kwEnd.2]; rfl)
      -- The `end` that stands there is no `else`.
      have helse : r.currentKind? ≠ some .kwElse := by
        rw [hend.currentKind?_eq, kwEnd.2]
        nofun
      refine ⟨kwIf, condition, kwDo, ds, r, hhead, hends, ?_⟩
      rw [get_bind, if_neg helse]
      refine close_bind_eq_ok_iff.mpr ⟨kwEnd, q, hend, ?_⟩
      rw [Sentence.stmt, hhead.moves.nextId, ← Nat.add_assoc]
      rfl
    · obtain ⟨r, hhead, hlev, hread, hm⟩ := spansSentence_ifThenElse_iff.mp hd
      have hends : EndsBlock r := endsBlock_of_moves hm (by rw [kwElse.2]; rfl)
      have helse : r.currentKind? = some .kwElse := by rw [hm.currentKind?_eq, kwElse.2]
      refine ⟨kwIf, condition, kwDo, ds, r, hhead, hends, ?_⟩
      rw [get_bind, if_pos helse]
      refine (else_eq_ok_iff hblock (hp.moves hhead.moves)).mpr
        ⟨kwElse, ds', kwEnd, ?_, hlev, hread, hm⟩
      rw [Sentence.stmt, hhead.moves.nextId]
      simp only [← Nat.add_assoc]
      rfl

/-! ### Statements by their rules -/

/-- A statement is read by a rule exactly when a sentence of that rule stands
    there. -/
theorem statement_eq_ok_iff (hblock : ReadsBlocks room block) (hp : Ready room p)
    {rule : StatementRule} :
    statement (expr room .lowest) block rule p = .ok s q ↔
      ∃ d : Sentence, d.rule = rule ∧ s = d.stmt p.nextId ∧ SpansSentence room p d q := by
  constructor
  · intro h
    cases rule with
    | declaration =>
      obtain ⟨kwVar, name, colon, type, equals, value, semicolon, rfl, hd⟩ :=
        (declaration_eq_ok_iff hp).mp h
      exact ⟨_, rfl, rfl, hd⟩
    | assignment =>
      obtain ⟨name, equals, value, semicolon, rfl, hd⟩ := (assignment_eq_ok_iff hp).mp h
      exact ⟨_, rfl, rfl, hd⟩
    | print =>
      obtain ⟨kwPrint, value, semicolon, rfl, hd⟩ := (print_eq_ok_iff hp).mp h
      exact ⟨_, rfl, rfl, hd⟩
    | whileDo =>
      obtain ⟨kwWhile, condition, kwDo, ds, kwEnd, rfl, hd⟩ := (whileDo_eq_ok_iff hblock hp).mp h
      exact ⟨_, rfl, rfl, hd⟩
    | ifThen =>
      rcases (ifThen_eq_ok_iff hblock hp).mp h with
        ⟨kwIf, condition, kwDo, ds, kwEnd, rfl, hd⟩ |
        ⟨kwIf, condition, kwDo, ds, kwElse, ds', kwEnd, rfl, hd⟩
      · exact ⟨_, rfl, rfl, hd⟩
      · exact ⟨_, rfl, rfl, hd⟩
    | unsupported =>
      obtain ⟨token, p₁, -, h⟩ := bind_eq_ok_iff.mp h
      exact absurd h throw_ne_ok
  · intro h
    obtain ⟨d, rfl, rfl, hd⟩ := h
    cases d with
    | declaration => exact (declaration_eq_ok_iff hp).mpr ⟨_, _, _, _, _, _, _, rfl, hd⟩
    | assignment => exact (assignment_eq_ok_iff hp).mpr ⟨_, _, _, _, rfl, hd⟩
    | print => exact (print_eq_ok_iff hp).mpr ⟨_, _, _, rfl, hd⟩
    | whileDo => exact (whileDo_eq_ok_iff hblock hp).mpr ⟨_, _, _, _, _, rfl, hd⟩
    | ifThen => exact (ifThen_eq_ok_iff hblock hp).mpr (.inl ⟨_, _, _, _, _, rfl, hd⟩)
    | ifThenElse => exact (ifThen_eq_ok_iff hblock hp).mpr (.inr ⟨_, _, _, _, _, _, _, rfl, hd⟩)

end Parser

end BlockLang
