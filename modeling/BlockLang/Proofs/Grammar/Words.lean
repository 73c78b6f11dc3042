import BlockLang.Proofs.Grammar.Expression
import Mathlib.Computability.Language
import Mathlib.Order.CompletePartialOrder

/-! # Words — the grammar as languages

  Each part of the grammar has the language of its words: the rows of tokens
  that derivations of the part have, with texts that can be read, when a
  number of levels may be opened.  The rules of the grammar say that a product
  of languages is inside another one. -/

namespace BlockLang

namespace Grammar

variable {room : Nat}

/-! ### Languages -/

/-- The words of one readable token. -/
def single (kind : Kind) : Language Token :=
  {ts | ∃ token : Token, token.kind = kind ∧ token.Readable ∧ ts = [token]}

/-- The words of one operator of a table. -/
def signs (table : Kind → Option Operator) : Language Token :=
  {ts | ∃ sign : Sign table, ts = [sign.token]}

/-- The words of a nonterminal in less than `room` levels. -/
def phrases (room : Nat) (nt : Nonterminal) : Language Token :=
  {ts | ∃ d : Phrase nt, ts = d.tokens ∧ d.levels < room ∧ ∀ t ∈ ts, t.Readable}

/-- The words of a statement in no more than `room` levels. -/
def sentences (room : Nat) : Language Token :=
  {ts | ∃ d : Sentence, ts = d.tokens ∧ d.levels ≤ room ∧ ∀ t ∈ ts, t.Readable}

/-- The words of a block in less than `room` levels. -/
def blocks (room : Nat) : Language Token :=
  {ts | ∃ ds : List Sentence, ts = blockTokens ds ∧ blockLevels ds < room ∧
    ∀ t ∈ ts, t.Readable}

/-! ### Rules for expressions -/

theorem leaf_mem_factor {token : Token} (leaf : Leaf) (h : leaf.token = token)
    (hread : token.Readable) : [token] ∈ phrases (room + 1) .factor := by
  subst h
  exact ⟨.leaf leaf, rfl, Nat.succ_pos room, by simpa using hread⟩

theorem parens_le_factor :
    single .openParen * (phrases room .expr * single .closeParen) ≤ phrases (room + 1) .factor := by
  rintro _ ⟨_, ⟨opening, hopen, hopenRead, rfl⟩, _, ⟨_, ⟨d, rfl, hlev, hread⟩, _,
    ⟨closing, hclose, hcloseRead, rfl⟩, rfl⟩, rfl⟩
  refine ⟨.parens ⟨opening, hopen⟩ d ⟨closing, hclose⟩, rfl, Nat.succ_lt_succ hlev, ?_⟩
  simp only [List.forall_mem_append, List.forall_mem_singleton]
  exact ⟨hopenRead, hread, hcloseRead⟩

theorem factor_le_term : phrases room .factor ≤ phrases room .term := by
  rintro _ ⟨d, rfl, hlev, hread⟩
  exact ⟨.ofFactor d, rfl, hlev, hread⟩

theorem term_le_expr : phrases room .term ≤ phrases room .expr := by
  rintro _ ⟨d, rfl, hlev, hread⟩
  exact ⟨.ofTerm d, rfl, hlev, hread⟩

theorem products_le_term :
    phrases (room + 1) .term * (signs productOperator? * phrases room .factor) ≤
      phrases (room + 1) .term := by
  rintro _ ⟨_, ⟨l, rfl, hl, hlread⟩, _, ⟨_, ⟨sign, rfl⟩, _, ⟨r, rfl, hr, hrread⟩, rfl⟩, rfl⟩
  refine ⟨.product l sign r, rfl, Nat.max_lt.mpr ⟨hl, Nat.succ_lt_succ hr⟩, ?_⟩
  simp only [List.forall_mem_append, List.forall_mem_singleton]
  exact ⟨hlread, sign.readable fun h => (productOperator?_eq_some_iff.mp h).1, hrread⟩

theorem sums_le_expr :
    phrases (room + 1) .expr * (signs sumOperator? * phrases room .term) ≤
      phrases (room + 1) .expr := by
  rintro _ ⟨_, ⟨l, rfl, hl, hlread⟩, _, ⟨_, ⟨sign, rfl⟩, _, ⟨r, rfl, hr, hrread⟩, rfl⟩, rfl⟩
  refine ⟨.sum l sign r, rfl, Nat.max_lt.mpr ⟨hl, Nat.succ_lt_succ hr⟩, ?_⟩
  simp only [List.forall_mem_append, List.forall_mem_singleton]
  exact ⟨hlread, sign.readable fun h => (sumOperator?_eq_some_iff.mp h).1, hrread⟩

/-! ### Rules for statements -/

theorem declaration_le :
    single .kwVar * (single .identifier * (single .colon * (single .typeName *
      (single .assignment * (phrases room .expr * single .semicolon))))) ≤ sentences room := by
  rintro _ ⟨_, ⟨kwVar, hvar, hvarRead, rfl⟩, _, ⟨_, ⟨name, hname, hnameRead, rfl⟩, _,
    ⟨_, ⟨colon, hcolon, hcolonRead, rfl⟩, _, ⟨_, ⟨type, htype, htypeRead, rfl⟩, _,
    ⟨_, ⟨equals, hequals, hequalsRead, rfl⟩, _, ⟨_, ⟨value, rfl, hlev, hread⟩, _,
    ⟨semicolon, hsemicolon, hsemicolonRead, rfl⟩, rfl⟩, rfl⟩, rfl⟩, rfl⟩, rfl⟩, rfl⟩
  refine ⟨.declaration ⟨kwVar, hvar⟩ ⟨name, hname⟩ ⟨colon, hcolon⟩ ⟨type, htype⟩
    ⟨equals, hequals⟩ value ⟨semicolon, hsemicolon⟩, ?_, ?_, ?_⟩
  · rw [Sentence.tokens]
    rfl
  · rw [Sentence.levels]
    exact hlev
  · simp only [List.forall_mem_append, List.forall_mem_singleton]
    exact ⟨hvarRead, hnameRead, hcolonRead, htypeRead, hequalsRead, hread, hsemicolonRead⟩

theorem assignment_le :
    single .identifier * (single .assignment * (phrases room .expr * single .semicolon)) ≤
      sentences room := by
  rintro _ ⟨_, ⟨name, hname, hnameRead, rfl⟩, _, ⟨_, ⟨equals, hequals, hequalsRead, rfl⟩, _,
    ⟨_, ⟨value, rfl, hlev, hread⟩, _, ⟨semicolon, hsemicolon, hsemicolonRead, rfl⟩, rfl⟩,
    rfl⟩, rfl⟩
  refine ⟨.assignment ⟨name, hname⟩ ⟨equals, hequals⟩ value ⟨semicolon, hsemicolon⟩, ?_, ?_, ?_⟩
  · rw [Sentence.tokens]
    rfl
  · rw [Sentence.levels]
    exact hlev
  · simp only [List.forall_mem_append, List.forall_mem_singleton]
    exact ⟨hnameRead, hequalsRead, hread, hsemicolonRead⟩

theorem print_le :
    single .kwPrint * (phrases room .expr * single .semicolon) ≤ sentences room := by
  rintro _ ⟨_, ⟨kwPrint, hprint, hprintRead, rfl⟩, _, ⟨_, ⟨value, rfl, hlev, hread⟩, _,
    ⟨semicolon, hsemicolon, hsemicolonRead, rfl⟩, rfl⟩, rfl⟩
  refine ⟨.print ⟨kwPrint, hprint⟩ value ⟨semicolon, hsemicolon⟩, ?_, ?_, ?_⟩
  · rw [Sentence.tokens]
    rfl
  · rw [Sentence.levels]
    exact hlev
  · simp only [List.forall_mem_append, List.forall_mem_singleton]
    exact ⟨hprintRead, hread, hsemicolonRead⟩

theorem whileDo_le :
    single .kwWhile * (phrases room .expr * (single .kwDo * (blocks room * single .kwEnd))) ≤
      sentences room := by
  rintro _ ⟨_, ⟨kwWhile, hwhile, hwhileRead, rfl⟩, _, ⟨_, ⟨condition, rfl, hlev, hread⟩, _,
    ⟨_, ⟨kwDo, hdo, hdoRead, rfl⟩, _, ⟨_, ⟨ds, rfl, hdsLev, hdsRead⟩, _,
    ⟨kwEnd, hend, hendRead, rfl⟩, rfl⟩, rfl⟩, rfl⟩, rfl⟩
  refine ⟨.whileDo ⟨kwWhile, hwhile⟩ condition ⟨kwDo, hdo⟩ ds ⟨kwEnd, hend⟩, ?_, ?_, ?_⟩
  · rw [Sentence.tokens]
    simp
  · rw [Sentence.levels]
    exact Nat.max_le.mpr ⟨hlev, hdsLev⟩
  · simp only [List.forall_mem_append, List.forall_mem_singleton]
    exact ⟨hwhileRead, hread, hdoRead, hdsRead, hendRead⟩

theorem ifThen_le :
    single .kwIf * (phrases room .expr * (single .kwDo * (blocks room *
      (single .kwEnd + single .kwElse * (blocks room * single .kwEnd))))) ≤ sentences room := by
  rintro _ ⟨_, ⟨kwIf, hif, hifRead, rfl⟩, _, ⟨_, ⟨condition, rfl, hlev, hread⟩, _,
    ⟨_, ⟨kwDo, hdo, hdoRead, rfl⟩, _, ⟨_, ⟨ds, rfl, hdsLev, hdsRead⟩, _, htail, rfl⟩, rfl⟩,
    rfl⟩, rfl⟩
  rcases htail with ⟨kwEnd, hend, hendRead, rfl⟩ | ⟨_, ⟨kwElse, helse, helseRead, rfl⟩, _,
    ⟨_, ⟨ds', rfl, hdsLev', hdsRead'⟩, _, ⟨kwEnd, hend, hendRead, rfl⟩, rfl⟩, rfl⟩
  · refine ⟨.ifThen ⟨kwIf, hif⟩ condition ⟨kwDo, hdo⟩ ds ⟨kwEnd, hend⟩, ?_, ?_, ?_⟩
    · rw [Sentence.tokens]
      simp
    · rw [Sentence.levels]
      exact Nat.max_le.mpr ⟨hlev, hdsLev⟩
    · simp only [List.forall_mem_append, List.forall_mem_singleton]
      exact ⟨hifRead, hread, hdoRead, hdsRead, hendRead⟩
  · refine ⟨.ifThenElse ⟨kwIf, hif⟩ condition ⟨kwDo, hdo⟩ ds ⟨kwElse, helse⟩ ds' ⟨kwEnd, hend⟩,
      ?_, ?_, ?_⟩
    · rw [Sentence.tokens]
      simp
    · rw [Sentence.levels]
      exact Nat.max_le.mpr ⟨hlev, Nat.max_le.mpr ⟨hdsLev, hdsLev'⟩⟩
    · simp only [List.forall_mem_append, List.forall_mem_singleton]
      exact ⟨hifRead, hread, hdoRead, hdsRead, helseRead, hdsRead', hendRead⟩

/-! ### Rules for blocks -/

theorem nil_mem_blocks : [] ∈ blocks (room + 1) :=
  ⟨[], by rw [blockTokens], by rw [blockLevels]; exact Nat.succ_pos room,
    List.forall_mem_nil _⟩

theorem sentences_mul_blocks_le :
    sentences room * blocks (room + 1) ≤ blocks (room + 1) := by
  rintro _ ⟨_, ⟨d, rfl, hlev, hread⟩, _, ⟨ds, rfl, hdsLev, hdsRead⟩, rfl⟩
  refine ⟨d :: ds, by rw [blockTokens], ?_, List.forall_mem_append.mpr ⟨hread, hdsRead⟩⟩
  rw [blockLevels]
  exact Nat.max_lt.mpr ⟨Nat.lt_succ_of_le hlev, hdsLev⟩

/-! ### There are words -/

/-- The language has a word. -/
def Live (L : Language Token) : Prop := ∃ ts, ts ∈ L

@[simp]
theorem live_mul_iff {L M : Language Token} : Live (L * M) ↔ Live L ∧ Live M := by
  constructor
  · rintro ⟨_, ts, hts, us, hus, -⟩
    exact ⟨⟨ts, hts⟩, us, hus⟩
  · rintro ⟨⟨ts, hts⟩, us, hus⟩
    exact ⟨ts ++ us, Language.append_mem_mul hts hus⟩

@[simp]
theorem live_add_iff {L M : Language Token} : Live (L + M) ↔ Live L ∨ Live M :=
  exists_or

theorem live_kstar (L : Language Token) : Live (KStar.kstar L) := ⟨[], Language.nil_mem_kstar L⟩

/-- A token of the kind, with a text that can be read. -/
def sample (kind : Kind) : Token :=
  ⟨kind, if kind = .typeName then Ty.int.keyword else "0", ⟨.null, .null⟩⟩

theorem readable_sample (kind : Kind) : (sample kind).Readable := by
  cases kind <;> decide +kernel

@[simp]
theorem live_single (kind : Kind) : Live (single kind) :=
  ⟨_, sample kind, rfl, readable_sample kind, rfl⟩

/-- A name is a phrase of every nonterminal. -/
@[simp]
theorem live_phrases_iff {nt : Nonterminal} : Live (phrases room nt) ↔ 0 < room := by
  constructor
  · rintro ⟨_, d, -, hlev, -⟩
    exact Nat.zero_lt_of_lt hlev
  · intro h
    obtain ⟨room, rfl⟩ := Nat.exists_eq_add_one.mpr h
    have hfactor : [sample .identifier] ∈ phrases (room + 1) .factor :=
      leaf_mem_factor (.identifier ⟨sample .identifier, rfl⟩) rfl (readable_sample _)
    cases nt with
    | factor => exact ⟨_, hfactor⟩
    | term => exact ⟨_, factor_le_term hfactor⟩
    | expr => exact ⟨_, term_le_expr (factor_le_term hfactor)⟩

@[simp]
theorem live_blocks_iff : Live (blocks room) ↔ 0 < room := by
  constructor
  · rintro ⟨_, ds, -, hlev, -⟩
    exact Nat.zero_lt_of_lt hlev
  · intro h
    obtain ⟨room, rfl⟩ := Nat.exists_eq_add_one.mpr h
    exact ⟨[], nil_mem_blocks⟩

end Grammar

end BlockLang
