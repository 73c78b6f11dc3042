import BlockLang.Proofs.Grammar.Climbing
import BlockLang.Proofs.Grammar.Lookahead
import BlockLang.Proofs.Grammar.Words

/-! # Completion — what is missing can be added

  Where the tokens run out, what has been read is the front of a word of the
  language that is being read, as long as one more level may be opened for
  what is missing.  So a program whose tokens run out is the front of another
  one, while every other error is final. -/

namespace BlockLang

open Grammar

open scoped Computability

namespace Parser

variable {p q : Parser} {α β : Type} {x : Parse α} {f : α → Parse β} {L M : Language Token}
  {room : Nat}

/-! ### Completing what a reader reads -/

/-- If the tokens run out while `x` reads, and one more level may be opened
    there, then it may be opened here, and the tokens can be completed to a
    word of the language. -/
def Completes (L : Language Token) (x : Parse α) (p : Parser) : Prop :=
  ∀ error q, x p = .error error q → error.IsEnd → q.depth < p.limit →
    p.depth < p.limit ∧ ∃ us, p.rest ++ us ∈ L

theorem Completes.mono (h : Completes L x p) (hle : L ≤ M) : Completes M x p := by
  intro error q herror hend hdepth
  obtain ⟨hlt, us, hus⟩ := h error q herror hend hdepth
  exact ⟨hlt, us, hle hus⟩

/-- Where two readers do the same, one is completed as the other is. -/
theorem Completes.congr {y : Parse α} (h : x p = y p) (hy : Completes L y p) :
    Completes L x p := by
  intro error q herror
  rw [h] at herror
  exact hy error q herror

theorem completes_of_eq_ok {a : α} (h : x p = .ok a q) : Completes L x p := by
  intro error r herror
  rw [h] at herror
  cases herror

/-- Other errors leave nothing to be completed. -/
theorem completes_of_eq_error {error : Error} (h : x p = .error error q) (hend : ¬ error.IsEnd) :
    Completes L x p := by
  intro error' r herror hend'
  rw [h] at herror
  cases herror
  exact absurd hend' hend

/-- Finding something else than expected is no end of the tokens where there
    are some. -/
theorem completes_unexpected (expected : String) (h : p.rest = [] → Live L) :
    Completes L (fail (·.unexpected expected) : Parse α) p := by
  intro error q herror hend hdepth
  cases herror
  obtain ⟨expected', hfault⟩ := hend
  cases hrest : p.rest with
  | nil =>
    obtain ⟨us, hus⟩ := h hrest
    exact ⟨hdepth, us, hus⟩
  | cons token rest =>
    simp [Parser.unexpected, current?, hrest] at hfault

/-- If the tokens run out in the first action, then the second one is
    completed by any word.  If they run out in the second one, then the first
    one has read its word. -/
theorem Completes.bind (hx : Completes L x p) (hlive : p.depth < p.limit → Live M)
    (hf : ∀ a q, x p = .ok a q → ∃ ts ∈ L, ∃ n, Moves p q ts n ∧ Completes M (f a) q) :
    Completes (L * M) (x >>= f) p := by
  intro error q herror hend hdepth
  simp only [Bind.bind, EStateM.bind] at herror
  cases hxp : x p with
  | ok a r =>
    rw [hxp] at herror
    obtain ⟨ts, hts, n, hm, hfa⟩ := hf a r hxp
    obtain ⟨hlt, us, hus⟩ := hfa error q herror hend (by rwa [hm.limit])
    refine ⟨by rwa [hm.depth, hm.limit] at hlt, us, ?_⟩
    rw [hm.rest, List.append_assoc]
    exact Language.append_mem_mul hts hus
  | error first r =>
    rw [hxp] at herror
    cases herror
    obtain ⟨hlt, us, hus⟩ := hx error q hxp hend hdepth
    obtain ⟨us', hus'⟩ := hlive hlt
    refine ⟨hlt, us ++ us', ?_⟩
    rw [← List.append_assoc]
    exact Language.append_mem_mul hus hus'

/-- What reads no token is completed by what comes behind it. -/
theorem Completes.bind_of_eq_ok {a : α} {n : Nat} (hx : x p = .ok a q) (hm : Moves p q [] n)
    (hf : Completes M (f a) q) : Completes M (x >>= f) p := by
  intro error r herror hend hdepth
  rw [bind_of_ok hx] at herror
  obtain ⟨hlt, us, hus⟩ := hf error r herror hend (by rwa [hm.limit])
  refine ⟨by rwa [hm.depth, hm.limit] at hlt, us, ?_⟩
  rwa [hm.rest, List.nil_append]

/-- What comes last may do anything but fail. -/
theorem Completes.bind_last (hx : Completes L x p)
    (hf : ∀ a q, x p = .ok a q → ∃ b r, f a q = .ok b r) : Completes L (x >>= f) p := by
  intro error q herror
  simp only [Bind.bind, EStateM.bind] at herror
  cases hxp : x p with
  | ok a r =>
    obtain ⟨b, s, hb⟩ := hf a r hxp
    rw [hxp] at herror
    simp only [hb] at herror
    cases herror
  | error first r =>
    rw [hxp] at herror
    cases herror
    exact hx error q hxp

/-- Parser `p` follows the rules of the language, and `room` is the number of
    levels that it has left. -/
structure Exact (room : Nat) (p : Parser) : Prop where
  rules : p.rules = .standard
  depth : p.depth + room = p.limit

theorem Exact.ready (h : Exact room p) : Ready room p := ⟨h.rules, Nat.le_of_eq h.depth⟩

theorem Exact.moves {ts : List Token} {n : Nat} (h : Exact room p) (hm : Moves p q ts n) :
    Exact room q :=
  ⟨hm.rules.trans h.rules, by rw [hm.depth, hm.limit, h.depth]⟩

theorem Exact.enterLevel (h : Exact (room + 1) p) : Exact room { p with depth := p.depth + 1 } :=
  ⟨h.rules, by have := h.depth; simp only; omega⟩

theorem Exact.depth_lt (h : Exact (room + 1) p) : p.depth < p.limit := by
  have := h.depth
  omega

theorem Exact.room_pos (h : Exact room p) (hlt : p.depth < p.limit) : 0 < room := by
  have := h.depth
  omega

/-- A level is opened on the way to the word, and closed behind it. -/
theorem Completes.enter (hlt : p.depth < p.limit)
    (h : Completes L x { p with depth := p.depth + 1 }) :
    Completes L (do enter; let a ← x; leave; return a : Parse α) p := by
  intro error q herror hend hdepth
  rw [enter_bind hlt] at herror
  cases hx : x { p with depth := p.depth + 1 } with
  | ok a r =>
    rw [hx] at herror
    cases herror
  | error first r =>
    rw [hx] at herror
    cases herror
    exact ⟨hlt, (h error q hx hend hdepth).2⟩

/-! ### Tokens -/

theorem completes_expect (kind : Kind) (p : Parser) :
    Completes (single kind) (expect kind) p := by
  by_cases hkind : p.currentKind? = some kind
  · obtain ⟨token, rest, hrest, htoken⟩ := currentKind?_eq_some_iff.mp hkind
    have hadvance := advance_eq_ok_iff.mpr ⟨rest, hrest, rfl⟩
    exact completes_of_eq_ok (expect_eq_ok_iff.mpr ⟨hadvance, htoken⟩)
  · have hfail : expect kind p = fail (·.unexpected kind.name) p := by
      rw [expect, if_neg hkind]
      rfl
    exact .congr hfail (completes_unexpected kind.name fun _ => live_single kind)

/-- Behind a token whose text does not matter. -/
theorem Completes.expect_bind {kind : Kind} {f : Token → Parse β}
    (hkind : kind ≠ .typeName ∧ kind ≠ .integer ∧ kind ≠ .float)
    (hlive : p.depth < p.limit → Live M)
    (hf : ∀ token q, Moves p q [token] 0 → Completes M (f token) q) :
    Completes (single kind * M) (expect kind >>= f) p := by
  refine (completes_expect kind p).bind hlive fun token q htoken => ?_
  obtain ⟨htokenKind, hm⟩ := expect_iff_moves.mp htoken
  have hread : token.Readable :=
    readable_of_tokenOf ⟨token, htokenKind⟩ hkind.1 hkind.2.1 hkind.2.2
  exact ⟨[token], ⟨token, htokenKind, hread, rfl⟩, 0, hm, hf token q hm⟩

/-! ### Expressions -/

variable {inner : Power → Parse Expr} {left : Expr} {nt : Nonterminal}

/-- The reader is completed to phrases where `room` levels are left. -/
def CompletesPhrases (room : Nat) (inner : Power → Parse Expr) : Prop :=
  ∀ nt {p}, Exact room p → Completes (phrases room nt) (inner nt.power) p

/-- The error of a token that is no operand is no end of the tokens. -/
theorem not_isEnd_of_leafOf {token : Token} {id : NodeId} {error : Error}
    (h : leafOf token id = .error error) : ¬ error.IsEnd := by
  rintro ⟨expected, hfault⟩
  unfold leafOf at h
  split at h
  · split at h <;> cases h; cases hfault
  · split at h <;> cases h; cases hfault
  · cases h
  · cases h
  · cases h
  · cases h; cases hfault

/-- A token that is there is an operand or an error that is no end. -/
theorem completes_primary (h : p.rest ≠ []) : Completes L primary p := by
  obtain ⟨token, rest, hrest⟩ := List.exists_cons_of_ne_nil h
  have hadvance := advance_eq_ok_iff.mpr ⟨rest, hrest, rfl⟩
  let q : Parser := { p with read := token :: p.read, rest := rest, nextId := p.nextId + 1 }
  cases hleaf : leafOf token p.nextId with
  | ok e =>
    have hprimary : primary p = .ok e q := by
      rw [primary, bind_of_ok hadvance]
      simp only [Bind.bind, EStateM.bind, freshId, hleaf]
      rfl
    exact completes_of_eq_ok hprimary
  | error error =>
    have hprimary : primary p = .error error q := by
      rw [primary, bind_of_ok hadvance]
      simp only [Bind.bind, EStateM.bind, freshId, hleaf]
      rfl
    exact completes_of_eq_error hprimary (not_isEnd_of_leafOf hleaf)

theorem completes_grouping (hreads : Reads room inner) (hinner : CompletesPhrases room inner)
    (hp : Exact room p) :
    Completes (single .openParen * (phrases room .expr * single .closeParen))
      (grouping inner) p := by
  refine .expect_bind (by decide) (fun hlt => by simp [hp.room_pos hlt]) fun token q hm => ?_
  refine (hinner .expr (hp.moves hm)).bind (fun _ => live_single _) fun e r he => ?_
  obtain ⟨⟨d, -, hd⟩, -⟩ := (hreads .expr (hp.moves hm).ready).mp he
  refine ⟨d.tokens, ⟨d, rfl, hd.levels, hd.readable⟩, _, hd.moves, ?_⟩
  exact (completes_expect _ _).bind_last fun token s _ => ⟨e, s, rfl⟩

theorem completes_operand (hreads : Reads room inner) (hinner : CompletesPhrases room inner)
    (hp : Exact room p) : Completes (phrases (room + 1) .factor) (operand inner) p := by
  refine Completes.bind_of_eq_ok (a := p) rfl (Moves.refl p) ?_
  cases hrule : p.currentKind?.bind p.rules.operand with
  | none => exact completes_unexpected _ fun _ => live_phrases_iff.mpr (Nat.succ_pos room)
  | some rule =>
    cases rule with
    | primary =>
      refine completes_primary fun hrest => ?_
      rw [currentKind?_of_nil hrest] at hrule
      cases hrule
    | grouping => exact (completes_grouping hreads hinner hp).mono parens_le_factor

/-- An operator of a table and its right side. -/
theorem completes_binary {table : Kind → Option Operator} {part whole : Nonterminal}
    (hj : Joins table part whole) (hinner : CompletesPhrases room inner) (hp : Exact room p)
    {kind : Kind} (hkind : p.currentKind? = some kind) (hpower : kind.power = part.power) :
    Completes (signs table * phrases room part) (binary inner left part.power) p := by
  obtain ⟨operator, hop⟩ := hj.complete hpower
  obtain ⟨token, rest, hrest, rfl⟩ := currentKind?_eq_some_iff.mp hkind
  have hadvance := advance_eq_ok_iff.mpr ⟨rest, hrest, rfl⟩
  refine (completes_of_eq_ok hadvance).bind (fun hlt => by simp [hp.room_pos hlt])
    fun sign q hsign => ?_
  rw [hadvance] at hsign
  cases hsign
  have hm := advance_iff_moves.mp hadvance
  refine ⟨[token], ⟨⟨token, operator, hop⟩, rfl⟩, 0, hm, ?_⟩
  rw [(hj.spells.mp hop).1]
  exact (hinner part (hp.moves hm)).bind_last fun right r _ => ⟨_, _, rfl⟩

/-- A row of operators, each with its right side. -/
theorem completes_climb {table : Kind → Option Operator} {part whole : Nonterminal}
    (hj : Joins table part whole) (hreads : Reads room inner)
    (hinner : CompletesPhrases room inner) (hp : Exact room p) (hstops : Stops part p)
    (ahead : List Token) :
    Completes (signs table * phrases room part)∗ (climb inner whole.power ahead left) p := by
  -- On the rounds left.  Each round reads an operator and its right side.
  induction ahead generalizing left p with
  | nil => exact completes_of_eq_ok rfl
  | cons token ahead ih =>
    rcases stops_or_operator whole p with hdone | ⟨kind, hkind, hlt⟩
    · exact completes_of_eq_ok (climb_of_stops hp.rules hdone _)
    · have hpower := hj.power_eq hkind hstops hlt
      have hround : Completes (signs table * phrases room part)∗
          (binary inner left part.power >>= climb inner whole.power ahead) p := by
        refine Completes.mono (Completes.bind (completes_binary hj hinner hp hkind hpower)
          (fun _ => live_kstar _) fun joined q hjoined => ?_) mul_kstar_le_kstar
        obtain ⟨sign, d, ids, hlev, hread, hm, hstops'⟩ :=
          exists_phrase_of_binary hreads hp.ready hjoined
        obtain ⟨operator, hop⟩ := hj.complete hpower
        rw [hm.currentKind?_eq, Option.some.injEq] at hkind
        refine ⟨[sign] ++ d.tokens, ?_, ids, hm, ih (hp.moves hm) hstops'⟩
        exact Language.append_mem_mul ⟨⟨sign, operator, hkind ▸ hop⟩, rfl⟩
          ⟨d, rfl, hlev, hread⟩
      exact hround.congr (by rw [climb_of_operator hp.rules hkind hlt, hpower])

/-- One level, by the rules of its nonterminal. -/
theorem completes_level (hreads : Reads room inner) (hinner : CompletesPhrases room inner)
    (nt : Nonterminal) (hp : Exact room p) :
    Completes (phrases (room + 1) nt) (level inner nt.power) p := by
  have hterm : Completes (phrases (room + 1) .term) (level inner .additive) p := by
    rw [level_eq_bind]
    refine Completes.mono (Completes.bind (completes_operand hreads hinner hp)
      (fun _ => live_kstar _) fun left q hleft => ?_)
      (mul_kstar_le factor_le_term products_le_term)
    obtain ⟨d, -, hd⟩ := (operand_eq_ok_iff hreads hp.ready).mp hleft
    refine ⟨d.tokens, ⟨d, rfl, hd.levels, hd.readable⟩, _, hd.moves, ?_⟩
    exact completes_climb joins_product hreads hinner (hp.moves hd.moves) (stops_factor q) q.rest
  cases nt with
  | factor =>
    exact (completes_operand hreads hinner hp).congr (level_multiplicative hreads hp.ready)
  | term => exact hterm
  | expr =>
    have hexpr : Completes (phrases (room + 1) .expr)
        (level inner .additive >>= fun term => get >>= fun q => climb inner .lowest q.rest term)
        p := by
      refine Completes.mono (Completes.bind hterm
        (fun _ => live_kstar _) fun left q hleft => ?_)
        (mul_kstar_le term_le_expr sums_le_expr)
      obtain ⟨⟨d, -, hd⟩, hstops⟩ : ReadsPhrase .term (room + 1) p left q ∧ Stops .term q :=
        (level_eq_ok_iff hreads hp.ready).mp hleft
      refine ⟨d.tokens, ⟨d, rfl, hd.levels, hd.readable⟩, _, hd.moves, ?_⟩
      exact completes_climb joins_sum hreads hinner (hp.moves hd.moves) hstops q.rest
    exact hexpr.congr (level_lowest hreads hp.ready)

theorem completesPhrases_expr (room : Nat) : CompletesPhrases room (expr room) := by
  -- On the room.  Without room the error is that too many levels are open.
  induction room with
  | zero => exact fun nt p _ => completes_of_eq_error rfl nofun
  | succ room ih =>
    intro nt p hp
    rw [expr]
    exact .enter hp.depth_lt (completes_level (reads_expr room) ih nt hp.enterLevel)

/-! ### Statements -/

variable {block : Parse (List Stmt)}

/-- The value at the end of a statement, and its semicolon. -/
theorem completes_value (hp : Exact room p) (start : Position) (finish : Expr → Tag → Stmt) :
    Completes (phrases room .expr * single .semicolon)
      (do let value ← expr room .lowest
          let _ ← expect .semicolon
          let tag ← closeTag start
          return finish value tag) p := by
  refine (completesPhrases_expr room .expr hp).bind (fun _ => live_single _)
    fun value q hvalue => ?_
  obtain ⟨⟨d, -, hd⟩, -⟩ := (reads_expr room .expr hp.ready).mp hvalue
  refine ⟨d.tokens, ⟨d, rfl, hd.levels, hd.readable⟩, _, hd.moves, ?_⟩
  exact (completes_expect _ _).bind_last fun _ _ _ => ⟨_, _, rfl⟩

/-- A target is named without reading a token. -/
theorem Completes.identOf_bind {token : Token} {f : Ident → Parse β}
    (hf : ∀ ident q, Moves p q [] 1 → Completes M (f ident) q) :
    Completes M (identOf token >>= f) p := by
  have hm : Moves p { p with nextId := p.nextId + 1 } [] 1 := ⟨rfl, rfl, rfl, rfl, rfl, rfl⟩
  exact .bind_of_eq_ok (identOf_iff_moves.mpr ⟨rfl, hm⟩) hm (hf _ _ hm)

theorem completes_print (hp : Exact room p) :
    Completes (sentences room) (print (expr room .lowest)) p := by
  refine Completes.mono (.expect_bind (by decide) (fun hlt => by simp [hp.room_pos hlt])
    fun kwPrint q hm => ?_) print_le
  exact completes_value (hp.moves hm) _ _

theorem completes_assignment (hp : Exact room p) :
    Completes (sentences room) (assignment (expr room .lowest)) p := by
  refine Completes.mono (.expect_bind (by decide) (fun hlt => by simp [hp.room_pos hlt])
    fun name p₁ h₁ => ?_) assignment_le
  have hp₁ := hp.moves h₁
  refine .expect_bind (by decide) (fun hlt => by simp [hp₁.room_pos hlt]) fun _ p₂ h₂ => ?_
  refine .identOf_bind fun target p₃ h₃ => ?_
  exact completes_value ((hp₁.moves h₂).moves h₃) _ _

/-- The text of a type name is looked at as soon as it has been read. -/
theorem Completes.typeName_bind {f : Ty → Token → Parse β} (hlive : p.depth < p.limit → Live M)
    (hf : ∀ ty token q, Moves p q [token] 0 → Completes M (f ty token) q) :
    Completes (single .typeName * M)
      (do let token ← expect .typeName
          match Ty.ofKeyword? token.lexeme with
          | none => throw ⟨.unexpectedToken token.lexeme "a type name", token.span.start⟩
          | some ty => f ty token) p := by
  by_cases hbad : ∃ token q, expect .typeName p = .ok token q ∧ Ty.ofKeyword? token.lexeme = none
  · obtain ⟨token, q, htoken, hty⟩ := hbad
    intro error r herror
    rw [bind_of_ok htoken, hty] at herror
    cases herror
    exact fun ⟨_, hfault⟩ => nomatch hfault
  · refine (completes_expect .typeName p).bind hlive fun token q htoken => ?_
    obtain ⟨hkind, hm⟩ := expect_iff_moves.mp htoken
    cases hty : Ty.ofKeyword? token.lexeme with
    | none => exact absurd ⟨token, q, htoken, hty⟩ hbad
    | some ty =>
      have hread : token.Readable := by simp [Token.Readable, hkind, hty]
      exact ⟨[token], ⟨token, hkind, hread, rfl⟩, 0, hm, hf ty token q hm⟩

theorem completes_declaration (hp : Exact room p) :
    Completes (sentences room) (declaration (expr room .lowest)) p := by
  refine Completes.mono (.expect_bind (by decide) (fun hlt => by simp [hp.room_pos hlt])
    fun kwVar p₁ h₁ => ?_) declaration_le
  have hp₁ := hp.moves h₁
  refine .expect_bind (by decide) (fun hlt => by simp [hp₁.room_pos hlt]) fun name p₂ h₂ => ?_
  have hp₂ := hp₁.moves h₂
  refine .expect_bind (by decide) (fun hlt => by simp [hp₂.room_pos hlt]) fun colon p₃ h₃ => ?_
  have hp₃ := hp₂.moves h₃
  refine .typeName_bind (fun hlt => by simp [hp₃.room_pos hlt]) fun ty type p₄ h₄ => ?_
  have hp₄ := hp₃.moves h₄
  refine .expect_bind (by decide) (fun hlt => by simp [hp₄.room_pos hlt]) fun equals p₅ h₅ => ?_
  refine .identOf_bind fun target p₆ h₆ => ?_
  exact completes_value ((hp₄.moves h₅).moves h₆) _ _

/-- The reader is completed to blocks where `room` levels are left. -/
def CompletesBlocks (room : Nat) (block : Parse (List Stmt)) : Prop :=
  ∀ {p}, Exact room p → Completes (blocks room) block p

/-- A block and what comes behind it. -/
theorem CompletesBlocks.bind {f : List Stmt → Parse β} (hblock : CompletesBlocks room block)
    (hreads : ReadsBlocks room block) (hp : Exact room p) (hlive : p.depth < p.limit → Live M)
    (hf : ∀ body q, Exact room q → Completes M (f body) q) :
    Completes (blocks room * M) (block >>= f) p := by
  refine (hblock hp).bind hlive fun body q hbody => ?_
  obtain ⟨ds, -, hds, -⟩ := (hreads hp.ready).mp hbody
  exact ⟨blockTokens ds, ⟨ds, rfl, hds.levels, hds.readable⟩, _, hds.moves,
    hf body q (hp.moves hds.moves)⟩

/-- The head of a `while` or an `if`, and what comes behind its first block. -/
theorem completes_head (hreads : ReadsBlocks room block) (hblock : CompletesBlocks room block)
    (hp : Exact room p) {kind : Kind} (hkind : kind = .kwWhile ∨ kind = .kwIf)
    {f : Token → Expr → List Stmt → Parse Stmt} (hlive : 0 < room → Live M)
    (hf : ∀ first condition body q, Exact room q → Completes M (f first condition body) q) :
    Completes (single kind * (phrases room .expr * (single .kwDo * (blocks room * M))))
      (do let first ← expect kind
          let condition ← expr room .lowest
          let _ ← expect .kwDo
          let body ← block
          f first condition body) p := by
  have hplain : kind ≠ .typeName ∧ kind ≠ .integer ∧ kind ≠ .float := by
    rcases hkind with rfl | rfl <;> decide
  refine .expect_bind hplain (fun hlt => ?_) fun first p₁ h₁ => ?_
  · simp [hp.room_pos hlt, hlive (hp.room_pos hlt)]
  have hp₁ := hp.moves h₁
  refine (completesPhrases_expr room .expr hp₁).bind (fun hlt => ?_) fun condition p₂ h₂ => ?_
  · simp [hp₁.room_pos hlt, hlive (hp₁.room_pos hlt)]
  obtain ⟨⟨d, -, hd⟩, -⟩ := (reads_expr room .expr hp₁.ready).mp h₂
  have hp₂ := hp₁.moves hd.moves
  refine ⟨d.tokens, ⟨d, rfl, hd.levels, hd.readable⟩, _, hd.moves, ?_⟩
  refine .expect_bind (by decide) (fun hlt => ?_) fun _ p₃ h₃ => ?_
  · simp [hp₂.room_pos hlt, hlive (hp₂.room_pos hlt)]
  have hp₃ := hp₂.moves h₃
  exact hblock.bind hreads hp₃ (fun hlt => hlive (hp₃.room_pos hlt)) (hf first condition)

theorem completes_whileDo (hreads : ReadsBlocks room block) (hblock : CompletesBlocks room block)
    (hp : Exact room p) : Completes (sentences room) (whileDo (expr room .lowest) block) p := by
  refine Completes.mono (completes_head hreads hblock hp (.inl rfl) (fun _ => live_single .kwEnd)
    fun first condition body q _ => ?_) whileDo_le
  exact (completes_expect _ _).bind_last fun _ _ _ => ⟨_, _, rfl⟩

theorem completes_ifThen (hreads : ReadsBlocks room block) (hblock : CompletesBlocks room block)
    (hp : Exact room p) : Completes (sentences room) (ifThen (expr room .lowest) block) p := by
  refine Completes.mono (completes_head hreads hblock hp (.inr rfl)
    (fun _ => live_add_iff.mpr (.inl (live_single .kwEnd)))
    fun first condition body q hq => ?_) ifThen_le
  refine Completes.bind_of_eq_ok (a := q) rfl (Moves.refl q) ?_
  split
  · have helse : Completes (single .kwElse * (blocks room * single .kwEnd))
        (do let second ← expect .kwElse
            let otherwise ← block
            let _ ← expect .kwEnd
            let elseTag ← closeTag second.span.start
            let tag ← closeTag first.span.start
            return .ifThenElse condition body otherwise elseTag tag : Parse Stmt) q := by
      refine .expect_bind (by decide) (fun hlt => by simp [hq.room_pos hlt]) fun second r hm => ?_
      refine hblock.bind hreads (hq.moves hm) (fun _ => live_single _) fun otherwise s _ => ?_
      exact (completes_expect _ _).bind_last fun _ _ _ => ⟨_, _, rfl⟩
    exact helse.mono le_add_self
  · have hend : Completes (single .kwEnd)
        (do let _ ← expect .kwEnd
            let tag ← closeTag first.span.start
            return .ifThen condition body tag : Parse Stmt) q :=
      (completes_expect _ _).bind_last fun _ _ _ => ⟨_, _, rfl⟩
    exact hend.mono le_self_add

/-- A reserved word without a statement is no end of the tokens. -/
theorem completes_unsupported (h : p.rest ≠ []) : Completes L unsupported p := by
  obtain ⟨token, rest, hrest⟩ := List.exists_cons_of_ne_nil h
  have hadvance := advance_eq_ok_iff.mpr ⟨rest, hrest, rfl⟩
  intro error q herror
  rw [unsupported, bind_of_ok hadvance] at herror
  cases herror
  exact fun ⟨_, hfault⟩ => nomatch hfault

theorem completes_statement (hreads : ReadsBlocks room block)
    (hblock : CompletesBlocks room block) (hp : Exact room p) (h : p.rest ≠ [])
    (rule : StatementRule) :
    Completes (sentences room) (statement (expr room .lowest) block rule) p := by
  cases rule with
  | declaration => exact completes_declaration hp
  | assignment => exact completes_assignment hp
  | whileDo => exact completes_whileDo hreads hblock hp
  | ifThen => exact completes_ifThen hreads hblock hp
  | print => exact completes_print hp
  | unsupported => exact completes_unsupported h

/-! ### Blocks and programs -/

theorem completes_statements (hreads : ReadsBlocks room block)
    (hblock : CompletesBlocks room block) (hp : Exact room p) (ahead : List Token)
    (before : List Stmt) :
    Completes (blocks (room + 1)) (statements (statement (expr room .lowest) block) ahead before)
      p := by
  -- On the rounds left.  A statement that is completed needs nothing behind it.
  induction ahead generalizing before p with
  | nil => exact completes_of_eq_ok rfl
  | cons token ahead ih =>
    cases hrest : p.rest with
    | nil => exact completes_of_eq_ok (statements_of_rest_eq_nil hrest _ _)
    | cons first rest =>
      have hne : p.rest ≠ [] := by rw [hrest]; exact List.cons_ne_nil _ _
      have hkind := currentKind?_of_cons hrest
      cases hrule : Rules.standardStatement? first.kind with
      | none =>
        cases hends : endsBlock first.kind with
        | true =>
          have hdone : EndsBlock p := by
            intro kind hsome
            rw [hkind] at hsome
            cases hsome
            exact hends
          exact completes_of_eq_ok (statements_of_endsBlock hp.rules hdone _ _)
        | false =>
          refine .congr (statements_eq_fail hp.rules hkind hrule hends _ _ _) ?_
          exact completes_unexpected _ fun hnil => absurd hnil hne
      | some rule =>
        have hround : Completes (blocks (room + 1))
            (statement (expr room .lowest) block rule >>= fun s =>
              statements (statement (expr room .lowest) block) ahead (s :: before)) p := by
          refine Completes.mono (Completes.bind (completes_statement hreads hblock hp hne rule)
            (fun _ => live_blocks_iff.mpr (Nat.succ_pos room)) fun s q hs => ?_)
            sentences_mul_blocks_le
          obtain ⟨d, -, -, hd⟩ := (statement_eq_ok_iff hreads hp.ready).mp hs
          exact ⟨d.tokens, ⟨d, rfl, hd.levels, hd.readable⟩, _, hd.moves,
            ih (hp.moves hd.moves) (s :: before)⟩
        exact hround.congr (statements_of_rule hp.rules hkind hrule _ _ _)

theorem completesBlocks_blockWithin (room : Nat) : CompletesBlocks room (blockWithin room) := by
  -- On the room, as for expressions.
  induction room with
  | zero => exact fun _ => completes_of_eq_error rfl nofun
  | succ room ih =>
    intro p hp
    rw [blockWithin_succ]
    refine .enter hp.depth_lt ?_
    exact Completes.bind_of_eq_ok rfl (Moves.refl _)
      (completes_statements (readsBlocks_blockWithin room) ih hp.enterLevel _ _)

/-- Where the tokens of a program run out and a level is left, they are the
    front of a word of the grammar. -/
theorem completes_program (limit : Nat) (ts : List Token) :
    Completes (blocks limit) program (start .standard limit ts) := by
  have hp : Exact limit (begun limit ts) := ⟨rfl, Nat.zero_add limit⟩
  have hbody : Completes (blocks limit * 1)
      (blockWithin limit >>= fun body => get >>= fun q =>
        if q.rest.isEmpty then
          pure ⟨body, ⟨0, ⟨(start .standard limit ts).reached, q.reached⟩⟩⟩
        else fail (·.unexpected "a statement") : Parse Program) (begun limit ts) := by
    refine CompletesBlocks.bind (completesBlocks_blockWithin limit)
      (readsBlocks_blockWithin limit) hp (fun _ => ⟨[], Language.nil_mem_one⟩) fun body q _ => ?_
    refine Completes.bind_of_eq_ok (a := q) rfl (Moves.refl q) ?_
    split
    · exact completes_of_eq_ok rfl
    · exact completes_unexpected _ fun _ => ⟨[], Language.nil_mem_one⟩
  rw [mul_one] at hbody
  intro error q herror
  rw [program_start] at herror
  exact hbody error q herror

end Parser

/-- A syntax error is final, and an end of the tokens means that something is
    missing.  Other errors than an end stay what they are and where they are
    when tokens are added; only the error of too many levels moves to the
    first token added if no token was left.  Where the tokens end and one more
    level may be opened, tokens can be added that make it a program. -/
theorem parse_append_of_error {ts : List Token} {error : Error} (h : parse ts = .error error) :
    ∃ q, Parser.program (.start .standard maxNesting ts) = .error error q ∧
      (¬ error.IsEnd → ∀ us, ∃ position, parse (ts ++ us) = .error ⟨error.fault, position⟩ ∧
        (position = error.position ∨
          error.fault = .nestingTooDeep maxNesting ∧ q.rest = [])) ∧
      (error.IsEnd → q.depth < maxNesting → ∃ us p, parse (ts ++ us) = .ok p) := by
  rw [parse, parseWithin] at h
  cases hprogram : Parser.program (.start .standard maxNesting ts) with
  | ok prog q =>
    rw [hprogram] at h
    cases h
  | error e q =>
    rw [hprogram] at h
    cases h
    refine ⟨q, rfl, fun hend us => ?_, fun hend hdepth => ?_⟩
    · obtain ⟨error', q', hlonger, hfault, hposition⟩ :=
        Parser.exists_program_append_eq_error (by decide) hprogram hend us
      refine ⟨error'.position, ?_, hposition⟩
      rw [parse, parseWithin, hlonger, ← hfault]
    · obtain ⟨-, us, d, htokens, hlev, hread⟩ :=
        Parser.completes_program maxNesting ts error q hprogram hend hdepth
      exact ⟨us, program d, parseWithin_eq_ok_iff.mpr ⟨d, rfl, htokens.symm, hread, hlev⟩⟩

/-- A sum in parentheses, in the block of a branch, can still be completed. -/
theorem parse_append_of_error_of_open_sum :
    ∃ ts error, tokenize "if a do x = (1 +" defaultFile = .ok ts ∧ parse ts = .error error ∧
      error.fault = .unexpectedEnd "an expression" ∧ ∃ us p, parse (ts ++ us) = .ok p := by
  have hok : (tokenize "if a do x = (1 +" defaultFile).isOk := by decide +kernel
  obtain ⟨ts, hts⟩ := Result.exists_of_isOk hok
  have hrun : (tokenize "if a do x = (1 +" defaultFile).toOption.all (fun ts =>
      EStateM.Result.casesOn (Parser.program (.start .standard maxNesting ts))
        (fun _ _ => false)
        (fun error q => error.fault = .unexpectedEnd "an expression" && q.depth < maxNesting)) =
      true := by
    decide +kernel
  rw [hts, Except.toOption, Option.all_some] at hrun
  cases hprogram : Parser.program (.start .standard maxNesting ts) with
  | ok p q =>
    rw [hprogram] at hrun
    cases hrun
  | error error q =>
    simp only [hprogram, Bool.and_eq_true, decide_eq_true_eq] at hrun
    have hparse : parse ts = .error error := by rw [parse, parseWithin, hprogram]
    obtain ⟨q', hq', -, hcomplete⟩ := parse_append_of_error hparse
    rw [hprogram] at hq'
    cases hq'
    exact ⟨ts, error, hts, hparse, hrun.1, hcomplete ⟨_, hrun.1⟩ hrun.2⟩

end BlockLang
