import BlockLang.Proofs.Grammar.Acceptance
import BlockLang.Proofs.Grammar.Comparison

/-! # Location — where the parser's errors stand

  A parser reports what is wrong at a token, or behind the last token when
  none is left.  What has been read before does not matter: an action that
  fails does so at one of the tokens that are ahead when it starts, and what it
  says about the token is true.  The end of the tokens is reported where no
  token is left, and a level too many where the parser stands.  This is
  followed action by action, from one parser to all that stand behind it. -/

namespace BlockLang

/-- The fault can be found where no token is left. -/
def Fault.FoundAtEnd (fault : Fault) : Prop :=
  (∃ expected, fault = .unexpectedEnd expected) ∨ ∃ limit, fault = .nestingTooDeep limit

/-- The fault can be found at the token: it has the token's text, and the text
    of a number or of a type name is only refused if it cannot be read. -/
def Fault.About (token : Token) : Fault → Prop
  | .unreadableNumber text =>
      text = token.lexeme ∧ (token.kind = .integer ∨ token.kind = .float) ∧ ¬ token.Readable
  | .unexpectedToken text expected =>
      text = token.lexeme ∧
        (expected = "a type name" → token.kind = .typeName ∧ ¬ token.Readable)
  | .notImplemented construct => construct = token.lexeme
  | .nestingTooDeep _ => True
  | _ => False

theorem Fault.About.phase_eq {token : Token} {fault : Fault} (h : fault.About token) :
    fault.phase = .syntactic := by
  cases fault with
  | unreadableNumber | unexpectedToken | notImplemented | nestingTooDeep => rfl
  | _ => cases h

/-- What is missing at the end is not found at a token. -/
theorem Fault.not_about_unexpectedEnd {token : Token} {expected : String} :
    ¬ (Fault.unexpectedEnd expected).About token := id

/-- No kind of token is called what a type name is. -/
theorem Kind.name_ne_typeName (kind : Kind) : kind.name ≠ "a type name" := by
  cases kind <;> decide

namespace Parser

variable {α β : Type} {base p q : Parser} {x : Parse α} {f : α → Parse β}

/-! ### Parsers further on -/

/-- The parser `p` has read some of the tokens ahead of `base`. -/
def Behind (base p : Parser) : Prop :=
  ∃ ts, base.rest = ts ++ p.rest ∧ p.read = ts.reverse ++ base.read

namespace Behind

theorem refl (base : Parser) : Behind base base := ⟨[], rfl, rfl⟩

theorem tokens_eq (h : Behind base p) : p.tokens = base.tokens := by
  obtain ⟨ts, hrest, hread⟩ := h
  exact tokens_eq_of_front hrest hread

theorem mem_rest {token : Token} (h : Behind base p) (htoken : token ∈ p.rest) :
    token ∈ base.rest := by
  obtain ⟨ts, hrest, -⟩ := h
  rw [hrest]
  exact List.mem_append_right ts htoken

theorem moves {ts : List Token} {n : Nat} (h : Behind base p) (hm : Moves p q ts n) :
    Behind base q := by
  obtain ⟨us, hrest, hread⟩ := h
  refine ⟨us ++ ts, ?_, ?_⟩
  · rw [hrest, hm.rest, List.append_assoc]
  · rw [hm.read, hread, List.reverse_append, List.append_assoc]

end Behind

/-! ### Places -/

/-- The error of a parser that stops at `p` stands where one of the tokens ahead
    of `base` starts, or, if no token is left, behind the last one. -/
inductive Located (base p : Parser) : Error → Prop where
  /-- A level too many is reported at the token that is read next. -/
  | start {token fault} : token ∈ base.rest → fault.About token →
      (∀ limit, fault = .nestingTooDeep limit → p.current? = some token) →
      Located base p ⟨fault, token.span.start⟩
  | finish {fault} : fault.FoundAtEnd → p.rest = [] → Located base p ⟨fault, base.finish⟩

/-- What is wrong with a token is reported there. -/
theorem Located.of_token {token : Token} {fault : Fault} (htoken : token ∈ base.rest)
    (habout : fault.About token) (hdeep : ∀ limit, fault ≠ .nestingTooDeep limit) :
    Located base p ⟨fault, token.span.start⟩ := by
  apply Located.start htoken habout
  intro limit hfault
  exact absurd hfault (hdeep limit)

/-- The parser stands at a token ahead of `base`, or behind the last one. -/
theorem Behind.here_cases (h : Behind base p) :
    (∃ token ∈ base.rest, p.current? = some token ∧ p.here = token.span.start) ∨
      p.current? = none ∧ p.here = base.finish := by
  have hhere := p.here_eq
  cases hcurrent : p.current? with
  | some token =>
    rw [hcurrent] at hhere
    exact .inl ⟨token, h.mem_rest (List.mem_of_head? hcurrent), rfl, hhere⟩
  | none =>
    rw [hcurrent] at hhere
    refine .inr ⟨rfl, hhere.trans ?_⟩
    rw [finish, finish, h.tokens_eq]

theorem Behind.located_unexpected (h : Behind base p) {expected : String}
    (hne : expected ≠ "a type name") : Located base p (p.unexpected expected) := by
  obtain ⟨token, hmem, hcurrent, hhere⟩ | ⟨hcurrent, hhere⟩ := h.here_cases
  · rw [unexpected, hcurrent, hhere]
    refine .of_token hmem ⟨rfl, fun heq => absurd heq hne⟩ ?_
    rintro limit ⟨⟩
  · rw [unexpected, hcurrent, hhere]
    exact .finish (.inl ⟨expected, rfl⟩) (List.head?_eq_none_iff.mp hcurrent)

theorem Behind.located_tooDeep (h : Behind base p) : Located base p p.tooDeep := by
  obtain ⟨token, hmem, hcurrent, hhere⟩ | ⟨hcurrent, hhere⟩ := h.here_cases
  · rw [tooDeep, hhere]
    exact .start hmem trivial fun _ _ => hcurrent
  · rw [tooDeep, hhere]
    exact .finish (.inr ⟨p.limit, rfl⟩) (List.head?_eq_none_iff.mp hcurrent)

/-! ### Actions -/

/-- Behind the action the parser is further on, or it has failed at a token
    ahead of `base`. -/
def Locates (base : Parser) (x : Parse α) (p : Parser) : Prop :=
  match x p with
  | .ok _ q => Behind base q
  | .error error q => Located base q error

namespace Locates

/-- Two actions in a row. -/
theorem bind (hx : Locates base x p)
    (hnext : ∀ a q, x p = .ok a q → Behind base q → Locates base (f a) q) :
    Locates base (x >>= f) p := by
  unfold Locates at hx ⊢
  simp only [Bind.bind, EStateM.bind]
  cases hresult : x p with
  | ok a q =>
    rw [hresult] at hx
    exact hnext a q hresult hx
  | error error q =>
    rw [hresult] at hx
    exact hx

theorem pure (h : Behind base p) (a : α) : Locates base (Pure.pure a) p := h

theorem throw {error : Error} (h : Located base p error) :
    Locates base (MonadExcept.throw error : Parse α) p := h

/-- A token that has been read is refused. -/
theorem refuse {token : Token} {fault : Fault} (htoken : token ∈ base.rest)
    (habout : fault.About token) (hdeep : ∀ limit, fault ≠ .nestingTooDeep limit) :
    Locates base (MonadExcept.throw (Error.mk fault token.span.start) : Parse α) p :=
  .throw (.of_token htoken habout hdeep)

theorem unexpected (h : Behind base p) {expected : String} (hne : expected ≠ "a type name") :
    Locates base (fail (·.unexpected expected) : Parse α) p := h.located_unexpected hne

theorem get_bind {f : Parser → Parse β} (h : Locates base (f p) p) :
    Locates base (get >>= f) p := h

/-- A token that is read is one of those ahead, so an error may stand there. -/
theorem advance_bind {f : Token → Parse β} (h : Behind base p)
    (hnext : ∀ token q, token ∈ base.rest → Behind base q → Locates base (f token) q) :
    Locates base (advance >>= f) p := by
  cases hrest : p.rest with
  | nil =>
    unfold Locates
    rw [advance_bind_of_nil hrest]
    exact h.located_unexpected (by decide)
  | cons token rest =>
    have hread : advance p = .ok token { p with read := token :: p.read, rest := rest } :=
      advance_eq_ok_iff.mpr ⟨rest, hrest, rfl⟩
    have hmem : token ∈ p.rest := by
      rw [hrest]
      exact List.mem_cons_self
    unfold Locates
    rw [bind_of_ok hread]
    exact hnext token _ (h.mem_rest hmem) (h.moves (advance_iff_moves.mp hread))

theorem expect_bind {kind : Kind} {f : Token → Parse β} (h : Behind base p)
    (hnext : ∀ token q, token ∈ base.rest ∧ token.kind = kind → Behind base q →
      Locates base (f token) q) :
    Locates base (expect kind >>= f) p := by
  by_cases hkind : p.currentKind? = some kind
  · obtain ⟨token, rest, hrest, rfl⟩ := currentKind?_eq_some_iff.mp hkind
    have hread : advance p = .ok token { p with read := token :: p.read, rest := rest } :=
      advance_eq_ok_iff.mpr ⟨rest, hrest, rfl⟩
    have hmem : token ∈ p.rest := by
      rw [hrest]
      exact List.mem_cons_self
    unfold Locates
    rw [expect_bind_of_eq hkind, bind_of_ok hread]
    exact hnext token _ ⟨h.mem_rest hmem, rfl⟩ (h.moves (advance_iff_moves.mp hread))
  · unfold Locates
    rw [expect_bind_of_ne hkind]
    exact h.located_unexpected kind.name_ne_typeName

theorem freshId_bind {f : NodeId → Parse β} (h : Behind base p)
    (hnext : ∀ id q, Behind base q → Locates base (f id) q) :
    Locates base (freshId >>= f) p :=
  hnext p.nextId { p with nextId := p.nextId + 1 } h

theorem identOf_bind {token : Token} {f : Ident → Parse β} (h : Behind base p)
    (hnext : ∀ ident q, Behind base q → Locates base (f ident) q) :
    Locates base (identOf token >>= f) p :=
  hnext _ { p with nextId := p.nextId + 1 } h

theorem closeTag_bind {start : Position} {f : Tag → Parse β} (h : Behind base p)
    (hnext : ∀ tag q, Behind base q → Locates base (f tag) q) :
    Locates base (closeTag start >>= f) p :=
  hnext _ { p with nextId := p.nextId + 1 } h

/-- An action inside a level of its own. -/
theorem enter_bind (h : p.depth < p.limit)
    (hx : Locates base x { p with depth := p.depth + 1 }) :
    Locates base (do enter; let a ← x; leave; return a) p := by
  unfold Locates at hx ⊢
  rw [Parser.enter_bind h]
  cases hresult : x { p with depth := p.depth + 1 } with
  | ok a q =>
    rw [hresult] at hx
    exact hx
  | error error q =>
    rw [hresult] at hx
    exact hx

/-- Opening a level may fail too, where the parser stands. -/
theorem enter_bind_of_behind (h : Behind base p)
    (hx : Locates base x { p with depth := p.depth + 1 }) :
    Locates base (do enter; let a ← x; leave; return a) p := by
  by_cases hdepth : p.depth < p.limit
  · exact enter_bind hdepth hx
  · unfold Locates
    simp only [Bind.bind, EStateM.bind, enter, if_neg hdepth]
    exact h.located_tooDeep

end Locates

/-! ### Expressions -/

section

variable {inner : Power → Parse Expr}

/-- A leaf that cannot be read is reported at its token. -/
theorem located_of_leafOf {token : Token} {id : NodeId} {error : Error}
    (htoken : token ∈ base.rest) (h : leafOf token id = .error error) :
    Located base p error := by
  have hrefused {fault : Fault} (habout : fault.About token)
      (hdeep : ∀ limit, fault ≠ .nestingTooDeep limit) :
      Located base p ⟨fault, token.span.start⟩ := .of_token htoken habout hdeep
  unfold leafOf at h
  dsimp only at h
  split at h
  · rename_i hkind
    split at h
    · cases h
    · rename_i hvalue
      cases h
      refine hrefused ⟨rfl, .inl hkind, by simp [Token.Readable, hkind, hvalue]⟩ ?_
      rintro limit ⟨⟩
  · rename_i hkind
    split at h
    · cases h
    · rename_i hvalue
      cases h
      refine hrefused ⟨rfl, .inr hkind, by simp [Token.Readable, hkind, hvalue]⟩ ?_
      rintro limit ⟨⟩
  all_goals cases h
  refine hrefused ⟨rfl, fun heq => absurd heq (by decide)⟩ ?_
  rintro limit ⟨⟩

theorem locates_primary (h : Behind base p) : Locates base primary p := by
  refine .advance_bind h fun token p₁ htoken h₁ => ?_
  refine .freshId_bind h₁ fun id p₂ h₂ => ?_
  cases hleaf : leafOf token id with
  | ok e => exact .pure h₂ e
  | error error => exact .throw (located_of_leafOf htoken hleaf)

theorem locates_grouping (hinner : ∀ power q, Behind base q → Locates base (inner power) q)
    (h : Behind base p) : Locates base (grouping inner) p := by
  refine .expect_bind h fun _ p₁ _ h₁ => ?_
  refine .bind (hinner .lowest p₁ h₁) fun e p₂ _ h₂ => ?_
  exact .expect_bind h₂ fun _ p₃ _ h₃ => .pure h₃ e

theorem locates_operand (hinner : ∀ power q, Behind base q → Locates base (inner power) q)
    (h : Behind base p) : Locates base (operand inner) p := by
  refine .get_bind ?_
  match p.currentKind?.bind p.rules.operand with
  | some .primary => exact locates_primary h
  | some .grouping => exact locates_grouping hinner h
  | none => exact .unexpected h (by decide)

theorem locates_binary (hinner : ∀ power q, Behind base q → Locates base (inner power) q)
    (h : Behind base p) (left : Expr) (power : Power) :
    Locates base (binary inner left power) p := by
  refine .advance_bind h fun token p₁ htoken h₁ => ?_
  cases Operator.ofKind? token.kind with
  | none => exact .refuse htoken ⟨rfl, fun heq => absurd heq (by decide)⟩ nofun
  | some operator =>
    refine .bind (hinner power p₁ h₁) fun right p₂ _ h₂ => ?_
    exact .freshId_bind h₂ fun id p₃ h₃ => .pure h₃ _

theorem locates_climb (hinner : ∀ power q, Behind base q → Locates base (inner power) q)
    (h : Behind base p) (power : Power) (rounds : List Token) (left : Expr) :
    Locates base (climb inner power rounds left) p := by
  induction rounds generalizing left p with
  | nil => exact .pure h left
  | cons _ rounds ih =>
    refine .get_bind ?_
    cases p.currentKind? with
    | none => exact .pure h left
    | some kind =>
      simp only
      split
      · exact .pure h left
      · split
        · exact .bind (locates_binary hinner h left _) fun joined q _ hq => ih hq joined
        · exact .unexpected h (by decide)

/-- An expression that cannot be read is reported at a token ahead. -/
theorem locates_expr (room : Nat) (power : Power) (h : Behind base p) :
    Locates base (expr room power) p := by
  -- On the room; without any, the level itself is one too many.
  induction room generalizing power p with
  | zero => exact h.located_tooDeep
  | succ room ih =>
    refine .enter_bind_of_behind h ?_
    refine .bind (locates_operand (fun power q hq => ih power hq) h) fun left q _ hq => ?_
    exact .get_bind (locates_climb (fun power q hq => ih power hq) hq power q.rest left)

end

/-! ### Statements -/

section

variable {expression : Parse Expr} {block : Parse (List Stmt)}

theorem locates_declaration (hexpr : ∀ q, Behind base q → Locates base expression q)
    (h : Behind base p) : Locates base (declaration expression) p := by
  refine .expect_bind h fun first p₁ _ h₁ => ?_
  refine .expect_bind h₁ fun name p₂ _ h₂ => ?_
  refine .expect_bind h₂ fun _ p₃ _ h₃ => ?_
  refine .expect_bind h₃ fun type p₄ htype h₄ => ?_
  cases hty : Ty.ofKeyword? type.lexeme with
  | none =>
    obtain ⟨htype, hkind⟩ := htype
    have hread : ¬ type.Readable := by simp [Token.Readable, hkind, hty]
    refine .refuse htype ⟨rfl, fun _ => ⟨hkind, hread⟩⟩ ?_
    rintro limit ⟨⟩
  | some ty =>
    refine .expect_bind h₄ fun _ p₅ _ h₅ => ?_
    refine .identOf_bind h₅ fun target p₆ h₆ => ?_
    refine .bind (hexpr p₆ h₆) fun value p₇ _ h₇ => ?_
    refine .expect_bind h₇ fun _ p₈ _ h₈ => ?_
    exact .closeTag_bind h₈ fun tag p₉ h₉ => .pure h₉ _

theorem locates_assignment (hexpr : ∀ q, Behind base q → Locates base expression q)
    (h : Behind base p) : Locates base (assignment expression) p := by
  refine .expect_bind h fun name p₁ _ h₁ => ?_
  refine .expect_bind h₁ fun _ p₂ _ h₂ => ?_
  refine .identOf_bind h₂ fun target p₃ h₃ => ?_
  refine .bind (hexpr p₃ h₃) fun value p₄ _ h₄ => ?_
  refine .expect_bind h₄ fun _ p₅ _ h₅ => ?_
  exact .closeTag_bind h₅ fun tag p₆ h₆ => .pure h₆ _

theorem locates_print (hexpr : ∀ q, Behind base q → Locates base expression q)
    (h : Behind base p) : Locates base (print expression) p := by
  refine .expect_bind h fun first p₁ _ h₁ => ?_
  refine .bind (hexpr p₁ h₁) fun value p₂ _ h₂ => ?_
  refine .expect_bind h₂ fun _ p₃ _ h₃ => ?_
  exact .closeTag_bind h₃ fun tag p₄ h₄ => .pure h₄ _

theorem locates_whileDo (hexpr : ∀ q, Behind base q → Locates base expression q)
    (hblock : ∀ q, Behind base q → Locates base block q) (h : Behind base p) :
    Locates base (whileDo expression block) p := by
  refine .expect_bind h fun first p₁ _ h₁ => ?_
  refine .bind (hexpr p₁ h₁) fun condition p₂ _ h₂ => ?_
  refine .expect_bind h₂ fun _ p₃ _ h₃ => ?_
  refine .bind (hblock p₃ h₃) fun body p₄ _ h₄ => ?_
  refine .expect_bind h₄ fun _ p₅ _ h₅ => ?_
  exact .closeTag_bind h₅ fun tag p₆ h₆ => .pure h₆ _

theorem locates_ifThen (hexpr : ∀ q, Behind base q → Locates base expression q)
    (hblock : ∀ q, Behind base q → Locates base block q) (h : Behind base p) :
    Locates base (ifThen expression block) p := by
  refine .expect_bind h fun first p₁ _ h₁ => ?_
  refine .bind (hexpr p₁ h₁) fun condition p₂ _ h₂ => ?_
  refine .expect_bind h₂ fun _ p₃ _ h₃ => ?_
  refine .bind (hblock p₃ h₃) fun body p₄ _ h₄ => ?_
  refine .get_bind ?_
  split
  · refine .expect_bind h₄ fun second p₅ _ h₅ => ?_
    refine .bind (hblock p₅ h₅) fun otherwise p₆ _ h₆ => ?_
    refine .expect_bind h₆ fun _ p₇ _ h₇ => ?_
    refine .closeTag_bind h₇ fun elseTag p₈ h₈ => ?_
    exact .closeTag_bind h₈ fun tag p₉ h₉ => .pure h₉ _
  · refine .expect_bind h₄ fun _ p₅ _ h₅ => ?_
    exact .closeTag_bind h₅ fun tag p₆ h₆ => .pure h₆ _

theorem locates_statement (hexpr : ∀ q, Behind base q → Locates base expression q)
    (hblock : ∀ q, Behind base q → Locates base block q) (h : Behind base p)
    (rule : StatementRule) : Locates base (statement expression block rule) p := by
  cases rule with
  | declaration => exact locates_declaration hexpr h
  | assignment => exact locates_assignment hexpr h
  | whileDo => exact locates_whileDo hexpr hblock h
  | ifThen => exact locates_ifThen hexpr hblock h
  | print => exact locates_print hexpr h
  | unsupported =>
    exact .advance_bind h fun token _ htoken _ => .refuse htoken rfl nofun

theorem locates_statements (hexpr : ∀ q, Behind base q → Locates base expression q)
    (hblock : ∀ q, Behind base q → Locates base block q) (h : Behind base p)
    (rounds : List Token) (before : List Stmt) :
    Locates base (statements (statement expression block) rounds before) p := by
  induction rounds generalizing before p with
  | nil => exact .pure h _
  | cons _ rounds ih =>
    refine .get_bind ?_
    cases p.currentKind? with
    | none => exact .pure h _
    | some kind =>
      simp only
      cases p.rules.statement kind with
      | some rule =>
        exact .bind (locates_statement hexpr hblock h rule) fun s q _ hq => ih hq _
      | none =>
        simp only
        split
        · exact .pure h _
        · exact .unexpected h (by decide)

end

/-- A block that cannot be read is reported at a token ahead. -/
theorem locates_blockWithin (room : Nat) (h : Behind base p) :
    Locates base (blockWithin room) p := by
  induction room generalizing p with
  | zero => exact h.located_tooDeep
  | succ room ih =>
    have hlevel : Behind base { p with depth := p.depth + 1 } := h
    rw [blockWithin_succ]
    refine .enter_bind_of_behind h (.get_bind ?_)
    exact locates_statements (fun q hq => locates_expr room .lowest hq) (fun q hq => ih hq)
      hlevel _ _

end Parser

end BlockLang
