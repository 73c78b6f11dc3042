import BlockLang.Proofs.Grammar.Location
import BlockLang.Proofs.Program.Matching
import BlockLang.Proofs.Result
import Mathlib.Data.List.Forall2

/-! # Renaming — reading the same program with other names

  Two rows of tokens may agree in everything but the names, which are replaced
  one to one, and the places of the tokens.  The parser looks at kinds only,
  so it reads both rows with the same actions: the programs match, or the
  errors stand at the same token. -/

namespace BlockLang

/-! ### Tokens -/

/-- The text of a token with other names: a name is replaced, and any other
    text stays. -/
def Kind.rename (ρ : String → String) (kind : Kind) (text : String) : String :=
  if kind = .identifier then ρ text else text

/-- The second token is the first one with another name, at any place. -/
structure Token.Renames (ρ : String → String) (a b : Token) : Prop where
  kind : b.kind = a.kind
  lexeme : b.lexeme = a.kind.rename ρ a.lexeme

instance (ρ : String → String) (a b : Token) : Decidable (a.Renames ρ b) :=
  decidable_of_iff (b.kind = a.kind ∧ b.lexeme = a.kind.rename ρ a.lexeme)
    ⟨fun h => ⟨h.1, h.2⟩, fun h => ⟨h.kind, h.lexeme⟩⟩

/-- Two rows of tokens, of which the second is the first with other names. -/
structure Renaming where
  rename : String → String
  injective : Function.Injective rename
  first : List Token
  second : List Token
  renames : List.Forall₂ (Token.Renames rename) first second

variable {r : Renaming}

namespace Renaming

/-- The tokens stand at the same place of their rows. -/
def Pair (r : Renaming) (a b : Token) : Prop :=
  a.Renames r.rename b ∧ ∃ i : Nat, r.first[i]? = some a ∧ r.second[i]? = some b

/-- All tokens of both rows are paired, from the first to the last. -/
theorem pairs (r : Renaming) : List.Forall₂ r.Pair r.first r.second := by
  rw [List.forall₂_iff_get]
  refine ⟨r.renames.length_eq, fun i hi hi' => ⟨r.renames.get hi hi', i, ?_, ?_⟩⟩
  · exact List.getElem?_eq_getElem hi
  · exact List.getElem?_eq_getElem hi'

/-- Names stand for their replacements, and places for places where tokens at
    the same place of the rows start. -/
def correspondence (r : Renaming) : Correspondence where
  names x x' := x' = r.rename x
  places place place' :=
    ∃ a b, r.Pair a b ∧ place = a.span.start ∧ place' = b.span.start
  known x := ∃ y, x = r.rename y
  eq_iff := by
    rintro x _ y _ rfl rfl
    exact r.injective.eq_iff.symm
  known_of_names h := ⟨_, h⟩

end Renaming

/-! ### Errors -/

/-- The fault with other names, when it is found at a token of the given kind. -/
def Fault.rename (ρ : String → String) (kind : Kind) : Fault → Fault
  | .unexpectedToken text expected => .unexpectedToken (kind.rename ρ text) expected
  | .notImplemented construct => .notImplemented (kind.rename ρ construct)
  | .duplicateDeclaration name => .duplicateDeclaration (ρ name)
  | .undeclaredIdentifier name => .undeclaredIdentifier (ρ name)
  | fault => fault

/-- The errors are the same but for names, and stand at tokens that are at the
    same place of the rows, or behind the last tokens. -/
inductive Error.Corresponds (ρ : String → String) (ts us : List Token) : Error → Error → Prop where
  | at {i : Nat} {a b} (fault : Fault) : ts[i]? = some a → us[i]? = some b →
      Corresponds ρ ts us ⟨fault, a.span.start⟩ ⟨fault.rename ρ a.kind, b.span.start⟩
  | behind {fault : Fault} : fault.FoundAtEnd →
      Corresponds ρ ts us ⟨fault, (ts.getLast?.map (·.span.stop)).getD .null⟩
        ⟨fault, (us.getLast?.map (·.span.stop)).getD .null⟩

namespace Parser

variable {α β α' β' : Type} {p q : Parser}

/-! ### Parsers -/

/-- The parsers have read equally many tokens of the two rows, and otherwise
    have everything in common. -/
structure Parallel (r : Renaming) (p q : Parser) : Prop where
  tokens : p.tokens = r.first ∧ q.tokens = r.second
  read : List.Forall₂ r.Pair p.read q.read
  rest : List.Forall₂ r.Pair p.rest q.rest
  depth : q.depth = p.depth
  nextId : q.nextId = p.nextId
  rules : q.rules = p.rules
  limit : q.limit = p.limit

/-- Either both parsers stand at tokens that are paired, or both behind their
    last token. -/
theorem Parallel.current_cases (h : Parallel r p q) :
    (∃ a b, r.Pair a b ∧ p.current? = some a ∧ q.current? = some b ∧
      p.here = a.span.start ∧ q.here = b.span.start) ∨
    p.current? = none ∧ q.current? = none ∧
      p.here = (r.first.getLast?.map (·.span.stop)).getD .null ∧
      q.here = (r.second.getLast?.map (·.span.stop)).getD .null := by
  have hhere := p.here_eq
  have hhere' := q.here_eq
  have hrest := h.rest
  unfold current? at hhere hhere' ⊢
  unfold finish at hhere hhere'
  rw [h.tokens.1] at hhere
  rw [h.tokens.2] at hhere'
  generalize p.rest = rest at hrest hhere ⊢
  generalize q.rest = rest' at hrest hhere' ⊢
  cases hrest with
  | nil => exact .inr ⟨rfl, rfl, hhere, hhere'⟩
  | @cons a b _ _ hpair _ => exact .inl ⟨a, b, hpair, rfl, rfl, hhere, hhere'⟩

theorem Parallel.currentKind?_eq (h : Parallel r p q) : q.currentKind? = p.currentKind? := by
  unfold currentKind?
  obtain ⟨a, b, hpair, ha, hb, -⟩ | ⟨ha, hb, -⟩ := h.current_cases
  · rw [ha, hb, Option.map_some, Option.map_some, hpair.1.kind]
  · rw [ha, hb]

theorem Parallel.corresponds_unexpected (h : Parallel r p q) (expected : String) :
    Error.Corresponds r.rename r.first r.second (p.unexpected expected)
      (q.unexpected expected) := by
  unfold unexpected
  obtain ⟨a, b, ⟨hrenames, i, hi, hi'⟩, ha, hb, hhere, hhere'⟩ | ⟨ha, hb, hhere, hhere'⟩ :=
    h.current_cases
  · simp only [ha, hb, hhere, hhere', hrenames.lexeme]
    exact .at (.unexpectedToken a.lexeme expected) hi hi'
  · simp only [ha, hb, hhere, hhere']
    exact .behind (.inl ⟨expected, rfl⟩)

theorem Parallel.corresponds_tooDeep (h : Parallel r p q) :
    Error.Corresponds r.rename r.first r.second p.tooDeep q.tooDeep := by
  unfold tooDeep
  rw [h.limit]
  obtain ⟨a, b, ⟨-, i, hi, hi'⟩, -, -, hhere, hhere'⟩ | ⟨-, -, hhere, hhere'⟩ := h.current_cases
  · rw [hhere, hhere']
    exact .at (.nestingTooDeep p.limit) hi hi'
  · rw [hhere, hhere']
    exact .behind (.inr ⟨p.limit, rfl⟩)

/-! ### Actions -/

/-- Two actions have results that are related, or errors that correspond. -/
inductive Together (r : Renaming) (values : α → α' → Prop) :
    EStateM.Result Error Parser α → EStateM.Result Error Parser α' → Prop where
  | ok {a a' p q} : values a a' → Parallel r p q → Together r values (.ok a p) (.ok a' q)
  | error {e e' p q} : Error.Corresponds r.rename r.first r.second e e' →
      Together r values (.error e p) (.error e' q)

/-- The action does the same on the tokens of both rows. -/
def Uniform (r : Renaming) (values : α → α → Prop) (x : Parse α) : Prop :=
  ∀ {p q}, Parallel r p q → Together r values (x p) (x q)

namespace Together

variable {values : α → α' → Prop} {values' : β → β' → Prop}

/-- Two sequences go together action by action. -/
theorem bind {x : Parse α} {x' : Parse α'} {f : α → Parse β} {f' : α' → Parse β'}
    (h : Together r values (x p) (x' q))
    (hnext : ∀ a a' p' q', values a a' → Parallel r p' q' →
      Together r values' (f a p') (f' a' q')) :
    Together r values' ((x >>= f) p) ((x' >>= f') q) := by
  simp only [Bind.bind, EStateM.bind]
  generalize x p = outcome at h ⊢
  generalize x' q = outcome' at h ⊢
  cases h with
  | ok hvalues hstates => exact hnext _ _ _ _ hvalues hstates
  | error herror => exact .error herror

theorem pure {a : α} {a' : α'} (h : Parallel r p q) (hvalues : values a a') :
    Together r values ((Pure.pure a : Parse α) p) ((Pure.pure a' : Parse α') q) :=
  .ok hvalues h

theorem get_bind {f : Parser → Parse β} {f' : Parser → Parse β'}
    (h : Together r values' (f p p) (f' q q)) :
    Together r values' ((get >>= f) p) ((get >>= f') q) := h

theorem unexpected (h : Parallel r p q) (expected : String) :
    Together r values ((fail (·.unexpected expected) : Parse α) p)
      ((fail (·.unexpected expected) : Parse α') q) :=
  .error (h.corresponds_unexpected expected)

/-- An error at tokens that are paired. -/
theorem throw {a b : Token} (hpair : r.Pair a b) {fault fault' : Fault}
    (hfault : fault' = fault.rename r.rename a.kind) :
    Together r values ((MonadExcept.throw (Error.mk fault a.span.start) : Parse α) p)
      ((MonadExcept.throw (Error.mk fault' b.span.start) : Parse α') q) := by
  obtain ⟨-, i, hi, hi'⟩ := hpair
  rw [hfault]
  exact .error (.at fault hi hi')

theorem advance_bind {f : Token → Parse β} {f' : Token → Parse β'} (h : Parallel r p q)
    (hnext : ∀ a b p' q', r.Pair a b → p.currentKind? = some a.kind → Parallel r p' q' →
      Together r values' (f a p') (f' b q')) :
    Together r values' ((advance >>= f) p) ((advance >>= f') q) := by
  have hrest := h.rest
  cases hp : p.rest with
  | nil =>
    rw [hp] at hrest
    have hq : q.rest = [] := List.forall₂_nil_left_iff.mp hrest
    rw [advance_bind_of_nil hp, advance_bind_of_nil hq]
    exact .unexpected h _
  | cons a rest =>
    rw [hp] at hrest
    obtain ⟨b, rest', hpair, hrest', hq⟩ := List.forall₂_cons_left_iff.mp hrest
    have hreadp : advance p = .ok a { p with read := a :: p.read, rest := rest } :=
      advance_eq_ok_iff.mpr ⟨rest, hp, rfl⟩
    have hreadq : advance q = .ok b { q with read := b :: q.read, rest := rest' } :=
      advance_eq_ok_iff.mpr ⟨rest', hq, rfl⟩
    rw [bind_of_ok hreadp, bind_of_ok hreadq]
    refine hnext a b _ _ hpair (currentKind?_of_cons hp) ?_
    exact {
      tokens := ⟨(tokens_of_advance hreadp).trans h.tokens.1,
        (tokens_of_advance hreadq).trans h.tokens.2⟩
      read := .cons hpair h.read
      rest := hrest'
      depth := h.depth
      nextId := h.nextId
      rules := h.rules
      limit := h.limit }

theorem expect_bind {kind : Kind} {f : Token → Parse β} {f' : Token → Parse β'}
    (h : Parallel r p q)
    (hnext : ∀ a b p' q', r.Pair a b → a.kind = kind → Parallel r p' q' →
      Together r values' (f a p') (f' b q')) :
    Together r values' ((expect kind >>= f) p) ((expect kind >>= f') q) := by
  by_cases hkind : p.currentKind? = some kind
  · rw [expect_bind_of_eq hkind, expect_bind_of_eq (h.currentKind?_eq.trans hkind)]
    apply advance_bind h
    intro a b p' q' hpair hcurrent hstates
    rw [hkind, Option.some.injEq] at hcurrent
    exact hnext a b p' q' hpair hcurrent.symm hstates
  · rw [expect_bind_of_ne hkind, expect_bind_of_ne (h.currentKind?_eq ▸ hkind)]
    exact .unexpected h _

/-- Both draw the same identity. -/
theorem freshId_bind {f : NodeId → Parse β} {f' : NodeId → Parse β'} (h : Parallel r p q)
    (hnext : ∀ id p' q', Parallel r p' q' → Together r values' (f id p') (f' id q')) :
    Together r values' ((freshId >>= f) p) ((freshId >>= f') q) := by
  show Together r values' (f p.nextId _) (f' q.nextId _)
  rw [h.nextId]
  exact hnext p.nextId _ _ {
    tokens := h.tokens
    read := h.read
    rest := h.rest
    depth := h.depth
    nextId := rfl
    rules := h.rules
    limit := h.limit }

theorem identOf_bind {a b : Token} {f : Ident → Parse β} {f' : Ident → Parse β'}
    (h : Parallel r p q) (hpair : r.Pair a b) (hkind : a.kind = .identifier)
    (hnext : ∀ ident ident' p' q', ident.Matches r.correspondence ident' → Parallel r p' q' →
      Together r values' (f ident p') (f' ident' q')) :
    Together r values' ((identOf a >>= f) p) ((identOf b >>= f') q) := by
  simp only [identOf, bind_assoc, pure_bind]
  refine .freshId_bind h fun id p' q' hstates => hnext _ _ _ _ ⟨?_, rfl, ?_⟩ hstates
  · show b.lexeme = r.rename a.lexeme
    rw [hpair.1.lexeme, Kind.rename, if_pos hkind]
  · exact ⟨a, b, hpair, rfl, rfl⟩

/-- Nodes that start at places that correspond have tags that match. -/
theorem closeTag_bind {start start' : Position} {f : Tag → Parse β} {f' : Tag → Parse β'}
    (h : Parallel r p q) (hstart : r.correspondence.places start start')
    (hnext : ∀ tag tag' p' q', tag.Matches r.correspondence tag' → Parallel r p' q' →
      Together r values' (f tag p') (f' tag' q')) :
    Together r values' ((closeTag start >>= f) p) ((closeTag start' >>= f') q) := by
  simp only [closeTag, bind_assoc, pure_bind]
  refine .freshId_bind h fun id p' q' hstates => ?_
  exact hnext ⟨id, ⟨start, p'.reached⟩⟩ ⟨id, ⟨start', q'.reached⟩⟩ p' q' ⟨rfl, hstart⟩ hstates

/-- Both open a level, or neither can. -/
theorem enter_bind {x : Parse α} {x' : Parse α'} (h : Parallel r p q)
    (hx : ∀ {p' q'}, Parallel r p' q' → Together r values (x p') (x' q')) :
    Together r values ((do enter; let a ← x; leave; return a : Parse α) p)
      ((do enter; let a ← x'; leave; return a : Parse α') q) := by
  by_cases hdepth : p.depth < p.limit
  · have hdepth' : q.depth < q.limit := by rwa [h.depth, h.limit]
    rw [Parser.enter_bind hdepth, Parser.enter_bind hdepth']
    have hinside : Parallel r { p with depth := p.depth + 1 } { q with depth := q.depth + 1 } :=
      { tokens := h.tokens
        read := h.read
        rest := h.rest
        depth := congrArg (· + 1) h.depth
        nextId := h.nextId
        rules := h.rules
        limit := h.limit }
    have hrun := hx hinside
    generalize x { p with depth := p.depth + 1 } = outcome at hrun ⊢
    generalize x' { q with depth := q.depth + 1 } = outcome' at hrun ⊢
    cases hrun with
    | ok hvalues hstates =>
      exact .ok hvalues {
        tokens := hstates.tokens
        read := hstates.read
        rest := hstates.rest
        depth := congrArg (· - 1) hstates.depth
        nextId := hstates.nextId
        rules := hstates.rules
        limit := hstates.limit }
    | error herror => exact .error herror
  · have hdepth' : ¬ q.depth < q.limit := by rwa [h.depth, h.limit]
    simp only [Bind.bind, EStateM.bind, enter, if_neg hdepth, if_neg hdepth']
    exact .error h.corresponds_tooDeep

end Together

/-! ### Expressions -/

section

variable {inner : Power → Parse Expr}

/-- Tokens that are paired are the same leaf but for names, or both are none. -/
theorem rel_leafOf {a b : Token} (hpair : r.Pair a b) (id : NodeId) :
    Result.Rel (Error.Corresponds r.rename r.first r.second) (Expr.Matches r.correspondence)
      (leafOf a id) (leafOf b id) := by
  have htag : Tag.Matches r.correspondence ⟨id, a.span⟩ ⟨id, b.span⟩ :=
    ⟨rfl, a, b, hpair, rfl, rfl⟩
  obtain ⟨⟨hkind, hlexeme⟩, i, hi, hi'⟩ := hpair
  have hnone : Error.Corresponds r.rename r.first r.second _ _ :=
    .at (.unexpectedToken a.lexeme "an expression") hi hi'
  unfold Fault.rename at hnone
  unfold leafOf
  rw [hkind, hlexeme]
  -- Only the texts of identifiers differ, and these are not looked into.
  cases h : a.kind with
  | identifier => exact .ok (.identifier ⟨rfl, htag⟩)
  | boolean => exact .ok (.literal _ htag)
  | string => exact .ok (.literal _ htag)
  | integer =>
    rw [show Kind.rename r.rename .integer a.lexeme = a.lexeme from rfl]
    dsimp only
    cases readInt64? a.lexeme with
    | some value => exact .ok (.literal _ htag)
    | none => exact .error (.at (.unreadableNumber a.lexeme) hi hi')
  | float =>
    rw [show Kind.rename r.rename .float a.lexeme = a.lexeme from rfl]
    dsimp only
    cases readBinary64? a.lexeme with
    | some value => exact .ok (.literal _ htag)
    | none => exact .error (.at (.unreadableNumber a.lexeme) hi hi')
  | _ =>
    rw [h] at hnone
    exact .error hnone

theorem uniform_primary : Uniform r (Expr.Matches r.correspondence) primary := by
  intro p q h
  refine .advance_bind h fun a b p₁ q₁ hpair _ h₁ => ?_
  refine .freshId_bind h₁ fun id p₂ q₂ h₂ => ?_
  have hleaf := rel_leafOf hpair id
  generalize leafOf a id = result at hleaf ⊢
  generalize leafOf b id = result' at hleaf ⊢
  cases hleaf with
  | ok he => exact .ok he h₂
  | error herror => exact .error herror

variable (hinner : ∀ power, Uniform r (Expr.Matches r.correspondence) (inner power))

include hinner

theorem uniform_grouping : Uniform r (Expr.Matches r.correspondence) (grouping inner) := by
  intro p q h
  refine .expect_bind h fun _ _ p₁ q₁ _ _ h₁ => ?_
  refine .bind (hinner .lowest h₁) fun e e' p₂ q₂ he h₂ => ?_
  exact .expect_bind h₂ fun _ _ p₃ q₃ _ _ h₃ => .pure h₃ he

theorem uniform_operand : Uniform r (Expr.Matches r.correspondence) (operand inner) := by
  intro p q h
  refine .get_bind ?_
  rw [h.currentKind?_eq, h.rules]
  match p.currentKind?.bind p.rules.operand with
  | some .primary => exact uniform_primary h
  | some .grouping => exact uniform_grouping hinner h
  | none => exact .unexpected h _

theorem together_binary (h : Parallel r p q) {left left' : Expr}
    (hleft : left.Matches r.correspondence left') (power : Power) :
    Together r (Expr.Matches r.correspondence) (binary inner left power p)
      (binary inner left' power q) := by
  refine .advance_bind h fun a b p₁ q₁ hpair _ h₁ => ?_
  rw [hpair.1.kind]
  cases Operator.ofKind? a.kind with
  | none =>
    refine .throw hpair ?_
    rw [hpair.1.lexeme]
    rfl
  | some operator =>
    refine .bind (hinner power h₁) fun right right' p₂ q₂ hright h₂ => ?_
    refine .freshId_bind h₂ fun id p₃ q₃ h₃ => .pure h₃ ?_
    exact .binary operator hleft hright ⟨rfl, hleft.tag.start⟩

theorem together_climb (h : Parallel r p q) (power : Power) {rounds rounds' : List Token}
    (hrounds : rounds.length = rounds'.length) {left left' : Expr}
    (hleft : left.Matches r.correspondence left') :
    Together r (Expr.Matches r.correspondence) (climb inner power rounds left p)
      (climb inner power rounds' left' q) := by
  induction rounds generalizing rounds' left left' p q with
  | nil =>
    rw [List.length_eq_zero_iff.mp hrounds.symm]
    exact .pure h hleft
  | cons _ rounds ih =>
    obtain ⟨_, rounds', rfl⟩ := List.exists_cons_of_length_eq_add_one hrounds.symm
    refine .get_bind ?_
    rw [h.currentKind?_eq, h.rules]
    cases p.currentKind? with
    | none => exact .pure h hleft
    | some kind =>
      simp only
      split
      · exact .pure h hleft
      · split
        · refine .bind (together_binary hinner h hleft _) fun joined joined' p₁ q₁ hjoined h₁ => ?_
          exact ih h₁ (Nat.succ.inj hrounds) hjoined
        · exact .unexpected h _

theorem uniform_level (power : Power) :
    Uniform r (Expr.Matches r.correspondence) (level inner power) := by
  intro p q h
  refine .bind (uniform_operand hinner h) fun left left' p₁ q₁ hleft h₁ => .get_bind ?_
  exact together_climb hinner h₁ power h₁.rest.length_eq hleft

omit hinner in
/-- An expression is read in the same way in both rows. -/
theorem uniform_expr (room : Nat) (power : Power) :
    Uniform r (Expr.Matches r.correspondence) (expr room power) := by
  induction room generalizing power with
  | zero =>
    intro p q h
    exact .error h.corresponds_tooDeep
  | succ room ih =>
    intro p q h
    exact .enter_bind h fun hinside => uniform_level (fun power => ih power) power hinside

end

/-! ### Statements -/

section

variable {expression : Parse Expr} {block : Parse (List Stmt)}

/-- Two statements match as blocks of their own. -/
abbrev StmtMatches (r : Renaming) (s s' : Stmt) : Prop :=
  BlockMatches r.correspondence [s] [s']

variable (hexpr : Uniform r (Expr.Matches r.correspondence) expression)

include hexpr

theorem uniform_declaration : Uniform r (StmtMatches r) (declaration expression) := by
  intro p q h
  refine .expect_bind h fun first first' p₁ q₁ hfirst _ h₁ => ?_
  refine .expect_bind h₁ fun name name' p₂ q₂ hname hkind h₂ => ?_
  refine .expect_bind h₂ fun _ _ p₃ q₃ _ _ h₃ => ?_
  refine .expect_bind h₃ fun type type' p₄ q₄ htype htypeKind h₄ => ?_
  have hlexeme : type'.lexeme = type.lexeme := by
    rw [htype.1.lexeme, htypeKind]
    rfl
  rw [hlexeme]
  cases Ty.ofKeyword? type.lexeme with
  | none =>
    refine .throw htype ?_
    rw [htypeKind]
    rfl
  | some ty =>
    refine .expect_bind h₄ fun _ _ p₅ q₅ _ _ h₅ => ?_
    refine .identOf_bind h₅ hname hkind fun target target' p₆ q₆ htarget h₆ => ?_
    refine .bind (hexpr h₆) fun value value' p₇ q₇ hvalue h₇ => ?_
    refine .expect_bind h₇ fun _ _ p₈ q₈ _ _ h₈ => ?_
    refine .closeTag_bind h₈ ⟨first, first', hfirst, rfl, rfl⟩ fun tag tag' p₉ q₉ htag h₉ => ?_
    exact .pure h₉ (.declaration ty htarget hvalue htag .nil)

theorem uniform_assignment : Uniform r (StmtMatches r) (assignment expression) := by
  intro p q h
  refine .expect_bind h fun name name' p₁ q₁ hname hkind h₁ => ?_
  refine .expect_bind h₁ fun _ _ p₂ q₂ _ _ h₂ => ?_
  refine .identOf_bind h₂ hname hkind fun target target' p₃ q₃ htarget h₃ => ?_
  refine .bind (hexpr h₃) fun value value' p₄ q₄ hvalue h₄ => ?_
  refine .expect_bind h₄ fun _ _ p₅ q₅ _ _ h₅ => ?_
  refine .closeTag_bind h₅ ⟨name, name', hname, rfl, rfl⟩ fun tag tag' p₆ q₆ htag h₆ => ?_
  exact .pure h₆ (.assignment htarget hvalue htag .nil)

theorem uniform_print : Uniform r (StmtMatches r) (print expression) := by
  intro p q h
  refine .expect_bind h fun first first' p₁ q₁ hfirst _ h₁ => ?_
  refine .bind (hexpr h₁) fun value value' p₂ q₂ hvalue h₂ => ?_
  refine .expect_bind h₂ fun _ _ p₃ q₃ _ _ h₃ => ?_
  refine .closeTag_bind h₃ ⟨first, first', hfirst, rfl, rfl⟩ fun tag tag' p₄ q₄ htag h₄ => ?_
  exact .pure h₄ (.print hvalue htag .nil)

variable (hblock : Uniform r (BlockMatches r.correspondence) block)

include hblock

theorem uniform_whileDo : Uniform r (StmtMatches r) (whileDo expression block) := by
  intro p q h
  refine .expect_bind h fun first first' p₁ q₁ hfirst _ h₁ => ?_
  refine .bind (hexpr h₁) fun condition condition' p₂ q₂ hcondition h₂ => ?_
  refine .expect_bind h₂ fun _ _ p₃ q₃ _ _ h₃ => ?_
  refine .bind (hblock h₃) fun body body' p₄ q₄ hbody h₄ => ?_
  refine .expect_bind h₄ fun _ _ p₅ q₅ _ _ h₅ => ?_
  refine .closeTag_bind h₅ ⟨first, first', hfirst, rfl, rfl⟩ fun tag tag' p₆ q₆ htag h₆ => ?_
  exact .pure h₆ (.whileDo hcondition hbody htag .nil)

theorem uniform_ifThen : Uniform r (StmtMatches r) (ifThen expression block) := by
  intro p q h
  refine .expect_bind h fun first first' p₁ q₁ hfirst _ h₁ => ?_
  refine .bind (hexpr h₁) fun condition condition' p₂ q₂ hcondition h₂ => ?_
  refine .expect_bind h₂ fun _ _ p₃ q₃ _ _ h₃ => ?_
  refine .bind (hblock h₃) fun body body' p₄ q₄ hbody h₄ => ?_
  refine .get_bind ?_
  rw [h₄.currentKind?_eq]
  split
  · refine .expect_bind h₄ fun second second' p₅ q₅ hsecond _ h₅ => ?_
    refine .bind (hblock h₅) fun otherwise otherwise' p₆ q₆ hotherwise h₆ => ?_
    refine .expect_bind h₆ fun _ _ p₇ q₇ _ _ h₇ => ?_
    refine .closeTag_bind h₇ ⟨second, second', hsecond, rfl, rfl⟩
      fun elseTag elseTag' p₈ q₈ helse h₈ => ?_
    refine .closeTag_bind h₈ ⟨first, first', hfirst, rfl, rfl⟩ fun tag tag' p₉ q₉ htag h₉ => ?_
    exact .pure h₉ (.ifThenElse hcondition hbody hotherwise helse htag .nil)
  · refine .expect_bind h₄ fun _ _ p₅ q₅ _ _ h₅ => ?_
    refine .closeTag_bind h₅ ⟨first, first', hfirst, rfl, rfl⟩ fun tag tag' p₆ q₆ htag h₆ => ?_
    exact .pure h₆ (.ifThen hcondition hbody htag .nil)

theorem uniform_statement (rule : StatementRule) :
    Uniform r (StmtMatches r) (statement expression block rule) := by
  cases rule with
  | declaration => exact uniform_declaration hexpr
  | assignment => exact uniform_assignment hexpr
  | whileDo => exact uniform_whileDo hexpr hblock
  | ifThen => exact uniform_ifThen hexpr hblock
  | print => exact uniform_print hexpr
  | unsupported =>
    intro p q h
    refine .advance_bind h fun a b p₁ q₁ hpair _ h₁ => .throw hpair ?_
    rw [hpair.1.lexeme]
    rfl

theorem together_statements (h : Parallel r p q) {rounds rounds' : List Token}
    (hrounds : rounds.length = rounds'.length) {before before' : List Stmt}
    (hbefore : BlockMatches r.correspondence before.reverse before'.reverse) :
    Together r (BlockMatches r.correspondence)
      (statements (statement expression block) rounds before p)
      (statements (statement expression block) rounds' before' q) := by
  induction rounds generalizing rounds' before before' p q with
  | nil =>
    rw [List.length_eq_zero_iff.mp hrounds.symm]
    exact .pure h hbefore
  | cons _ rounds ih =>
    obtain ⟨_, rounds', rfl⟩ := List.exists_cons_of_length_eq_add_one hrounds.symm
    refine .get_bind ?_
    rw [h.currentKind?_eq, h.rules]
    cases p.currentKind? with
    | none => exact .pure h hbefore
    | some kind =>
      simp only
      cases p.rules.statement kind with
      | some rule =>
        refine .bind (uniform_statement hexpr hblock rule h) fun s s' p₁ q₁ hs h₁ => ?_
        refine ih h₁ (Nat.succ.inj hrounds) ?_
        rw [List.reverse_cons, List.reverse_cons]
        exact hbefore.append hs
      | none =>
        simp only
        split
        · exact .pure h hbefore
        · exact .unexpected h _

end

/-- A block is read in the same way in both rows. -/
theorem uniform_blockWithin (room : Nat) :
    Uniform r (BlockMatches r.correspondence) (blockWithin room) := by
  induction room with
  | zero =>
    intro p q h
    exact .error h.corresponds_tooDeep
  | succ room ih =>
    intro p q h
    rw [blockWithin_succ]
    refine .enter_bind h fun {p' q'} hinside => .get_bind ?_
    exact together_statements (fun hp => uniform_expr room .lowest hp) (fun hp => ih hp) hinside
      hinside.rest.length_eq .nil

theorem parallel_start (r : Renaming) (rules : Rules) (limit : Nat) :
    Parallel r (start rules limit r.first) (start rules limit r.second) where
  tokens := ⟨rfl, rfl⟩
  read := .nil
  rest := r.pairs
  depth := rfl
  nextId := rfl
  rules := rfl
  limit := rfl

theorem uniform_block : Uniform r (BlockMatches r.correspondence) block := by
  intro p q h
  unfold block room
  rw [h.limit, h.depth]
  exact uniform_blockWithin _ h

theorem uniform_program : Uniform r (Program.Matches r.correspondence) program := by
  intro p q h
  refine .freshId_bind h fun id p₁ q₁ h₁ => .get_bind ?_
  refine .bind (uniform_block h₁) fun body body' p₂ q₂ hbody h₂ => .get_bind ?_
  have hrest : q₂.rest.isEmpty = p₂.rest.isEmpty := by
    rw [Bool.eq_iff_iff, List.isEmpty_iff_length_eq_zero, List.isEmpty_iff_length_eq_zero,
      h₂.rest.length_eq]
  rw [hrest]
  split
  · exact .pure h₂ ⟨hbody, rfl⟩
  · exact .unexpected h₂ _

end Parser

/-- A program with other names is parsed in the same way. -/
theorem rel_parse (r : Renaming) :
    Result.Rel (Error.Corresponds r.rename r.first r.second) (Program.Matches r.correspondence)
      (parse r.first) (parse r.second) := by
  have hrun := Parser.uniform_program (Parser.parallel_start r .standard maxNesting)
  unfold parse parseWithin
  generalize Parser.program (.start .standard maxNesting r.first) = outcome at hrun ⊢
  generalize Parser.program (.start .standard maxNesting r.second) = outcome' at hrun ⊢
  cases hrun with
  | ok hprogram _ => exact .ok hprogram
  | error herror => exact .error herror

end BlockLang
