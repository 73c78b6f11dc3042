import BlockLang.Proofs.Grammar.Block

/-! # Comparison — two runs side by side

  Two parsers that see the same tokens next do the same.  A comparison says
  what two parsers have in common, and which outcomes of the first run are
  waived, that is, say nothing about the second run.  `Tracks` compares two
  outcomes.  It is proved action by action: what two runs have in common
  before an action, they have in common behind it. -/

namespace BlockLang

open Grammar

namespace Parser

/-- What two runs have in common.  The laws say that parsers in common read
    the same token next and stay in common. -/
structure Comparison where
  /-- The parsers have everything in common that the comparison asks for. -/
  states : Parser → Parser → Prop
  /-- The errors, with the parsers that raise them, are alike. -/
  errors : Error → Parser → Error → Parser → Prop
  /-- How many more tokens the second run has. -/
  extra : Nat
  /-- A failure of the first run that says nothing about the second one. -/
  waives : Error → Parser → Prop
  rules_eq : ∀ {p q}, states p q → q.rules = p.rules
  nextId_eq : ∀ {p q}, states p q → q.nextId = p.nextId
  reached_eq : ∀ {p q}, states p q → q.reached = p.reached
  /-- Both read the same token. -/
  read : ∀ {p q token rest}, states p q → p.rest = token :: rest →
    ∃ rest', q.rest = token :: rest' ∧
      states { p with read := token :: p.read, rest := rest }
        { q with read := token :: q.read, rest := rest' }
  length_rest : ∀ {p q}, states p q → q.rest.length = p.rest.length + extra
  /-- Both draw an identity. -/
  draw : ∀ {p q}, states p q →
    states { p with nextId := p.nextId + 1 } { q with nextId := q.nextId + 1 }
  raise : ∀ {p q} (error : Error), states p q → errors error p error q
  /-- Missing tokens say nothing if the second run has more. -/
  waives_unexpected : ∀ {p} (expected : String), 0 < extra → p.rest = [] →
    waives (p.unexpected expected) p

/-- The outcomes of two runs have in common what the comparison asks for. -/
inductive Tracks {α : Type} (c : Comparison) :
    EStateM.Result Error Parser α → EStateM.Result Error Parser α → Prop where
  | ok {a p q} : c.states p q → Tracks c (.ok a p) (.ok a q)
  | error {e e' p q} : c.errors e p e' q → Tracks c (.error e p) (.error e' q)
  /-- The first run has no tokens left where the second one goes on. -/
  | spent {a p r} : 0 < c.extra → p.rest = [] → Tracks c (.ok a p) r
  | waived {e p r} : c.waives e p → Tracks c (.error e p) r

variable {α β : Type} {c : Comparison} {p q : Parser}

/-! ### Sequences of actions -/

/-- Two sequences track each other if their first actions do, and their second
    ones do from there on.  Where the first run has no tokens left, its second
    action has to be compared with anything. -/
theorem Tracks.bind {x y : Parse α} {f g : α → Parse β} (h : Tracks c (x p) (y q))
    (hnext : ∀ a p' q', x p = .ok a p' → y q = .ok a q' → c.states p' q' →
      Tracks c (f a p') (g a q'))
    (hspent : ∀ a p' r, x p = .ok a p' → 0 < c.extra → p'.rest = [] → Tracks c (f a p') r) :
    Tracks c ((x >>= f) p) ((y >>= g) q) := by
  simp only [Bind.bind, EStateM.bind]
  cases hx : x p with
  | ok a p' =>
    rw [hx] at h
    generalize hy : y q = r at h
    cases h with
    | ok hstates => exact hnext a _ _ hx hy hstates
    | spent hextra hrest => exact hspent a p' _ hx hextra hrest
  | error e p' =>
    rw [hx] at h
    generalize y q = r at h
    cases h with
    | error herrors => exact .error herrors
    | waived hwaives => exact .waived hwaives

/-- Two sequences track each other if their first actions succeed with one
    result, and their second ones track each other from there on. -/
theorem Tracks.bind_of_eq_ok {x y : Parse α} {f g : α → Parse β} {a : α} {p' q' : Parser}
    (hx : x p = .ok a p') (hy : y q = .ok a q') (h : Tracks c (f a p') (g a q')) :
    Tracks c ((x >>= f) p) ((y >>= g) q) := by
  rwa [Parser.bind_of_ok hx, Parser.bind_of_ok hy]

/-! ### What comes next -/

theorem currentKind?_congr (h : q.current? = p.current?) : q.currentKind? = p.currentKind? := by
  rw [currentKind?, h, currentKind?]

/-- Where the first run has no tokens left, the second one has only the extra
    ones. -/
theorem Comparison.rest_eq_nil (h : c.states p q) (hrest : p.rest = []) :
    q.rest = [] ∨ 0 < c.extra := by
  have hlen := c.length_rest h
  rw [hrest, List.length_nil, Nat.zero_add] at hlen
  rcases Nat.eq_zero_or_pos c.extra with hextra | hextra
  · exact .inl (List.length_eq_zero_iff.mp (hlen.trans hextra))
  · exact .inr hextra

/-- Both parsers see the same token, unless only the first has none left. -/
theorem Comparison.current?_eq (h : c.states p q) :
    q.current? = p.current? ∨ 0 < c.extra ∧ p.rest = [] := by
  cases hrest : p.rest with
  | nil =>
    rcases c.rest_eq_nil h hrest with hrest' | hextra
    · exact .inl (by rw [current?, current?, hrest, hrest'])
    · exact .inr ⟨hextra, rfl⟩
  | cons token rest =>
    obtain ⟨rest', hrest', -⟩ := c.read h hrest
    exact .inl (by rw [current?, current?, hrest, hrest']; rfl)

theorem Comparison.here_eq (h : c.states p q) (hcurrent : q.current? = p.current?) :
    q.here = p.here := by
  rw [here, here, hcurrent, c.reached_eq h]

/-- Missing tokens are waived where the second run may find some. -/
theorem Tracks.unexpected_spent {r : EStateM.Result Error Parser α} (hextra : 0 < c.extra)
    (hrest : p.rest = []) (expected : String) :
    Tracks c (fail (·.unexpected expected) p) r :=
  .waived (c.waives_unexpected expected hextra hrest)

/-- Finding something else than expected is alike in both runs. -/
theorem Tracks.unexpected (h : c.states p q) (expected : String) :
    Tracks c (fail (·.unexpected expected) p : EStateM.Result Error Parser α)
      (fail (·.unexpected expected) q) := by
  rcases c.current?_eq h with hcurrent | ⟨hextra, hrest⟩
  · have heq : q.unexpected expected = p.unexpected expected := by
      rw [Parser.unexpected, Parser.unexpected, hcurrent, c.here_eq h hcurrent]
    rw [fail, fail, heq]
    exact .error (c.raise _ h)
  · exact .unexpected_spent hextra hrest expected

/-! ### Reading tokens -/

theorem advance_bind_of_nil (h : p.rest = []) (f : Token → Parse β) :
    (advance >>= f) p = fail (·.unexpected "a token") p := by
  simp only [Bind.bind, EStateM.bind, advance, h]
  rfl

/-- Both runs read the next token. -/
theorem Tracks.advance_bind {f g : Token → Parse β} (h : c.states p q)
    (hnext : ∀ token p' q', Moves p p' [token] 0 → Moves q q' [token] 0 → c.states p' q' →
      Tracks c (f token p') (g token q')) :
    Tracks c ((advance >>= f) p) ((advance >>= g) q) := by
  cases hrest : p.rest with
  | nil =>
    rw [advance_bind_of_nil hrest]
    rcases c.rest_eq_nil h hrest with hrest' | hextra
    · rw [advance_bind_of_nil hrest']
      exact .unexpected h _
    · exact .unexpected_spent hextra hrest _
  | cons token rest =>
    obtain ⟨rest', hrest', hstates⟩ := c.read h hrest
    have hp := advance_eq_ok_iff.mpr ⟨rest, hrest, rfl⟩
    have hq := advance_eq_ok_iff.mpr ⟨rest', hrest', rfl⟩
    exact .bind_of_eq_ok hp hq
      (hnext token _ _ (advance_iff_moves.mp hp) (advance_iff_moves.mp hq) hstates)

theorem expect_bind_of_eq {kind : Kind} (h : p.currentKind? = some kind) (f : Token → Parse β) :
    (expect kind >>= f) p = (advance >>= f) p := by
  simp only [Bind.bind, EStateM.bind, expect, if_pos h]

/-- Without a token of the expected kind nothing more is done. -/
theorem expect_bind_of_ne {kind : Kind} (h : p.currentKind? ≠ some kind) (f : Token → Parse β) :
    (expect kind >>= f) p = fail (·.unexpected kind.name) p := by
  simp only [Bind.bind, EStateM.bind, expect, if_neg h]
  rfl

theorem Tracks.expect_bind_spent {kind : Kind} {f : Token → Parse β}
    {r : EStateM.Result Error Parser β} (hextra : 0 < c.extra) (hrest : p.rest = []) :
    Tracks c ((expect kind >>= f) p) r := by
  rw [expect_bind_of_ne (by simp [currentKind?_of_nil hrest])]
  exact .unexpected_spent hextra hrest _

/-- Both runs read the next token if it is of the expected kind. -/
theorem Tracks.expect_bind {kind : Kind} {f g : Token → Parse β} (h : c.states p q)
    (hnext : ∀ token p' q', Moves p p' [token] 0 → Moves q q' [token] 0 → c.states p' q' →
      Tracks c (f token p') (g token q')) :
    Tracks c ((expect kind >>= f) p) ((expect kind >>= g) q) := by
  rcases c.current?_eq h with hcurrent | ⟨hextra, hrest⟩
  · have hkindq := currentKind?_congr hcurrent
    by_cases hkind : p.currentKind? = some kind
    · rw [expect_bind_of_eq hkind, expect_bind_of_eq (hkindq.trans hkind)]
      exact .advance_bind h hnext
    · rw [expect_bind_of_ne hkind, expect_bind_of_ne (hkindq ▸ hkind)]
      exact .unexpected h _
  · exact .expect_bind_spent hextra hrest

/-! ### Identities -/

/-- Both runs draw the same identity. -/
theorem Tracks.freshId_bind {f g : NodeId → Parse β} (h : c.states p q)
    (hnext : ∀ id p' q', Moves p p' [] 1 → Moves q q' [] 1 → c.states p' q' →
      Tracks c (f id p') (g id q')) :
    Tracks c ((freshId >>= f) p) ((freshId >>= g) q) := by
  have hp : freshId p = .ok p.nextId { p with nextId := p.nextId + 1 } := rfl
  have hq : freshId q = .ok p.nextId { q with nextId := q.nextId + 1 } := by
    rw [freshId, c.nextId_eq h]
  exact .bind_of_eq_ok hp hq
    (hnext _ _ _ (freshId_iff_moves.mp hp).2 (freshId_iff_moves.mp hq).2 (c.draw h))

/-- Both runs give a name the same tag. -/
theorem Tracks.identOf_bind {token : Token} {f g : Ident → Parse β} (h : c.states p q)
    (hnext : ∀ ident p' q', Moves p p' [] 1 → Moves q q' [] 1 → c.states p' q' →
      Tracks c (f ident p') (g ident q')) :
    Tracks c ((identOf token >>= f) p) ((identOf token >>= g) q) := by
  simp only [identOf, bind_assoc, pure_bind]
  exact .freshId_bind h fun id p' q' hp hq hstates => hnext _ p' q' hp hq hstates

/-- Both runs give a node that ends here the same tag. -/
theorem Tracks.closeTag_bind {start : Position} {f g : Tag → Parse β} (h : c.states p q)
    (hnext : ∀ tag p' q', Moves p p' [] 1 → Moves q q' [] 1 → c.states p' q' →
      Tracks c (f tag p') (g tag q')) :
    Tracks c ((closeTag start >>= f) p) ((closeTag start >>= g) q) := by
  simp only [closeTag, bind_assoc, pure_bind]
  refine .freshId_bind h fun id p' q' hp hq hstates => ?_
  refine .bind_of_eq_ok (a := ⟨start, p'.reached⟩) rfl ?_ (hnext _ p' q' hp hq hstates)
  rw [spanFrom, c.reached_eq hstates]

/-! ### Levels -/

/-- An action inside a level of its own fails with the level open. -/
theorem enter_bind {x : Parse α} (h : p.depth < p.limit) :
    (do enter; let a ← x; leave; return a : Parse α) p =
      match x { p with depth := p.depth + 1 } with
      | .ok a q => .ok a { q with depth := q.depth - 1 }
      | .error error q => .error error q := by
  simp only [Bind.bind, EStateM.bind, enter, if_pos h]
  cases x { p with depth := p.depth + 1 } <;> rfl

/-- Both runs do the same inside a level of their own. -/
theorem Tracks.enter_bind {x y : Parse α} (hp : p.depth < p.limit) (hq : q.depth < q.limit)
    (hleave : ∀ {r s : Parser}, c.states r s →
      c.states { r with depth := r.depth - 1 } { s with depth := s.depth - 1 })
    (h : Tracks c (x { p with depth := p.depth + 1 }) (y { q with depth := q.depth + 1 })) :
    Tracks c ((do enter; let a ← x; leave; return a : Parse α) p)
      ((do enter; let a ← y; leave; return a : Parse α) q) := by
  rw [Parser.enter_bind hp, Parser.enter_bind hq]
  generalize x { p with depth := p.depth + 1 } = r at h
  generalize y { q with depth := q.depth + 1 } = r' at h ⊢
  cases h with
  | ok h => exact .ok (hleave h)
  | error h => exact .error h
  | spent hextra hrest => exact .spent hextra hrest
  | waived h => exact .waived h

/-! ### Expressions -/

variable {room : Nat} {inner inner' : Power → Parse Expr} {power : Power} {left : Expr}

/-- The second reader does what the first one does, where the first has room. -/
def Follows (c : Comparison) (room : Nat) (x y : Parse α) : Prop :=
  ∀ p q, Ready room p → c.states p q → Tracks c (x p) (y q)

/-- Both runs read the same operand of one token. -/
theorem Tracks.primary (h : c.states p q) : Tracks c (primary p) (primary q) := by
  rw [Parser.primary]
  refine .advance_bind h fun token p₁ q₁ _ _ h => ?_
  refine .freshId_bind h fun id p₂ q₂ _ _ h => ?_
  cases leafOf token id with
  | ok e => exact .ok h
  | error error => exact .error (c.raise error h)

theorem Follows.grouping (hinner : Follows c room (inner .lowest) (inner' .lowest)) :
    Follows c room (grouping inner) (grouping inner') := by
  intro p q hp h
  refine .expect_bind h fun _ p₁ q₁ hm _ h => ?_
  refine .bind (hinner p₁ q₁ (hp.moves hm) h) (fun e p₂ q₂ _ _ h => ?_) fun _ _ _ _ => ?_
  · exact .expect_bind h fun _ p₃ q₃ _ _ h => .ok h
  · exact .expect_bind_spent

/-- Both runs read the same operand. -/
theorem Follows.operand (hinner : Follows c room (inner .lowest) (inner' .lowest)) :
    Follows c room (operand inner) (operand inner') := by
  intro p q hp h
  rw [Parser.operand, Parser.operand, lift_get_bind, lift_get_bind]
  rcases c.current?_eq h with hcurrent | ⟨hextra, hrest⟩
  · rw [c.rules_eq h, currentKind?_congr hcurrent]
    -- The same token selects the same rule.
    cases p.currentKind?.bind p.rules.operand with
    | none => exact .unexpected h _
    | some rule =>
      cases rule with
      | primary => exact .primary h
      | grouping => exact hinner.grouping p q hp h
  · rw [currentKind?_of_nil hrest]
    exact .unexpected_spent hextra hrest _

/-- Both runs join the same right side to the left one. -/
theorem Follows.binary (hinner : Follows c room (inner power) (inner' power)) :
    Follows c room (binary inner left power) (binary inner' left power) := by
  intro p q hp h
  refine .advance_bind h fun token p₁ q₁ hm _ h => ?_
  cases Operator.ofKind? token.kind with
  | none => exact .error (c.raise _ h)
  | some operator =>
    refine .bind (hinner p₁ q₁ (hp.moves hm) h) (fun right p₂ q₂ _ _ h => ?_) fun _ _ _ _ => ?_
    · exact .freshId_bind h fun _ _ _ _ _ h => .ok h
    · exact fun hextra hrest => .spent hextra hrest

theorem Tracks.climb_of_rest_eq_nil (h : c.states p q) (hrest : p.rest = []) (power : Power)
    (ahead ahead' : List Token) :
    Tracks c (climb inner power ahead left p) (climb inner' power ahead' left q) := by
  rw [Parser.climb_of_rest_eq_nil hrest]
  rcases c.rest_eq_nil h hrest with hrest' | hextra
  · rw [Parser.climb_of_rest_eq_nil hrest']
    exact .ok h
  · exact .spent hextra hrest

/-- Both runs make the same rounds. -/
theorem Tracks.climb (hreads : Reads room inner)
    (hinner : ∀ nt : Nonterminal, Follows c room (inner nt.power) (inner' nt.power))
    (hp : Ready room p) (h : c.states p q) (nt : Nonterminal) {ahead ahead' : List Token}
    (hahead : p.rest.length ≤ ahead.length) (hahead' : q.rest.length ≤ ahead'.length) :
    Tracks c (climb inner nt.power ahead left p) (climb inner' nt.power ahead' left q) := by
  -- On the rounds that the first run has left.  There is a token for each of them, so the
  -- second run has rounds left as well.
  induction ahead generalizing ahead' left p q with
  | nil =>
    have hrest : p.rest = [] := List.length_eq_zero_iff.mp (Nat.le_zero.mp hahead)
    exact .climb_of_rest_eq_nil h hrest nt.power _ _
  | cons token ahead ih =>
    rcases c.current?_eq h with hcurrent | ⟨-, hrest⟩
    · have hkindq := currentKind?_congr hcurrent
      rcases stops_or_operator nt p with hstops | ⟨kind, hkind, hlt⟩
      · have hstops' : Stops nt q := by
          intro kind hkind
          exact hstops kind (hkindq ▸ hkind)
        rw [climb_of_stops hp.rules hstops,
          climb_of_stops ((c.rules_eq h).trans hp.rules) hstops']
        exact .ok h
      · obtain ⟨token', ahead', rfl⟩ := exists_cons_of_currentKind? (hkindq.trans hkind) hahead'
        obtain ⟨nt', hnt'⟩ := Nonterminal.exists_power_eq kind.power
        rw [climb_of_operator hp.rules hkind hlt,
          climb_of_operator ((c.rules_eq h).trans hp.rules) (hkindq.trans hkind) hlt, ← hnt']
        refine .bind ((hinner nt').binary p q hp h) (fun joined p' q' hjoined _ h' => ?_)
          fun joined p' r _ hextra hrest => ?_
        · obtain ⟨sign, d, ids, -, -, hm, -⟩ := exists_phrase_of_binary hreads hp hjoined
          have hlen := length_rest_of_binary hreads hp hjoined
          have hextra := c.length_rest h
          have hextra' := c.length_rest h'
          rw [List.length_cons] at hahead hahead'
          exact ih (hp.moves hm) h' (by omega) (by omega)
        · rw [Parser.climb_of_rest_eq_nil hrest]
          exact .spent hextra hrest
    · exact .climb_of_rest_eq_nil h hrest nt.power _ _

/-- Both runs read the same operand and operators. -/
theorem Follows.level (hreads : Reads room inner)
    (hinner : ∀ nt : Nonterminal, Follows c room (inner nt.power) (inner' nt.power))
    (nt : Nonterminal) : Follows c room (level inner nt.power) (level inner' nt.power) := by
  intro p q hp h
  rw [level_eq_bind, level_eq_bind]
  refine .bind ((hinner .expr).operand p q hp h) (fun left p' q' hleft _ h' => ?_)
    fun left p' r _ hextra hrest => ?_
  · obtain ⟨d, -, hd⟩ := (operand_eq_ok_iff hreads hp).mp hleft
    rw [get_bind, get_bind]
    exact .climb hreads hinner (hp.moves hd.moves) h' nt (Nat.le_refl _) (Nat.le_refl _)
  · rw [get_bind, climb_of_rest_eq_nil hrest]
    exact .spent hextra hrest

/-! ### Statements -/

variable {reader : Parse Expr} {block block' : Parse (List Stmt)}

/-- Both runs end a statement with the same value. -/
theorem Follows.value (hreader : Follows c room (expr room .lowest) reader) (start : Position)
    (finish : Expr → Tag → Stmt) :
    Follows c room
      (do let value ← expr room .lowest
          let _ ← expect .semicolon
          let tag ← closeTag start
          return finish value tag)
      (do let value ← reader
          let _ ← expect .semicolon
          let tag ← closeTag start
          return finish value tag) := by
  intro p q hp h
  refine .bind (hreader p q hp h) (fun value p₁ q₁ _ _ h => ?_) fun _ _ _ _ => .expect_bind_spent
  refine .expect_bind h fun _ p₂ q₂ _ _ h => ?_
  exact .closeTag_bind h fun _ _ _ _ _ h => .ok h

theorem Follows.declaration (hreader : Follows c room (expr room .lowest) reader) :
    Follows c room (declaration (expr room .lowest)) (declaration reader) := by
  intro p q hp h
  refine .expect_bind h fun first p₁ q₁ hm₁ _ h => ?_
  refine .expect_bind h fun name p₂ q₂ hm₂ _ h => ?_
  refine .expect_bind h fun colon p₃ q₃ hm₃ _ h => ?_
  refine .expect_bind h fun type p₄ q₄ hm₄ _ h => ?_
  cases Ty.ofKeyword? type.lexeme with
  | none => exact .error (c.raise _ h)
  | some ty =>
    refine .expect_bind h fun _ p₅ q₅ hm₅ _ h => ?_
    refine .identOf_bind h fun target p₆ q₆ hm₆ _ h => ?_
    have hp₆ := (((((hp.moves hm₁).moves hm₂).moves hm₃).moves hm₄).moves hm₅).moves hm₆
    exact hreader.value _ _ p₆ q₆ hp₆ h

theorem Follows.assignment (hreader : Follows c room (expr room .lowest) reader) :
    Follows c room (assignment (expr room .lowest)) (assignment reader) := by
  intro p q hp h
  refine .expect_bind h fun name p₁ q₁ hm₁ _ h => ?_
  refine .expect_bind h fun _ p₂ q₂ hm₂ _ h => ?_
  refine .identOf_bind h fun target p₃ q₃ hm₃ _ h => ?_
  exact hreader.value _ _ p₃ q₃ (((hp.moves hm₁).moves hm₂).moves hm₃) h

theorem Follows.print (hreader : Follows c room (expr room .lowest) reader) :
    Follows c room (print (expr room .lowest)) (print reader) := by
  intro p q hp h
  refine .expect_bind h fun first p₁ q₁ hm₁ _ h => ?_
  exact hreader.value _ _ p₁ q₁ (hp.moves hm₁) h

/-- Both runs read the same head of a `while` or an `if`, up to its first
    block. -/
theorem Follows.head (hreader : Follows c room (expr room .lowest) reader)
    (hreads : ReadsBlocks room block) (hblock : Follows c room block block') (kind : Kind)
    {f g : Token → Expr → List Stmt → Parse Stmt}
    (hnext : ∀ first condition body,
      Follows c room (f first condition body) (g first condition body))
    (hspent : ∀ first condition body p r, 0 < c.extra → p.rest = [] →
      Tracks c (f first condition body p) r) :
    Follows c room
      (do let first ← expect kind
          let condition ← expr room .lowest
          let _ ← expect .kwDo
          let body ← block
          f first condition body)
      (do let first ← expect kind
          let condition ← reader
          let _ ← expect .kwDo
          let body ← block'
          g first condition body) := by
  intro p q hp h
  refine .expect_bind h fun first p₁ q₁ hm₁ _ h => ?_
  have hp₁ := hp.moves hm₁
  refine .bind (hreader p₁ q₁ hp₁ h) (fun condition p₂ q₂ hcondition _ h => ?_)
    fun _ _ _ _ => .expect_bind_spent
  obtain ⟨⟨d, -, hd⟩, -⟩ := (reads_expr room .expr hp₁).mp hcondition
  refine .expect_bind h fun _ p₃ q₃ hm₃ _ h => ?_
  have hp₃ := (hp₁.moves hd.moves).moves hm₃
  refine .bind (hblock p₃ q₃ hp₃ h) (fun body p₄ q₄ hbody _ h => ?_)
    fun body p₄ r _ hextra hrest => hspent first condition body p₄ r hextra hrest
  obtain ⟨ds, -, hds, -⟩ := (hreads hp₃).mp hbody
  exact hnext first condition body p₄ q₄ (hp₃.moves hds.moves) h

theorem Follows.whileDo (hreader : Follows c room (expr room .lowest) reader)
    (hreads : ReadsBlocks room block) (hblock : Follows c room block block') :
    Follows c room (whileDo (expr room .lowest) block) (whileDo reader block') := by
  refine hreader.head hreads hblock .kwWhile (fun first condition body p q _ h => ?_)
    fun _ _ _ _ _ => .expect_bind_spent
  refine .expect_bind h fun _ p₁ q₁ _ _ h => ?_
  exact .closeTag_bind h fun _ _ _ _ _ h => .ok h

/-- Both runs find an `else` behind the first block, or both find none. -/
theorem Follows.ifThen (hreader : Follows c room (expr room .lowest) reader)
    (hreads : ReadsBlocks room block) (hblock : Follows c room block block') :
    Follows c room (ifThen (expr room .lowest) block) (ifThen reader block') := by
  have helse {p : Parser} (hrest : p.rest = []) : p.currentKind? ≠ some .kwElse := by
    simp [currentKind?_of_nil hrest]
  refine hreader.head hreads hblock .kwIf (fun first condition body p q hp h => ?_)
    fun first condition body p r hextra hrest => ?_
  · rw [lift_get_bind, lift_get_bind]
    rcases c.current?_eq h with hcurrent | ⟨hextra, hrest⟩
    · rw [currentKind?_congr hcurrent]
      split
      · refine .expect_bind h fun second p₁ q₁ hm₁ _ h => ?_
        refine .bind (hblock p₁ q₁ (hp.moves hm₁) h) (fun otherwise p₂ q₂ _ _ h => ?_)
          fun _ _ _ _ => .expect_bind_spent
        refine .expect_bind h fun _ p₃ q₃ _ _ h => ?_
        refine .closeTag_bind h fun elseTag p₄ q₄ _ _ h => ?_
        exact .closeTag_bind h fun _ _ _ _ _ h => .ok h
      · refine .expect_bind h fun _ p₁ q₁ _ _ h => ?_
        exact .closeTag_bind h fun _ _ _ _ _ h => .ok h
    · rw [if_neg (helse hrest)]
      exact .expect_bind_spent hextra hrest
  · rw [lift_get_bind, if_neg (helse hrest)]
    exact .expect_bind_spent hextra hrest

theorem Follows.unsupported : Follows c room unsupported unsupported := by
  intro p q _ h
  exact .advance_bind h fun token p₁ q₁ _ _ h => .error (c.raise _ h)

/-- Both runs read the same statement by a rule. -/
theorem Follows.statement (hreader : Follows c room (expr room .lowest) reader)
    (hreads : ReadsBlocks room block) (hblock : Follows c room block block')
    (rule : StatementRule) :
    Follows c room (statement (expr room .lowest) block rule) (statement reader block' rule) := by
  cases rule with
  | declaration => exact hreader.declaration
  | assignment => exact hreader.assignment
  | whileDo => exact hreader.whileDo hreads hblock
  | ifThen => exact hreader.ifThen hreads hblock
  | print => exact hreader.print
  | unsupported => exact .unsupported

/-! ### Blocks -/

theorem Tracks.statements_of_rest_eq_nil {read read' : StatementRule → Parse Stmt}
    (h : c.states p q) (hrest : p.rest = []) (ahead ahead' : List Token) (before : List Stmt) :
    Tracks c (statements read ahead before p) (statements read' ahead' before q) := by
  rw [Parser.statements_of_rest_eq_nil hrest]
  rcases c.rest_eq_nil h hrest with hrest' | hextra
  · rw [Parser.statements_of_rest_eq_nil hrest']
    exact .ok h
  · exact .spent hextra hrest

/-- Both runs read the same statements. -/
theorem Tracks.statements (hreader : Follows c room (expr room .lowest) reader)
    (hreads : ReadsBlocks room block) (hblock : Follows c room block block') (hp : Ready room p)
    (h : c.states p q) {ahead ahead' : List Token} {before : List Stmt}
    (hahead : p.rest.length ≤ ahead.length) (hahead' : q.rest.length ≤ ahead'.length) :
    Tracks c (statements (statement (expr room .lowest) block) ahead before p)
      (statements (statement reader block') ahead' before q) := by
  -- On the rounds that the first run has left, as for operators.
  induction ahead generalizing ahead' before p q with
  | nil =>
    have hrest : p.rest = [] := List.length_eq_zero_iff.mp (Nat.le_zero.mp hahead)
    exact .statements_of_rest_eq_nil h hrest _ _ _
  | cons token ahead ih =>
    rcases c.current?_eq h with hcurrent | ⟨-, hrest⟩
    · have hkindq := currentKind?_congr hcurrent
      cases hkind : p.currentKind? with
      | none =>
        have hrest : p.rest = [] := by simpa [currentKind?, current?] using hkind
        exact .statements_of_rest_eq_nil h hrest _ _ _
      | some kind =>
        obtain ⟨token', ahead', rfl⟩ := exists_cons_of_currentKind? (hkindq.trans hkind) hahead'
        rw [Parser.statements, Parser.statements, statementsRound, statementsRound, lift_get_bind,
          lift_get_bind, hkindq, hkind, c.rules_eq h]
        cases hrule : p.rules.statement kind with
        | none =>
          simp only [hrule]
          split
          · exact .ok h
          · exact .unexpected h _
        | some rule =>
          simp only [hrule]
          refine .bind (hreader.statement hreads hblock rule p q hp h)
            (fun s p' q' hs _ h' => ?_) fun s p' r _ hextra hrest => ?_
          · obtain ⟨d, -, -, hd⟩ := (statement_eq_ok_iff hreads hp).mp hs
            have hlen := hd.length_rest_lt
            have hextra := c.length_rest h
            have hextra' := c.length_rest h'
            rw [List.length_cons] at hahead hahead'
            exact ih (hp.spansSentence hd) h' (by omega) (by omega)
          · rw [Parser.statements_of_rest_eq_nil hrest]
            exact .spent hextra hrest
    · exact .statements_of_rest_eq_nil h hrest _ _ _

end Parser

end BlockLang
