import BlockLang.Proofs.Grammar.Expression
import BlockLang.Proofs.Grammar.Unlimited

/-! # Flat expressions — levels without parentheses

  Without parentheses the levels of an expression do not pile up.  The right
  side of an operator is read for operators that bind more tightly, and the
  powers end after two of them; however long a chain of operators is, its
  right sides are opened and closed one after the other. -/

namespace BlockLang

namespace Parser

/-- The parser behind an action, whether it has a result or fails. -/
def final {α : Type} : EStateM.Result Error Parser α → Parser
  | .ok _ q => q
  | .error _ q => q

variable {α β : Type} {p q : Parser} {bound bound' : Nat} {y : Watch α} {g : α → Watch β}

/-- If no parenthesis is opened among the tokens that the action reads, then no
    level beyond the bound is. -/
structure Shallow (bound : Nat) (y : Watch α) (p : Parser) : Prop where
  depth : ∀ {a q}, (y p).1 = .ok a q → q.depth = p.depth
  reads : ∃ ts : List Token, (final (y p).1).read = ts.reverse ++ p.read ∧
    ((∀ t ∈ ts, t.kind ≠ .openParen) → ∀ o ∈ (y p).2, o.level ≤ bound)

namespace Shallow

theorem mono (h : Shallow bound y p) (hle : bound ≤ bound') : Shallow bound' y p where
  depth := h.depth
  reads := by
    obtain ⟨ts, hread, hlevels⟩ := h.reads
    exact ⟨ts, hread, fun hts o ho => Nat.le_trans (hlevels hts o ho) hle⟩

/-- Two actions in a row. -/
theorem bind (hy : Shallow bound y p)
    (hnext : ∀ a q, (y p).1 = .ok a q → Shallow bound (g a) q) : Shallow bound (y >>= g) p := by
  have hdepth {a : α} {q : Parser} : (y p).1 = .ok a q → q.depth = p.depth := hy.depth
  obtain ⟨ts, hread, hlevels⟩ := hy.reads
  have hbind : (y >>= g) p = Watch.andThen g (y p) := rfl
  generalize y p = result at hread hlevels hnext hdepth hbind
  obtain ⟨r, log⟩ := result
  cases r with
  | error error q =>
    constructor
    · rw [hbind]
      intro b q' h
      cases h
    · rw [hbind]
      exact ⟨ts, hread, hlevels⟩
  | ok a q =>
    have hrest := hnext a q rfl
    constructor
    · rw [hbind]
      intro b q' h
      exact (hrest.depth h).trans (hdepth rfl)
    · rw [hbind]
      obtain ⟨us, hread', hlevels'⟩ := hrest.reads
      refine ⟨ts ++ us, ?_, fun hall o ho => ?_⟩
      · show (final (g a q).1).read = _
        rw [hread', List.reverse_append, List.append_assoc]
        exact congrArg (us.reverse ++ ·) hread
      · obtain ⟨hts, hus⟩ := List.forall_mem_append.mp hall
        rcases List.mem_append.mp ho with ho | ho
        · exact hlevels hts o ho
        · exact hlevels' hus o ho

/-! ### Reading -/

/-- An action that opens no level. -/
theorem plain {x : Parse α} (hdepth : ∀ {a q}, x p = .ok a q → q.depth = p.depth)
    (hread : ∃ ts : List Token, (final (x p)).read = ts.reverse ++ p.read) :
    Shallow bound (liftM x) p where
  depth := hdepth
  reads := by
    obtain ⟨ts, hread⟩ := hread
    exact ⟨ts, hread, fun _ o ho => nomatch ho⟩

theorem pure (a : α) : Shallow bound (Pure.pure a) p where
  depth h := by
    cases h
    rfl
  reads := ⟨[], rfl, fun _ o ho => nomatch ho⟩

theorem fail (error : Parser → Error) : Shallow bound (liftM (Parser.fail error : Parse α)) p :=
  plain nofun ⟨[], rfl⟩

theorem throw (error : Error) :
    Shallow bound (liftM (MonadExcept.throw error : Parse α)) p :=
  plain nofun ⟨[], rfl⟩

theorem get : Shallow bound (liftM (MonadState.get : Parse Parser)) p :=
  plain (fun h => by cases h; rfl) ⟨[], rfl⟩

theorem advance : Shallow bound (liftM Parser.advance) p := by
  refine plain (fun h => (advance_iff_moves.mp h).depth) ?_
  unfold Parser.advance
  cases p.rest with
  | nil => exact ⟨[], rfl⟩
  | cons token rest => exact ⟨[token], rfl⟩

theorem freshId : Shallow bound (liftM Parser.freshId) p :=
  plain (fun h => (freshId_iff_moves.mp h).2.depth) ⟨[], rfl⟩

theorem expect (kind : Kind) : Shallow bound (liftM (Parser.expect kind)) p := by
  refine plain (fun h => (expect_iff_moves.mp h).2.depth) ?_
  unfold Parser.expect Parser.advance
  split
  · cases p.rest with
    | nil => exact ⟨[], rfl⟩
    | cons token rest => exact ⟨[token], rfl⟩
  · exact ⟨[], rfl⟩

theorem primary : Shallow bound (liftM Parser.primary) p := by
  refine plain (fun {e q} h => ?_) ?_
  · obtain ⟨token, p₁, htoken, h⟩ := bind_eq_ok_iff.mp h
    obtain ⟨id, p₂, hid, h⟩ := bind_eq_ok_iff.mp h
    have hm := (advance_iff_moves.mp htoken).trans (freshId_iff_moves.mp hid).2
    cases hleaf : leafOf token id with
    | ok e =>
      rw [hleaf] at h
      obtain ⟨rfl, rfl⟩ := pure_eq_ok_iff.mp h
      exact hm.depth
    | error error =>
      rw [hleaf] at h
      exact absurd h throw_ne_ok
  · simp only [Parser.primary, Bind.bind, EStateM.bind, Parser.advance]
    cases p.rest with
    | nil => exact ⟨[], rfl⟩
    | cons token rest =>
      refine ⟨[token], ?_⟩
      simp only [Parser.freshId]
      cases leafOf token p.nextId <;> rfl

/-- Behind a parenthesis that is opened the bound says nothing. -/
theorem openParen_bind {g : Token → Watch β}
    (hnext : ∀ token q, Moves p q [token] 0 → ∃ bound', Shallow bound' (g token) q) :
    Shallow bound (liftM (Parser.expect .openParen) >>= g) p := by
  have hbind : (liftM (Parser.expect .openParen) >>= g : Watch β) p =
      Watch.andThen g (Parser.expect .openParen p, []) := rfl
  cases htoken : Parser.expect .openParen p with
  | error error q =>
    obtain ⟨ts, hread, -⟩ := (expect .openParen : Shallow bound _ p).reads
    rw [show (liftM (Parser.expect .openParen) : Watch Token) p = (Parser.expect .openParen p, [])
      from rfl, htoken] at hread
    rw [htoken] at hbind
    constructor
    · rw [hbind]
      intro b q' h
      cases h
    · rw [hbind]
      exact ⟨ts, hread, fun _ o ho => nomatch ho⟩
  | ok token q =>
    rw [htoken] at hbind
    obtain ⟨hkind, hm⟩ := expect_iff_moves.mp htoken
    obtain ⟨bound', hrest⟩ := hnext token q hm
    obtain ⟨ts, hread, -⟩ := hrest.reads
    constructor
    · rw [hbind]
      intro b q' h
      exact (hrest.depth h).trans hm.depth
    · rw [hbind]
      refine ⟨token :: ts, ?_, fun hall => absurd hkind (hall token List.mem_cons_self)⟩
      show (final (g token q).1).read = _
      rw [hread, hm.read]
      simp

/-- An action inside a level within the bound. -/
theorem enter_bind (hbound : p.depth + 1 ≤ bound)
    (hy : Shallow bound y { p with depth := p.depth + 1 }) :
    Shallow bound (do Unlimited.enter; let a ← y; leave; return a) p := by
  have hdepth {a : α} {q : Parser} :
      (y { p with depth := p.depth + 1 }).1 = .ok a q → q.depth = p.depth + 1 := hy.depth
  obtain ⟨ts, hread, hlevels⟩ := hy.reads
  have hrun := Unlimited.enter_bind y p
  generalize y { p with depth := p.depth + 1 } = result at hread hlevels hdepth hrun
  obtain ⟨r, log⟩ := result
  have hall (hts : ∀ t ∈ ts, t.kind ≠ .openParen) :
      ∀ o ∈ Opening.mk (p.depth + 1) p.current? :: log, o.level ≤ bound :=
    List.forall_mem_cons.mpr ⟨hbound, hlevels hts⟩
  cases r with
  | ok a q =>
    constructor
    · rw [hrun]
      intro b q' h
      cases h
      show q.depth - 1 = _
      rw [hdepth rfl, Nat.add_sub_cancel]
    · rw [hrun]
      exact ⟨ts, hread, hall⟩
  | error error q =>
    constructor
    · rw [hrun]
      intro b q' h
      cases h
    · rw [hrun]
      exact ⟨ts, hread, hall⟩

end Shallow

/-! ### Expressions -/

section

variable {inner : Power → Watch Expr} {left : Expr} {power : Power}

/-- The right side for a power has a level of its own, and more only for
    operators that bind more tightly. -/
def InnerShallow (inner : Power → Watch Expr) : Prop :=
  ∀ power q, Shallow (q.depth + 3 - power.rank) (inner power) q

theorem shallow_grouping (hinner : InnerShallow inner) :
    Shallow bound (grouping inner) p := by
  refine .openParen_bind fun token q hm => ⟨q.depth + 3, ?_⟩
  have hlowest : Shallow (q.depth + 3) (inner .lowest) q := hinner .lowest q
  exact hlowest.bind fun e r _ => (Shallow.expect .closeParen).bind fun _ _ _ => .pure e

theorem shallow_operand (hinner : InnerShallow inner) :
    Shallow bound (operand inner) p := by
  refine Shallow.get.bind fun p' q _ => ?_
  match p'.currentKind?.bind p'.rules.operand with
  | some .primary => exact .primary
  | some .grouping => exact shallow_grouping hinner
  | none => exact .fail _

theorem shallow_binary (hinner : InnerShallow inner) (hbound : p.depth + 3 - power.rank ≤ bound) :
    Shallow bound (binary inner left power) p := by
  refine Shallow.advance.bind fun token q h => ?_
  have hdepth : q.depth = p.depth := (advance_iff_moves.mp h).depth
  cases Operator.ofKind? token.kind with
  | none => exact .throw _
  | some operator =>
    have hright := hinner power q
    rw [hdepth] at hright
    exact (hright.mono hbound).bind fun right r _ => Shallow.freshId.bind fun _ _ _ => .pure _

/-- Each right side is for operators that bind more tightly than `power`. -/
theorem shallow_climb (hinner : InnerShallow inner) (hbound : p.depth + 2 - power.rank ≤ bound)
    (rounds : List Token) : Shallow bound (climb inner power rounds left) p := by
  induction rounds generalizing left p with
  | nil => exact .pure left
  | cons _ rounds ih =>
    refine Shallow.get.bind fun p' q h => ?_
    cases h
    cases p.currentKind? with
    | none => exact .pure left
    | some kind =>
      simp only
      split
      · exact .pure left
      · rename_i hlt
        split
        · have hbinary : Shallow bound
              (binary inner left ((p.rules.power kind).getD .lowest)) p :=
            shallow_binary hinner (by omega)
          refine hbinary.bind fun joined q hq => ih ?_
          rw [hbinary.depth hq]
          exact hbound
        · exact .fail _

theorem shallow_level (hinner : InnerShallow inner) (hbound : p.depth + 2 - power.rank ≤ bound) :
    Shallow bound (level inner power) p := by
  have hoperand : Shallow bound (operand inner) p := shallow_operand hinner
  refine hoperand.bind fun left q hq => Shallow.get.bind fun p' r h => ?_
  cases h
  refine shallow_climb hinner ?_ _
  rw [hoperand.depth hq]
  exact hbound

end

/-- Reading an expression. -/
theorem shallow_expr (ahead : List Token) : InnerShallow (Unlimited.expr ahead) := by
  induction ahead with
  | nil =>
    intro power p
    have hrank := power.rank_le_two
    exact .enter_bind (by omega) (.fail _)
  | cons token ahead ih =>
    intro power p
    have hrank := power.rank_le_two
    refine .enter_bind (by omega) (shallow_level ih ?_)
    simp only
    omega

end Parser

end BlockLang
