import BlockLang.Proofs.Grammar.Termination
import Mathlib.Logic.Relation

/-! # Calls — what callers can do with a parser

  A caller starts from a parser without rules and does with it what it likes,
  in any order: it adds rules for any kinds of tokens, reads, opens and closes
  levels, and calls the parser's own readers for expressions, statements and
  blocks.  After a failure it goes on with the parser that the failure has left.

  Whatever it does, a step either moves the parser on, or closes a level, or
  replaces rules.  Of such steps the tokens, the limit and the place behind
  the last token know nothing.  And every call ends, for it is never late when
  it is read against a clock with one call more than tokens ahead. -/

namespace BlockLang

/-! ### Rules that a caller can make -/

namespace Rules

variable {rules : Rules}

/-- The kinds that are read as operators are those that have a power. -/
def Paired (rules : Rules) : Prop := ∀ kind, rules.joins kind = (rules.power kind).isSome

theorem paired_empty : empty.Paired := fun _ => rfl

theorem Paired.withOperator (h : rules.Paired) (kind : Kind) (power : Power) :
    (rules.withOperator kind power).Paired := by
  intro k
  simp only [Rules.withOperator]
  by_cases hk : k = kind
  · simp [hk]
  · simp [hk, h k]

theorem Paired.withStandard (h : rules.Paired) : rules.withStandard.Paired := by
  intro k
  simp only [Rules.withStandard, Option.isSome_or, h k]

end Rules

namespace Parser

/-! ### Calls -/

/-- What a reader gives. -/
inductive Reading where
  | expr (e : Expr)
  | stmt (s : Stmt)
  | block (body : List Stmt)

/-- The identities in a reading. -/
def Reading.drawn : Reading → List NodeId
  | expr e => e.drawn
  | stmt s => s.drawn
  | block body => blockDrawn body

/-- A call of one of the parser's readers. -/
inductive Call where
  | expression (power : Power)
  | primary
  | grouping
  /-- Reads an operator and its right side behind an expression of the caller's. -/
  | binary (left : Expr) (power : Power)
  | statement (rule : StatementRule)
  | block

namespace Call

/-- The reader that is called, with readers for the expressions and blocks
    inside. -/
def reader (expression : Power → Parse Expr) (block : Parse (List Stmt)) : Call → Parse Reading
  | .expression power => .expr <$> expression power
  | .primary => .expr <$> Parser.primary
  | .grouping => .expr <$> Parser.grouping expression
  | .binary left power => .expr <$> Parser.binary expression left power
  | .statement rule => .stmt <$> Parser.statement (expression .lowest) block rule
  | .block => .block <$> block

def run (c : Call) : Parse Reading := c.reader Parser.expression Parser.block

/-- The call against a clock. -/
def timed (late : Error) (calls : Nat) (c : Call) : Parse Reading :=
  c.reader (Timed.expr late calls) (Timed.block late calls)

/-- The identities that the caller hands over. -/
def given : Call → List NodeId
  | .binary left _ => left.drawn
  | _ => []

/-- A call that succeeds has moved on, and gives what was handed over and the
    identities that it has drawn.  Only a block can be empty. -/
theorem ends (c : Call) (p : Parser) :
    Ends c.run p fun reading ts n =>
      (c ≠ .block → ts ≠ []) ∧ reading.drawn = c.given ++ List.range' p.nextId n := by
  cases c with
  | expression power =>
    exact (yields_expression power p).map fun e ts n h => ⟨fun _ => h.1, h.2⟩
  | primary => exact (yields_primary p).map fun e ts n h => ⟨fun _ => h.1, h.2⟩
  | grouping =>
    exact (yields_grouping yields_expression p).map fun e ts n h => ⟨fun _ => h.1, h.2⟩
  | binary left power =>
    exact (ends_binary yields_expression left power p).map fun e ts n h => ⟨fun _ => h.1, h.2⟩
  | statement rule =>
    exact (yields_statementBy rule p).map fun s ts n h => ⟨fun _ => h.1, h.2⟩
  | block => exact (yieldsBlock_block p).map fun body ts n h => ⟨fun hne => absurd rfl hne, h⟩

/-- A call is never late if there are more calls than tokens ahead. -/
theorem timed_eq (c : Call) {p : Parser} {late : Error} {calls : Nat}
    (hcalls : p.rest.length < calls) : c.timed late calls p = c.run p := by
  have hexpr {q : Parser} {ts : List Token} {n : Nat} (hm : Moves p q ts n) (power : Power) :
      Timed.expr late calls power q = Parser.expression power q := by
    have hlen := hm.length_rest
    exact Timed.expr_eq rfl (by omega) power
  have hblock {q : Parser} {ts : List Token} {n : Nat} (hm : Moves p q ts n) :
      Timed.block late calls q = Parser.block q := by
    have hlen := hm.length_rest
    exact Timed.block_eq rfl (by omega)
  have hmap {α : Type} {x y : Parse α} (g : α → Reading) (h : x p = y p) :
      (g <$> x) p = (g <$> y) p := by
    rw [← bind_pure_comp, ← bind_pure_comp]
    exact bind_congr_of_ok h fun _ _ _ => rfl
  have hinner (power : Power) :
      AgreeBeyond p (Timed.expr late calls power) (Parser.expression power) :=
    fun hm _ => hexpr hm power
  cases c with
  | expression power => exact hmap _ (hexpr (.refl p) power)
  | primary => rfl
  | grouping => exact hmap _ (grouping_congr hinner)
  | binary left power => exact hmap _ (binary_congr hinner)
  | statement rule =>
    exact hmap _ (statement_congr (hinner .lowest) (yields_expression .lowest)
      (fun hm _ => hblock hm) yieldsBlock_block rule)
  | block => exact hmap _ (hblock (.refl p))

end Call

/-! ### Steps -/

/-- What a caller does with a parser. -/
inductive Action where
  /-- Makes a kind of token a binary operator. -/
  | withOperator (kind : Kind) (power : Power)
  | withOperand (kind : Kind) (rule : OperandRule)
  | withStatement (kind : Kind) (rule : StatementRule)
  /-- Adds the rules of the language. -/
  | withStandard
  | advance
  | expect (kind : Kind)
  | enter
  | leave
  | freshId
  | call (c : Call)

/-- Does an action with the parser at hand. -/
def Action.run : Action → Parse Unit
  | withOperator kind power =>
      modify fun p => { p with rules := p.rules.withOperator kind power }
  | withOperand kind rule => modify fun p => { p with rules := p.rules.withOperand kind rule }
  | withStatement kind rule =>
      modify fun p => { p with rules := p.rules.withStatement kind rule }
  | withStandard => modify fun p => { p with rules := p.rules.withStandard }
  | advance => discard Parser.advance
  | expect kind => discard (Parser.expect kind)
  | enter => Parser.enter
  | leave => Parser.leave
  | freshId => discard Parser.freshId
  | call c => discard c.run

/-- The caller has the parser `p`, does `a`, and has `q`. -/
inductive Step (p : Parser) (a : Action) (q : Parser) : Prop where
  | done : a.run p = .ok () q → Step p a q
  /-- After an error the caller goes on with what the action has left. -/
  | failed {error} : a.run p = .error error q → Step p a q

/-- Some actions, one after the other, lead from the one parser to the other. -/
abbrev Reaches : Parser → Parser → Prop :=
  Relation.ReflTransGen fun p q => ∃ a, Step p a q

/-- A caller that starts with these tokens and no rules can come to the parser. -/
def Reachable (tokens : List Token) (p : Parser) : Prop :=
  Reaches (start .empty maxNesting tokens) p

section

variable {tokens : List Token} {p q : Parser} {a : Action}

theorem Step.onward {post : Unit → List Token → Nat → Prop} (h : Step p a q)
    (hends : Ends a.run p post) : Onward p q := by
  cases h with
  | done h =>
    obtain ⟨ts, n, hm, -⟩ := hends.of_eq_ok h
    exact hm.onward
  | failed h => exact hends.of_eq_error h

theorem Step.eq_of_ok {r : Parser} (h : Step p a q) (hrun : a.run p = .ok () r) : q = r := by
  cases h with
  | done h =>
    cases hrun.symm.trans h
    rfl
  | failed h => cases hrun.symm.trans h

theorem Step.eq_of_error {r : Parser} {error : Error} (h : Step p a q)
    (hrun : a.run p = .error error r) : q = r := by
  cases h with
  | done h => cases hrun.symm.trans h
  | failed h =>
    cases hrun.symm.trans h
    rfl

/-- Everything that a step can do: it moves the parser on, or closes a level, or
    replaces the rules. -/
theorem Step.cases (h : Step p a q) :
    Onward p q ∨ q = { p with depth := p.depth - 1 } ∨
      ∃ rules, q = { p with rules := rules } ∧ (p.rules.Paired → rules.Paired) := by
  have hdiscard {α : Type} {x : Parse α} {post : α → List Token → Nat → Prop}
      (hx : Ends x p post) : Ends (discard x) p fun _ _ _ => True :=
    hx.map fun _ _ _ _ => trivial
  cases a with
  | withOperator kind power =>
    exact .inr (.inr ⟨_, h.eq_of_ok rfl, fun hpaired => hpaired.withOperator kind power⟩)
  | withOperand kind rule | withStatement kind rule =>
    exact .inr (.inr ⟨_, h.eq_of_ok rfl, fun hpaired => hpaired⟩)
  | withStandard => exact .inr (.inr ⟨_, h.eq_of_ok rfl, fun hpaired => hpaired.withStandard⟩)
  | advance => exact .inl (h.onward (hdiscard (.advance p)))
  | expect kind => exact .inl (h.onward (hdiscard (.expect kind p)))
  | freshId => exact .inl (h.onward (hdiscard (.freshId p)))
  | call c => exact .inl (h.onward (hdiscard (c.ends p)))
  | leave => exact .inr (.inl (h.eq_of_ok rfl))
  | enter =>
    refine .inl ?_
    have hrun : Action.enter.run p = Parser.enter p := rfl
    by_cases hdepth : p.depth < p.limit
    · rw [Parser.enter, if_pos hdepth] at hrun
      rw [h.eq_of_ok hrun]
      exact .enterLevel hdepth
    · rw [Parser.enter, if_neg hdepth] at hrun
      rw [h.eq_of_error hrun]
      exact .refl p

/-! ### What holds of every parser -/

/-- What a caller can rely on, wherever the parser stands among the tokens. -/
structure Coherent (tokens : List Token) (p : Parser) : Prop where
  tokens_eq : p.tokens = tokens
  limit_eq : p.limit = maxNesting
  depth_le : p.depth ≤ maxNesting
  paired : p.rules.Paired

/-- The number of tokens that have been read. -/
def position (p : Parser) : Nat := p.read.length

theorem Onward.position_le (h : Onward p q) : p.position ≤ q.position := by
  obtain ⟨ts, -, hread⟩ := h.behind
  rw [position, position, hread, List.length_append]
  exact Nat.le_add_left _ _

namespace Coherent

theorem start (tokens : List Token) : Coherent tokens (start .empty maxNesting tokens) :=
  ⟨rfl, rfl, Nat.zero_le _, Rules.paired_empty⟩

theorem step (hp : Coherent tokens p) (h : Step p a q) : Coherent tokens q := by
  obtain honward | rfl | ⟨rules, rfl, hpaired⟩ := h.cases
  · refine ⟨honward.behind.tokens_eq.trans hp.tokens_eq, honward.limit.trans hp.limit_eq, ?_, ?_⟩
    · have hdepth := honward.depth_le (hp.limit_eq.symm ▸ hp.depth_le)
      rwa [honward.limit, hp.limit_eq] at hdepth
    · rw [honward.rules]
      exact hp.paired
  · exact ⟨hp.tokens_eq, hp.limit_eq, Nat.le_trans (Nat.sub_le _ _) hp.depth_le, hp.paired⟩
  · exact ⟨hp.tokens_eq, hp.limit_eq, hp.depth_le, hpaired hp.paired⟩

theorem reaches (hp : Coherent tokens p) (h : Reaches p q) : Coherent tokens q := by
  induction h with
  | refl => exact hp
  | tail _ hstep ih =>
    obtain ⟨a, hstep⟩ := hstep
    exact ih.step hstep

theorem position_le (hp : Coherent tokens p) : p.position ≤ tokens.length := by
  rw [← hp.tokens_eq, Parser.tokens, List.length_append, List.length_reverse]
  exact Nat.le_add_right _ _

/-- The position is that of the token that is read next. -/
theorem current?_eq (hp : Coherent tokens p) : p.current? = tokens[p.position]? := by
  rw [← hp.tokens_eq, Parser.tokens, List.getElem?_append_right (by simp [position])]
  simp [position, current?, List.head?_eq_getElem?]

theorem finish_eq (hp : Coherent tokens p) :
    p.finish = (tokens.getLast?.map (·.span.stop)).getD .null := by
  rw [finish, hp.tokens_eq]

/-- The place behind the token that has been read last. -/
theorem reached_eq (hp : Coherent tokens p) :
    p.reached = match p.position with
      | 0 => (tokens.head?.map (·.span.start)).getD .null
      | k + 1 => (tokens[k]?.map (·.span.stop)).getD .null := by
  rw [← hp.tokens_eq, Parser.tokens, position, reached]
  cases p.read with
  | nil => cases p.rest <;> rfl
  | cons token read => simp

end Coherent

/-- A step takes no token back and hands no identity out again. -/
theorem Step.le (h : Step p a q) : p.position ≤ q.position ∧ p.nextId ≤ q.nextId := by
  obtain honward | rfl | ⟨rules, rfl, -⟩ := h.cases
  · exact ⟨honward.position_le, honward.nextId⟩
  · exact ⟨Nat.le_refl _, Nat.le_refl _⟩
  · exact ⟨Nat.le_refl _, Nat.le_refl _⟩

theorem Reaches.le (h : Reaches p q) : p.position ≤ q.position ∧ p.nextId ≤ q.nextId := by
  induction h with
  | refl => exact ⟨Nat.le_refl _, Nat.le_refl _⟩
  | tail _ hstep ih =>
    obtain ⟨a, hstep⟩ := hstep
    exact ⟨Nat.le_trans ih.1 hstep.le.1, Nat.le_trans ih.2 hstep.le.2⟩

theorem Moves.position_eq {ts : List Token} {n : Nat} (h : Moves p q ts n) :
    q.position = p.position + ts.length := by
  rw [position, position, h.read, List.length_append, List.length_reverse, Nat.add_comm]

end

/-- Every parser that a caller can come to has the tokens that it was made
    with.  It stands at one of them or behind the last one, and knows where the
    token before it ends; no more levels are open than the limit allows, and a
    kind is read as an operator if it has a power.  Later on it never stands
    further back, and hands no identity out again.  Every call ends, however
    few calls more than tokens ahead the clock grants.  If it succeeds, the
    levels are those of before, a token has been read unless the call is for a
    block, and the nodes that it gives carry the identities that it has drawn;
    if it fails, the parser has neither closed a level nor gone back. -/
theorem progress_of_reachable {tokens : List Token} {p : Parser} (h : Reachable tokens p) :
    p.tokens = tokens ∧ p.finish = (tokens.getLast?.map (·.span.stop)).getD .null ∧
    p.position ≤ tokens.length ∧ p.current? = tokens[p.position]? ∧
    (p.reached = match p.position with
      | 0 => (tokens.head?.map (·.span.start)).getD .null
      | k + 1 => (tokens[k]?.map (·.span.stop)).getD .null) ∧
    p.depth ≤ maxNesting ∧ p.rules.Paired ∧
    (∀ q, Reaches p q → p.position ≤ q.position ∧ p.nextId ≤ q.nextId) ∧
    ∀ c : Call,
      (∀ late calls, p.rest.length < calls → c.timed late calls p = c.run p) ∧
      (∀ reading q, c.run p = .ok reading q →
        q.depth = p.depth ∧ (c ≠ .block → p.position < q.position) ∧
        reading.drawn = c.given ++ List.range' p.nextId (q.nextId - p.nextId)) ∧
      ∀ error q, c.run p = .error error q → p.depth ≤ q.depth ∧ p.position ≤ q.position := by
  have hp : Coherent tokens p := (Coherent.start tokens).reaches h
  refine ⟨hp.tokens_eq, hp.finish_eq, hp.position_le, hp.current?_eq, hp.reached_eq, hp.depth_le,
    hp.paired, fun q hreaches => hreaches.le, fun c => ⟨?_, ?_, ?_⟩⟩
  · intro late calls hcalls
    exact c.timed_eq hcalls
  · intro reading q hrun
    obtain ⟨ts, n, hm, htoken, hdrawn⟩ := (c.ends p).of_eq_ok hrun
    refine ⟨hm.depth, ?_, ?_⟩
    · intro hc
      rw [hm.position_eq]
      exact Nat.lt_add_of_pos_right (List.length_pos_of_ne_nil (htoken hc))
    · rw [hdrawn, hm.nextId, Nat.add_sub_cancel_left]
  · intro error q hrun
    have honward := (c.ends p).of_eq_error hrun
    exact ⟨honward.depth, honward.position_le⟩

/-- The mark `;` is made an operator.  Reading `1 ;` as an expression then fails
    behind both tokens with a level open; a block, which is empty, can still be
    read there. -/
theorem progress_of_reachable_of_failure :
    ∃ (tokens : List Token) (p : Parser), Reachable tokens p ∧ p.rest = [] ∧ p.depth = 1 ∧
      p.position = 2 ∧ p.reached = (tokens[1]?.map (·.span.stop)).getD .null ∧
      p.rules.power .semicolon = some .additive ∧ p.rules.joins .semicolon = true ∧
      (∀ q, Reaches p q → 1 ≤ q.nextId) ∧
      ∀ late, Call.block.timed late 1 p = Call.block.run p := by
  let tokens : List Token :=
    [⟨.integer, "1", ⟨⟨0, "main"⟩, ⟨1, "main"⟩⟩⟩, ⟨.semicolon, ";", ⟨⟨2, "main"⟩, ⟨3, "main"⟩⟩⟩]
  let rules : Rules := Rules.empty.withStandard.withOperator .semicolon .additive
  let p : Parser := ⟨tokens.reverse, [], 1, 1, rules, maxNesting⟩
  have hfails : (Action.call (.expression .lowest)).run ⟨[], tokens, 0, 0, rules, maxNesting⟩ =
      .error ⟨.unexpectedToken ";" "an operator", ⟨2, "main"⟩⟩ p := rfl
  have h : Reachable tokens p :=
    .tail (.tail (.single ⟨.withStandard, .done rfl⟩)
      ⟨.withOperator .semicolon .additive, .done rfl⟩)
      ⟨.call (.expression .lowest), .failed hfails⟩
  obtain ⟨-, -, -, -, hreached, -, hpaired, hle, hcalls⟩ := progress_of_reachable h
  refine ⟨tokens, p, h, rfl, rfl, rfl, hreached, rfl, hpaired .semicolon, fun q hq => ?_, ?_⟩
  · exact (hle q hq).2
  · intro late
    exact (hcalls .block).1 late 1 Nat.one_pos

end Parser

end BlockLang
