import BlockLang.Proofs.Grammar.Comparison
import BlockLang.Proofs.Grammar.Flat

/-! # Nesting — the limit on levels is transparent

  As long as the parser without a limit opens no more levels than allowed, the
  parser gives the same.  Where it first opens one more, the parser fails, and
  this is the only thing that the limit does.  The two are compared action by
  action. -/

namespace BlockLang

namespace Parser

variable {α β : Type} {p q : Parser} {x : Parse α} {y : Watch α} {f : α → Parse β}
  {g : α → Watch β}

/-! ### With and without a limit -/

/-- The action fails where the level `o` would be one too many. -/
def Overflows (x : Parse α) (p : Parser) (o : Opening) : Prop :=
  o.level = p.limit + 1 ∧ ∃ q, x p = .error q.tooDeep q ∧ q.tokens = p.tokens ∧
    q.limit = p.limit ∧ q.current? = o.current?

/-- The action `x` does what `y` does as long as no more levels are open than
    the limit allows, and fails where `y` first opens one more. -/
structure Capped (x : Parse α) (y : Watch α) (p : Parser) : Prop where
  moves : ∀ {a q}, x p = .ok a q → ∃ ts n, Moves p q ts n
  outcome : match (y p).2.find? (p.limit < ·.level) with
    | none => x p = (y p).1
    | some o => Overflows x p o

namespace Capped

/-- Two actions in a row. -/
theorem bind (hx : Capped x y p)
    (hnext : ∀ a q ts n, x p = .ok a q → Moves p q ts n → Capped (f a) (g a) q) :
    Capped (x >>= f) (y >>= g) p where
  moves {b r} h := by
    obtain ⟨a, q, ha, hb⟩ := bind_eq_ok_iff.mp h
    obtain ⟨ts, n, hm⟩ := hx.moves ha
    obtain ⟨us, k, hm'⟩ := (hnext a q ts n ha hm).moves hb
    exact ⟨_, _, hm.trans hm'⟩
  outcome := by
    have houtcome := hx.outcome
    show match (Watch.andThen g (y p)).2.find? (p.limit < ·.level) with
      | none => (x >>= f) p = (Watch.andThen g (y p)).1
      | some o => Overflows (x >>= f) p o
    generalize y p = result at houtcome
    obtain ⟨r, log⟩ := result
    simp only at houtcome
    cases hfind : log.find? (p.limit < ·.level) with
    | some o =>
      -- The first action fails already.
      rw [hfind] at houtcome
      obtain ⟨hlevel, q, herror, hq⟩ := houtcome
      have hbind : (x >>= f) p = .error q.tooDeep q := by
        simp only [Bind.bind, EStateM.bind, herror]
      have hfirst : (Watch.andThen g (r, log)).2.find? (p.limit < ·.level) = some o := by
        cases r with
        | ok a q => rw [Watch.andThen, List.find?_append, hfind, Option.some_or]
        | error error q => exact hfind
      rw [hfirst]
      exact ⟨hlevel, q, hbind, hq⟩
    | none =>
      rw [hfind] at houtcome
      cases r with
      | error error q =>
        rw [Watch.andThen, hfind]
        simp only [Bind.bind, EStateM.bind, houtcome]
      | ok a q =>
        obtain ⟨ts, n, hm⟩ := hx.moves houtcome
        have hrest := (hnext a q ts n houtcome hm).outcome
        rw [hm.limit] at hrest
        rw [Watch.andThen, List.find?_append, hfind, Option.none_or, Parser.bind_of_ok houtcome]
        cases hfind' : (g a q).2.find? (p.limit < ·.level) with
        | none =>
          rw [hfind'] at hrest
          exact hrest
        | some o =>
          rw [hfind'] at hrest
          obtain ⟨hlevel, r, herror, htokens, hlimit, hcurrent⟩ := hrest
          rw [hm.limit] at hlevel hlimit
          refine ⟨hlevel, r, ?_, htokens.trans hm.tokens_eq, hlimit, hcurrent⟩
          rw [Parser.bind_of_ok houtcome]
          exact herror

theorem congr {x' : Parse α} (h : Capped x' y p) (heq : x p = x' p) : Capped x y p where
  moves hx := h.moves (heq ▸ hx)
  outcome := by
    have houtcome := h.outcome
    unfold Overflows at houtcome ⊢
    rw [heq]
    exact houtcome

/-- An action that opens no level. -/
theorem plain (h : ∀ {a q}, x p = .ok a q → ∃ ts n, Moves p q ts n) : Capped x (liftM x) p where
  moves := h
  outcome := rfl

theorem pure (a : α) : Capped (Pure.pure a) (Pure.pure a) p where
  moves h := by
    obtain ⟨rfl, rfl⟩ := pure_eq_ok_iff.mp h
    exact ⟨[], 0, .refl p⟩
  outcome := rfl

/-- A failure is the same in both. -/
theorem fail (error : Parser → Error) :
    Capped (Parser.fail error : Parse α) (liftM (Parser.fail error : Parse α)) p :=
  plain fun h => absurd h fail_ne_ok

theorem throw (error : Error) :
    Capped (MonadExcept.throw error : Parse α) (liftM (MonadExcept.throw error : Parse α)) p :=
  plain fun h => absurd h throw_ne_ok

/-! ### Reading -/

theorem get_bind {f : Parser → Parse β} {g : Parser → Watch β} (h : Capped (f p) (g p) p) :
    Capped (get >>= f) (liftM (get : Parse Parser) >>= g) p := by
  refine bind (plain fun hget => ?_) fun a q ts n hget _ => ?_
  · obtain ⟨rfl, rfl⟩ := get_eq_ok_iff.mp hget
    exact ⟨[], 0, .refl p⟩
  · obtain ⟨rfl, rfl⟩ := get_eq_ok_iff.mp hget
    exact h

theorem advance_bind {f : Token → Parse β} {g : Token → Watch β}
    (hnext : ∀ token q, Moves p q [token] 0 → Capped (f token) (g token) q) :
    Capped (advance >>= f) (liftM advance >>= g) p := by
  refine bind (plain fun h => ⟨_, _, advance_iff_moves.mp h⟩) fun token q _ _ h _ => ?_
  exact hnext token q (advance_iff_moves.mp h)

theorem expect_bind {kind : Kind} {f : Token → Parse β} {g : Token → Watch β}
    (hnext : ∀ token q, Moves p q [token] 0 → Capped (f token) (g token) q) :
    Capped (expect kind >>= f) (liftM (expect kind) >>= g) p := by
  refine bind (plain fun h => ⟨_, _, (expect_iff_moves.mp h).2⟩) fun token q _ _ h _ => ?_
  exact hnext token q (expect_iff_moves.mp h).2

theorem freshId_bind {f : NodeId → Parse β} {g : NodeId → Watch β}
    (hnext : ∀ id q, Moves p q [] 1 → Capped (f id) (g id) q) :
    Capped (freshId >>= f) (liftM freshId >>= g) p := by
  refine bind (plain fun h => ⟨_, _, (freshId_iff_moves.mp h).2⟩) fun id q _ _ h _ => ?_
  exact hnext id q (freshId_iff_moves.mp h).2

theorem identOf_bind {token : Token} {f : Ident → Parse β} {g : Ident → Watch β}
    (hnext : ∀ ident q, Moves p q [] 1 → Capped (f ident) (g ident) q) :
    Capped (identOf token >>= f) (liftM (identOf token) >>= g) p := by
  refine bind (plain fun h => ⟨_, _, (identOf_iff_moves.mp h).2⟩) fun ident q _ _ h _ => ?_
  exact hnext ident q (identOf_iff_moves.mp h).2

theorem closeTag_bind {start : Position} {f : Tag → Parse β} {g : Tag → Watch β}
    (hnext : ∀ tag q, Moves p q [] 1 → Capped (f tag) (g tag) q) :
    Capped (closeTag start >>= f) (liftM (closeTag start) >>= g) p := by
  refine bind (plain fun h => ⟨_, _, (closeTag_iff_moves.mp h).2⟩) fun tag q _ _ h _ => ?_
  exact hnext tag q (closeTag_iff_moves.mp h).2

/-! ### Levels -/

/-- An action inside a level that the limit allows. -/
theorem enter_bind (h : p.depth < p.limit) (hx : Capped x y { p with depth := p.depth + 1 }) :
    Capped (do enter; let a ← x; leave; return a)
      (do Unlimited.enter; let a ← y; leave; return a) p where
  moves {a q} hok := by
    obtain ⟨-, r, hr, rfl⟩ := enter_bind_eq_ok_iff.mp hok
    obtain ⟨ts, n, hm⟩ := hx.moves hr
    exact ⟨ts, n, hm.leaveLevel⟩
  outcome := by
    have houtcome := hx.outcome
    rw [Unlimited.enter_bind]
    -- The level itself is within the limit, so the first one beyond it is inside.
    rw [List.find?_cons_of_neg (by simpa using Nat.succ_le_of_lt h)]
    cases hfind : (y { p with depth := p.depth + 1 }).2.find? (p.limit < ·.level) with
    | none =>
      rw [hfind] at houtcome
      have hrun := Parser.enter_bind (x := x) h
      rw [show x { p with depth := p.depth + 1 } = _ from houtcome] at hrun
      refine hrun.trans ?_
      cases (y { p with depth := p.depth + 1 }).1 <;> rfl
    | some o =>
      rw [hfind] at houtcome
      obtain ⟨hlevel, q, herror, hq⟩ := houtcome
      refine ⟨hlevel, q, ?_, hq⟩
      rw [Parser.enter_bind h, herror]

/-- Without room for a level the action fails, whatever would come inside. -/
theorem tooDeep (h : p.depth = p.limit) (g : Unit → Watch α) :
    Capped (Parser.fail Parser.tooDeep) (Unlimited.enter >>= g) p where
  moves h := absurd h fail_ne_ok
  outcome := by
    have hlog : (Unlimited.enter >>= g : Watch α) p =
        ((g () { p with depth := p.depth + 1 }).1,
          ⟨p.depth + 1, p.current?⟩ :: (g () { p with depth := p.depth + 1 }).2) := rfl
    rw [hlog, List.find?_cons_of_pos (by simp [h])]
    exact ⟨by rw [h], p, rfl, rfl, rfl, rfl⟩

end Capped

/-- The parser has room for exactly so many levels, and at most so many tokens
    are left. -/
structure Fits (room count : Nat) (p : Parser) : Prop where
  room : p.depth + room = p.limit
  length : p.rest.length ≤ count

namespace Fits

variable {room count : Nat}

theorem moves {ts : List Token} {n : Nat} (h : Fits room count p) (hm : Moves p q ts n) :
    Fits room count q where
  room := by rw [hm.depth, hm.limit, h.room]
  length := by
    have hlen := hm.length_rest
    have hle := h.length
    omega

/-- A token that is read is one less for what comes behind. -/
theorem read {token : Token} {n : Nat} (h : Fits room (count + 1) p) (hm : Moves p q [token] n) :
    Fits room count q where
  room := by rw [hm.depth, hm.limit, h.room]
  length := by
    have hlen := hm.length_rest
    have hle := h.length
    rw [List.length_singleton] at hlen
    omega

theorem rest_eq_nil (h : Fits room 0 p) : p.rest = [] :=
  List.length_eq_zero_iff.mp (Nat.le_zero.mp h.length)

theorem depth_lt (h : Fits (room + 1) count p) : p.depth < p.limit := by
  have hroom := h.room
  omega

/-- A level that is opened leaves less room. -/
theorem enterLevel (h : Fits (room + 1) count p) :
    Fits room count { p with depth := p.depth + 1 } where
  room := by
    have hroom := h.room
    simp only
    omega
  length := h.length

end Fits

/-! ### Expressions -/

section

variable {room count : Nat} {inner : Power → Parse Expr} {inner' : Power → Watch Expr}
  {left : Expr} {power : Power}

theorem capped_primary : Capped primary (liftM primary) p := by
  refine .plain fun {e q} h => ?_
  obtain ⟨token, p₁, htoken, h⟩ := bind_eq_ok_iff.mp h
  obtain ⟨id, p₂, hid, h⟩ := bind_eq_ok_iff.mp h
  have hm := (advance_iff_moves.mp htoken).trans (freshId_iff_moves.mp hid).2
  cases hleaf : leafOf token id with
  | ok e =>
    rw [hleaf] at h
    obtain ⟨rfl, rfl⟩ := pure_eq_ok_iff.mp h
    exact ⟨_, _, hm⟩
  | error error =>
    rw [hleaf] at h
    exact absurd h throw_ne_ok

theorem capped_grouping
    (hinner : ∀ q, Fits room count q → Capped (inner .lowest) (inner' .lowest) q)
    (hp : Fits room (count + 1) p) : Capped (grouping inner) (grouping inner') p := by
  refine .expect_bind fun _ p₁ hm => ?_
  refine .bind (hinner p₁ (hp.read hm)) fun e p₂ _ _ _ _ => ?_
  exact .expect_bind fun _ _ _ => .pure e

theorem capped_operand
    (hinner : ∀ q, Fits room count q → Capped (inner .lowest) (inner' .lowest) q)
    (hp : Fits room (count + 1) p) : Capped (operand inner) (operand inner') p := by
  refine .get_bind ?_
  match p.currentKind?.bind p.rules.operand with
  | some .primary => exact capped_primary
  | some .grouping => exact capped_grouping hinner hp
  | none => exact .fail _

theorem capped_binary (hinner : ∀ q, Fits room count q → Capped (inner power) (inner' power) q)
    (hp : Fits room (count + 1) p) :
    Capped (binary inner left power) (binary inner' left power) p := by
  refine .advance_bind fun token p₁ hm => ?_
  cases Operator.ofKind? token.kind with
  | none => exact .throw _
  | some operator =>
    refine .bind (hinner p₁ (hp.read hm)) fun right p₂ _ _ _ _ => ?_
    exact .freshId_bind fun _ _ _ => .pure _

theorem capped_climb
    (hinner : ∀ power q, Fits room count q → Capped (inner power) (inner' power) q)
    (hp : Fits room (count + 1) p) (rounds : List Token) :
    Capped (climb inner power rounds left) (climb inner' power rounds left) p := by
  induction rounds generalizing left p with
  | nil => exact .pure left
  | cons _ rounds ih =>
    refine .get_bind ?_
    cases hkind : p.currentKind? with
    | none => exact .pure left
    | some kind =>
      simp only
      split
      · exact .pure left
      · split
        · exact .bind (capped_binary (hinner _) hp) fun joined q _ _ _ hm => ih (hp.moves hm)
        · exact .fail _

theorem capped_level
    (hinner : ∀ power q, Fits room count q → Capped (inner power) (inner' power) q)
    (hp : Fits room (count + 1) p) :
    Capped (level inner power) (level inner' power) p := by
  refine .bind (capped_operand (hinner .lowest) hp) fun left q _ _ _ hm => ?_
  exact .get_bind (capped_climb hinner (hp.moves hm) q.rest)

end

/-- Where no token is left no operand comes. -/
theorem level_of_rest_eq_nil (inner : Power → Parse Expr) (power : Power) (h : p.rest = []) :
    level inner power p = fail (·.unexpected "an expression") p := by
  rw [level, operand]
  simp only [monadLift_self, bind_assoc, get_bind, currentKind?_of_nil h]
  rfl

/-- Reading an expression. -/
theorem capped_expr {room : Nat} {ahead : List Token} (hp : Fits room ahead.length p)
    (power : Power) : Capped (expr room power) (Unlimited.expr ahead power) p := by
  -- On the tokens ahead; the room for levels gets smaller with them.
  induction ahead generalizing room power p with
  | nil =>
    cases room with
    | zero => exact .tooDeep hp.room _
    | succ room =>
      exact .enter_bind hp.depth_lt
        ((Capped.fail _).congr (level_of_rest_eq_nil _ power hp.rest_eq_nil))
  | cons token ahead ih =>
    cases room with
    | zero => exact .tooDeep hp.room _
    | succ room =>
      exact .enter_bind hp.depth_lt (capped_level (fun power q hq => ih hq power) hp.enterLevel)

/-! ### Statements -/

section

variable {room count : Nat} {expression : Parse Expr} {expression' : Watch Expr}
  {block : Parse (List Stmt)} {block' : Watch (List Stmt)}

theorem capped_declaration (hexpr : ∀ q, Fits room count q → Capped expression expression' q)
    (hp : Fits room (count + 1) p) :
    Capped (declaration expression) (declaration expression') p := by
  refine .expect_bind fun first p₁ hm₁ => ?_
  refine .expect_bind fun name p₂ hm₂ => ?_
  refine .expect_bind fun _ p₃ hm₃ => ?_
  refine .expect_bind fun type p₄ hm₄ => ?_
  cases Ty.ofKeyword? type.lexeme with
  | none => exact .throw _
  | some ty =>
    refine .expect_bind fun _ p₅ hm₅ => ?_
    refine .identOf_bind fun target p₆ hm₆ => ?_
    have hp₆ := (((((hp.read hm₁).moves hm₂).moves hm₃).moves hm₄).moves hm₅).moves hm₆
    refine .bind (hexpr p₆ hp₆) fun value p₇ _ _ _ _ => ?_
    refine .expect_bind fun _ p₈ _ => ?_
    exact .closeTag_bind fun tag _ _ => .pure _

theorem capped_assignment (hexpr : ∀ q, Fits room count q → Capped expression expression' q)
    (hp : Fits room (count + 1) p) :
    Capped (assignment expression) (assignment expression') p := by
  refine .expect_bind fun name p₁ hm₁ => ?_
  refine .expect_bind fun _ p₂ hm₂ => ?_
  refine .identOf_bind fun target p₃ hm₃ => ?_
  refine .bind (hexpr p₃ (((hp.read hm₁).moves hm₂).moves hm₃)) fun value p₄ _ _ _ _ => ?_
  refine .expect_bind fun _ p₅ _ => ?_
  exact .closeTag_bind fun tag _ _ => .pure _

theorem capped_print (hexpr : ∀ q, Fits room count q → Capped expression expression' q)
    (hp : Fits room (count + 1) p) :
    Capped (print expression) (print expression') p := by
  refine .expect_bind fun first p₁ hm₁ => ?_
  refine .bind (hexpr p₁ (hp.read hm₁)) fun value p₂ _ _ _ _ => ?_
  refine .expect_bind fun _ p₃ _ => ?_
  exact .closeTag_bind fun tag _ _ => .pure _

theorem capped_whileDo (hexpr : ∀ q, Fits room count q → Capped expression expression' q)
    (hblock : ∀ q, Fits room count q → Capped block block' q) (hp : Fits room (count + 1) p) :
    Capped (whileDo expression block) (whileDo expression' block') p := by
  refine .expect_bind fun first p₁ hm₁ => ?_
  have hp₁ := hp.read hm₁
  refine .bind (hexpr p₁ hp₁) fun condition p₂ _ _ _ hm₂ => ?_
  refine .expect_bind fun _ p₃ hm₃ => ?_
  refine .bind (hblock p₃ ((hp₁.moves hm₂).moves hm₃)) fun body p₄ _ _ _ _ => ?_
  refine .expect_bind fun _ p₅ _ => ?_
  exact .closeTag_bind fun tag _ _ => .pure _

theorem capped_ifThen (hexpr : ∀ q, Fits room count q → Capped expression expression' q)
    (hblock : ∀ q, Fits room count q → Capped block block' q) (hp : Fits room (count + 1) p) :
    Capped (ifThen expression block) (ifThen expression' block') p := by
  refine .expect_bind fun first p₁ hm₁ => ?_
  have hp₁ := hp.read hm₁
  refine .bind (hexpr p₁ hp₁) fun condition p₂ _ _ _ hm₂ => ?_
  refine .expect_bind fun _ p₃ hm₃ => ?_
  have hp₃ := (hp₁.moves hm₂).moves hm₃
  refine .bind (hblock p₃ hp₃) fun body p₄ _ _ _ hm₄ => ?_
  refine .get_bind ?_
  split
  · refine .expect_bind fun second p₅ hm₅ => ?_
    refine .bind (hblock p₅ ((hp₃.moves hm₄).moves hm₅)) fun otherwise p₆ _ _ _ _ => ?_
    refine .expect_bind fun _ p₇ _ => ?_
    refine .closeTag_bind fun elseTag p₈ _ => ?_
    exact .closeTag_bind fun tag _ _ => .pure _
  · refine .expect_bind fun _ p₅ _ => ?_
    exact .closeTag_bind fun tag _ _ => .pure _

theorem capped_statement (hexpr : ∀ q, Fits room count q → Capped expression expression' q)
    (hblock : ∀ q, Fits room count q → Capped block block' q) (hp : Fits room (count + 1) p)
    (rule : StatementRule) :
    Capped (statement expression block rule) (statement expression' block' rule) p := by
  cases rule with
  | declaration => exact capped_declaration hexpr hp
  | assignment => exact capped_assignment hexpr hp
  | whileDo => exact capped_whileDo hexpr hblock hp
  | ifThen => exact capped_ifThen hexpr hblock hp
  | print => exact capped_print hexpr hp
  | unsupported =>
    refine .plain fun {s q} h => ?_
    obtain ⟨token, p₁, -, h⟩ := bind_eq_ok_iff.mp h
    exact absurd h throw_ne_ok

theorem capped_statements (hexpr : ∀ q, Fits room count q → Capped expression expression' q)
    (hblock : ∀ q, Fits room count q → Capped block block' q) (hp : Fits room (count + 1) p)
    (rounds : List Token) (before : List Stmt) :
    Capped (statements (statement expression block) rounds before)
      (statements (statement expression' block') rounds before) p := by
  induction rounds generalizing before p with
  | nil => exact .pure _
  | cons _ rounds ih =>
    refine .get_bind ?_
    cases hkind : p.currentKind? with
    | none => exact .pure _
    | some kind =>
      cases hrule : p.rules.statement kind with
      | some rule =>
        simp only [hrule]
        refine .bind (capped_statement hexpr hblock hp rule) fun s q _ _ _ hm => ?_
        exact ih (hp.moves hm) _
      | none =>
        simp only [hrule]
        split
        · exact .pure _
        · exact .fail _

end

/-- Reading a block. -/
theorem capped_blockWithin {room : Nat} {ahead : List Token} (hp : Fits room ahead.length p) :
    Capped (blockWithin room) (Unlimited.block ahead) p := by
  induction ahead generalizing room p with
  | nil =>
    cases room with
    | zero => exact .tooDeep hp.room _
    | succ room =>
      rw [blockWithin_succ]
      refine .enter_bind hp.depth_lt ((Capped.pure []).congr ?_)
      have hrest : ({ p with depth := p.depth + 1 } : Parser).rest = [] := hp.rest_eq_nil
      rw [Parser.get_bind]
      exact statements_of_rest_eq_nil hrest _ _
  | cons token ahead ih =>
    cases room with
    | zero => exact .tooDeep hp.room _
    | succ room =>
      rw [blockWithin_succ]
      refine .enter_bind hp.depth_lt (.get_bind ?_)
      exact capped_statements (fun q hq => capped_expr hq .lowest) (fun q hq => ih hq)
        hp.enterLevel _ _

/-- Reading a program. -/
theorem capped_program {ahead : List Token} (hp : Fits p.limit ahead.length p) :
    Capped program (Unlimited.program ahead) p := by
  refine .freshId_bind fun id p₁ hm => .get_bind ?_
  have hblock : Capped block (Unlimited.block ahead) p₁ := by
    have hp₁ := hp.moves hm
    have hroom : p₁.room = p.limit := by
      have hroom := hp₁.room
      rw [room]
      omega
    refine (capped_blockWithin hp₁).congr ?_
    rw [block, hroom]
  refine .bind hblock fun body q _ _ _ _ => .get_bind ?_
  split
  · exact .pure _
  · exact .fail _

end Parser

/-- The limit on levels is transparent.  If no more than 256 levels are ever
    open without a limit, parsing gives the same as without one.  Otherwise it
    fails where the 257th level would first be opened: at the token that comes
    next, or at the end of the last token.  An expression that reads no
    parenthesis opens at most three levels above those around it. -/
theorem parse_eq_parseUnlimited (ts : List Token) :
    ((∀ o ∈ openings ts, o.level ≤ 256) → parse ts = parseUnlimited ts) ∧
    ((∃ o ∈ openings ts, 256 < o.level) →
      ∃ before o behind, openings ts = before ++ o :: behind ∧
        (∀ b ∈ before, b.level ≤ 256) ∧ o.level = 257 ∧
        parse ts = .error ⟨.nestingTooDeep 256,
          match o.current? with
          | some token => token.span.start
          | none => (ts.getLast?.map (·.span.stop)).getD .null⟩) ∧
    (∀ (ahead : List Token) (p : Parser),
      ∃ read : List Token,
        (Parser.final (Parser.Unlimited.expr ahead .lowest p).1).read = read.reverse ++ p.read ∧
        ((∀ t ∈ read, t.kind ≠ .openParen) →
          ∀ o ∈ (Parser.Unlimited.expr ahead .lowest p).2, o.level ≤ p.depth + 3)) := by
  have hcapped : Parser.Capped Parser.program (Parser.Unlimited.program ts)
      (.start .standard 256 ts) :=
    Parser.capped_program ⟨Nat.zero_add 256, Nat.le_refl _⟩
  have houtcome : match (openings ts).find? (256 < ·.level) with
      | none => Parser.program (.start .standard 256 ts) = (unlimitedRun ts).1
      | some o => Parser.Overflows Parser.program (.start .standard 256 ts) o := hcapped.outcome
  refine ⟨?_, ?_, fun ahead p => (Parser.shallow_expr ahead .lowest p).reads⟩
  · intro hwithin
    have hnone : (openings ts).find? (256 < ·.level) = none := by
      rw [List.find?_eq_none]
      intro o ho
      simpa using hwithin o ho
    rw [hnone] at houtcome
    show parseWithin 256 ts = _
    rw [parseWithin, houtcome]
    rfl
  · intro hbeyond
    cases hfind : (openings ts).find? (256 < ·.level) with
    | none =>
      obtain ⟨o, ho, hlevel⟩ := hbeyond
      exact absurd (decide_eq_true hlevel) (List.find?_eq_none.mp hfind o ho)
    | some o =>
      obtain ⟨-, before, behind, hopenings, hbefore⟩ := List.find?_eq_some_iff_append.mp hfind
      rw [hfind] at houtcome
      obtain ⟨hlevel, q, herror, htokens, hlimit, hcurrent⟩ := houtcome
      refine ⟨before, o, behind, hopenings, fun b hb => by simpa using hbefore b hb, hlevel, ?_⟩
      show parseWithin 256 ts = _
      rw [parseWithin, herror]
      -- No token is lost, so the last one read is the last of all.
      have hall : q.tokens = ts := htokens
      have hplace := q.here_eq
      rw [hcurrent, Parser.finish, hall] at hplace
      show Except.error q.tooDeep = _
      rw [Parser.tooDeep, show q.limit = 256 from hlimit]
      exact congrArg (fun place => Except.error (Error.mk (.nestingTooDeep 256) place)) hplace

/-- Behind `print`, 254 open parentheses use all levels: the block, the value
    and what stands in each of them.  One parenthesis more is too many. -/
theorem parse_eq_parseUnlimited_of_parens :
    let row (parens : Nat) : List Token := ⟨.kwPrint, "print", ⟨.null, .null⟩⟩ ::
      List.replicate parens ⟨.openParen, "(", ⟨.null, .null⟩⟩
    ((∀ o ∈ openings (row 254), o.level ≤ 256) ∧ parse (row 254) = parseUnlimited (row 254)) ∧
      (∃ o ∈ openings (row 255), 256 < o.level) ∧
        ∃ place, parse (row 255) = .error ⟨.nestingTooDeep 256, place⟩ := by
  intro row
  have hwithin : ∀ o ∈ openings (row 254), o.level ≤ 256 := by decide +kernel
  have hbeyond : ∃ o ∈ openings (row 255), 256 < o.level := by decide +kernel
  obtain ⟨hsame, -, -⟩ := parse_eq_parseUnlimited (row 254)
  obtain ⟨-, hfails, -⟩ := parse_eq_parseUnlimited (row 255)
  obtain ⟨before, o, behind, -, -, -, herror⟩ := hfails hbeyond
  exact ⟨⟨hwithin, hsame hwithin⟩, hbeyond, _, herror⟩

end BlockLang
