import BlockLang.Proofs.Grammar.Location
import BlockLang.Proofs.Program.Identities

/-! # Progress — what reading takes and draws, whatever the rules

  A parser may be given any rules: a kind of token may be read as an operator,
  an operand or a statement that it cannot start.  Whatever the rules say, an
  action that succeeds has moved on, with as many levels open as before, and
  the nodes that it gives carry the identities that it has drawn, and no
  others.  An action that fails leaves a parser that stands further on, with
  the levels open that it has not closed. -/

namespace BlockLang

namespace Parser

variable {α β : Type} {p q r : Parser} {x : Parse α} {f : α → Parse β}

/-! ### Parsers further on -/

theorem Behind.trans (h₁ : Behind p q) (h₂ : Behind q r) : Behind p r := by
  obtain ⟨ts, hrest₁, hread₁⟩ := h₁
  obtain ⟨us, hrest₂, hread₂⟩ := h₂
  refine ⟨ts ++ us, ?_, ?_⟩
  · rw [hrest₁, hrest₂, List.append_assoc]
  · rw [hread₂, hread₁, List.reverse_append, List.append_assoc]

/-- The parser `q` comes from `p` by reading tokens, drawing identities and
    opening levels, within the limit if `p` is. -/
structure Onward (p q : Parser) : Prop where
  behind : Behind p q
  nextId : p.nextId ≤ q.nextId
  depth : p.depth ≤ q.depth
  depth_le : p.depth ≤ p.limit → q.depth ≤ q.limit
  rules : q.rules = p.rules
  limit : q.limit = p.limit

namespace Onward

theorem refl (p : Parser) : Onward p p :=
  ⟨.refl p, Nat.le_refl _, Nat.le_refl _, id, rfl, rfl⟩

theorem trans (h₁ : Onward p q) (h₂ : Onward q r) : Onward p r where
  behind := h₁.behind.trans h₂.behind
  nextId := Nat.le_trans h₁.nextId h₂.nextId
  depth := Nat.le_trans h₁.depth h₂.depth
  depth_le := fun h => h₂.depth_le (h₁.depth_le h)
  rules := h₂.rules.trans h₁.rules
  limit := h₂.limit.trans h₁.limit

theorem enterLevel (h : p.depth < p.limit) : Onward p { p with depth := p.depth + 1 } :=
  ⟨.refl p, Nat.le_refl _, Nat.le_succ _, fun _ => h, rfl, rfl⟩

end Onward

theorem Moves.onward {ts : List Token} {n : Nat} (h : Moves p q ts n) : Onward p q where
  behind := (Behind.refl p).moves h
  nextId := h.nextId ▸ Nat.le_add_right _ _
  depth := Nat.le_of_eq h.depth.symm
  depth_le := by
    intro hle
    rw [h.depth, h.limit]
    exact hle
  rules := h.rules
  limit := h.limit

/-! ### How an action ends -/

/-- The action moves on to a result that has `post` with the tokens it has taken
    and the number of identities it has drawn, or it fails further on. -/
def Ends (x : Parse α) (p : Parser) (post : α → List Token → Nat → Prop) : Prop :=
  match x p with
  | .ok a q => ∃ ts n, Moves p q ts n ∧ post a ts n
  | .error _ q => Onward p q

namespace Ends

variable {post : β → List Token → Nat → Prop}

theorem of_eq_ok {post : α → List Token → Nat → Prop} (h : Ends x p post) {a : α}
    (hx : x p = .ok a q) : ∃ ts n, Moves p q ts n ∧ post a ts n := by
  unfold Ends at h
  rwa [hx] at h

theorem of_eq_error {post : α → List Token → Nat → Prop} (h : Ends x p post) {error : Error}
    (hx : x p = .error error q) : Onward p q := by
  unfold Ends at h
  rwa [hx] at h

theorem imp {post' : α → List Token → Nat → Prop} {post : α → List Token → Nat → Prop}
    (h : Ends x p post) (himp : ∀ a ts n, post a ts n → post' a ts n) : Ends x p post' := by
  unfold Ends at h ⊢
  cases hx : x p with
  | ok a q =>
    rw [hx] at h
    obtain ⟨ts, n, hm, hpost⟩ := h
    exact ⟨ts, n, hm, himp a ts n hpost⟩
  | error error q =>
    rw [hx] at h
    exact h

/-- Two actions in a row take and draw what the first one does, and then what
    the second one does. -/
theorem bind {mid : α → List Token → Nat → Prop} (hx : Ends x p mid)
    (hnext : ∀ a q ts n, Moves p q ts n → mid a ts n →
      Ends (f a) q fun b us m => post b (ts ++ us) (n + m)) :
    Ends (x >>= f) p post := by
  unfold Ends
  simp only [Bind.bind, EStateM.bind]
  cases hresult : x p with
  | error error q => exact hx.of_eq_error hresult
  | ok a q =>
    obtain ⟨ts, n, hm, hmid⟩ := hx.of_eq_ok hresult
    have hf := hnext a q ts n hm hmid
    show match f a q with
      | .ok b r => ∃ ts n, Moves p r ts n ∧ post b ts n
      | .error _ r => Onward p r
    cases hlast : f a q with
    | error error r => exact hm.onward.trans (hf.of_eq_error hlast)
    | ok b r =>
      obtain ⟨us, m, hm', hpost⟩ := hf.of_eq_ok hlast
      exact ⟨ts ++ us, n + m, hm.trans hm', hpost⟩

theorem pure {b : β} (h : post b [] 0) : Ends (Pure.pure b) p post := ⟨[], 0, .refl p, h⟩

theorem throw (error : Error) : Ends (MonadExcept.throw error : Parse β) p post := Onward.refl p

theorem fail (error : Parser → Error) : Ends (Parser.fail error : Parse β) p post := Onward.refl p

theorem get_bind {f : Parser → Parse β} (h : Ends (f p) p post) : Ends (get >>= f) p post := h

theorem advance (p : Parser) :
    Ends Parser.advance p fun token ts n => ts = [token] ∧ n = 0 := by
  unfold Ends
  cases hresult : Parser.advance p with
  | ok token q => exact ⟨[token], 0, advance_iff_moves.mp hresult, rfl, rfl⟩
  | error error q =>
    unfold Parser.advance at hresult
    split at hresult
    · cases hresult
    · cases hresult
      exact .refl p

theorem expect (kind : Kind) (p : Parser) :
    Ends (Parser.expect kind) p fun token ts n => ts = [token] ∧ n = 0 := by
  by_cases hkind : p.currentKind? = some kind
  · unfold Ends
    rw [Parser.expect, if_pos hkind]
    exact advance p
  · unfold Ends
    rw [Parser.expect, if_neg hkind]
    exact .refl p

theorem freshId (p : Parser) :
    Ends Parser.freshId p fun id ts n => id = p.nextId ∧ ts = [] ∧ n = 1 :=
  ⟨[], 1, (freshId_iff_moves.mp rfl).2, rfl, rfl, rfl⟩

theorem advance_bind {f : Token → Parse β}
    (hnext : ∀ token q, Moves p q [token] 0 →
      Ends (f token) q fun b us m => post b (token :: us) m) :
    Ends (Parser.advance >>= f) p post := by
  refine (advance p).bind fun token q ts n hm htoken => ?_
  obtain ⟨rfl, rfl⟩ := htoken
  refine (hnext token q hm).imp fun b us m hpost => ?_
  rwa [Nat.zero_add]

theorem expect_bind {kind : Kind} {f : Token → Parse β}
    (hnext : ∀ token q, Moves p q [token] 0 →
      Ends (f token) q fun b us m => post b (token :: us) m) :
    Ends (Parser.expect kind >>= f) p post := by
  refine (expect kind p).bind fun token q ts n hm htoken => ?_
  obtain ⟨rfl, rfl⟩ := htoken
  refine (hnext token q hm).imp fun b us m hpost => ?_
  rwa [Nat.zero_add]

theorem freshId_bind {f : NodeId → Parse β}
    (hnext : ∀ q, Moves p q [] 1 → Ends (f p.nextId) q fun b us m => post b us (1 + m)) :
    Ends (Parser.freshId >>= f) p post := by
  refine (freshId p).bind fun id q ts n hm hid => ?_
  obtain ⟨rfl, rfl, rfl⟩ := hid
  exact hnext q hm

theorem identOf_bind {token : Token} {f : Ident → Parse β}
    (hnext : ∀ ident q, ident.tag.id = p.nextId → Moves p q [] 1 →
      Ends (f ident) q fun b us m => post b us (1 + m)) :
    Ends (identOf token >>= f) p post := by
  simp only [identOf, bind_assoc, pure_bind]
  exact freshId_bind fun q hm => hnext _ q rfl hm

theorem closeTag_bind {start : Position} {f : Tag → Parse β}
    (hnext : ∀ tag q, tag.id = p.nextId → Moves p q [] 1 →
      Ends (f tag) q fun b us m => post b us (1 + m)) :
    Ends (closeTag start >>= f) p post := by
  simp only [closeTag, bind_assoc, pure_bind]
  exact freshId_bind fun q hm => hnext _ q rfl hm

/-- An action inside a level of its own closes it again if it succeeds. -/
theorem enter_bind {post : α → List Token → Nat → Prop}
    (h : Ends x { p with depth := p.depth + 1 } post) :
    Ends (do enter; let a ← x; leave; return a) p post := by
  unfold Ends
  by_cases hdepth : p.depth < p.limit
  · rw [Parser.enter_bind hdepth]
    cases hx : x { p with depth := p.depth + 1 } with
    | ok a q =>
      obtain ⟨ts, n, hm, hpost⟩ := h.of_eq_ok hx
      exact ⟨ts, n, hm.leaveLevel, hpost⟩
    | error error q => exact (Onward.enterLevel hdepth).trans (h.of_eq_error hx)
  · simp only [Bind.bind, EStateM.bind, enter, if_neg hdepth]
    exact .refl p

theorem map {post : α → List Token → Nat → Prop} {post' : β → List Token → Nat → Prop} {g : α → β}
    (h : Ends x p post) (hmap : ∀ a ts n, post a ts n → post' (g a) ts n) :
    Ends (g <$> x) p post' := by
  rw [← bind_pure_comp]
  refine h.bind fun a q ts n _ hpost => pure ?_
  rw [List.append_nil]
  exact hmap a ts n hpost

end Ends

/-- What the action gives carries the identities that it draws, and it takes one
    token at least. -/
def Yields (drawn : α → List NodeId) (x : Parse α) : Prop :=
  ∀ p, Ends x p fun a ts n => ts ≠ [] ∧ drawn a = List.range' p.nextId n

/-! ### Expressions -/

section

variable {inner : Power → Parse Expr}

theorem drawn_of_leafOf {token : Token} {id : NodeId} {e : Expr} (h : leafOf token id = .ok e) :
    e.drawn = [id] := by
  obtain ⟨leaf, -, -, rfl⟩ := leafOf_eq_ok_iff.mp h
  cases leaf <;> rfl

theorem yields_primary : Yields Expr.drawn primary := by
  intro p
  refine .advance_bind fun token p₁ h₁ => .freshId_bind fun p₂ _ => ?_
  cases hleaf : leafOf token p₁.nextId with
  | error error => exact .throw error
  | ok e =>
    refine .pure ⟨List.cons_ne_nil _ _, ?_⟩
    rw [drawn_of_leafOf hleaf, h₁.nextId]
    rfl

theorem yields_grouping (hinner : ∀ power, Yields Expr.drawn (inner power)) :
    Yields Expr.drawn (grouping inner) := by
  intro p
  refine .expect_bind fun opening p₁ h₁ => .bind (hinner .lowest p₁) fun e p₂ ts n _ he => ?_
  refine .expect_bind fun closing p₃ _ => .pure ⟨List.cons_ne_nil _ _, ?_⟩
  rw [he.2, h₁.nextId]
  rfl

theorem yields_operand (hinner : ∀ power, Yields Expr.drawn (inner power)) :
    Yields Expr.drawn (operand inner) := by
  intro p
  refine .get_bind ?_
  match p.currentKind?.bind p.rules.operand with
  | some .primary => exact yields_primary p
  | some .grouping => exact yields_grouping hinner p
  | none => exact .fail _

/-- An operator gives the nodes of its left side, and those that it draws. -/
theorem ends_binary (hinner : ∀ power, Yields Expr.drawn (inner power)) (left : Expr)
    (power : Power) (p : Parser) :
    Ends (binary inner left power) p fun e ts n =>
      ts ≠ [] ∧ e.drawn = left.drawn ++ List.range' p.nextId n := by
  refine .advance_bind fun token p₁ h₁ => ?_
  cases Operator.ofKind? token.kind with
  | none => exact .throw _
  | some operator =>
    refine .bind (hinner power p₁) fun right p₂ ts n h₂ hright => ?_
    refine .freshId_bind fun p₃ _ => .pure ⟨List.cons_ne_nil _ _, ?_⟩
    have hid : p₁.nextId = p.nextId := h₁.nextId
    rw [Expr.drawn, hright.2, h₂.nextId, hid, List.append_assoc, ← List.range'_1_concat]

theorem ends_climb (hinner : ∀ power, Yields Expr.drawn (inner power)) (power : Power)
    (rounds : List Token) (left : Expr) (p : Parser) :
    Ends (climb inner power rounds left) p fun e _ n =>
      e.drawn = left.drawn ++ List.range' p.nextId n := by
  induction rounds generalizing left p with
  | nil => exact .pure (List.append_nil _).symm
  | cons _ rounds ih =>
    refine .get_bind ?_
    cases p.currentKind? with
    | none => exact .pure (List.append_nil _).symm
    | some kind =>
      dsimp only
      split
      · exact .pure (List.append_nil _).symm
      · split
        · refine .bind (ends_binary hinner left _ p) fun joined q ts n hm hjoined => ?_
          refine (ih joined q).imp fun e us m he => ?_
          rw [he, hjoined.2, hm.nextId, List.append_assoc, List.range'_append_1]
        · exact .fail _

theorem yields_level (hinner : ∀ power, Yields Expr.drawn (inner power)) (power : Power) :
    Yields Expr.drawn (level inner power) := by
  intro p
  refine .bind (yields_operand hinner p) fun left q ts n hm hleft => .get_bind ?_
  refine (ends_climb hinner power q.rest left q).imp fun e us m he => ⟨?_, ?_⟩
  · exact List.append_ne_nil_of_left_ne_nil hleft.1 us
  · rw [he, hleft.2, hm.nextId, List.range'_append_1]

theorem yields_expr (room : Nat) (power : Power) : Yields Expr.drawn (expr room power) := by
  -- On the room; without any, the level itself is refused.
  induction room generalizing power with
  | zero => exact fun p => .fail _
  | succ room ih =>
    intro p
    exact .enter_bind (yields_level ih power { p with depth := p.depth + 1 })

theorem yields_expression (power : Power) : Yields Expr.drawn (expression power) :=
  fun p => yields_expr p.room power p

end

/-! ### Statements -/

section

variable {expression : Parse Expr} {block : Parse (List Stmt)}

/-- The nodes of a block are those that it draws.  It may take no token. -/
def YieldsBlock (block : Parse (List Stmt)) : Prop :=
  ∀ p, Ends block p fun body _ n => blockDrawn body = List.range' p.nextId n

/-- A value and what closes its statement draw the identities of the value and
    one more. -/
theorem ends_value (hexpr : Yields Expr.drawn expression) (start : Position)
    (finish : Expr → Tag → Stmt) (before : List NodeId)
    (hfinish : ∀ value tag, (finish value tag).drawn = before ++ (value.drawn ++ [tag.id]))
    (p : Parser) :
    Ends
      (do let value ← expression
          let _ ← expect .semicolon
          let tag ← closeTag start
          return finish value tag) p
      fun s _ n => s.drawn = before ++ List.range' p.nextId n := by
  refine .bind (hexpr p) fun value p₁ ts n h₁ hvalue => ?_
  refine .expect_bind fun _ p₂ h₂ => .closeTag_bind fun tag p₃ htag _ => .pure ?_
  have hid : tag.id = p.nextId + n := by
    rw [htag, h₂.nextId, h₁.nextId]
    rfl
  rw [hfinish, hvalue.2, hid, ← List.range'_1_concat]

/-- A target, and then a value. -/
theorem ends_targeted (hexpr : Yields Expr.drawn expression) (name : Token) (start : Position)
    {finish : Ident → Expr → Tag → Stmt}
    (hfinish : ∀ target value tag,
      (finish target value tag).drawn = target.tag.id :: (value.drawn ++ [tag.id]))
    (p : Parser) :
    Ends
      (do let target ← identOf name
          let value ← expression
          let _ ← expect .semicolon
          let tag ← closeTag start
          return finish target value tag) p
      fun s _ n => s.drawn = List.range' p.nextId n := by
  refine .identOf_bind fun target q htarget h => ?_
  have hvalue := ends_value hexpr start (finish target) [target.tag.id] (hfinish target) q
  refine hvalue.imp fun s ts n hs => ?_
  rw [hs, htarget, h.nextId, Nat.add_comm 1 n, List.range'_succ]
  rfl

theorem yields_declaration (hexpr : Yields Expr.drawn expression) :
    Yields Stmt.drawn (declaration expression) := by
  intro p
  refine .expect_bind fun first p₁ h₁ => .expect_bind fun name p₂ h₂ => ?_
  refine .expect_bind fun _ p₃ h₃ => .expect_bind fun type p₄ h₄ => ?_
  cases Ty.ofKeyword? type.lexeme with
  | none => exact .throw _
  | some ty =>
    refine .expect_bind fun _ p₅ h₅ => ?_
    refine (ends_targeted hexpr name _ (fun _ _ _ => rfl) p₅).imp fun s ts n hs => ?_
    refine ⟨List.cons_ne_nil _ _, ?_⟩
    rw [hs, h₅.nextId, h₄.nextId, h₃.nextId, h₂.nextId, h₁.nextId]
    rfl

theorem yields_assignment (hexpr : Yields Expr.drawn expression) :
    Yields Stmt.drawn (assignment expression) := by
  intro p
  refine .expect_bind fun name p₁ h₁ => .expect_bind fun _ p₂ h₂ => ?_
  refine (ends_targeted hexpr name _ (fun _ _ _ => rfl) p₂).imp fun s ts n hs => ?_
  refine ⟨List.cons_ne_nil _ _, ?_⟩
  rw [hs, h₂.nextId, h₁.nextId]
  rfl

theorem yields_print (hexpr : Yields Expr.drawn expression) :
    Yields Stmt.drawn (print expression) := by
  intro p
  refine .expect_bind fun first p₁ h₁ => ?_
  have hvalue := ends_value hexpr first.span.start .print [] (fun _ _ => rfl) p₁
  refine hvalue.imp fun s ts n hs => ⟨List.cons_ne_nil _ _, ?_⟩
  rw [hs, h₁.nextId]
  rfl

theorem yields_whileDo (hexpr : Yields Expr.drawn expression) (hblock : YieldsBlock block) :
    Yields Stmt.drawn (whileDo expression block) := by
  intro p
  refine .expect_bind fun first p₁ h₁ => .bind (hexpr p₁) fun condition p₂ _ m h₂ hcond => ?_
  refine .expect_bind fun _ p₃ h₃ => .bind (hblock p₃) fun body p₄ _ n h₄ hbody => ?_
  refine .expect_bind fun _ p₅ h₅ => .closeTag_bind fun tag p₆ htag _ => ?_
  refine .pure ⟨List.cons_ne_nil _ _, ?_⟩
  have hid₁ : p₁.nextId = p.nextId := h₁.nextId
  have hid₃ : p₃.nextId = p.nextId + m := by rw [h₃.nextId, h₂.nextId, hid₁]; rfl
  have hid₅ : p₅.nextId = p.nextId + (m + n) := by
    rw [h₅.nextId, h₄.nextId, hid₃, Nat.add_zero, Nat.add_assoc]
  rw [Stmt.drawn, hcond.2, hbody, htag, hid₁, hid₃, hid₅, List.range'_append_1,
    ← List.range'_1_concat, Nat.add_assoc]

theorem yields_ifThen (hexpr : Yields Expr.drawn expression) (hblock : YieldsBlock block) :
    Yields Stmt.drawn (ifThen expression block) := by
  intro p
  refine .expect_bind fun first p₁ h₁ => .bind (hexpr p₁) fun condition p₂ _ m h₂ hcond => ?_
  refine .expect_bind fun _ p₃ h₃ => .bind (hblock p₃) fun body p₄ _ n h₄ hbody => .get_bind ?_
  have hid₁ : p₁.nextId = p.nextId := h₁.nextId
  have hid₃ : p₃.nextId = p.nextId + m := by rw [h₃.nextId, h₂.nextId, hid₁]; rfl
  have hid₄ : p₄.nextId = p.nextId + (m + n) := by rw [h₄.nextId, hid₃, Nat.add_assoc]
  split
  · refine .expect_bind fun second p₅ h₅ => .bind (hblock p₅) fun otherwise p₆ _ k h₆ helse => ?_
    refine .expect_bind fun _ p₇ h₇ => .closeTag_bind fun elseTag p₈ helseTag h₈ => ?_
    refine .closeTag_bind fun tag p₉ htag _ => .pure ⟨List.cons_ne_nil _ _, ?_⟩
    have hid₅ : p₅.nextId = p.nextId + (m + n) := by rw [h₅.nextId, hid₄, Nat.add_zero]
    have hid₇ : p₇.nextId = p.nextId + (m + n + k) := by
      rw [h₇.nextId, h₆.nextId, hid₅, Nat.add_zero, Nat.add_assoc]
    have hid₈ : p₈.nextId = p.nextId + (m + n + k + 1) := by rw [h₈.nextId, hid₇, Nat.add_assoc]
    rw [Stmt.drawn, hcond.2, hbody, helse, helseTag, htag, hid₁, hid₃, hid₅, hid₇, hid₈,
      List.range'_append_1, List.range'_append_1]
    simp only [Nat.add_zero]
    rw [← Nat.add_assoc n, ← Nat.add_assoc m, ← Nat.add_assoc m, ← Nat.add_assoc (m + n + k),
      List.range'_1_concat, List.range'_1_concat, List.append_assoc]
    rfl
  · refine .expect_bind fun _ p₅ h₅ => .closeTag_bind fun tag p₆ htag _ => ?_
    refine .pure ⟨List.cons_ne_nil _ _, ?_⟩
    have hid₅ : p₅.nextId = p.nextId + (m + n) := by rw [h₅.nextId, hid₄, Nat.add_zero]
    rw [Stmt.drawn, hcond.2, hbody, htag, hid₁, hid₃, hid₅, List.range'_append_1,
      ← List.range'_1_concat, Nat.add_assoc]

/-- A statement that is read takes one token at least, whichever rule is asked
    for. -/
theorem yields_statement (hexpr : Yields Expr.drawn expression) (hblock : YieldsBlock block)
    (rule : StatementRule) : Yields Stmt.drawn (statement expression block rule) := by
  cases rule with
  | declaration => exact yields_declaration hexpr
  | assignment => exact yields_assignment hexpr
  | whileDo => exact yields_whileDo hexpr hblock
  | ifThen => exact yields_ifThen hexpr hblock
  | print => exact yields_print hexpr
  | unsupported => exact fun p => .advance_bind fun token q _ => .throw _

end

/-! ### Blocks -/

theorem blockDrawn_append (ss ss' : List Stmt) :
    blockDrawn (ss ++ ss') = blockDrawn ss ++ blockDrawn ss' := by
  induction ss with
  | nil => rfl
  | cons s ss ih => rw [List.cons_append, blockDrawn, blockDrawn, ih, List.append_assoc]

theorem ends_statements {read : StatementRule → Parse Stmt}
    (hread : ∀ rule, Yields Stmt.drawn (read rule)) (rounds : List Token) (before : List Stmt)
    (p : Parser) :
    Ends (statements read rounds before) p fun body _ n =>
      blockDrawn body = blockDrawn before.reverse ++ List.range' p.nextId n := by
  induction rounds generalizing before p with
  | nil => exact .pure (List.append_nil _).symm
  | cons _ rounds ih =>
    refine .get_bind ?_
    cases p.currentKind? with
    | none => exact .pure (List.append_nil _).symm
    | some kind =>
      dsimp only
      cases p.rules.statement kind with
      | some rule =>
        refine .bind (hread rule p) fun s q ts n hm hs => ?_
        refine (ih (s :: before) q).imp fun body us m hbody => ?_
        have hsingle : blockDrawn [s] = List.range' p.nextId n := by
          rw [blockDrawn, blockDrawn, List.append_nil, hs.2]
        rw [hbody, List.reverse_cons, blockDrawn_append, hsingle, hm.nextId, List.append_assoc,
          List.range'_append_1]
      | none =>
        dsimp only
        split
        · exact .pure (List.append_nil _).symm
        · exact .fail _

theorem yieldsBlock_blockWithin (room : Nat) : YieldsBlock (blockWithin room) := by
  induction room with
  | zero => exact fun p => .fail _
  | succ room ih =>
    intro p
    rw [blockWithin_succ]
    refine .enter_bind (.get_bind ?_)
    exact ends_statements (yields_statement (yields_expr room .lowest) ih) _ [] _

theorem yieldsBlock_block : YieldsBlock block := fun p => yieldsBlock_blockWithin p.room p

theorem yields_statementBy (rule : StatementRule) : Yields Stmt.drawn (statementBy rule) :=
  yields_statement (yields_expression .lowest) yieldsBlock_block rule

end Parser

end BlockLang
