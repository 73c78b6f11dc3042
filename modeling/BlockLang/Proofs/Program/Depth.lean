import BlockLang.Proofs.Grammar.Acceptance
import BlockLang.Proofs.Program.Blocks

/-! # Depth — how deep the tree of a program is

  The parser counts levels while it reads tokens: blocks, expressions, right
  sides and parentheses open one each.  What works on the tree later does not
  see parentheses, but it goes down into blocks and into right operands.
  Left operands do not count, so a chain of operators of any length is flat.
  The levels of a derivation bound what is left of them in its tree. -/

namespace BlockLang

open Grammar

/-! ### Expressions -/

/-- The right operands along the left side of an expression, outermost first. -/
def Expr.rights : Expr → List Expr
  | .binary left _ right _ => right :: left.rights
  | _ => []

/-- How deep right operands stand in each other; a leaf has depth 1. -/
def Expr.depth : Expr → Nat
  | .binary left _ right _ => max left.depth (right.depth + 1)
  | _ => 1

theorem Expr.depth_pos (e : Expr) : 0 < e.depth := by
  cases e with
  | binary left operator right tag =>
    unfold depth
    omega
  | identifier ident => exact Nat.one_pos
  | literal value tag => exact Nat.one_pos

/-- The depth of an expression is one more than the greatest depth of the right
    operands along its left side. -/
theorem Expr.depth_eq (e : Expr) : e.depth = 1 + (e.rights.map depth).foldr max 0 := by
  induction e with
  | binary left operator right tag ihl ihr =>
    rw [depth, ihl, rights, List.map_cons, List.foldr_cons]
    omega
  | identifier ident => rfl
  | literal value tag => rfl

/-- The expression of a phrase is at most as deep as the phrase has levels, with
    the one that the expression itself opens. -/
theorem Grammar.Phrase.depth_expr_le {nt : Nonterminal} (d : Phrase nt) (first : NodeId) :
    (d.expr first).depth ≤ d.levels + 1 := by
  induction d generalizing first with
  | leaf l => cases l <;> exact Nat.le_refl 1
  | parens opening inner closing ih => exact Nat.le_succ_of_le (ih first)
  | ofFactor f ih => exact ih first
  | product left sign right ihl ihr | sum left sign right ihl ihr =>
    have hl := ihl first
    have hr := ihr (first + left.size)
    rw [expr, join, Expr.depth, levels]
    omega
  | ofTerm t ih => exact ih first

/-! ### Statements -/

mutual

/-- The values and conditions in a statement of the given level, each with the
    level of the statement that it belongs to.  The branches of an `if` have
    the same level. -/
def Stmt.leveled (level : Nat) : Stmt → List (Nat × Expr)
  | .declaration _ _ value _ | .assignment _ value _ | .print value _ => [(level, value)]
  | .whileDo condition body _ | .ifThen condition body _ =>
      (level, condition) :: blockLeveled (level + 1) body
  | .ifThenElse condition body otherwise _ _ =>
      (level, condition) :: (blockLeveled (level + 1) body ++ blockLeveled (level + 1) otherwise)

/-- The values and conditions in a block whose statements have the given level. -/
def blockLeveled (level : Nat) : List Stmt → List (Nat × Expr)
  | [] => []
  | s :: ss => s.leveled level ++ blockLeveled level ss

end

/-- The values and conditions of a program; its own statements have level 1. -/
def Program.leveled (p : Program) : List (Nat × Expr) := blockLeveled 1 p.body

/-- Does a block of statements of the given level keep to a limit: for every
    value or condition in it, the level of its statement together with its own
    depth? -/
def KeepsTo (limit level : Nat) (body : List Stmt) : Prop :=
  ∀ le ∈ blockLeveled level body, le.1 + le.2.depth ≤ limit

namespace KeepsTo

variable {limit level : Nat} {s : Stmt} {ss body otherwise : List Stmt} {condition : Expr}
  {tag elseTag : Tag}

theorem head (h : KeepsTo limit level (s :: ss)) : KeepsTo limit level [s] := by
  intro le hle
  rw [blockLeveled, blockLeveled, List.append_nil] at hle
  exact h le (List.mem_append_left _ hle)

theorem tail (h : KeepsTo limit level (s :: ss)) : KeepsTo limit level ss :=
  fun le hle => h le (List.mem_append_right _ hle)

/-- The first statement has a value or a condition. -/
theorem operand (h : KeepsTo limit level (s :: ss)) : level + s.operand.depth ≤ limit := by
  refine h (level, s.operand) (List.mem_append_left _ ?_)
  cases s <;> exact List.mem_cons_self

theorem whileDo (h : KeepsTo limit level (.whileDo condition body tag :: ss)) :
    KeepsTo limit (level + 1) body :=
  fun le hle => h le (List.mem_append_left _ (List.mem_cons_of_mem _ hle))

theorem ifThen (h : KeepsTo limit level (.ifThen condition body tag :: ss)) :
    KeepsTo limit (level + 1) body :=
  fun le hle => h le (List.mem_append_left _ (List.mem_cons_of_mem _ hle))

theorem ifThenElse
    (h : KeepsTo limit level (.ifThenElse condition body otherwise elseTag tag :: ss)) :
    KeepsTo limit (level + 1) body ∧ KeepsTo limit (level + 1) otherwise := by
  refine ⟨fun le hle => ?_, fun le hle => ?_⟩
  · exact h le (List.mem_append_left _ (List.mem_cons_of_mem _ (List.mem_append_left _ hle)))
  · exact h le (List.mem_append_left _ (List.mem_cons_of_mem _ (List.mem_append_right _ hle)))

end KeepsTo

mutual

/-- The levels of a derivation bound the depth of its tree. -/
theorem Grammar.Sentence.le_of_mem_leveled (d : Sentence) (first : NodeId) (level : Nat) :
    ∀ le ∈ (d.stmt first).leveled level, le.1 + le.2.depth ≤ level + d.levels := by
  intro le hle
  cases d with
  | declaration kwVar name colon type equals value semicolon
  | assignment name equals value semicolon | print kwPrint value semicolon =>
    cases List.mem_singleton.mp hle
    exact Nat.add_le_add_left (value.depth_expr_le _) level
  | whileDo kwWhile condition kwDo body kwEnd | ifThen kwIf condition kwDo body kwEnd =>
    rw [Sentence.levels]
    rcases List.mem_cons.mp hle with rfl | hle
    · have hcondition := condition.depth_expr_le first
      simp only
      omega
    · have hbody := le_of_mem_blockLeveled body _ (level + 1) le hle
      omega
  | ifThenElse kwIf condition kwDo body kwElse otherwise kwEnd =>
    rw [Sentence.levels]
    rcases List.mem_cons.mp hle with rfl | hle
    · have hcondition := condition.depth_expr_le first
      simp only
      omega
    · rcases List.mem_append.mp hle with hle | hle
      · have hbody := le_of_mem_blockLeveled body _ (level + 1) le hle
        omega
      · have hotherwise := le_of_mem_blockLeveled otherwise _ (level + 1) le hle
        omega

theorem Grammar.le_of_mem_blockLeveled (ds : List Sentence) (first : NodeId) (level : Nat) :
    ∀ le ∈ blockLeveled level (blockStmts first ds),
      le.1 + le.2.depth ≤ level + blockLevels ds := by
  intro le hle
  cases ds with
  | nil => cases hle
  | cons d ds =>
    rw [blockLevels]
    rcases List.mem_append.mp hle with hle | hle
    · have hd := d.le_of_mem_leveled first level le hle
      omega
    · have hds := le_of_mem_blockLeveled ds _ level le hle
      omega

end

/-- An accepted program keeps to the limit of the parser. -/
theorem keepsTo_of_parseWithin {limit : Nat} {ts : List Token} {p : Program}
    (h : parseWithin limit ts = .ok p) : KeepsTo limit 1 p.body := by
  obtain ⟨d, rfl, -, -, hlevels⟩ := parseWithin_eq_ok_iff.mp h
  intro le hle
  have hle := le_of_mem_blockLeveled d 1 1 le hle
  omega

end BlockLang
