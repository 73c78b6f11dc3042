import BlockLang.Compile
import BlockLang.Graph
import BlockLang.Proofs.Program.Depth
import BlockLang.Proofs.Typing.Recursion

/-! # Call stacks — what works on a program needs little room

  Resolving, checking and drawing a program call themselves for the statements
  of a block, and for an else branch, which is a part of its `if`; checking
  calls itself for right operands too.  Here the three are written once more
  for a machine whose call stack is bounded: every call takes a frame, and
  there is no result where none is left.  Loops take no frames: over the
  statements of a block, and down the left side of an expression.

  With two frames for each level of the parser the bounded machine gives the
  same results as an unbounded one, for every program that is accepted. -/

namespace BlockLang

open BlockLang.Graph (Drawing)

/-! ### Bounded call stacks -/

/-- A computation that may fail, on a call stack with room for some frames.
    There is no result if it needs more of them. -/
abbrev Stacked (α : Type) : Type := ReaderT Nat (ExceptT Error Option) α

namespace Stacked

variable {α β : Type}

/-- A computation without calls. -/
def plain (x : Except Error α) : Stacked α := fun _ => some x

theorem plain_pure (a : α) : plain (pure a) = pure a := rfl

theorem plain_bind (x : Except Error α) (f : α → Except Error β) :
    plain (x >>= f) = plain x >>= fun a => plain (f a) := by
  cases x <;> rfl

/-- A call: it takes one frame. -/
def call (x : Stacked α) : Stacked α
  | 0 => none
  | frames + 1 => x frames

/-- The frames suffice, and the result is the given one. -/
def Gives (x : Stacked α) (frames : Nat) (result : Except Error α) : Prop :=
  x frames = some result

theorem gives_plain (x : Except Error α) (frames : Nat) : (plain x).Gives frames x := rfl

theorem gives_pure (a : α) (frames : Nat) : (pure a : Stacked α).Gives frames (.ok a) := rfl

theorem Gives.call {x : Stacked α} {frames : Nat} {result : Except Error α}
    (h : x.Gives frames result) : (Stacked.call x).Gives (frames + 1) result := h

/-- A step whose frames suffice is as good as one without calls. -/
theorem Gives.bind_eq {x : Stacked α} {frames : Nat} {result : Except Error α}
    (hx : x.Gives frames result) (f : α → Stacked β) :
    (x >>= f) frames = (plain result >>= f) frames := by
  unfold Gives at hx
  show (x frames).bind _ = _
  rw [hx]
  rfl

/-- Two steps in a row use the same frames. -/
theorem Gives.bind {x : Stacked α} {frames : Nat} {result : Except Error α}
    {f : α → Stacked β} {g : α → Except Error β} (hx : x.Gives frames result)
    (hf : ∀ a, (f a).Gives frames (g a)) : (x >>= f).Gives frames (result >>= g) := by
  unfold Gives
  rw [hx.bind_eq]
  cases result with
  | error e => rfl
  | ok a => exact hf a

/-- Behind a step that has no error it is enough to go on with its result. -/
theorem Gives.bind_ok {x : Stacked α} {frames : Nat} {a : α} {f : α → Stacked β}
    {result : Except Error β} (hx : x.Gives frames (.ok a)) (hf : (f a).Gives frames result) :
    (x >>= f).Gives frames result := by
  unfold Gives
  rw [hx.bind_eq]
  exact hf

end Stacked

open Stacked

/-- Two frames for each level that is left are enough for a call. -/
theorem KeepsTo.exists_frames {limit level frames : Nat} {s : Stmt} {ss : List Stmt}
    (h : KeepsTo limit level (s :: ss)) (hframes : 2 * limit + 2 ≤ frames + 2 * level) :
    ∃ more, frames = more + 1 + 1 ∧ s.operand.depth ≤ more + 1 := by
  have hdepth := h.operand
  exact ⟨frames - 2, by omega, by omega⟩

/-! ### Resolving -/

namespace SymbolTable

mutual

/-- Resolves a statement. -/
def stackedStmt (table : SymbolTable) : Stmt → Stacked SymbolTable
  | .declaration target ty value tag => call <| plain <|
      table.resolveStmt (.declaration target ty value tag)
  | .assignment target value tag => call <| plain <|
      table.resolveStmt (.assignment target value tag)
  | .print value tag => call <| plain <| table.resolveStmt (.print value tag)
  | .whileDo condition body tag | .ifThen condition body tag => call do
      let table ← stackedBlock ((table.stampExpr table.current condition).openBlock tag.id) body
      return table.closeScope
  | .ifThenElse condition body otherwise elseTag tag => call do
      let table ← stackedBlock ((table.stampExpr table.current condition).openBlock tag.id) body
      let table ← call (stackedBlock (table.openBlock elseTag.id) otherwise)
      return table.closeScope.closeScope

/-- Resolves the statements of a block, each by a call. -/
def stackedBlock (table : SymbolTable) : List Stmt → Stacked SymbolTable
  | [] => return table
  | s :: ss => do
      let table ← stackedStmt table s
      stackedBlock table ss

end

end SymbolTable

/-- With two frames for each level that is left, resolving a block gives its
    result. -/
theorem gives_stackedBlock {limit level frames : Nat} {table : SymbolTable} (body : List Stmt)
    (hkeeps : KeepsTo limit level body) (hframes : 2 * limit + 2 ≤ frames + 2 * level) :
    (table.stackedBlock body).Gives frames (table.resolveBlock body) := by
  induction body using blockInduction generalizing table level frames with
  | nil => exact gives_pure table frames
  | declaration target ty value tag ss ih | assignment target value tag ss ih
  | print value tag ss ih =>
    refine Gives.bind ?_ fun table => ih hkeeps.tail hframes
    obtain ⟨more, rfl, -⟩ := hkeeps.exists_frames hframes
    exact (gives_plain _ _).call
  | whileDo condition body tag ss ihb ih =>
    refine Gives.bind ?_ fun table => ih hkeeps.tail hframes
    obtain ⟨more, rfl, -⟩ := hkeeps.exists_frames hframes
    have hbody {table : SymbolTable} : (table.stackedBlock body).Gives (more + 1)
        (table.resolveBlock body) := ihb hkeeps.whileDo (by omega)
    exact Gives.call (hbody.bind fun table => gives_pure _ _)
  | ifThen condition body tag ss ihb ih =>
    refine Gives.bind ?_ fun table => ih hkeeps.tail hframes
    obtain ⟨more, rfl, -⟩ := hkeeps.exists_frames hframes
    have hbody {table : SymbolTable} : (table.stackedBlock body).Gives (more + 1)
        (table.resolveBlock body) := ihb hkeeps.ifThen (by omega)
    exact Gives.call (hbody.bind fun table => gives_pure _ _)
  | ifThenElse condition body otherwise elseTag tag ss ihb iho ih =>
    refine Gives.bind ?_ fun table => ih hkeeps.tail hframes
    obtain ⟨more, rfl, -⟩ := hkeeps.exists_frames hframes
    have hbody {table : SymbolTable} : (table.stackedBlock body).Gives (more + 1)
        (table.resolveBlock body) := ihb hkeeps.ifThenElse.1 (by omega)
    -- The branch has a frame of its own before its statements have theirs.
    have hotherwise {table : SymbolTable} : (table.stackedBlock otherwise).Gives more
        (table.resolveBlock otherwise) := iho hkeeps.ifThenElse.2 (by omega)
    refine Gives.call (hbody.bind fun table => ?_)
    exact hotherwise.call.bind fun table => gives_pure _ _

/-! ### Checking -/

mutual

/-- Types an expression and then the operations around it. -/
def stackedDown (symbols : SymbolTable) (types : TypeTable) (around : List Operation) :
    Expr → Stacked (Ty × TypeTable)
  | .binary left operator right tag =>
      stackedDown symbols types (⟨operator, right, tag⟩ :: around) left
  | .identifier ident => do
      let ty ← plain (symbols.typeOf ident)
      stackedUp symbols (types.insert ident.tag.id ty) ty around
  | .literal value tag => stackedUp symbols (types.insert tag.id value.ty) value.ty around
termination_by e => e.weight + around.foldr (·.weight + ·) 0
decreasing_by all_goals simp [Expr.weight, Operation.weight]; try omega

/-- Types the operations around a left operand, each right operand by a call. -/
def stackedUp (symbols : SymbolTable) (types : TypeTable) (left : Ty) :
    List Operation → Stacked (Ty × TypeTable)
  | [] => return (left, types)
  | o :: around => do
      let (right, types) ← call (stackedDown symbols types [] o.right)
      let ty ← plain (o.type o.tag.span.start left right)
      stackedUp symbols (types.insert o.tag.id ty) ty around
termination_by around => around.foldr (·.weight + ·) 0
decreasing_by all_goals simp [Operation.weight]; try omega

end

/-- Types an expression by a call. -/
def stackedExpr (symbols : SymbolTable) (types : TypeTable) (e : Expr) :
    Stacked (Ty × TypeTable) :=
  call (stackedDown symbols types [] e)

mutual

/-- Checks a statement. -/
def stackedCheckStmt (symbols : SymbolTable) (types : TypeTable) : Stmt → Stacked TypeTable
  | .declaration _ declared value _ => call do
      let (received, types) ← stackedExpr symbols types value
      if received = declared then return types
      else throw ⟨.declarationMismatch declared received, value.span.start⟩
  | .assignment target value _ => call do
      let declared ← plain (symbols.typeOf target)
      let (received, types) ← stackedExpr symbols types value
      if received = declared then return types
      else throw ⟨.assignmentMismatch declared received, value.span.start⟩
  | .print value _ => call do
      let (_, types) ← stackedExpr symbols types value
      return types
  | .whileDo condition body _ | .ifThen condition body _ => call do
      let (_, types) ← stackedExpr symbols types condition
      stackedCheckBlock symbols types body
  | .ifThenElse condition body otherwise _ _ => call do
      let (_, types) ← stackedExpr symbols types condition
      let types ← stackedCheckBlock symbols types body
      call (stackedCheckBlock symbols types otherwise)

/-- Checks the statements of a block, each by a call. -/
def stackedCheckBlock (symbols : SymbolTable) (types : TypeTable) :
    List Stmt → Stacked TypeTable
  | [] => return types
  | s :: ss => do
      let types ← stackedCheckStmt symbols types s
      stackedCheckBlock symbols types ss

end

/-- Where no operations are around, typing downwards ends with the expression. -/
theorem gives_plain_stackedUp (symbols : SymbolTable) (x : Except Error (Ty × TypeTable))
    (frames : Nat) :
    (plain x >>= fun (ty, types) => stackedUp symbols types ty []).Gives frames x := by
  cases x with
  | error e => rfl
  | ok typed =>
    show (stackedUp symbols typed.2 typed.1 []).Gives frames _
    rw [stackedUp]
    rfl

/-- Typing an expression and the operations around it takes a frame less than
    the expression is deep: only its right operands are typed by calls. -/
theorem stackedDown_eq (symbols : SymbolTable) (types : TypeTable) (around : List Operation)
    (e : Expr) {frames : Nat} (hdepth : e.depth ≤ frames + 1) :
    stackedDown symbols types around e frames =
      (plain (inferExpr symbols types e) >>= fun (ty, types) =>
        stackedUp symbols types ty around) frames := by
  induction e generalizing types around frames with
  | binary left operator right tag ihl ihr =>
    rw [Expr.depth] at hdepth
    -- The operation joins those that wait around the left side.
    rw [stackedDown, ihl _ _ (by omega), inferExpr]
    cases inferExpr symbols types left with
    | error e => rfl
    | ok typed =>
      obtain ⟨leftType, types₁⟩ := typed
      show stackedUp symbols types₁ leftType (⟨operator, right, tag⟩ :: around) frames = _
      rw [stackedUp]
      -- The right side is typed by a call.
      obtain ⟨more, rfl⟩ : ∃ more, frames = more + 1 := by
        have hpos := right.depth_pos
        exact ⟨frames - 1, by omega⟩
      have hright : (call (stackedDown symbols types₁ [] right)).Gives (more + 1)
          (inferExpr symbols types₁ right) := by
        refine Gives.call ?_
        unfold Gives
        rw [ihr types₁ [] (by omega)]
        exact gives_plain_stackedUp symbols _ more
      rw [hright.bind_eq]
      show _ = (plain (inferExpr symbols types₁ right >>= fun (rightType, types) =>
        Operation.type ⟨operator, right, tag⟩ tag.span.start leftType rightType >>= fun ty =>
          pure (ty, types.insert tag.id ty)) >>= _) _
      simp only [plain_bind, plain_pure, bind_assoc, pure_bind]
  | identifier ident =>
    rw [stackedDown, inferExpr]
    cases symbols.typeOf ident <;> rfl
  | literal value tag =>
    rw [stackedDown, inferExpr]
    rfl

/-- The frames of its depth suffice to type an expression. -/
theorem gives_stackedExpr (symbols : SymbolTable) (types : TypeTable) {e : Expr} {frames : Nat}
    (hdepth : e.depth ≤ frames) :
    (stackedExpr symbols types e).Gives frames (typeExpr symbols types e) := by
  obtain ⟨more, rfl⟩ := Nat.exists_eq_add_one.mpr (Nat.lt_of_lt_of_le e.depth_pos hdepth)
  refine Gives.call ?_
  unfold Gives
  rw [stackedDown_eq symbols types [] e hdepth, typeExpr_eq_inferExpr]
  exact gives_plain_stackedUp symbols _ more

/-- A statement that types an expression first takes one frame more than that. -/
theorem gives_call_stackedExpr {symbols : SymbolTable} {types : TypeTable} {e : Expr}
    {frames : Nat} {f : Ty × TypeTable → Stacked TypeTable}
    {g : Ty × TypeTable → Except Error TypeTable} (hdepth : e.depth ≤ frames)
    (hf : ∀ typed, (f typed).Gives frames (g typed)) :
    (call (stackedExpr symbols types e >>= f)).Gives (frames + 1)
      (typeExpr symbols types e >>= g) :=
  ((gives_stackedExpr symbols types hdepth).bind hf).call

/-- With two frames for each level that is left, checking a block gives its
    result. -/
theorem gives_stackedCheckBlock {limit level frames : Nat} (symbols : SymbolTable)
    {types : TypeTable} (body : List Stmt) (hkeeps : KeepsTo limit level body)
    (hframes : 2 * limit + 2 ≤ frames + 2 * level) :
    (stackedCheckBlock symbols types body).Gives frames (checkBlock symbols types body) := by
  induction body using blockInduction generalizing types level frames with
  | nil => exact gives_pure types frames
  | declaration target ty value tag ss ih =>
    refine Gives.bind ?_ fun types => ih hkeeps.tail hframes
    obtain ⟨more, rfl, hdepth⟩ := hkeeps.exists_frames hframes
    refine gives_call_stackedExpr (e := value) hdepth fun typed => ?_
    show (if typed.1 = ty then _ else _ : Stacked TypeTable).Gives _ (if typed.1 = ty then _ else _)
    split <;> rfl
  | assignment target value tag ss ih =>
    refine Gives.bind ?_ fun types => ih hkeeps.tail hframes
    obtain ⟨more, rfl, hdepth⟩ := hkeeps.exists_frames hframes
    refine Gives.call ((gives_plain (symbols.typeOf target) _).bind fun declared => ?_)
    refine (gives_stackedExpr symbols types (e := value) hdepth).bind fun typed => ?_
    show (if typed.1 = declared then _ else _ : Stacked TypeTable).Gives _
      (if typed.1 = declared then _ else _)
    split <;> rfl
  | print value tag ss ih =>
    refine Gives.bind ?_ fun types => ih hkeeps.tail hframes
    obtain ⟨more, rfl, hdepth⟩ := hkeeps.exists_frames hframes
    exact gives_call_stackedExpr (e := value) hdepth fun typed => gives_pure _ _
  | whileDo condition body tag ss ihb ih =>
    refine Gives.bind ?_ fun types => ih hkeeps.tail hframes
    obtain ⟨more, rfl, hdepth⟩ := hkeeps.exists_frames hframes
    refine gives_call_stackedExpr (e := condition) hdepth fun typed => ?_
    exact ihb hkeeps.whileDo (by omega)
  | ifThen condition body tag ss ihb ih =>
    refine Gives.bind ?_ fun types => ih hkeeps.tail hframes
    obtain ⟨more, rfl, hdepth⟩ := hkeeps.exists_frames hframes
    refine gives_call_stackedExpr (e := condition) hdepth fun typed => ?_
    exact ihb hkeeps.ifThen (by omega)
  | ifThenElse condition body otherwise elseTag tag ss ihb iho ih =>
    refine Gives.bind ?_ fun types => ih hkeeps.tail hframes
    obtain ⟨more, rfl, hdepth⟩ := hkeeps.exists_frames hframes
    refine gives_call_stackedExpr (e := condition) hdepth fun typed => ?_
    refine Gives.bind (ihb hkeeps.ifThenElse.1 (by omega)) fun types => ?_
    exact Gives.call (iho hkeeps.ifThenElse.2 (by omega))

/-! ### Drawing -/

namespace Graph

mutual

/-- Draws a statement. -/
def stackedStmt (d : Drawing) : Stmt → Stacked Drawing
  | .declaration target ty value tag => call <| pure <|
      drawStmt d (.declaration target ty value tag)
  | .assignment target value tag => call <| pure <| drawStmt d (.assignment target value tag)
  | .print value tag => call <| pure <| drawStmt d (.print value tag)
  | .whileDo condition body _ => call do
      let (parent, d) := d.fresh "while"
      stackedParts (drawExpr ((d.put parent).nextArrow parent) condition) parent body
  | .ifThen condition body _ => call do
      let (parent, d) := d.fresh "if"
      stackedParts (drawExpr ((d.put parent).nextArrow parent) condition) parent body
  | .ifThenElse condition body otherwise _ _ => call do
      let (parent, d) := d.fresh "if"
      let d ← stackedParts (drawExpr ((d.put parent).nextArrow parent) condition) parent body
      call do
        let (branch, d) := (d.nextArrow parent).fresh "else"
        stackedParts (d.put branch) branch otherwise

/-- Draws the statements of a block, each by a call. -/
def stackedParts (d : Drawing) (parent : String) : List Stmt → Stacked Drawing
  | [] => return d
  | s :: ss => do
      let d ← stackedStmt (d.nextArrow parent) s
      stackedParts d parent ss

end

/-- Draws the statements of a program, each by a call. -/
def stackedTop (d : Drawing) : List Stmt → Stacked Drawing
  | [] => return d
  | s :: ss => do
      let d ← stackedStmt (d.firstArrow "program") s
      stackedTop (d.put "\n") ss

mutual

/-- With two frames for each level that is left, drawing a statement gives its
    result. -/
theorem gives_stackedStmt {limit level frames : Nat} (d : Drawing) (s : Stmt)
    (hkeeps : KeepsTo limit level [s]) (hframes : 2 * limit + 2 ≤ frames + 2 * level) :
    (stackedStmt d s).Gives frames (.ok (drawStmt d s)) := by
  obtain ⟨more, rfl, -⟩ := hkeeps.exists_frames hframes
  cases s with
  | declaration target ty value tag | assignment target value tag | print value tag =>
    exact (gives_pure _ _).call
  | whileDo condition body tag =>
    exact Gives.call (gives_stackedParts _ _ body hkeeps.whileDo (by omega))
  | ifThen condition body tag =>
    exact Gives.call (gives_stackedParts _ _ body hkeeps.ifThen (by omega))
  | ifThenElse condition body otherwise elseTag tag =>
    have hbody {d : Drawing} {parent : String} :
        (stackedParts d parent body).Gives (more + 1) (.ok (drawParts d parent body)) :=
      gives_stackedParts d parent body hkeeps.ifThenElse.1 (by omega)
    refine Gives.call (hbody.bind_ok ?_)
    exact Gives.call (gives_stackedParts _ _ otherwise hkeeps.ifThenElse.2 (by omega))

theorem gives_stackedParts {limit level frames : Nat} (d : Drawing) (parent : String)
    (body : List Stmt) (hkeeps : KeepsTo limit level body)
    (hframes : 2 * limit + 2 ≤ frames + 2 * level) :
    (stackedParts d parent body).Gives frames (.ok (drawParts d parent body)) := by
  cases body with
  | nil => exact gives_pure d frames
  | cons s ss =>
    exact (gives_stackedStmt _ s hkeeps.head hframes).bind_ok
      (gives_stackedParts _ parent ss hkeeps.tail hframes)

end

/-- The statements of a program are drawn one after the other. -/
theorem gives_stackedTop {limit frames : Nat} (d : Drawing) (body : List Stmt)
    (hkeeps : KeepsTo limit 1 body) (hframes : 2 * limit ≤ frames) :
    (stackedTop d body).Gives frames (.ok (drawTop d body)) := by
  induction body generalizing d with
  | nil => exact gives_pure d frames
  | cons s ss ih =>
    exact (gives_stackedStmt _ s hkeeps.head (by omega)).bind_ok (ih _ hkeeps.tail)

end Graph

/-! ### Programs -/

/-- In an accepted program no value or condition lies deeper than the limit of
    the parser, its level and its own depth taken together; that depth is one
    more than the greatest one of the right operands along the left side.  So
    two frames for each level of the limit suffice to resolve, check and draw
    the program. -/
theorem depth_of_parse {ts : List Token} {p : Program} (h : parse ts = .ok p) :
    (∀ level e, (level, e) ∈ p.leveled →
      e.depth = 1 + (e.rights.map Expr.depth).foldr max 0 ∧ level + e.depth ≤ 256) ∧
    (∀ table : SymbolTable, table.stackedBlock p.body (2 * 256) =
      some (table.resolveBlock p.body)) ∧
    (∀ symbols types, stackedCheckBlock symbols types p.body (2 * 256) =
      some (checkBlock symbols types p.body)) ∧
    ∀ d, Graph.stackedTop d p.body (2 * 256) = some (.ok (Graph.drawTop d p.body)) := by
  have hkeeps : KeepsTo 256 1 p.body := keepsTo_of_parseWithin h
  refine ⟨fun level e he => ⟨e.depth_eq, hkeeps (level, e) he⟩, fun table => ?_,
    fun symbols types => ?_, fun d => ?_⟩
  · exact gives_stackedBlock p.body hkeeps (Nat.le_refl _)
  · exact gives_stackedCheckBlock symbols p.body hkeeps (Nat.le_refl _)
  · exact Graph.gives_stackedTop d p.body hkeeps (Nat.le_refl _)

/-- Parentheses on the right make an expression deep, operators in a row do not. -/
theorem depth_of_parse_of_loop :
    ∃ ts p, tokenize "while 1 + 2 + 3 do print 1 - (2 - (3 - 4)); end" "main" = .ok ts ∧
      parse ts = .ok p ∧ p.leveled.map (fun le => (le.1, le.2.depth)) = [(1, 2), (2, 4)] ∧
      ∀ table : SymbolTable, table.stackedBlock p.body (2 * 256) =
        some (table.resolveBlock p.body) := by
  let source := "while 1 + 2 + 3 do print 1 - (2 - (3 - 4)); end"
  have hok : (readProgram source "main").isOk := by decide +kernel
  obtain ⟨p, hread⟩ := Result.exists_of_isOk hok
  obtain ⟨ts, hts, hp⟩ := Result.bind_eq_ok_iff.mp hread
  have hleveled : (readProgram source "main").toOption.map (fun p =>
      p.leveled.map fun le => (le.1, le.2.depth)) = some [(1, 2), (2, 4)] := by decide +kernel
  rw [hread] at hleveled
  exact ⟨ts, p, hts, hp, Option.some.inj hleveled, (depth_of_parse hp).2.1⟩

end BlockLang
