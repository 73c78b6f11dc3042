import BlockLang.Parser.Statement

/-! # The parser without a limit — and a record of its levels

  This is the parser of the language where opening a level never fails.  Its
  readers are the parser's own, in a monad that keeps a record: for each level
  that is opened, the number of levels that are open then, and the token that
  comes next.  An action that fails has the record of what it did before.

  Without a limit the levels that are left do not bound the recursion.  The
  tokens ahead do: between two levels that are opened inside each other at
  least one token is read. -/

namespace BlockLang

/-- A level that is opened. -/
structure Opening where
  /-- Number of levels that are open then, this one included. -/
  level : Nat
  /-- The token that is read next; none if no token is left. -/
  current? : Option Token
deriving DecidableEq

/-- An action that reads tokens, gives a result or fails, and records the
    levels that it opens. -/
def Watch (α : Type) : Type := Parser → EStateM.Result Error Parser α × List Opening

namespace Watch

variable {α β : Type}

/-- What is done behind an action, with the record of both. -/
def andThen (f : α → Watch β) :
    EStateM.Result Error Parser α × List Opening → EStateM.Result Error Parser β × List Opening
  | (.ok a q, log) => ((f a q).1, log ++ (f a q).2)
  | (.error error q, log) => (.error error q, log)

instance : Monad Watch where
  pure a := fun p => (.ok a p, [])
  bind x f := fun p => andThen f (x p)

/-- An action of the parser that opens no level. -/
def plain (x : Parse α) : Watch α := fun p => (x p, [])

instance : MonadLift Parse Watch := ⟨plain⟩

end Watch

namespace Parser.Unlimited

/-- Opens a level.  This never fails. -/
def enter : Watch Unit := fun p =>
  (.ok () { p with depth := p.depth + 1 }, [⟨p.depth + 1, p.current?⟩])

/-- An action inside a level of its own, without a limit. -/
theorem enter_bind {α : Type} (y : Watch α) (p : Parser) :
    (do enter; let a ← y; leave; return a : Watch α) p =
      (match (y { p with depth := p.depth + 1 }).1 with
        | .ok a q => .ok a { q with depth := q.depth - 1 }
        | .error error q => .error error q,
       ⟨p.depth + 1, p.current?⟩ :: (y { p with depth := p.depth + 1 }).2) := by
  simp only [Bind.bind, enter, Watch.andThen]
  obtain ⟨result, log⟩ := y { p with depth := p.depth + 1 }
  cases result with
  | ok a q =>
    show (_, [_] ++ (log ++ [])) = _
    rw [List.append_nil]
    rfl
  | error error q => rfl

/-! ### Expressions and blocks -/

/-- Reads an expression.  There are at most the tokens `ahead`; where there are
    none, no operand comes. -/
def expr : (ahead : List Token) → Power → Watch Expr
  | [], _ => do
      enter
      let e ← (fail (·.unexpected "an expression") : Parse Expr)
      leave
      return e
  | _ :: ahead, power => do
      enter
      let e ← level (expr ahead) power
      leave
      return e

/-- Reads a block.  There are at most the tokens `ahead`; where there are none,
    the block is empty. -/
def block : (ahead : List Token) → Watch (List Stmt)
  | [] => do
      enter
      let ss ← pure []
      leave
      return ss
  | _ :: ahead => do
      enter
      let ss ← body (statement (expr ahead .lowest) (block ahead))
      leave
      return ss

/-- Reads a program. -/
def program (ahead : List Token) : Watch Program := programOf (block ahead)

end Parser.Unlimited

/-- What the parser without a limit makes of the tokens, with its record. -/
def unlimitedRun (tokens : List Token) : EStateM.Result Error Parser Program × List Opening :=
  Parser.Unlimited.program tokens (.start .standard maxNesting tokens)

/-- The program that the tokens spell, however many levels are open. -/
def parseUnlimited (tokens : List Token) : Except Error Program :=
  match (unlimitedRun tokens).1 with
  | .ok program _ => .ok program
  | .error error _ => .error error

/-- The levels that are opened without a limit, in order. -/
def openings (tokens : List Token) : List Opening := (unlimitedRun tokens).2

end BlockLang
