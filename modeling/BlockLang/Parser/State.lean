import BlockLang.Error
import BlockLang.Parser.Rules
import BlockLang.Program.Expr
import BlockLang.Token.Basic

/-! # Parser state — reading tokens one by one

  A parser stands between the tokens it has read and the tokens it has not.
  It also counts the identities it has handed out and the nesting levels that
  are open: expressions and blocks may stand inside each other only up to a
  limit.  An action that fails leaves the parser as it was at the failure,
  with the tokens before it read and the levels around it open. -/

namespace BlockLang

/-- A parser. -/
structure Parser where
  /-- The tokens read so far, latest first. -/
  read : List Token
  /-- The tokens not read yet. -/
  rest : List Token
  /-- Number of open nesting levels. -/
  depth : Nat
  /-- The identity that the next node gets. -/
  nextId : NodeId
  rules : Rules
  /-- The greatest number of levels that may be open. -/
  limit : Nat

/-- An action that reads tokens and gives a result, or fails. -/
abbrev Parse (α : Type) : Type := EStateM Error Parser α

/-- How many expressions and blocks of the language may stand inside each
    other. -/
def maxNesting : Nat := 256

namespace Parser

/-! ### What a parser shows -/

/-- A parser before its first token. -/
def start (rules : Rules) (limit : Nat) (tokens : List Token) : Parser where
  read := []
  rest := tokens
  depth := 0
  nextId := 0
  rules := rules
  limit := limit

/-- All tokens, in order. -/
def tokens (p : Parser) : List Token := p.read.reverse ++ p.rest

/-- The token that is read next. -/
def current? (p : Parser) : Option Token := p.rest.head?

/-- The kind of the token that is read next. -/
def currentKind? (p : Parser) : Option Kind := p.current?.map Token.kind

/-- The end of the token read last, or the start of the first one if none
    has been read. -/
def reached (p : Parser) : Position :=
  match p.read, p.rest with
  | token :: _, _ => token.span.stop
  | [], token :: _ => token.span.start
  | [], [] => .null

/-- The start of the token that is read next, or the end of the last one. -/
def here (p : Parser) : Position :=
  match p.current? with
  | some token => token.span.start
  | none => p.reached

/-- The error of finding something else than `expected`. -/
def unexpected (p : Parser) (expected : String) : Error :=
  match p.current? with
  | some token => ⟨.unexpectedToken token.lexeme expected, p.here⟩
  | none => ⟨.unexpectedEnd expected, p.here⟩

/-- The error of opening one level too many. -/
def tooDeep (p : Parser) : Error := ⟨.nestingTooDeep p.limit, p.here⟩

/-- How many levels may still be opened. -/
def room (p : Parser) : Nat := p.limit - p.depth

/-! ### Actions -/

/-- Fails with an error that depends on the state. -/
def fail (error : Parser → Error) : Parse α := fun p => .error (error p) p

/-- Reads the next token. -/
def advance : Parse Token := fun p =>
  match p.rest with
  | token :: rest => .ok token { p with read := token :: p.read, rest := rest }
  | [] => .error (p.unexpected "a token") p

/-- Reads the next token, which must be of the given kind. -/
def expect (kind : Kind) : Parse Token := fun p =>
  if p.currentKind? = some kind then advance p else .error (p.unexpected kind.name) p

/-- Opens a nesting level. -/
def enter : Parse Unit := fun p =>
  if p.depth < p.limit then .ok () { p with depth := p.depth + 1 } else .error p.tooDeep p

/-- Closes a nesting level; where none is open nothing happens. -/
def leave : Parse Unit := fun p => .ok () { p with depth := p.depth - 1 }

/-- Draws the next identity. -/
def freshId : Parse NodeId := fun p => .ok p.nextId { p with nextId := p.nextId + 1 }

/-- The span from `start` to the end of the token read last. -/
def spanFrom (start : Position) : Parse Span := fun p => .ok ⟨start, p.reached⟩ p

/-- The tag of a node that starts at `start` and ends with the token read
    last. -/
def closeTag (start : Position) : Parse Tag := do
  let id ← freshId
  let span ← spanFrom start
  return ⟨id, span⟩

/-- The name that a token spells, with a tag of its own. -/
def identOf (token : Token) : Parse Ident := do
  let id ← freshId
  return ⟨token.lexeme, ⟨id, token.span⟩⟩

/-! ### What the actions change -/

theorem advance_eq_ok_iff {p q : Parser} {token : Token} :
    advance p = .ok token q ↔
      ∃ rest, p.rest = token :: rest ∧ q = { p with read := token :: p.read, rest := rest } := by
  unfold advance
  split
  · rename_i first rest hrest
    constructor
    · intro h
      cases h
      exact ⟨rest, hrest, rfl⟩
    · rintro ⟨rest', hrest', rfl⟩
      rw [hrest] at hrest'
      cases hrest'
      rfl
  · rename_i hrest
    constructor
    · intro h
      cases h
    · rintro ⟨rest, hrest', -⟩
      rw [hrest] at hrest'
      cases hrest'

/-- Reading a token moves it to the other side; no token is lost. -/
theorem tokens_of_advance {p q : Parser} {token : Token} (h : advance p = .ok token q) :
    q.tokens = p.tokens := by
  obtain ⟨rest, hrest, rfl⟩ := advance_eq_ok_iff.mp h
  simp only [tokens, hrest, List.reverse_cons, List.append_assoc, List.singleton_append]

/-- Expecting a kind is reading a token of that kind. -/
theorem expect_eq_ok_iff {p q : Parser} {kind : Kind} {token : Token} :
    expect kind p = .ok token q ↔ advance p = .ok token q ∧ token.kind = kind := by
  unfold expect
  split
  · rename_i hkind
    constructor
    · intro h
      obtain ⟨rest, hrest, -⟩ := advance_eq_ok_iff.mp h
      refine ⟨h, ?_⟩
      simpa [currentKind?, current?, hrest] using hkind
    · exact And.left
  · rename_i hkind
    constructor
    · intro h
      cases h
    · rintro ⟨h, rfl⟩
      obtain ⟨rest, hrest, -⟩ := advance_eq_ok_iff.mp h
      exact absurd (by simp [currentKind?, current?, hrest]) hkind

end Parser

end BlockLang
