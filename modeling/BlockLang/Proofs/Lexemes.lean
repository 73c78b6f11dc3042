import BlockLang.Compile
import BlockLang.Proofs.Grammar.Continuation
import BlockLang.Proofs.Grammar.Parts
import BlockLang.Proofs.Result
import BlockLang.Proofs.Token.Values

/-! # Lexemes — what a program says is what its tokens say

  The parser looks into the lexemes of literals and of type names.  Read from
  left to right, these tokens and the nodes that are made of them go in pairs,
  and the node of a pair has the value or the type that the lexeme spells.  The
  tokens of a source never make the parser refuse a lexeme, except for an
  integer that takes more than 63 bits. -/

namespace BlockLang

open Grammar

/-! ### Nodes and the tokens that they are read from -/

/-- The parser looks into the lexemes of the kind. -/
def Kind.isRead : Kind → Bool
  | .integer | .float | .boolean | .string | .typeName => true
  | _ => false

/-- The node has a value or a type that is spelled by a lexeme. -/
def Node.isRead : Node → Bool
  | .stmt (.declaration _ _ _ _) | .expr (.literal _ _) => true
  | _ => false

/-- The token spells the literal. -/
def Literal.ReadFrom (token : Token) : Literal → Prop
  | .int value => token.kind = .integer ∧ IsDigits token.lexeme.toList ∧
      value.toInt = decimal token.lexeme.toList
  | .float value => token.kind = .float ∧ readBinary64? token.lexeme = some value
  | .bool value => token.kind = .boolean ∧ token.lexeme = if value then "true" else "false"
  | .string lexeme => token.kind = .string ∧ token.lexeme = lexeme

/-- The token spells the literal of the node, which covers the token, or the
    type that the node declares. -/
def Node.ReadFrom (node : Node) (token : Token) : Prop :=
  match node with
  | .stmt (.declaration _ ty _ _) => token.kind = .typeName ∧ token.lexeme = ty.keyword
  | .expr (.literal value tag) => tag.span = token.span ∧ value.ReadFrom token
  | _ => False

/-- The nodes with such a value or type go in pairs with the tokens that are
    looked into, from left to right. -/
abbrev ReadInOrder (nodes : List Node) (tokens : List Token) : Prop :=
  List.Forall₂ Node.ReadFrom (nodes.filter Node.isRead) (tokens.filter (·.kind.isRead))

/-- The lexeme can be understood, and it is what a source can spell. -/
abbrev Token.Plain (token : Token) : Prop := token.Readable ∧ token.Legible

namespace ReadInOrder

variable {nodes nodes' : List Node} {tokens tokens' : List Token} {node : Node} {token : Token}

theorem append (h : ReadInOrder nodes tokens) (h' : ReadInOrder nodes' tokens') :
    ReadInOrder (nodes ++ nodes') (tokens ++ tokens') := by
  rw [ReadInOrder, List.filter_append, List.filter_append]
  exact List.rel_append h h'

/-- A token that is not looked into has no node. -/
theorem skip_token (htoken : token.kind.isRead = false) (h : ReadInOrder nodes tokens) :
    ReadInOrder nodes (token :: tokens) := by
  rw [ReadInOrder, List.filter_cons_of_neg (by rw [htoken]; decide)]
  exact h

theorem skip_tokenOf {kind : Kind} (token : TokenOf kind) (hkind : kind.isRead = false)
    (h : ReadInOrder nodes tokens) : ReadInOrder nodes (token.1 :: tokens) :=
  skip_token (by rw [token.2, hkind]) h

/-- The last token is not looked into. -/
theorem skip_last {kind : Kind} (token : TokenOf kind) (hkind : kind.isRead = false)
    (h : ReadInOrder nodes tokens) : ReadInOrder nodes (tokens ++ [token.1]) := by
  have hlast : ReadInOrder [] [token.1] := skip_tokenOf token hkind .nil
  simpa using h.append hlast

theorem skip_node (hnode : node.isRead = false) (h : ReadInOrder nodes tokens) :
    ReadInOrder (node :: nodes) tokens := by
  rw [ReadInOrder, List.filter_cons_of_neg (by rw [hnode]; decide)]
  exact h

theorem cons (hnode : node.isRead = true) (htoken : token.kind.isRead = true)
    (hread : node.ReadFrom token) (h : ReadInOrder nodes tokens) :
    ReadInOrder (node :: nodes) (token :: tokens) := by
  rw [ReadInOrder, List.filter_cons, List.filter_cons, if_pos hnode, if_pos htoken]
  exact .cons hread h

end ReadInOrder

/-! ### Expressions -/

namespace Grammar

theorem isRead_of_productOperator? {kind : Kind} {operator : Operator}
    (h : productOperator? kind = some operator) : kind.isRead = false := by
  cases kind with
  | star | slash | percent => rfl
  | _ => cases h

theorem isRead_of_sumOperator? {kind : Kind} {operator : Operator}
    (h : sumOperator? kind = some operator) : kind.isRead = false := by
  cases kind with
  | plus | dash | and | or | equals | notEquals | less => rfl
  | _ => cases h

/-- A literal is read from its token. -/
theorem Leaf.readInOrder (l : Leaf) (tag : Tag) (htag : tag.span = l.token.span)
    (hplain : l.token.Plain) : ReadInOrder (l.expr tag).nodes [l.token] := by
  obtain ⟨hreadable, hlegible⟩ := hplain
  cases l with
  | integer token =>
    obtain ⟨⟨kind, lexeme, span⟩, hkind⟩ := token
    cases hkind
    have hdigits : IsDigits lexeme.toList := hlegible
    obtain ⟨value, hvalue⟩ : ∃ value, readInt64? lexeme = some value :=
      Option.isSome_iff_exists.mp hreadable
    have hread : ((readInt64? lexeme).getD 0).toInt = decimal lexeme.toList := by
      rw [hvalue]
      exact hdigits.toInt_eq hvalue
    exact .cons rfl rfl ⟨htag, rfl, hdigits, hread⟩ .nil
  | float token =>
    obtain ⟨⟨kind, lexeme, span⟩, hkind⟩ := token
    cases hkind
    obtain ⟨value, hvalue⟩ : ∃ value, readBinary64? lexeme = some value :=
      Option.isSome_iff_exists.mp hreadable
    have hread : readBinary64? lexeme = some ((readBinary64? lexeme).getD ⟨0⟩) := by
      rw [hvalue]
      rfl
    exact .cons rfl rfl ⟨htag, rfl, hread⟩ .nil
  | boolean token =>
    obtain ⟨⟨kind, lexeme, span⟩, hkind⟩ := token
    cases hkind
    obtain rfl | rfl : lexeme = "true" ∨ lexeme = "false" := hlegible
    · exact .cons rfl rfl ⟨htag, rfl, rfl⟩ .nil
    · exact .cons rfl rfl ⟨htag, rfl, rfl⟩ .nil
  | string token =>
    have hkind : token.1.kind.isRead = true := by
      rw [token.2]
      rfl
    exact .cons rfl hkind ⟨htag, token.2, rfl⟩ .nil
  | identifier token => exact .skip_node rfl (.skip_tokenOf token rfl .nil)

/-- The literals of an expression are read from its tokens. -/
theorem Phrase.readInOrder {nt : Nonterminal} (d : Phrase nt) (first : NodeId)
    (hplain : ∀ token ∈ d.tokens, token.Plain) :
    ReadInOrder (d.expr first).nodes d.tokens := by
  induction d generalizing first with
  | leaf l => exact l.readInOrder _ rfl (hplain _ List.mem_cons_self)
  | parens opening inner closing ih =>
    rw [tokens, List.forall_mem_cons, List.forall_mem_append] at hplain
    exact .skip_tokenOf opening rfl (.skip_last closing rfl (ih first hplain.2.1))
  | ofFactor f ih => exact ih first hplain
  | ofTerm t ih => exact ih first hplain
  | product left sign right ihl ihr =>
    rw [tokens, List.forall_mem_append, List.forall_mem_cons] at hplain
    rw [expr, join, Expr.nodes_binary, tokens]
    have hsign := isRead_of_productOperator? sign.spells
    exact .skip_node rfl ((ihl first hplain.1).append (.skip_token hsign (ihr _ hplain.2.2)))
  | sum left sign right ihl ihr =>
    rw [tokens, List.forall_mem_append, List.forall_mem_cons] at hplain
    rw [expr, join, Expr.nodes_binary, tokens]
    have hsign := isRead_of_sumOperator? sign.spells
    exact .skip_node rfl ((ihl first hplain.1).append (.skip_token hsign (ihr _ hplain.2.2)))

/-! ### Statements -/

theorem lexeme_typeOf (type : TokenOf .typeName) (h : type.1.Readable) :
    type.1.lexeme = (typeOf type).keyword :=
  Ty.ofKeyword?_eq_some_iff.mp (Parser.ofKeyword?_of_readable type h)

mutual

/-- The literals and the types of a statement are read from its tokens. -/
theorem Sentence.readInOrder (d : Sentence) (first : NodeId)
    (hplain : ∀ token ∈ d.tokens, token.Plain) :
    ReadInOrder (d.stmt first).nodes d.tokens := by
  cases d with
  | declaration kwVar name colon type equals value semicolon =>
    simp only [Sentence.tokens, List.forall_mem_cons, List.forall_mem_append] at hplain
    obtain ⟨-, -, -, htype, -, hvalue, -⟩ := hplain
    rw [Sentence.stmt, Stmt.nodes_declaration, Sentence.tokens]
    have hrest : ReadInOrder (.target (identOf name.1 first) :: (value.expr (first + 1)).nodes)
        (equals.1 :: (value.tokens ++ [semicolon.1])) :=
      .skip_node rfl (.skip_tokenOf equals rfl
        (.skip_last semicolon rfl (value.readInOrder _ hvalue)))
    refine .skip_tokenOf kwVar rfl (.skip_tokenOf name rfl (.skip_tokenOf colon rfl ?_))
    exact .cons rfl (by rw [type.2]; rfl) ⟨type.2, lexeme_typeOf type htype.1⟩ hrest
  | assignment name equals value semicolon =>
    simp only [Sentence.tokens, List.forall_mem_cons, List.forall_mem_append] at hplain
    rw [Sentence.stmt, Stmt.nodes_assignment, Sentence.tokens]
    refine .skip_node rfl (.skip_node rfl (.skip_tokenOf name rfl (.skip_tokenOf equals rfl ?_)))
    exact .skip_last semicolon rfl (value.readInOrder _ hplain.2.2.1)
  | print kwPrint value semicolon =>
    simp only [Sentence.tokens, List.forall_mem_cons, List.forall_mem_append] at hplain
    rw [Sentence.stmt, Stmt.nodes_print, Sentence.tokens]
    refine .skip_node rfl (.skip_tokenOf kwPrint rfl ?_)
    exact .skip_last semicolon rfl (value.readInOrder _ hplain.2.1)
  | whileDo kw condition kwDo body kwEnd | ifThen kw condition kwDo body kwEnd =>
    simp only [Sentence.tokens, List.forall_mem_cons, List.forall_mem_append] at hplain
    obtain ⟨-, hcondition, -, hbody, -⟩ := hplain
    rw [Sentence.stmt, Sentence.tokens]
    simp only [Stmt.nodes_whileDo, Stmt.nodes_ifThen]
    refine .skip_node rfl (.skip_tokenOf kw rfl
      ((condition.readInOrder _ hcondition).append (.skip_tokenOf kwDo rfl ?_)))
    exact .skip_last kwEnd rfl (readInOrder_blockStmts body _ hbody)
  | ifThenElse kwIf condition kwDo body kwElse otherwise kwEnd =>
    simp only [Sentence.tokens, List.forall_mem_cons, List.forall_mem_append] at hplain
    obtain ⟨-, hcondition, -, hbody, -, hotherwise, -⟩ := hplain
    rw [Sentence.stmt, Stmt.nodes_ifThenElse, Sentence.tokens]
    refine .skip_node rfl (.skip_tokenOf kwIf rfl
      ((condition.readInOrder _ hcondition).append (.skip_tokenOf kwDo rfl ?_)))
    refine (readInOrder_blockStmts body _ hbody).append ?_
    refine .skip_node rfl (.skip_tokenOf kwElse rfl ?_)
    exact .skip_last kwEnd rfl (readInOrder_blockStmts otherwise _ hotherwise)

/-- The literals and the types of a block are read from its tokens. -/
theorem readInOrder_blockStmts (ds : List Sentence) (first : NodeId)
    (hplain : ∀ token ∈ blockTokens ds, token.Plain) :
    ReadInOrder (blockNodes (blockStmts first ds)) (blockTokens ds) := by
  cases ds with
  | nil => exact .nil
  | cons d ds =>
    rw [blockTokens, List.forall_mem_append] at hplain
    rw [blockStmts, blockNodes_cons, blockTokens]
    exact (Sentence.readInOrder d first hplain.1).append (readInOrder_blockStmts ds _ hplain.2)

end

end Grammar

/-! ### Sources -/

variable {source file : String} {tokens : List Token} {p : Program} {error : Error}

theorem readInOrder_of_parse (htokens : tokenize source file = .ok tokens)
    (h : parse tokens = .ok p) : ReadInOrder p.nodes tokens := by
  obtain ⟨d, rfl, rfl, hread, -⟩ := parseWithin_eq_ok_iff.mp h
  have hlegible := legible_of_tokenize htokens
  exact readInOrder_blockStmts d 1 fun token htoken =>
    ⟨hread token htoken, hlegible token htoken⟩

/-- An error at a lexeme is about an integer that takes more than 63 bits. -/
def Error.OverlongOnly (error : Error) (tokens : List Token) : Prop :=
  match error.fault with
  | .unexpectedToken _ expected => expected ≠ "a type name"
  | .unreadableNumber text =>
      ∃ token ∈ tokens, token.kind = .integer ∧ token.lexeme = text ∧
        token.span.start = error.position ∧ IsDigits text.toList ∧ 2 ^ 63 ≤ decimal text.toList
  | _ => True

theorem overlongOnly_of_parse (htokens : tokenize source file = .ok tokens)
    (h : parse tokens = .error error) : error.OverlongOnly tokens := by
  -- No sentence has been read in front of all tokens.
  have hnone : Parser.SpansBlock maxNesting (.begun maxNesting tokens) []
      (.begun maxNesting tokens) := ⟨by decide, nofun, .refl _⟩
  obtain ⟨q, -, hlocated⟩ := Parser.located_of_parse hnone h
  cases hlocated with
  | @start token fault htoken habout hdeep =>
    have hcases := (legible_of_tokenize htokens token htoken).readable_or
    cases fault with
    | unexpectedToken text expected =>
      intro hexpected
      obtain ⟨hkind, hunreadable⟩ := habout.2 hexpected
      rcases hcases with hreadable | ⟨hinteger, -⟩
      · exact hunreadable hreadable
      · rw [hkind] at hinteger
        cases hinteger
    | unreadableNumber text =>
      obtain ⟨rfl, -, hunreadable⟩ := habout
      rcases hcases with hreadable | ⟨hinteger, hdigits, hlarge⟩
      · exact absurd hreadable hunreadable
      · exact ⟨token, htoken, hinteger, rfl, rfl, hdigits, hlarge⟩
    | _ => trivial
  | finish hfound hrest =>
    rcases hfound with ⟨expected, rfl⟩ | ⟨limit, rfl⟩ <;> trivial

/-- The tokens of a source are only refused for an integer that takes more than
    63 bits, as far as their lexemes go.  The literals and the types of the
    program are those that the lexemes spell, one by one. -/
theorem parse_agrees_with_lexemes (source file : String) (tokens : List Token)
    (h : tokenize source file = .ok tokens) :
    (∀ error, parse tokens = .error error → error.OverlongOnly tokens) ∧
      ∀ p, parse tokens = .ok p → ReadInOrder p.nodes tokens :=
  ⟨fun _ => overlongOnly_of_parse h, fun _ => readInOrder_of_parse h⟩

/-- The greatest integer behind zeros, and the next one. -/
theorem parse_agrees_with_lexemes_of_greatest :
    (∃ tokens p, tokenize "var b: bool = 0009223372036854775807 < 2.50;" "main" = .ok tokens ∧
      parse tokens = .ok p ∧ ReadInOrder p.nodes tokens) ∧
    ∃ tokens error, tokenize "print true == 9223372036854775808;" "main" = .ok tokens ∧
      parse tokens = .error error ∧ error.OverlongOnly tokens := by
  constructor
  · let source := "var b: bool = 0009223372036854775807 < 2.50;"
    have hok : (readProgram source "main").isOk := by decide +kernel
    obtain ⟨p, hp⟩ := Result.exists_of_isOk hok
    obtain ⟨tokens, htokens, hparse⟩ := Result.bind_eq_ok_iff.mp hp
    exact ⟨tokens, p, htokens, hparse, (parse_agrees_with_lexemes _ _ _ htokens).2 p hparse⟩
  · let source := "print true == 9223372036854775808;"
    let error : Error := ⟨.unreadableNumber "9223372036854775808", ⟨14, "main"⟩⟩
    have hok : (tokenize source "main").isOk := by decide +kernel
    obtain ⟨tokens, htokens⟩ := Result.exists_of_isOk hok
    have herror : readProgram source "main" = .error error :=
      Result.eq_error_of_error? (by decide +kernel)
    have hparse : parse tokens = .error error := by
      rwa [readProgram, Result.bind_of_ok htokens] at herror
    exact ⟨tokens, error, htokens, hparse, (parse_agrees_with_lexemes _ _ _ htokens).1 _ hparse⟩

end BlockLang
