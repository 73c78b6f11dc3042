import BlockLang.Proofs.Grammar.Continuation
import BlockLang.Proofs.Scope.Binding
import BlockLang.Proofs.Token.Cutting
import BlockLang.Proofs.Typing.Location

/-! # Diagnosis — what an error says is true

  An error names a phase, and that is the stage at which the work on the
  source ended.  It names a place, and there stands what the fault is about:
  characters that are no token, a token that does not fit, the name of a
  declaration, or the first operand of an expression.  Nodes carry the places
  of tokens and tokens those of characters, so every place is a boundary
  between characters of the source. -/

namespace BlockLang

open Grammar

variable {source file : String} {options : Options} {tokens : List Token} {p : Program}
  {error : Error}

/-! ### Stages -/

/-- The stage that compiling a source ends at, if it does not succeed. -/
def failingStage? (source : String) (options : Options) : Option Phase :=
  match tokenize source options.file with
  | .error _ => some .lexical
  | .ok tokens =>
    match parse tokens with
    | .error _ => some .syntactic
    | .ok p =>
      match resolveWith (SymbolTable.new.withShadowing options.shadowing) p with
      | .error _ => some .scope
      | .ok resolved =>
        match check resolved with
        | .error _ => some .semantic
        | .ok _ => none

/-- How the work on a source may end with an error, stage by stage. -/
inductive FailsAt (source : String) (options : Options) (error : Error) : Phase → Prop where
  | lexical : tokenize source options.file = .error error → FailsAt source options error .lexical
  | syntactic {tokens : List Token} : tokenize source options.file = .ok tokens →
      parse tokens = .error error → FailsAt source options error .syntactic
  | scope {tokens : List Token} {p : Program} : tokenize source options.file = .ok tokens →
      parse tokens = .ok p →
      resolveWith (SymbolTable.new.withShadowing options.shadowing) p = .error error →
      FailsAt source options error .scope
  | semantic {tokens : List Token} {p : Program} {resolved : Resolved} :
      tokenize source options.file = .ok tokens → parse tokens = .ok p →
      resolveWith (SymbolTable.new.withShadowing options.shadowing) p = .ok resolved →
      check resolved = .error error → FailsAt source options error .semantic

theorem exists_failsAt_of_compile (h : compile source options = .error error) :
    ∃ phase, FailsAt source options error phase := by
  rcases Result.bind_eq_error_iff.mp h with h | ⟨p, hread, h⟩
  · rcases Result.bind_eq_error_iff.mp h with htokens | ⟨tokens, htokens, hparse⟩
    · exact ⟨_, .lexical htokens⟩
    · exact ⟨_, .syntactic htokens hparse⟩
  · obtain ⟨tokens, htokens, hparse⟩ := Result.bind_eq_ok_iff.mp hread
    rcases Result.bind_eq_error_iff.mp h with hresolve | ⟨resolved, hresolve, hcheck⟩
    · exact ⟨_, .scope htokens hparse hresolve⟩
    · exact ⟨_, .semantic htokens hparse hresolve hcheck⟩

theorem FailsAt.failingStage?_eq {phase : Phase} (h : FailsAt source options error phase) :
    failingStage? source options = some phase := by
  cases h with
  | lexical htokens => simp only [failingStage?, htokens]
  | syntactic htokens hparse => simp only [failingStage?, htokens, hparse]
  | scope htokens hparse hresolve => simp only [failingStage?, htokens, hparse, hresolve]
  | semantic htokens hparse hresolve hcheck =>
    simp only [failingStage?, htokens, hparse, hresolve, hcheck]

/-! ### Places in a source -/

/-- The place is in the file, at a boundary between characters of the source or
    at one of its ends. -/
structure Position.IsIn (position : Position) (source file : String) : Prop where
  file : position.file = file
  boundary : (String.Pos.Raw.mk position.offset.toNat).IsValid source

/-- A place behind some characters at the front of a source. -/
theorem Position.isIn_of_front {position : Position} {front rest : List Char}
    (hsource : source.toList = front ++ rest) (hfile : position.file = file)
    (hoffset : position.offset.toNat = byteSize front) : position.IsIn source file := by
  refine ⟨hfile, ?_⟩
  rw [hoffset, String.Pos.Raw.isValid_iff_exists_append]
  refine ⟨String.ofList front, String.ofList rest, ?_, ?_⟩
  · rw [← String.ofList_append, ← hsource, String.ofList_toList]
  · rw [String.rawEndPos, utf8ByteSize_ofList]

/-- The tokens of a cut behind the front of a source start and end at boundaries. -/
theorem Cut.isIn {offset : Nat} {text : List Char} (h : Cut file offset text tokens)
    (front : List Char) (hsource : source.toList = front ++ text)
    (hoffset : offset = byteSize front) :
    ∀ token ∈ tokens, token.span.start.IsIn source file ∧ token.span.stop.IsIn source file := by
  induction h generalizing front with
  | done => nofun
  | @gap offset run rest tokens _ _ _ _ ih =>
    apply ih (front ++ run)
    · rw [hsource, List.append_assoc]
    · rw [hoffset, byteSize_append]
  | @piece offset text kind lexeme span rest tokens _ hspan _ ih =>
    have hsource' : source.toList = (front ++ text) ++ rest := by
      rw [hsource, List.append_assoc]
    have hoffset' : offset + byteSize text = byteSize (front ++ text) := by
      rw [hoffset, byteSize_append]
    intro token htoken
    rcases List.mem_cons.mp htoken with rfl | htoken
    · constructor
      · exact Position.isIn_of_front hsource hspan.start_file (hspan.start_offset.trans hoffset)
      · exact Position.isIn_of_front hsource' hspan.stop_file (hspan.stop_offset.trans hoffset')
    · exact ih (front ++ text) hsource' hoffset' token htoken

theorem isIn_of_tokenize (hsize : source.utf8ByteSize < 2 ^ 32)
    (h : tokenize source file = .ok tokens) {token : Token} (htoken : token ∈ tokens) :
    token.span.start.IsIn source file ∧ token.span.stop.IsIn source file :=
  ((tokenize_eq_ok_iff hsize).mp h).isIn [] rfl rfl token htoken

/-! ### What stands at the place -/

/-- What stands before the place is cut as far as that goes and has tokens of its
    own, and what stands there cannot be taken off as a piece. -/
def Error.AtRefusal (error : Error) (source file : String) : Prop :=
  ∃ front rest, source.toList = front ++ rest ∧
    error.position.offset.toNat = byteSize front ∧ CutBefore rest front ∧
    (∃ tokens, tokenize (String.ofList front) file = .ok tokens) ∧ Refused rest error.fault

/-- Is the fault reported behind all tokens, when those in `left` have not been
    read? -/
def Fault.BehindAll (left : List Token) : Fault → Prop
  | .unexpectedEnd _ => True
  | .nestingTooDeep _ => left = []
  | _ => False

/-- The place is the end of the last token if the fault is reported there, and
    otherwise the start of a token. -/
def Error.AtToken (error : Error) (tokens left : List Token) : Prop :=
  (error.fault.BehindAll left → ∃ last, tokens.getLast? = some last ∧
    error.position = last.span.stop) ∧
  (¬ error.fault.BehindAll left → ∃ token ∈ tokens, error.position = token.span.start)

/-- A declaration of the program has the token for its name. -/
def Token.DeclaredIn (token : Token) (p : Program) : Prop :=
  token.kind = .identifier ∧ ∃ node ∈ p.nodes, ∃ id, node.declared? = some (identOf token id)

/-- The place is the start of the name of a declaration, and that name is the one
    that is declared again. -/
def Error.AtDeclaration (error : Error) (tokens : List Token) (p : Program) : Prop :=
  ∃ token ∈ tokens, token.DeclaredIn p ∧ error.fault = .duplicateDeclaration token.lexeme ∧
    error.position = token.span.start

/-- The place is the start of the name that is not declared, and otherwise the
    start of the first operand of an expression of the program. -/
def Error.AtUse (error : Error) (tokens : List Token) (p : Program) : Prop :=
  match error.fault with
  | .undeclaredIdentifier name =>
      ∃ token ∈ tokens, token.kind = .identifier ∧ token.lexeme = name ∧
        error.position = token.span.start
  | _ =>
      ∃ e, Node.expr e ∈ p.nodes ∧ ∃ token ∈ tokens, ∃ id,
        Parser.leafOf token id = .ok e.leftmost ∧ error.position = token.span.start

/-- What stands at the place of an error, by its phase. -/
def Error.InPlace (error : Error) (source file : String) : Prop :=
  match error.fault.phase with
  | .lexical => error.AtRefusal source file
  | .syntactic => ∃ tokens q, tokenize source file = .ok tokens ∧
      Parser.program (.start .standard maxNesting tokens) = .error error q ∧
      error.AtToken tokens q.rest
  | .scope => ∃ tokens p, tokenize source file = .ok tokens ∧ parse tokens = .ok p ∧
      error.AtDeclaration tokens p
  | .semantic => ∃ tokens p, tokenize source file = .ok tokens ∧ parse tokens = .ok p ∧
      error.AtUse tokens p

/-- What an error says about a source is true. -/
structure Error.Truthful (error : Error) (source : String) (options : Options) : Prop where
  /-- Its phase is the stage that failed. -/
  stage : failingStage? source options = some error.fault.phase
  isIn : error.position.IsIn source options.file
  inPlace : error.InPlace source options.file

/-! ### Tokens -/

theorem Refused.phase_eq {text : List Char} {fault : Fault} (h : Refused text fault) :
    fault.phase = .lexical := by
  cases h with
  | unterminated => rfl
  | strayPoint => rfl
  | danglingPoint => rfl
  | unexpected => rfl

theorem truthful_of_tokenize (hsize : source.utf8ByteSize < 2 ^ 32)
    (h : tokenize source options.file = .error error) : error.Truthful source options := by
  obtain ⟨front, rest, hsource, hposition, hcut, hrefused⟩ :=
    exists_cutBefore_of_tokensFrom_eq_error h
  rw [Nat.zero_add] at hposition
  have hbytes : byteSize front + byteSize rest = source.utf8ByteSize := by
    rw [← byteSize_append, ← hsource, ← utf8ByteSize_ofList, String.ofList_toList]
  have hfront : 0 + byteSize front < 2 ^ 32 := by omega
  have hoffset : error.position.offset.toNat = byteSize front := by
    rw [hposition]
    exact UInt32.toNat_ofNat_of_lt' (Nat.zero_add (byteSize front) ▸ hfront)
  have htokens : ∃ tokens, tokenize (String.ofList front) options.file = .ok tokens := by
    obtain ⟨tokens, hcut⟩ : ∃ tokens, Cut options.file 0 front tokens := hcut.exists_cut hfront
    refine ⟨tokens, ?_⟩
    rw [Nat.zero_add, ← utf8ByteSize_ofList] at hfront
    rw [tokenize_eq_ok_iff hfront, String.toList_ofList]
    exact hcut
  refine ⟨?_, ?_, ?_⟩
  · rw [hrefused.phase_eq]
    exact (FailsAt.lexical h).failingStage?_eq
  · apply Position.isIn_of_front hsource _ hoffset
    rw [hposition]
    rfl
  · unfold Error.InPlace
    rw [hrefused.phase_eq]
    exact ⟨front, rest, hsource, hoffset, hcut, htokens, hrefused⟩

/-! ### Programs -/

/-- A place at a token is the start of one, or the end of one. -/
theorem Error.AtToken.exists_token {left : List Token} (h : error.AtToken tokens left) :
    ∃ token ∈ tokens, error.position = token.span.start ∨ error.position = token.span.stop := by
  by_cases hbehind : error.fault.BehindAll left
  · obtain ⟨last, hlast, hposition⟩ := h.1 hbehind
    exact ⟨last, List.mem_of_getLast? hlast, .inr hposition⟩
  · obtain ⟨token, htoken, hposition⟩ := h.2 hbehind
    exact ⟨token, htoken, .inl hposition⟩

/-- The parser's errors belong to its phase, and stand by the tokens. -/
theorem Parser.Located.atToken {q : Parser} (hne : tokens ≠ [])
    (h : Located (begun maxNesting tokens) q error) :
    error.fault.phase = .syntactic ∧ error.AtToken tokens q.rest := by
  cases h with
  | @start token fault htoken habout hdeep =>
    refine ⟨habout.phase_eq, ?_, fun _ => ⟨token, htoken, rfl⟩⟩
    intro hbehind
    cases fault with
    | unexpectedEnd expected => exact absurd habout Fault.not_about_unexpectedEnd
    | nestingTooDeep limit =>
      -- The token is ahead of the parser, so something is left.
      have hcurrent := hdeep limit rfl
      have hrest : q.rest = [] := hbehind
      rw [Parser.current?, hrest] at hcurrent
      cases hcurrent
    | _ => exact absurd hbehind id
  | @finish fault hfault hrest =>
    have hbehind : fault.BehindAll q.rest := by
      rcases hfault with ⟨expected, rfl⟩ | ⟨limit, rfl⟩
      · trivial
      · exact hrest
    refine ⟨?_, ?_, fun hnot => absurd hbehind hnot⟩
    · rcases hfault with ⟨expected, rfl⟩ | ⟨limit, rfl⟩ <;> rfl
    · intro _
      refine ⟨tokens.getLast hne, List.getLast?_eq_some_getLast hne, ?_⟩
      show Parser.finish _ = _
      rw [Parser.finish, Parser.tokens]
      show (tokens.getLast?.map (·.span.stop)).getD .null = _
      rw [List.getLast?_eq_some_getLast hne]
      rfl

theorem truthful_of_parse (hsize : source.utf8ByteSize < 2 ^ 32)
    (htokens : tokenize source options.file = .ok tokens) (h : parse tokens = .error error) :
    error.Truthful source options := by
  -- No sentence has been read in front of all tokens.
  have hnone : Parser.SpansBlock maxNesting (.begun maxNesting tokens) []
      (.begun maxNesting tokens) := ⟨by decide, nofun, .refl _⟩
  obtain ⟨q, hprogram, hlocated⟩ := Parser.located_of_parse hnone h
  have hne : tokens ≠ [] := by
    rintro rfl
    cases h
  obtain ⟨hphase, hplace⟩ := hlocated.atToken hne
  refine ⟨?_, ?_, ?_⟩
  · rw [hphase]
    exact (FailsAt.syntactic htokens h).failingStage?_eq
  · obtain ⟨token, htoken, hposition | hposition⟩ := hplace.exists_token
    · rw [hposition]
      exact (isIn_of_tokenize hsize htokens htoken).1
    · rw [hposition]
      exact (isIn_of_tokenize hsize htokens htoken).2
  · unfold Error.InPlace
    rw [hphase]
    exact ⟨tokens, q, htokens, hprogram, hplace⟩

/-! ### Nodes -/

/-- The nodes of a program start with its tokens, and these can be read. -/
theorem exists_token_of_parse (h : parse tokens = .ok p) {node : Node} (hnode : node ∈ p.nodes) :
    ∃ token ∈ tokens, token.Readable ∧ node.StartsWith token := by
  obtain ⟨d, rfl, rfl, hread, -⟩ := parseWithin_eq_ok_iff.mp h
  obtain ⟨token, htoken, hstart⟩ := startsIn_blockStmts d 1 node hnode
  exact ⟨token, htoken, hread token htoken, hstart⟩

theorem truthful_of_resolveWith (hsize : source.utf8ByteSize < 2 ^ 32)
    (htokens : tokenize source options.file = .ok tokens) (hparse : parse tokens = .ok p)
    (h : resolveWith (SymbolTable.new.withShadowing options.shadowing) p = .error error) :
    error.Truthful source options := by
  have hroot : (SymbolTable.new.withShadowing options.shadowing).scope? SymbolTable.root =
      some (.inside none) := rfl
  obtain ⟨before, b, behind, hbinders, -, -, rfl⟩ :=
    (SymbolTable.detects_resolveBlock p.body (SymbolTable.inside_start hroot p.tag.id)).of_error
      (resolveWith_eq_error_iff.mp h)
  have hb : b ∈ p.binders := by
    rw [Program.binders, hbinders]
    exact List.mem_append_right before List.mem_cons_self
  obtain ⟨node, hnode, hdeclared⟩ : ∃ node ∈ p.nodes, node.declared? = some b.target := by
    apply List.mem_filterMap.mp
    rw [← p.map_target_binders]
    exact List.mem_map_of_mem hb
  obtain ⟨token, htoken, -, hkind, htarget⟩ :=
    exists_token_of_parse hparse (target_mem_of_mem_blockBinders hb)
  have hposition : b.duplicate.position = token.span.start := by
    rw [Binder.duplicate, htarget]
    rfl
  refine ⟨(FailsAt.scope htokens hparse h).failingStage?_eq, ?_, tokens, p, htokens, hparse, ?_⟩
  · rw [hposition]
    exact (isIn_of_tokenize hsize htokens htoken).1
  · refine ⟨token, htoken, ⟨hkind, node, hnode, b.target.tag.id, ?_⟩, ?_, hposition⟩
    · rw [hdeclared, ← htarget]
    · rw [Binder.duplicate, htarget]
      rfl

/-- What the checker finds wrong with a node stands at the token that the node
    starts with. -/
theorem Node.Wrong.atUse {node : Node} (h : node.Wrong error) (hnode : node ∈ p.nodes)
    {token : Token} (htoken : token ∈ tokens) (hread : token.Readable)
    (hstart : node.StartsWith token) :
    error.fault.phase = .semantic ∧ error.AtUse tokens p := by
  cases h with
  | @target ident =>
    obtain ⟨hkind, hident⟩ := hstart
    rw [hident]
    exact ⟨rfl, token, htoken, hkind, rfl, rfl⟩
  | @identifier ident =>
    obtain ⟨-, l, id, rfl, hleft⟩ := hstart
    -- Of all leaves only an identifier is read as one.
    cases l with
    | identifier name =>
      cases hleft
      exact ⟨rfl, name.1, htoken, name.2, rfl, rfl⟩
    | _ => cases hleft
  | @expr e fault htypes =>
    obtain ⟨hstart, l, id, hl, hleft⟩ := hstart
    have hleaf : Parser.leafOf token id = .ok e.leftmost :=
      Parser.leafOf_eq_ok_iff.mpr ⟨l, hl, hread, hleft⟩
    refine ⟨htypes.1, ?_⟩
    unfold Error.AtUse
    split
    · rename_i name hname
      exact absurd hname (htypes.2 name)
    · exact ⟨e, hnode, token, htoken, id, hleaf, hstart⟩

theorem truthful_of_check (hsize : source.utf8ByteSize < 2 ^ 32)
    (htokens : tokenize source options.file = .ok tokens) (hparse : parse tokens = .ok p)
    {resolved : Resolved}
    (hresolve : resolveWith (SymbolTable.new.withShadowing options.shadowing) p = .ok resolved)
    (h : check resolved = .error error) : error.Truthful source options := by
  have hblock : checkBlock resolved.symbols ∅ p.body = .error error := by
    rcases Result.bind_eq_error_iff.mp h with h | ⟨types, -, h⟩
    · rwa [inferTypes, program_eq_of_resolveWith hresolve] at h
    · cases h
  have hfound : error.FoundIn p.nodes := foundIn_of_checkBlock hblock
  obtain ⟨node, hnode, hwrong⟩ := hfound
  obtain ⟨token, htoken, hread, hstart⟩ := exists_token_of_parse hparse hnode
  obtain ⟨hphase, hplace⟩ := hwrong.atUse hnode htoken hread hstart
  have hposition : error.position = token.span.start :=
    hwrong.position_eq.trans hstart.start
  refine ⟨?_, ?_, ?_⟩
  · rw [hphase]
    exact (FailsAt.semantic htokens hparse hresolve h).failingStage?_eq
  · rw [hposition]
    exact (isIn_of_tokenize hsize htokens htoken).1
  · unfold Error.InPlace
    rw [hphase]
    exact ⟨tokens, p, htokens, hparse, hplace⟩

/-! ### Compiling -/

theorem truthful_of_compile (hsize : source.utf8ByteSize < 2 ^ 32)
    (h : compile source options = .error error) : error.Truthful source options := by
  obtain ⟨phase, hfails⟩ := exists_failsAt_of_compile h
  cases hfails with
  | lexical htokens => exact truthful_of_tokenize hsize htokens
  | syntactic htokens hparse => exact truthful_of_parse hsize htokens hparse
  | scope htokens hparse hresolve => exact truthful_of_resolveWith hsize htokens hparse hresolve
  | semantic htokens hparse hresolve hcheck =>
    exact truthful_of_check hsize htokens hparse hresolve hcheck

/-- Where compiling a source fails, the error has the phase of the stage that
    failed, and stands where the source is wrong, in the file with the name
    that was given, or `shell` without one. -/
theorem compile_error_truthful (source : String) (name? : Option String) (shadowing : Bool)
    (hsize : source.utf8ByteSize < 2 ^ 32) (error : Error)
    (h : compile source ⟨name?.getD defaultFile, shadowing⟩ = .error error) :
    error.position.file = name?.getD "shell" ∧
      error.Truthful source ⟨name?.getD defaultFile, shadowing⟩ := by
  have htruthful := truthful_of_compile hsize h
  exact ⟨htruthful.isIn.file, htruthful⟩

/-- An operation that starts with a parenthesis is reported at the operand inside. -/
theorem compile_error_truthful_of_parenthesis :
    "print (true + 2) * 3;".utf8ByteSize < 2 ^ 32 ∧
      ∃ error, compile "print (true + 2) * 3;" ⟨(none : Option String).getD defaultFile, true⟩ =
          .error error ∧
        error = ⟨.boolOperandMismatch .bool .int, ⟨7, "shell"⟩⟩ ∧
        error.Truthful "print (true + 2) * 3;" .standard := by
  let source := "print (true + 2) * 3;"
  have hsize : source.utf8ByteSize < 2 ^ 32 := by decide +kernel
  have hfails : (match compile source .standard with
      | .ok _ => none
      | .error error => some error) =
        some ⟨.boolOperandMismatch .bool .int, ⟨7, "shell"⟩⟩ := by decide +kernel
  cases h : compile source .standard with
  | ok checked =>
    rw [h] at hfails
    cases hfails
  | error error =>
    rw [h] at hfails
    obtain ⟨-, htruthful⟩ := compile_error_truthful source none true hsize error h
    exact ⟨hsize, error, h, Option.some.inj hfails, htruthful⟩

end BlockLang
