import BlockLang.Proofs.Token.Shift

/-! # Canonical text — lexemes with spaces between

  The lexemes of a source, with a space between one and the next, are a text
  of the same tokens.  A lexeme is what its token is spelled like, and it is
  read as that token again, because a space ends it.

  Strings are the exception.  Their lexemes stand between single quotes, also
  where the source has double ones, and then the string may have single quotes
  inside.  The first of them closes the string when the lexeme is read, so what
  is read is another, shorter string. -/

namespace BlockLang

/-- What a token is apart from its place. -/
def Token.word (token : Token) : Kind × String := (token.kind, token.lexeme)

/-- The text between the quotes of a string literal. -/
def Token.body (token : Token) : List Char := token.lexeme.toList.tail.dropLast

/-- The lexemes of the tokens, with a space between one and the next. -/
def spaced (tokens : List Token) : String := " ".intercalate (tokens.map Token.lexeme)

variable {c : Char} {text rest lexeme more : List Char} {kind : Kind} {file : String}
  {offset : Nat} {token : Token} {tokens before : List Token} {words : List (Kind × String)}

/-! ### One lexeme -/

/-- A spelling that nothing follows is a piece. -/
theorem Spells.isPiece (h : Spells text kind lexeme) : IsPiece text kind lexeme [] where
  spells := h
  longest := by
    intro other kind' lexeme' _ hfront
    rw [List.append_nil] at hfront
    exact hfront.length_le
  bounded := by
    intro _
    nofun

/-- The scanner finds the piece at the front of a text. -/
theorem IsPiece.exists_first (h : IsPiece (c :: more) kind lexeme rest) :
    ∃ piece, Piece.first c (more ++ rest) = .ok piece ∧ piece.more c = more ∧
      piece.token? c = some (kind, lexeme) := by
  have hfront := front_first c (more ++ rest)
  cases hfirst : Piece.first c (more ++ rest) with
  | error fault =>
    rw [hfirst] at hfront
    cases hfront with
    | refused hrefused => exact absurd h (hrefused.not_isPiece rfl)
  | ok piece =>
    rw [hfirst] at hfront
    cases hfront with
    | gap hc =>
      rw [h.not_isGap rfl] at hc
      cases hc
    | piece htoken htext hpiece =>
      have heq : c :: more ++ rest = c :: piece.more c ++ _ := congrArg (c :: ·) htext
      obtain ⟨hmore, -, rfl, rfl⟩ := h.unique hpiece heq
      exact ⟨piece, rfl, (List.cons.inj hmore).2.symm, htoken⟩

/-- A spelling without a single quote inside is kept by its lexeme. -/
theorem Spells.canonical (h : Spells text kind lexeme)
    (hquote : kind = .string → '\'' ∉ lexeme.tail.dropLast) : Spells lexeme kind lexeme := by
  cases h with
  | keyword hword hkind => exact .keyword hword hkind
  | name hword hkind => exact .name hword hkind
  | integer hdigits => exact .integer hdigits
  | float hdecimal => exact .float hdecimal
  | @string quote body _ _ =>
    have hbody : '\'' ∉ body := by simpa using hquote rfl
    exact .string (.inr rfl) hbody
  | mark hmark => exact .mark hmark

/-- A string literal is its body between single quotes. -/
theorem Spells.lexeme_of_string (h : Spells text .string lexeme) :
    lexeme = '\'' :: (lexeme.tail.dropLast ++ ['\'']) ∧
      ('\'' ∈ lexeme.tail.dropLast → text = '"' :: (lexeme.tail.dropLast ++ ['"'])) := by
  generalize hkind : Kind.string = kind at h
  cases h with
  | keyword hword hreserved =>
    subst hkind
    unfold Kind.reserved? at hreserved
    split at hreserved <;> cases hreserved
  | name => cases hkind
  | integer => cases hkind
  | float => cases hkind
  | @string quote body hquote hbody =>
    have htail : ('\'' :: body ++ ['\'']).tail.dropLast = body := by simp
    rw [htail]
    refine ⟨rfl, fun hmem => ?_⟩
    rcases hquote with rfl | rfl
    · rfl
    · exact absurd hmem hbody
  | mark hmark =>
    subst hkind
    cases hmark

/-! ### Tokens of a scan -/

/-- A piece of a text is spelled at its front. -/
theorem exists_spells_of_first {piece : Piece} (h : Piece.first c text = .ok piece)
    (htoken : piece.tokenAt? c file offset = some token) :
    ∃ spelling, spelling <+: c :: text ∧ Spells spelling token.kind token.lexeme.toList := by
  have hfront := front_first c text
  rw [h] at hfront
  cases hfront with
  | gap hc => cases htoken
  | piece hsome htext hpiece =>
    rw [Piece.tokenAt?, hsome] at htoken
    cases htoken
    refine ⟨c :: piece.more c, ?_, ?_⟩
    · exact List.cons_prefix_cons.mpr ⟨rfl, Piece.isPrefix_of_first h⟩
    · rw [String.toList_ofList]
      exact hpiece.spells

/-- Every token of a scan is spelled somewhere in the text. -/
theorem exists_spells_of_mem (h : tokensFrom file before offset text = .ok tokens) :
    ∀ token ∈ tokens, token ∈ before ∨
      ∃ spelling, spelling <:+: text ∧ Spells spelling token.kind token.lexeme.toList := by
  fun_induction tokensFrom file before offset text with
  | case1 before offset =>
    cases h
    intro token htoken
    exact .inl (List.mem_reverse.mp htoken)
  | case2 before offset c text fault hfirst => cases h
  | case3 before offset c text piece hfirst ih =>
    intro token htoken
    rcases ih h token htoken with hbefore | ⟨spelling, hwithin, hspells⟩
    · rcases List.mem_append.mp hbefore with hnew | hbefore
      · obtain ⟨spelling, hprefix, hspells⟩ :=
          exists_spells_of_first hfirst (Option.mem_toList.mp hnew)
        exact .inr ⟨spelling, hprefix.isInfix, hspells⟩
      · exact .inl hbefore
    · have hdrop := (List.drop_suffix (piece.more c).length text).isInfix
      exact .inr ⟨spelling, List.infix_cons (hwithin.trans hdrop), hspells⟩

/-! ### Words of a text -/

/-- The kinds and lexemes of the tokens of a text; nothing when it has none. -/
def words? (file : String) (text : List Char) : Option (List (Kind × String)) :=
  (tokensFrom file [] 0 text).toOption.map (List.map Token.word)

theorem words?_eq_some_iff :
    words? file text = some words ↔
      ∃ tokens, tokensFrom file [] 0 text = .ok tokens ∧ tokens.map Token.word = words := by
  unfold words?
  cases tokensFrom file [] 0 text <;> simp [Except.toOption]

/-- A shift moves no word. -/
theorem map_word_shift (bytes : UInt32) (tokens : List Token) :
    (tokens.map (Token.shift bytes)).map Token.word = tokens.map Token.word := by
  rw [List.map_map]
  rfl

/-- Behind other words and a space a text has its own words. -/
theorem words?_append (h : words? file text = some words) (rest : List Char) :
    words? file (text ++ ' ' :: rest) = (words? file rest).map (words ++ ·) := by
  obtain ⟨tokens, htokens, rfl⟩ := words?_eq_some_iff.mp h
  have hscan := tokensFrom_append htokens (by decide : isGap ' ' = true) rest
  rw [words?, hscan, tokensFrom_eq_shiftScan, List.reverse_reverse, words?]
  cases tokensFrom file [] 0 rest with
  | error error => rfl
  | ok others =>
    simp only [shiftScan, Except.toOption, Option.map_some, List.map_append, map_word_shift]

theorem words?_of_spells (h : Spells text kind lexeme) :
    words? file text = some [(kind, String.ofList lexeme)] := by
  obtain ⟨c, more, rfl⟩ := List.exists_cons_of_ne_nil h.ne_nil
  obtain ⟨piece, hfirst, hmore, htoken⟩ := h.isPiece.exists_first
  rw [List.append_nil] at hfirst
  rw [words?, tokensFrom_cons hfirst, hmore, List.drop_length, Piece.tokenAt?, htoken, tokensFrom]
  rfl

/-- A string ends at its first single quote, whatever follows. -/
theorem head?_words?_of_quote {body : List Char} (hmem : '\'' ∈ body)
    (h : words? file ('\'' :: body) = some words) :
    words.head? =
      some (.string, String.ofList ('\'' :: body.takeWhile (· ≠ '\'') ++ ['\''])) := by
  have hfirst : Piece.first '\'' body = .ok (.quoted (body.takeWhile (· ≠ '\''))) := by
    rw [Piece.first_of_isQuote (by decide), if_pos hmem]
  rw [words?, tokensFrom_cons hfirst, tokensFrom_eq_shiftScan] at h
  cases hrest : tokensFrom file [] 0
      (body.drop ((Piece.quoted (body.takeWhile (· ≠ '\''))).more '\'').length) with
  | error error =>
    rw [hrest] at h
    cases h
  | ok others =>
    rw [hrest] at h
    cases h
    rfl

/-! ### Lexemes with spaces between -/

theorem toList_spaced_cons (token : Token) (tokens : List Token) :
    (spaced (token :: tokens)).toList =
      token.lexeme.toList ++ if tokens = [] then [] else ' ' :: (spaced tokens).toList := by
  unfold spaced
  cases tokens with
  | nil => simp
  | cons other tokens => simp [String.toList_intercalate]

/-- A lexeme that spells its token is read as that token. -/
theorem words?_spaced_cons (h : Spells token.lexeme.toList token.kind token.lexeme.toList)
    (tokens : List Token) :
    words? file (spaced (token :: tokens)).toList =
      (words? file (spaced tokens).toList).map (token.word :: ·) := by
  have hword : words? file token.lexeme.toList = some [token.word] := by
    rw [words?_of_spells h, String.ofList_toList, Token.word]
  rw [toList_spaced_cons]
  by_cases hnil : tokens = []
  · subst hnil
    rw [if_pos rfl, List.append_nil, hword]
    simp [words?, spaced, tokensFrom, Except.toOption]
  · rw [if_neg hnil, words?_append hword]
    rfl

/-- A string with a single quote inside is read as a shorter one. -/
theorem words?_spaced_cons_ne (h : token.lexeme.toList = '\'' :: (token.body ++ ['\'']))
    (hmem : '\'' ∈ token.body) (tokens : List Token) :
    words? file (spaced (token :: tokens)).toList ≠ some (token.word :: words) := by
  intro hwords
  rw [toList_spaced_cons, h, List.cons_append, List.append_assoc] at hwords
  have hhead := head?_words?_of_quote (List.mem_append_left _ hmem) hwords
  rw [Piece.takeWhile_append_of_mem hmem, List.head?_cons, Option.some.injEq] at hhead
  have hlexeme := congrArg String.toList (congrArg Prod.snd hhead)
  rw [Token.word, h, String.toList_ofList, List.cons_append] at hlexeme
  -- The string would be its own front up to a quote that it has inside.
  have hbody : token.body = token.body.takeWhile (· ≠ '\'') :=
    List.append_cancel_right (List.cons.inj hlexeme).2
  rw [hbody] at hmem
  simpa using List.mem_takeWhile_imp hmem

/-- Tokens that have a spelling are read again unless a string has a single
    quote inside. -/
theorem words?_spaced_iff
    (h : ∀ token ∈ tokens, ∃ text, Spells text token.kind token.lexeme.toList) :
    words? file (spaced tokens).toList = some (tokens.map Token.word) ↔
      ∀ token ∈ tokens, token.kind = .string → '\'' ∉ token.body := by
  induction tokens with
  | nil => simp [words?, spaced, tokensFrom, Except.toOption]
  | cons token tokens ih =>
    rw [List.forall_mem_cons] at h ⊢
    obtain ⟨⟨text, hspells⟩, htokens⟩ := h
    by_cases hquote : token.kind = .string → '\'' ∉ token.body
    · rw [words?_spaced_cons (hspells.canonical hquote), List.map_cons, ← ih htokens,
        and_iff_right hquote]
      simp
    · rw [Classical.not_imp, not_not] at hquote
      obtain ⟨hkind, hmem⟩ := hquote
      rw [hkind] at hspells
      refine iff_of_false (words?_spaced_cons_ne hspells.lexeme_of_string.1 hmem tokens) ?_
      intro hall
      exact hall.1 hkind hmem

/-! ### Sources -/

/-- The lexemes of a source, with spaces between, have the same kinds and
    lexemes again exactly if no string has a single quote inside.  A string
    that has one stands between double quotes in the source. -/
theorem tokenize_spaced_iff {source file : String} {tokens : List Token}
    (h : tokenize source file = .ok tokens) :
    ((∃ again, tokenize (spaced tokens) file = .ok again ∧
        again.map Token.word = tokens.map Token.word) ↔
      ∀ token ∈ tokens, token.kind = .string → '\'' ∉ token.body) ∧
    ∀ token ∈ tokens, token.kind = .string → '\'' ∈ token.body →
      '"' :: (token.body ++ ['"']) <:+: source.toList := by
  have hspelled (token : Token) (htoken : token ∈ tokens) : ∃ spelling,
      spelling <:+: source.toList ∧ Spells spelling token.kind token.lexeme.toList := by
    rcases exists_spells_of_mem h token htoken with hnil | hspelled
    · cases hnil
    · exact hspelled
  constructor
  · have hiff : words? file (spaced tokens).toList = some (tokens.map Token.word) ↔ _ :=
      words?_spaced_iff fun token htoken => (hspelled token htoken).imp fun _ h => h.2
    rw [← hiff, words?_eq_some_iff]
    rfl
  · intro token htoken hkind hmem
    obtain ⟨spelling, hwithin, hspells⟩ := hspelled token htoken
    rw [hkind] at hspells
    rwa [hspells.lexeme_of_string.2 hmem] at hwithin

/-- A double quote inside a string is kept, and a single one is not. -/
theorem tokenize_spaced_iff_of_quotes :
    (∃ tokens again, tokenize "print 'a\"b' <= 2.5;" defaultFile = .ok tokens ∧
      tokenize (spaced tokens) defaultFile = .ok again ∧
      again.map Token.word = tokens.map Token.word) ∧
    ∃ tokens, tokenize "print \"it's\";" defaultFile = .ok tokens ∧
      ¬ ∃ again, tokenize (spaced tokens) defaultFile = .ok again ∧
        again.map Token.word = tokens.map Token.word := by
  have hok : (tokenize "print 'a\"b' <= 2.5;" defaultFile).isOk := by decide +kernel
  have hok' : (tokenize "print \"it's\";" defaultFile).isOk := by decide +kernel
  have hkept : (tokenize "print 'a\"b' <= 2.5;" defaultFile).toOption.map
      (fun tokens => decide (∀ token ∈ tokens, token.kind = .string → '\'' ∉ token.body)) =
        some true := by decide +kernel
  have hlost : (tokenize "print \"it's\";" defaultFile).toOption.map
      (fun tokens => decide (∀ token ∈ tokens, token.kind = .string → '\'' ∉ token.body)) =
        some false := by decide +kernel
  obtain ⟨tokens, h⟩ := Result.exists_of_isOk hok
  obtain ⟨tokens', h'⟩ := Result.exists_of_isOk hok'
  rw [h] at hkept
  rw [h'] at hlost
  obtain ⟨again, hagain⟩ :=
    (tokenize_spaced_iff h).1.mpr (of_decide_eq_true (Option.some.inj hkept))
  refine ⟨⟨tokens, again, h, hagain⟩, tokens', h', ?_⟩
  rw [(tokenize_spaced_iff h').1]
  exact of_decide_eq_false (Option.some.inj hlost)

end BlockLang
