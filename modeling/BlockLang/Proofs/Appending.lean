import BlockLang.Proofs.Grammar.Continuation
import BlockLang.Proofs.Token.Seam
import BlockLang.Proofs.Typing.DeclarationOrder
import BlockLang.Proofs.Typing.Extension
import BlockLang.Proofs.Typing.Location

/-! # Appending — a new line does not disturb what is compiled

  A source that compiles may be followed by any other text on a new line.
  The tokens, the statements, the scopes and the types of the source stay what
  they are, phase by phase, and an error is always about the new text.  Later
  declarations can be seen from earlier statements, but only where these saw
  no other declaration, and then the source would not have compiled. -/

namespace BlockLang

open Grammar

/-! ### Reading -/

variable {source : String} {file : String} {p p' : Program} {more : List Stmt}

/-- The program behind the seam continues the one before it, and its nodes
    stand behind the source. -/
theorem readProgram_append (h : readProgram source file = .ok p) (line : String)
    (hsize : (source ++ "\n" ++ line).utf8ByteSize < 2 ^ 32) :
    (∀ p', readProgram (source ++ "\n" ++ line) file = .ok p' → ∃ more, p.Continues p' more ∧
      ∀ node ∈ blockNodes more, node.tag.span.start.Past source.utf8ByteSize) ∧
    ∀ error, readProgram (source ++ "\n" ++ line) file = .error error →
      error.position.Past source.utf8ByteSize := by
  obtain ⟨ts, htokens, hparse⟩ := Result.bind_eq_ok_iff.mp h
  obtain ⟨hscanned, hfault⟩ := tokenize_append htokens line hsize
  constructor
  · intro p' hread
    obtain ⟨all, hall, hparse'⟩ := Result.bind_eq_ok_iff.mp hread
    obtain ⟨us, rfl, hpast⟩ := hscanned all hall
    obtain ⟨d, rfl, -, hprogram, -⟩ := parse_append hparse us
    obtain ⟨es, rfl, rfl⟩ := hprogram p' hparse'
    refine ⟨blockStmts (1 + blockSize d) es, ?_, ?_⟩
    · exact ⟨blockStmts_append d es 1, rfl, Program.nodup_ids_of_parse hparse'⟩
    · intro node hnode
      obtain ⟨token, htoken, hstart⟩ := startsIn_blockStmts es _ node hnode
      rw [hstart.start]
      exact (hpast token htoken).start
  · intro error herror
    rcases Result.bind_eq_error_iff.mp herror with herror | ⟨all, hall, herror⟩
    · exact hfault error herror
    · obtain ⟨us, rfl, hpast⟩ := hscanned all hall
      obtain ⟨d, -, -, -, hplace⟩ := parse_append hparse us
      obtain ⟨token, htoken, hposition | hposition⟩ := hplace error herror
      · rw [hposition]
        exact (hpast token htoken).start
      · rw [hposition]
        exact (hpast token htoken).stop

/-! ### Checking -/

/-- The checked program `longer` has the statements `more` behind those of
    `checked`, and whatever `checked` says about its nodes and scopes it says
    too.  Only the root gains the names that `more` declares. -/
structure Checked.KeptIn (checked longer : Checked) (more : List Stmt) : Prop where
  body : longer.resolved.program.body = checked.resolved.program.body ++ more
  /-- A node has the same scope, or none. -/
  scopeOf? : ∀ id ∈ checked.resolved.program.ids,
    longer.resolved.symbols.scopeOf? id = checked.resolved.symbols.scopeOf? id
  /-- A node has the same type, or none. -/
  type? : ∀ id ∈ checked.resolved.program.ids, longer.types[id]? = checked.types[id]?
  scope? : ∀ k s, k ≠ SymbolTable.root → checked.resolved.symbols.scope? k = some s →
    longer.resolved.symbols.scope? k = some s
  root : ∃ s s', checked.resolved.symbols.scope? SymbolTable.root = some s ∧
    longer.resolved.symbols.scope? SymbolTable.root = some s' ∧ s.Binds s' (declarations more)

/-- A longer program is checked behind the seam only: it keeps what has been
    checked, or it has an error at one of its new nodes. -/
theorem check_append (h : p.Continues p' more) {allow : Bool} {resolved : Resolved}
    {checked : Checked}
    (hresolve : resolveWith (SymbolTable.new.withShadowing allow) p = .ok resolved)
    (hcheck : check resolved = .ok checked) :
    (∃ longer, (resolveWith (SymbolTable.new.withShadowing allow) p' >>= check) = .ok longer ∧
      checked.KeptIn longer more) ∨
    ∃ error, (resolveWith (SymbolTable.new.withShadowing allow) p' >>= check) = .error error ∧
      error.At (blockNodes more) := by
  obtain ⟨rfl, hmirrors⟩ := SymbolTable.mirrors_of_resolveWith h.nodup_ids hresolve
  obtain ⟨htypes, rfl⟩ := check_eq_ok_iff.mp hcheck
  rw [h.resolveWith_eq hresolve]
  cases hmore : checked.resolved.symbols.resolveBlock more with
  | error error =>
    obtain ⟨ident, hident, rfl⟩ := Program.Continues.exists_target_of_error hresolve hmore
    exact .inr ⟨_, rfl, .target ident, hident, rfl⟩
  | ok t =>
    have hextends := h.extends_symbols hmirrors hmore
    -- The first statements are checked as before, and then come the new ones.
    have hbody : checkBlock t ∅ p'.body = checkBlock t checked.types more := by
      rw [h.body, checkBlock_append, Result.bind_of_ok (checkBlock_of_extends hextends htypes)]
    have hrun : (Except.ok t >>= (fun t => Except.ok (Resolved.mk p' t)) >>= check) =
        checkBlock t checked.types more >>= fun types => .ok ⟨⟨p', t⟩, types⟩ := by
      rw [← hbody]
      rfl
    rw [hrun]
    cases hlonger : checkBlock t checked.types more with
    | error error => exact .inr ⟨error, rfl, (foundIn_of_checkBlock hlonger).at_node⟩
    | ok types =>
      refine .inl ⟨⟨⟨p', t⟩, types⟩, rfl, h.body, ?_, ?_, ?_, ?_⟩
      · intro id hid
        exact h.scopeOf?_eq hmirrors hmore hid
      · intro id hid
        apply (annotates_of_checkBlock more hlonger).kept
        intro hmem
        exact h.not_mem hid ((List.filter_sublist.map Node.id).subset hmem)
      · intro k s hk hs
        exact hextends.kept hk hs
      · exact h.binds_root hmirrors hmore

/-! ### Compiling -/

/-- A source that compiles and is followed by any text on a new line either
    compiles, and then all that was known about it still holds, or has an error
    in the new text.  Names that the new text declares at the top level join
    those of the root, and nothing else changes. -/
theorem compile_append {source : String} {options : Options} {checked : Checked}
    (h : compile source options = .ok checked) (line : String)
    (hsize : (source ++ "\n" ++ line).utf8ByteSize < 2 ^ 32) :
    (∃ longer more, compile (source ++ "\n" ++ line) options = .ok longer ∧
      checked.KeptIn longer more) ∨
    ∃ error, compile (source ++ "\n" ++ line) options = .error error ∧
      source.utf8ByteSize < error.position.offset.toNat := by
  obtain ⟨p, resolved, hread, hresolve, hcheck⟩ := compile_eq_ok_iff.mp h
  obtain ⟨hprogram, hfault⟩ := readProgram_append hread line hsize
  cases hread' : readProgram (source ++ "\n" ++ line) options.file with
  | error error =>
    refine .inr ⟨error, ?_, hfault error hread'⟩
    unfold compile
    rw [hread']
    rfl
  | ok p' =>
    obtain ⟨more, hcontinues, hpast⟩ := hprogram p' hread'
    have hcompile : compile (source ++ "\n" ++ line) options =
        resolveWith (SymbolTable.new.withShadowing options.shadowing) p' >>= check := by
      unfold compile
      rw [Result.bind_of_ok hread']
    rw [hcompile]
    rcases check_append hcontinues hresolve hcheck with ⟨longer, hlonger, hkept⟩ | hfails
    · exact .inl ⟨longer, more, hlonger, hkept⟩
    · obtain ⟨error, herror, node, hnode, hposition⟩ := hfails
      refine .inr ⟨error, herror, ?_⟩
      rw [hposition]
      exact hpast node hnode

/-- A name of an inner block may be declared at the top level later on, even
    where shadowing is not allowed, and the block does not notice. -/
theorem compile_append_of_later_name :
    ("var x:int = 1; while x < 9 do var y:int = x; x = x + y; end" ++ "\n" ++
        "var y:float = 2.5; print y * x;").utf8ByteSize < 2 ^ 32 ∧
      ∃ checked longer more,
        compile "var x:int = 1; while x < 9 do var y:int = x; x = x + y; end" ⟨"main", false⟩ =
          .ok checked ∧
        compile ("var x:int = 1; while x < 9 do var y:int = x; x = x + y; end" ++ "\n" ++
          "var y:float = 2.5; print y * x;") ⟨"main", false⟩ = .ok longer ∧
        checked.KeptIn longer more := by
  let source := "var x:int = 1; while x < 9 do var y:int = x; x = x + y; end"
  let line := "var y:float = 2.5; print y * x;"
  have hsize : (source ++ "\n" ++ line).utf8ByteSize < 2 ^ 32 := by decide +kernel
  have hok : (compile source ⟨"main", false⟩).isOk := by decide +kernel
  have hok' : (compile (source ++ "\n" ++ line) ⟨"main", false⟩).isOk := by decide +kernel
  obtain ⟨checked, h⟩ := Result.exists_of_isOk hok
  refine ⟨hsize, checked, ?_⟩
  rcases compile_append h line hsize with ⟨longer, more, hlonger, hkept⟩ | ⟨error, herror, -⟩
  · exact ⟨longer, more, h, hlonger, hkept⟩
  · rw [herror] at hok'
    cases hok'

/-- Where the new text declares a name again, its second declaration is to
    blame: the source has 14 bytes, and the name stands five bytes behind. -/
example : (match compile "var x:int = 1;\nvar x:int = 2;" .standard with
    | .ok _ => none
    | .error error => some error.position.offset) = some 19 := by decide +kernel

end BlockLang
